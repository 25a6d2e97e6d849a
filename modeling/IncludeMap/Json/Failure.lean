import IncludeMap.Number.Layout
import IncludeMap.Text.Quoted

/-! # Why a text is no JSON of the expected shape

A failure has a cause and a place. The place is kept as the number of bytes that were left to
read, since a reader knows the rest of the text and not its beginning; a subtraction below zero
then means the end of the text. Line and column are computed when the failure is shown, and
columns count bytes.
-/
namespace IncludeMap.Json
open Text Number

/-- A value where another kind of value was expected. -/
inductive Found where
  | null
  | boolean (b : Bool)
  | integer (n : Int)
  | float (negative : Bool) (x : Binary64)
  | text (s : List Char)
  | sequence
  | map
  /-- A bare name where a named value was expected. -/
  | bareName
  deriving DecidableEq

def Found.describe : Found → String
  | .null => "null"
  | .boolean true => "boolean `true`"
  | .boolean false => "boolean `false`"
  | .integer n => "integer `" ++ toString n ++ "`"
  | .float negative x =>
    "floating point `" ++ String.ofList (Layout.compact.text negative x) ++ "`"
  | .text s => "string " ++ String.ofList (quoted s)
  | .sequence => "sequence"
  | .map => "map"
  | .bareName => "unit variant"

inductive Cause where
  | endInList
  | endInObject
  | endInString
  | endInValue
  | expectedColon
  | expectedListCommaOrEnd
  | expectedWord
  | expectedValue
  | invalidEscape
  | invalidNumber
  | numberOutOfRange
  | keyMustBeString
  | controlCharacter
  | loneUnit
  | unfinishedPair
  | trailingComma
  | trailingCharacters
  | invalidType (found : Found) (expected : String)
  | invalidLength (length : Nat) (expected : String)
  | unknownName (name : List Char) (known : String)
  deriving DecidableEq

def Cause.message : Cause → String
  | .endInList => "EOF while parsing a list"
  | .endInObject => "EOF while parsing an object"
  | .endInString => "EOF while parsing a string"
  | .endInValue => "EOF while parsing a value"
  | .expectedColon => "expected `:`"
  | .expectedListCommaOrEnd => "expected `,` or `]`"
  | .expectedWord => "expected ident"
  | .expectedValue => "expected value"
  | .invalidEscape => "invalid escape"
  | .invalidNumber => "invalid number"
  | .numberOutOfRange => "number out of range"
  | .keyMustBeString => "key must be a string"
  | .controlCharacter => "control character (\\u0000-\\u001F) found while parsing a string"
  | .loneUnit => "lone leading surrogate in hex escape"
  | .unfinishedPair => "unexpected end of hex escape"
  | .trailingComma => "trailing comma"
  | .trailingCharacters => "trailing characters"
  | .invalidType found expected => "invalid type: " ++ found.describe ++ ", expected " ++ expected
  | .invalidLength length expected =>
    "invalid length " ++ Nat.repr length ++ ", expected " ++ expected
  | .unknownName name known =>
    "unknown variant `" ++ String.ofList name ++ "`, expected " ++ known

structure Failure where
  cause : Cause
  /-- The bytes behind the place of the failure. -/
  left : Nat
  deriving DecidableEq

/-- The number of bytes of a text. -/
def weight : List Char → Nat
  | [] => 0
  | c :: cs => c.utf8Size + weight cs

/-- The line and the column of a place that lies `offset` bytes behind a given one. -/
def placeAfter (offset line column : Nat) : List Char → Nat × Nat
  | [] => (line, column)
  | c :: cs =>
    if offset = 0 then (line, column)
    else if c = '\n' then placeAfter (offset - 1) (line + 1) 0 cs
    else if offset < c.utf8Size then (line, column + offset)
    else placeAfter (offset - c.utf8Size) line (column + c.utf8Size) cs

def Failure.message (s : List Char) (f : Failure) : String :=
  let place := placeAfter (weight s - f.left) 1 0 s
  f.cause.message ++ " at line " ++ Nat.repr place.1 ++ " column " ++ Nat.repr place.2

end IncludeMap.Json
