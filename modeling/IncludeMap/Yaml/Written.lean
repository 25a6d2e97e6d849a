import IncludeMap.Text.Hex
import IncludeMap.Yaml.Block
import IncludeMap.Yaml.Style

/-! # Written YAML

How texts, records of texts and lists are written. Each entry of a list has its dash in the first
column, and the fields of a record stand below each other, two columns in. No line is broken that
the text does not break itself.
-/
namespace IncludeMap.Yaml
open Text

def nesting : Nat := 2

def letterEscapes : List (Char × Char) :=
  [('\x00', '0'), ('\x07', 'a'), ('\x08', 'b'), ('\t', 't'), ('\n', 'n'), ('\x0b', 'v'),
    ('\x0c', 'f'), ('\r', 'r'), ('\x1b', 'e'), ('"', '"'), ('\\', '\\'), ('\u0085', 'N'),
    ('\u2028', 'L'), ('\u2029', 'P')]

def numberEscape (c : Char) : List Char :=
  let digits (width : Nat) : List Char := (paddedHex width c.toNat).map Char.toUpper
  if c.toNat ≤ 0xff then '\\' :: 'x' :: digits 2
  else if c.toNat ≤ 0xffff then '\\' :: 'u' :: digits 4
  else '\\' :: 'U' :: digits 8

def escaped (c : Char) : List Char :=
  if isPrintable c && !isBreak c && c != '"' && c != '\\' then [c]
  else
    match letterEscapes.lookup c with
    | some letter => ['\\', letter]
    | none => numberEscape c

def doubleQuoted (s : List Char) : List Char :=
  '"' :: s.flatMap escaped ++ ['"']

/-- The text with a margin in front of each line that holds something. At the beginning of a line
that is so if `fresh`. -/
def indented (margin : List Char) (fresh : Bool) : List Char → List Char
  | [] => []
  | c :: rest =>
    if isBreak c then c :: indented margin true rest
    else (if fresh then margin else []) ++ c :: indented margin false rest

/-- A quote between single quotes is written twice. -/
def doubledQuotes (s : List Char) : List Char :=
  s.flatMap fun c => if c = '\'' then ['\'', '\''] else [c]

def endsInBreak (s : List Char) : Bool := s.getLast?.any isBreak

def singleQuoted (margin s : List Char) : List Char :=
  let closing := if endsInBreak s then margin ++ ['\''] else ['\'']
  '\'' :: indented margin false (doubledQuotes s) ++ closing

/-- How a literal ends: with no line break, with one, or with more of them. -/
def chompingOf (s : List Char) : Chomping :=
  match s.reverse with
  | a :: rest =>
    if isBreak a then if rest.head?.all isBreak then .keep else .clip else .strip
  | [] => .strip

def Chomping.sign : Chomping → List Char
  | .clip => []
  | .strip => ['-']
  | .keep => ['+']

/-- The depth of a literal is said where its own first characters hide it. -/
def depthSign (s : List Char) : List Char :=
  if s.head?.any fun c => isSpace c || isBreak c then Nat.toDigits 10 nesting else []

def literal (margin s : List Char) : List Char :=
  '|' :: depthSign s ++ (chompingOf s).sign ++ '\n' :: indented margin true s

def writtenScalar (margin s : List Char) : List Char :=
  match styleOf s with
  | .plain => s
  | .singleQuoted => singleQuoted margin s
  | .doubleQuoted => doubleQuoted s
  | .literal => literal margin s

/-- The rest of a line, which a line break ends. -/
def ended (s : List Char) : List Char :=
  if endsInBreak s then s else s ++ ['\n']

def spaces (n : Nat) : List Char := List.replicate n ' '

def scalarLine (depth : Nat) (s : List Char) : List Char :=
  ' ' :: ended (writtenScalar (spaces (nesting * depth)) s)

abbrev Fields := List (String × String)

def writtenField (field : String × String) : List Char :=
  field.1.toList ++ ':' :: scalarLine 2 field.2.toList

def writtenRecord : Fields → List Char
  | [] => "- \x7b\x7d\n".toList
  | first :: rest =>
    "- ".toList ++ writtenField first ++
      rest.flatMap fun field => spaces nesting ++ writtenField field

def writtenItem (s : String) : List Char :=
  '-' :: scalarLine 1 s.toList

inductive Section where
  | texts (items : List String)
  | records (items : List Fields)

def Section.entries : Section → List (List Char)
  | .texts items => items.map writtenItem
  | .records items => items.map writtenRecord

def writtenSection (key : String) (s : Section) : List Char :=
  match s.entries with
  | [] => key.toList ++ ": []\n".toList
  | entries => key.toList ++ ":\n".toList ++ entries.flatten

def writtenDocument (sections : List (String × Section)) : List Char :=
  if sections = [] then "\x7b\x7d\n".toList
  else sections.flatMap fun (key, s) => writtenSection key s

end IncludeMap.Yaml
