import IncludeMap.Number.Layout
import IncludeMap.Text.Hex
import IncludeMap.Text.Quoted

/-! # Values of plain scalars

A plain scalar is null, a boolean, an integer in base two, eight, ten or sixteen, a floating-point
number, or a text. Digits after a leading zero make a text.
-/
namespace IncludeMap.Yaml
open Text Number

inductive Value where
  | null
  | boolean (b : Bool)
  /-- An integer of at most 64 bits, or else of at most 128. -/
  | integer (n : Int)
  | float (negative : Bool) (x : Binary64)
  | infinity (negative : Bool)
  | notANumber
  | text (s : List Char)
  deriving DecidableEq

def isNull (s : List Char) : Bool :=
  s = "null".toList || s = "Null".toList || s = "NULL".toList || s = "~".toList

def boolean? (s : List Char) : Option Bool :=
  if s = "true".toList || s = "True".toList || s = "TRUE".toList then some true
  else if s = "false".toList || s = "False".toList || s = "FALSE".toList then some false
  else none

def withoutSign (s : List Char) : List Char :=
  match s with
  | '+' :: rest => rest
  | '-' :: rest => rest
  | _ => s

/-- Digits after a leading zero. -/
def isPaddedNumber (s : List Char) : Bool :=
  let s := withoutSign s
  1 < s.length && s.head? = some '0' && s.all Char.isDigit

/-- The value of a row of digits in a base up to sixteen. There must be a digit. -/
def digits? (base : Nat) (s : List Char) : Option Nat :=
  if s = [] then none
  else
    s.foldlM (fun v c => (hexValue? c).bind fun d => if d < base then some (v * base + d) else none)
      0

def bases : List (List Char × Nat) :=
  [("0x".toList, 16), ("0o".toList, 8), ("0b".toList, 2)]

def basedDigits? (s : List Char) : Option Nat :=
  bases.findSome? fun (start, base) => (start.isPrefixOf? s).bind (digits? base)

/-- A natural number below the limit, perhaps with a plus sign. -/
def natural? (limit : Nat) (s : List Char) : Option Nat :=
  let body :=
    match s with
    | '+' :: rest => rest
    | _ => s
  let small (n : Nat) : Option Nat := if n < limit then some n else none
  match (basedDigits? body).bind small with
  | some n => some n
  | none => if isPaddedNumber s then none else (digits? 10 body).bind small

/-- A number with a minus sign that is no less than `-limit`. -/
def negative? (limit : Nat) (s : List Char) : Option Int :=
  match s with
  | '-' :: body =>
    let small (n : Nat) : Option Int := if n ≤ limit then some (-(n : Int)) else none
    match (basedDigits? body).bind small with
    | some n => some n
    | none => if isPaddedNumber s then none else (digits? 10 body).bind small
  | _ => none

def integer? (s : List Char) : Option Int :=
  match natural? (Nat.pow 2 64) s with
  | some n => some n
  | none =>
    match negative? (Nat.pow 2 63) s with
    | some n => some n
    | none =>
      match natural? (Nat.pow 2 128) s with
      | some n => some n
      | none => negative? (Nat.pow 2 127) s

/-- The exponent that a text consists of, if it is one. No exponent at all is zero. -/
def exponent? (s : List Char) : Option Int :=
  match s with
  | [] => some 0
  | c :: rest =>
    if c = 'e' ∨ c = 'E' then
      match rest with
      | '-' :: digits => (digits? 10 digits).map fun n => -(n : Int)
      | '+' :: digits => (digits? 10 digits).map fun n => (n : Int)
      | digits => (digits? 10 digits).map fun n => (n : Int)
    else none

/-- A whole number times a power of ten, if that is finite. A power so far out that no digit can
matter is not computed. -/
def nearest? (n : Nat) (exponent : Int) : Option Binary64 :=
  let size : Int := (Nat.toDigits 10 n).length
  if n = 0 then some ⟨0, 0⟩
  else if 400 < size + exponent then none
  else if size + exponent < -400 then some ⟨0, 0⟩
  else Binary64.nearest (Ratio.scaled n 10 exponent)

/-- A decimal number without a sign: digits, perhaps a point among or beside them, and perhaps an
exponent. -/
def decimal? (s : List Char) : Option Binary64 :=
  let whole := s.takeWhile Char.isDigit
  let (fraction, rest) :=
    match s.dropWhile Char.isDigit with
    | '.' :: rest => (rest.takeWhile Char.isDigit, rest.dropWhile Char.isDigit)
    | rest => ([], rest)
  (digits? 10 (whole ++ fraction)).bind fun n =>
    (exponent? rest).bind fun e => nearest? n (e - fraction.length)

/-- The spellings of infinity and of what is no number, behind their point. -/
def isInfinity (s : List Char) : Bool :=
  s = ".inf".toList || s = ".Inf".toList || s = ".INF".toList

def isNotANumber (s : List Char) : Bool :=
  s = ".nan".toList || s = ".NaN".toList || s = ".NAN".toList

def float? (s : List Char) : Option Value :=
  if isInfinity s then some (.infinity false)
  else if isNotANumber s then some .notANumber
  else
    match s with
    | '+' :: rest =>
      if isInfinity rest then some (.infinity false) else (decimal? rest).map (.float false)
    | '-' :: rest =>
      if isInfinity rest then some (.infinity true) else (decimal? rest).map (.float true)
    | _ => (decimal? s).map (.float false)

def valueOf (s : List Char) : Value :=
  if s = [] || isNull s then .null
  else
    match boolean? s with
    | some b => .boolean b
    | none =>
      match integer? s with
      | some n => .integer n
      | none =>
        if isPaddedNumber s then .text s else (float? s).getD (.text s)

def Value.describe : Value → String
  | .null => "unit value"
  | .boolean true => "boolean `true`"
  | .boolean false => "boolean `false`"
  | .integer n =>
    "integer `" ++ toString n ++ "`" ++
      if Int.ofNat (Nat.pow 2 64) ≤ n then " as u128"
      else if n < -Int.ofNat (Nat.pow 2 63) then " as i128"
      else ""
  | .float negative x => "floating point `" ++ String.ofList (Layout.full.text negative x) ++ "`"
  | .infinity false => "floating point `inf`"
  | .infinity true => "floating point `-inf`"
  | .notANumber => "floating point `NaN`"
  | .text s => "string " ++ String.ofList (quoted s)

end IncludeMap.Yaml
