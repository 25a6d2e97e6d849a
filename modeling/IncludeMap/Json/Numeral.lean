import IncludeMap.Json.Reader

/-! # Numerals

A numeral without fraction and exponent is an integer if it fits into 64 bits; every other one is a
floating-point number. Its value is computed from as many digits as fit into 64 bits and a power of
ten, with one rounding for each step, so it can be off the nearest value in the last place.
-/
namespace IncludeMap.Json
open Number

def digitValue (c : Char) : Nat := c.toNat - 48

def leadingDigits (s : List Char) : List Char := s.takeWhile Char.isDigit

def afterDigits (s : List Char) : List Char := s.dropWhile Char.isDigit

/-- Take in digits as long as the value stays below the limit: the value, and how many digits have
been taken in. -/
def takeIn (limit v : Nat) : List Char → Nat × Nat
  | [] => (v, 0)
  | d :: ds =>
    let w := v * 10 + digitValue d
    if limit ≤ w then (v, 0)
    else
      let (x, n) := takeIn limit w ds
      (x, n + 1)

/-- The number that no numeral is above. -/
def wordLimit : Nat := Nat.pow 2 64

def exponentLimit : Nat := Nat.pow 2 31

def power (n : Nat) : Binary64 := (Binary64.nearest ⟨Nat.pow 10 n, 1⟩).getD ⟨0, 0⟩

def quotient (x : Binary64) (n : Nat) : Binary64 :=
  (Binary64.nearest (x.toRatio.div (power n).toRatio)).getD x

/-- A value divided by a power of ten that may be too great to be a value itself. -/
def shrink (x : Binary64) (n : Nat) : Binary64 :=
  if n ≤ 308 then quotient x n
  else if x.mantissa = 0 then x
  else shrink (quotient x 308) (n - 308)
termination_by n
decreasing_by omega

def scaled? (v : Nat) (exponent : Int) : Option Binary64 :=
  let x := (Binary64.nearest ⟨v, 1⟩).getD ⟨0, 0⟩
  if exponent < 0 then some (shrink x exponent.natAbs)
  else if exponent ≤ 308 then Binary64.nearest (x.toRatio.mul (power exponent.natAbs).toRatio)
  else if v = 0 then some x
  else none

def readScaled (negative : Bool) (v : Nat) (exponent : Int) (s : List Char) : Outcome Found :=
  match scaled? v exponent with
  | some x => .ok (.float negative x, s)
  | none => .error ⟨.numberOutOfRange, weight s⟩

def readSign (s : List Char) : Bool × List Char :=
  match s with
  | [] => (false, [])
  | c :: rest => if c = '-' then (true, rest) else if c = '+' then (false, rest) else (false, s)

/-- The rest of a numeral, from behind the letter of the exponent on. -/
def readExponent (negative : Bool) (v : Nat) (start : Int) (s : List Char) : Outcome Found :=
  let (down, s) := readSign s
  let digits := leadingDigits s
  if s = [] then .error ⟨.endInValue, 0⟩
  else if digits = [] then .error ⟨.invalidNumber, weight s - 1⟩
  else
    let (e, n) := takeIn exponentLimit 0 digits
    if n < digits.length then
      if v ≠ 0 ∧ down = false then .error ⟨.numberOutOfRange, weight s - (n + 1)⟩
      else .ok (.float negative ⟨0, 0⟩, afterDigits s)
    else readScaled negative v (if down then start - e else start + e) (afterDigits s)

/-- The rest of a numeral, from behind its digits before and after the point on. -/
def readTail (negative : Bool) (v : Nat) (exponent : Int) (s : List Char) : Outcome Found :=
  match s with
  | [] => readScaled negative v exponent s
  | c :: rest =>
    if c = 'e' ∨ c = 'E' then readExponent negative v exponent rest
    else readScaled negative v exponent s

def readFraction (negative : Bool) (v : Nat) (exponent : Int) (s : List Char) : Outcome Found :=
  let digits := leadingDigits s
  if s = [] then .error ⟨.endInValue, 0⟩
  else if digits = [] then .error ⟨.invalidNumber, weight s - 1⟩
  else
    let (v, n) := takeIn wordLimit v digits
    readTail negative v (exponent - n) (afterDigits s)

/-- The number without fraction and exponent. A negative one is an integer down to `-2 ^ 63`, and a
negative zero is none. -/
def wholeNumber (negative : Bool) (v : Nat) : Found :=
  if negative = false then .integer v
  else if v ≠ 0 ∧ v ≤ Nat.pow 2 63 then .integer (-v)
  else .float true ((Binary64.nearest ⟨v, 1⟩).getD ⟨0, 0⟩)

def readNumeral (negative : Bool) (s : List Char) : Outcome Found :=
  let digits := leadingDigits s
  if s = [] then .error ⟨.endInValue, 0⟩
  else if digits = [] then .error ⟨.invalidNumber, weight s - 1⟩
  else if digits.head? = some '0' ∧ 1 < digits.length then .error ⟨.invalidNumber, weight s - 2⟩
  else
    let (v, n) := takeIn wordLimit 0 digits
    let surplus : Int := digits.length - n
    match afterDigits s with
    | [] =>
      if surplus = 0 then .ok (wholeNumber negative v, []) else readScaled negative v surplus []
    | c :: rest =>
      if c = '.' then readFraction negative v surplus rest
      else if c = 'e' ∨ c = 'E' then readExponent negative v surplus rest
      else if surplus = 0 then .ok (wholeNumber negative v, c :: rest)
      else readScaled negative v surplus (c :: rest)

end IncludeMap.Json
