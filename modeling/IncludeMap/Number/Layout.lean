import IncludeMap.Number.Binary64

/-! # The text of a floating-point number

A layout says which values are written positionally; the others are written with an exponent. The
text always has a decimal point or an exponent.
-/
namespace IncludeMap.Number

/-- How a format writes numbers: positionally when the exponent of the first digit is in the
range. -/
structure Layout where
  isPositional : Int → Bool

/-- Digits with the point after the first `before` of them. -/
def positional (digits : List Char) (before : Int) : List Char :=
  let n : Int := digits.length
  if before ≤ 0 then '0' :: '.' :: List.replicate (-before).toNat '0' ++ digits
  else if n ≤ before then digits ++ List.replicate (before - n).toNat '0' ++ ['.', '0']
  else digits.take before.toNat ++ '.' :: digits.drop before.toNat

def scientific (digits : List Char) (exponent : Int) : List Char :=
  digits.take 1 ++ (if digits.length ≤ 1 then [] else '.' :: digits.drop 1)
    ++ ['e', if exponent < 0 then '-' else '+'] ++ Nat.toDigits 10 exponent.natAbs

def Layout.text (f : Layout) (negative : Bool) (x : Binary64) : List Char :=
  let d := x.shortest
  let digits := Nat.toDigits 10 d.digits
  let first : Int := d.exponent + digits.length - 1
  (if negative then ['-'] else []) ++
    if f.isPositional first then positional digits (first + 1) else scientific digits first

def Layout.full : Layout := ⟨fun _ => true⟩

/-- Values from `1e-5` on and below `1e16` are written out in full. -/
def Layout.compact : Layout := ⟨fun e => -5 ≤ e && e ≤ 15⟩

end IncludeMap.Number
