/-! # Binary floating-point numbers of 64 bits

A finite nonnegative value is `mantissa * 2 ^ exponent`. Rounding is to the nearest value, and a tie
goes to the even mantissa. The shortest decimal of a value is the one with the fewest digits among
those that round back to it, and the nearest of these to the value.
-/
namespace IncludeMap.Number

/-- A finite nonnegative value. -/
structure Binary64 where
  mantissa : Nat
  exponent : Int
  deriving DecidableEq

/-- A quotient of natural numbers; the denominator is positive in every use. -/
structure Ratio where
  num : Nat
  den : Nat

def Ratio.scaled (n base : Nat) (e : Int) : Ratio :=
  if 0 ≤ e then ⟨n * Nat.pow base e.toNat, 1⟩ else ⟨n, Nat.pow base (-e).toNat⟩

def Ratio.mul (a b : Ratio) : Ratio := ⟨a.num * b.num, a.den * b.den⟩

def Ratio.div (a b : Ratio) : Ratio := ⟨a.num * b.den, a.den * b.num⟩

def Ratio.le (a b : Ratio) : Bool := a.num * b.den ≤ b.num * a.den

def Ratio.lt (a b : Ratio) : Bool := a.num * b.den < b.num * a.den

/-- The nearest whole number; of two that are equally near the even one. -/
def Ratio.round (a : Ratio) : Nat :=
  let q := a.num / a.den
  let r := a.num % a.den
  if a.den < 2 * r ∨ (2 * r = a.den ∧ q % 2 = 1) then q + 1 else q

/-- The greatest `e` with `2 ^ e` not above a positive quotient. -/
def Ratio.log2 (a : Ratio) : Int :=
  let e : Int := a.num.log2 - a.den.log2
  if (Ratio.scaled 1 2 e).le a then e else e - 1

/-- The value nearest to a quotient, or none if that lies beyond the finite values. -/
def Binary64.nearest (a : Ratio) : Option Binary64 :=
  if a.num = 0 then some ⟨0, 0⟩
  else
    let q := max (a.log2 - 52) (-1074)
    let m := (a.div (Ratio.scaled 1 2 q)).round
    let m' := if m = Nat.pow 2 53 then Nat.pow 2 52 else m
    let q' := if m = Nat.pow 2 53 then q + 1 else q
    if 971 < q' then none else some ⟨m', q'⟩

def Binary64.toRatio (x : Binary64) : Ratio :=
  Ratio.scaled x.mantissa 2 x.exponent

structure Decimal where
  digits : Nat
  exponent : Int
  deriving DecidableEq

def Decimal.toRatio (d : Decimal) : Ratio :=
  Ratio.scaled d.digits 10 d.exponent

/-- The decimal lies where quotients round to `x`: within half a step on either side, the ends
included if the mantissa is even, and only a quarter of a step below a power of two. -/
def Binary64.isReadFrom (x : Binary64) (d : Decimal) : Bool :=
  let below := if x.mantissa = Nat.pow 2 52 ∧ -1074 < x.exponent then 1 else 2
  let low := Ratio.scaled (4 * x.mantissa - below) 2 (x.exponent - 2)
  let high := Ratio.scaled (4 * x.mantissa + 2) 2 (x.exponent - 2)
  if x.mantissa % 2 = 0 then low.le d.toRatio && d.toRatio.le high
  else low.lt d.toRatio && d.toRatio.lt high

def Ratio.log10 (a : Ratio) : Int :=
  if a.den ≤ a.num then ((Nat.toDigits 10 (a.num / a.den)).length : Int) - 1
  else -(((List.range 400).find? fun t => a.den ≤ a.num * Nat.pow 10 t).getD 0 : Int)

def Ratio.neighbours (a : Ratio) (n : Nat) : Decimal × Decimal :=
  let k := a.log10 - n + 1
  let scaled := a.div (Ratio.scaled 1 10 k)
  let d := scaled.num / scaled.den
  (⟨d, k⟩, ⟨d + 1, k⟩)

/-- The neighbour on the grid of `n` digits that reads back as `x`; of two the nearer one. -/
def Binary64.onGrid (x : Binary64) (n : Nat) : Option Decimal :=
  let v := x.toRatio
  let (lo, hi) := v.neighbours n
  match x.isReadFrom lo, x.isReadFrom hi with
  | true, true =>
    let middle := Ratio.scaled (2 * lo.digits + 1) 10 lo.exponent
    let twice : Ratio := ⟨2 * v.num, v.den⟩
    if twice.lt middle ∨ (twice.le middle ∧ lo.digits % 2 = 0) then some lo else some hi
  | true, false => some lo
  | false, true => some hi
  | false, false => none

/-- The digits without trailing zeros; `fuel` bounds their number. -/
def Decimal.trim : Nat → Decimal → Decimal
  | 0, d => d
  | fuel + 1, d =>
    if d.digits ≠ 0 ∧ d.digits % 10 = 0 then Decimal.trim fuel ⟨d.digits / 10, d.exponent + 1⟩
    else d

/-- The shortest decimal of a value. Seventeen digits always suffice. -/
def Binary64.shortest (x : Binary64) : Decimal :=
  if x.mantissa = 0 then ⟨0, 0⟩
  else (((List.range 17).findSome? fun n => x.onGrid (n + 1)).getD ⟨0, 0⟩).trim 20

end IncludeMap.Number
