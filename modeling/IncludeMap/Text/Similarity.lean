/-! # Similarity of texts

The Jaro measure. A character of one text has a partner in the other one: the first equal
character near the same place that is nobody's partner yet. The more characters have a partner,
and the more of the partners come in the same order, the more alike the texts are.
-/
namespace IncludeMap.Text

/-- How far apart partners may be in texts of these lengths. -/
def reach (m n : Nat) : Nat := max m n / 2 - 1

/-- The place in `t` of the partner of the character `c` at the place `i`. -/
def partner? (t : List Char) (reach : Nat) (taken : List Nat) (c : Char) (i : Nat) : Option Nat :=
  t.zipIdx.findSome? fun (d, j) =>
    if d = c && i ≤ j + reach && j ≤ i + reach && !taken.contains j then some j else none

/-- The characters with a partner, each with the place of its partner. -/
def partners (t : List Char) (reach : Nat) : List Nat → List (Char × Nat) → List (Char × Nat)
  | _, [] => []
  | taken, (c, i) :: rest =>
    match partner? t reach taken c i with
    | some j => (c, j) :: partners t reach (j :: taken) rest
    | none => partners t reach taken rest

/-- The similarity of two texts, from zero to one. -/
def similarity (s t : List Char) : Float :=
  let pairs := partners t (reach s.length t.length) [] s.zipIdx
  let found := pairs.map (·.2)
  let inOrder := t.zipIdx.filter fun (_, j) => found.contains j
  let swapped := ((pairs.zip inOrder).countP fun (p, q) => p.1 != q.1) / 2
  let share (m n : Nat) : Float := m.toFloat / n.toFloat
  let count := pairs.length
  if count = 0 then 0
  else (share count s.length + share count t.length + share (count - swapped) count) / 3

/-- Texts of a greater similarity are alike. -/
def alikeAbove : Float := 0.7

/-- The text that is most like `s`, if one is alike. Of several the last one counts. -/
def mostSimilar? (s : List Char) (texts : List String) : Option String :=
  let better (best : Option (Float × String)) (t : String) : Option (Float × String) :=
    let x := similarity s t.toList
    match best with
    | none => if alikeAbove < x then some (x, t) else none
    | some (y, _) => if y ≤ x then some (x, t) else best
  (texts.foldl better none).map (·.2)

end IncludeMap.Text
