/-! # Blank characters

A character is blank when it has the Unicode property White_Space. Names of a configuration must not
be blank all over, and a comment line of a mapping document may start with blanks.
-/
namespace IncludeMap.Text

/-- The ranges of the property White_Space, ends included. -/
def blankRanges : List (Nat × Nat) :=
  [(0x9, 0xd), (0x20, 0x20), (0x85, 0x85), (0xa0, 0xa0), (0x1680, 0x1680), (0x2000, 0x200a),
    (0x2028, 0x2029), (0x202f, 0x202f), (0x205f, 0x205f), (0x3000, 0x3000)]

def isBlank (c : Char) : Bool :=
  blankRanges.any fun r => r.1 ≤ c.toNat && c.toNat ≤ r.2

def trimStart (s : List Char) : List Char :=
  s.dropWhile isBlank

def isBlankText (s : List Char) : Bool :=
  s.all isBlank

theorem isBlankText_eq_false_iff {s : List Char} :
    isBlankText s = false ↔ ∃ c ∈ s, isBlank c = false := by
  simp [isBlankText]

end IncludeMap.Text
