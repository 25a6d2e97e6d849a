/-! # UTF-16

A character has one unit of sixteen bits, or, above U+FFFF, a high and a low one.
-/
namespace IncludeMap.Text

def isHighUnit (u : Nat) : Bool := 0xd800 ≤ u && u ≤ 0xdbff

def isLowUnit (u : Nat) : Bool := 0xdc00 ≤ u && u ≤ 0xdfff

def units (c : Char) : List Nat :=
  if c.toNat < 0x10000 then [c.toNat]
  else [0xd800 + (c.toNat - 0x10000) / 0x400, 0xdc00 + (c.toNat - 0x10000) % 0x400]

def pairChar (high low : Nat) : Char :=
  Char.ofNat (0x10000 + (high - 0xd800) * 0x400 + (low - 0xdc00))

/-- The code point of a character lies outside the range of units for pairs. -/
theorem toNat_range (c : Char) : c.toNat < 0xd800 ∨ 0xdfff < c.toNat ∧ c.toNat < 0x110000 :=
  c.valid

theorem lt_of_mem_units {c : Char} {u : Nat} (h : u ∈ units c) : u < 0x10000 := by
  have hc := toNat_range c
  unfold units at h
  split at h
  · rw [List.mem_singleton] at h
    omega
  · simp only [List.mem_cons, List.not_mem_nil, or_false] at h
    omega

/-- The two units of a character above U+FFFF are a high and a low one, and they stand for it. -/
theorem units_of_le {c : Char} (hc : 0x10000 ≤ c.toNat) :
    ∃ high low, units c = [high, low] ∧ isHighUnit high = true ∧ isLowUnit low = true ∧
      pairChar high low = c := by
  have hr := toNat_range c
  refine ⟨_, _, if_neg (Nat.not_lt.mpr hc), ?_, ?_, ?_⟩
  · simp only [isHighUnit, Bool.and_eq_true, decide_eq_true_eq]
    omega
  · simp only [isLowUnit, Bool.and_eq_true, decide_eq_true_eq]
    omega
  · rw [pairChar]
    have hn : 0x10000 + (0xd800 + (c.toNat - 0x10000) / 0x400 - 0xd800) * 0x400 +
        (0xdc00 + (c.toNat - 0x10000) % 0x400 - 0xdc00) = c.toNat := by omega
    rw [hn, Char.ofNat_toNat]

/-- The one unit of another character belongs to no pair. -/
theorem not_isLowUnit_toNat (c : Char) : isLowUnit c.toNat = false := by
  have hr := toNat_range c
  simp only [isLowUnit, Bool.and_eq_false_iff, decide_eq_false_iff_not]
  omega

theorem not_isHighUnit_toNat (c : Char) : isHighUnit c.toNat = false := by
  have hr := toNat_range c
  simp only [isHighUnit, Bool.and_eq_false_iff, decide_eq_false_iff_not]
  omega

end IncludeMap.Text
