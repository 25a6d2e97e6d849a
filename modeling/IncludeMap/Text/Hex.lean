/-! # Hexadecimal numbers

Numbers in base sixteen. Digits are written in lower case and read in either case. What has been
written is read back as the same number, with leading zeros or without.
-/
namespace IncludeMap.Text

/-- The digits of a number, at least one. -/
def hexDigits (n : Nat) : List Char :=
  Nat.toDigits 16 n

/-- The digits of a number, filled up with zeros to `width`. -/
def paddedHex (width n : Nat) : List Char :=
  List.replicate (width - (hexDigits n).length) '0' ++ hexDigits n

def hexValue? (c : Char) : Option Nat :=
  if '0' ≤ c ∧ c ≤ '9' then some (c.toNat - 48)
  else if 'a' ≤ c ∧ c ≤ 'f' then some (c.toNat - 87)
  else if 'A' ≤ c ∧ c ≤ 'F' then some (c.toNat - 55)
  else none

def hexNumber? (cs : List Char) : Option Nat :=
  cs.foldlM (fun v c => (hexValue? c).map (v * 16 + ·)) 0

theorem hexValue?_digitChar {d : Nat} (h : d < 16) : hexValue? d.digitChar = some d := by
  revert d
  decide

theorem mem_hexDigits {n : Nat} {c : Char} (h : c ∈ hexDigits n) :
    ∃ d, d < 16 ∧ c = d.digitChar := by
  induction n using Nat.strongRecOn with
  | ind n ih =>
    rw [hexDigits, Nat.toDigits_eq_if (by decide)] at h
    split at h
    · next hn => exact ⟨n, hn, List.mem_singleton.mp h⟩
    · rcases List.mem_append.mp h with h | h
      · exact ih (n / 16) (by omega) h
      · exact ⟨n % 16, by omega, List.mem_singleton.mp h⟩

theorem hexNumber?_hexDigits (n : Nat) : hexNumber? (hexDigits n) = some n := by
  induction n using Nat.strongRecOn with
  | ind n ih =>
    rw [hexDigits, Nat.toDigits_eq_if (by decide)]
    split
    · next hn => simp [hexNumber?, hexValue?_digitChar hn]
    · have hq : hexNumber? (Nat.toDigits 16 (n / 16)) = some (n / 16) := ih (n / 16) (by omega)
      rw [hexNumber?] at hq ⊢
      rw [List.foldlM_append, hq]
      have hd : n % 16 < 16 := by omega
      simp only [bind, Option.bind, List.foldlM_cons, List.foldlM_nil, hexValue?_digitChar hd,
        Option.map_some, pure]
      congr 1
      omega

theorem hexNumber?_replicate_append (k : Nat) (cs : List Char) :
    hexNumber? (List.replicate k '0' ++ cs) = hexNumber? cs := by
  induction k with
  | zero => rfl
  | succ k ih =>
    rw [List.replicate_succ, List.cons_append, ← ih]
    rfl

/-- Leading zeros do not count. -/
theorem hexNumber?_paddedHex (width n : Nat) : hexNumber? (paddedHex width n) = some n := by
  rw [paddedHex, hexNumber?_replicate_append, hexNumber?_hexDigits]

theorem length_paddedHex {width n : Nat} (hn : (hexDigits n).length ≤ width) :
    (paddedHex width n).length = width := by
  rw [paddedHex, List.length_append, List.length_replicate]
  omega

theorem mem_paddedHex {width n : Nat} {c : Char} (h : c ∈ paddedHex width n) :
    ∃ d, d < 16 ∧ c = d.digitChar := by
  rcases List.mem_append.mp h with h | h
  · exact ⟨0, by decide, List.eq_of_mem_replicate h⟩
  · exact mem_hexDigits h

end IncludeMap.Text
