import IncludeMap.Yaml.Written

/-! # Characters of written texts

A printable character never looks like part of the layout: it is no tab, and where it breaks a line,
the break stands for itself.
-/
namespace IncludeMap.Yaml

variable {c : Char} {p : Place} {rest : List Char}

/-! ## Printable characters -/

theorem isAllowed_of_isPrintable (h : isPrintable c = true) : isAllowed c = true := by
  simp only [isPrintable, Bool.and_eq_true] at h
  exact h.1.1.1.1

theorem isGap_eq_isSpace (h : isPrintable c = true) : isGap c = isSpace c := by
  have ht : c ≠ '\t' := by
    rintro rfl
    exact absurd h (by decide)
  simp [isGap, isSpace, ht]

theorem ne_byteOrderMark (h : isPrintable c = true) : c ≠ byteOrderMark := by
  rintro rfl
  exact absurd h (by decide)

theorem isHalfBreak_eq_false (h : isPrintable c = true) (rest : List Char) :
    isHalfBreak c rest = false := by
  have hr : c ≠ '\r' := by
    rintro rfl
    exact absurd h (by decide)
  simp [isHalfBreak, hr]

theorem eq_of_isBreak (h : isPrintable c = true) (hb : isBreak c = true) :
    c = '\n' ∨ c = '\u2028' ∨ c = '\u2029' := by
  simp only [isBreak, Bool.or_eq_true, decide_eq_true_eq] at hb
  rcases hb with (((rfl | rfl) | rfl) | rfl) | rfl
  · exact absurd h (by decide)
  · exact .inl rfl
  · exact absurd h (by decide)
  · exact .inr (.inl rfl)
  · exact .inr (.inr rfl)

theorem breakText_eq (h : isPrintable c = true) (hb : isBreak c = true) (rest : List Char) :
    breakText c rest = [c] := by
  rw [breakText, isHalfBreak_eq_false h]
  rcases eq_of_isBreak h hb with rfl | rfl | rfl <;> rfl

theorem isGap_of_isBreak (hb : isBreak c = true) : isGap c = false := by
  simp only [isBreak, Bool.or_eq_true, decide_eq_true_eq] at hb
  rcases hb with (((rfl | rfl) | rfl) | rfl) | rfl <;> rfl

/-! ## Places -/

theorem pass_of_not_isBreak (hb : isBreak c = false) : p.pass c rest = p.right 1 := by
  have hr : isHalfBreak c rest = false := by
    rw [Bool.eq_false_iff]
    intro h
    simp only [isHalfBreak, Bool.and_eq_true, decide_eq_true_eq] at h
    rw [h.1] at hb
    exact absurd hb (by decide)
  simp [Place.pass, hr, hb]

theorem pass_of_isBreak (h : isPrintable c = true) (hb : isBreak c = true) :
    p.pass c rest = ⟨p.index + 1, p.line + 1, 0⟩ := by
  simp [Place.pass, isHalfBreak_eq_false h, hb]

@[simp] theorem right_zero : p.right 0 = p := rfl

@[simp] theorem right_right (m n : Nat) : (p.right m).right n = p.right (m + n) := by
  simp [Place.right, Nat.add_assoc]

@[simp] theorem right_line (n : Nat) : (p.right n).line = p.line := rfl

@[simp] theorem right_column (n : Nat) : (p.right n).column = p.column + n := rfl

/-! ## What comes behind -/

theorem isDocumentMark_eq_false (hdash : c ≠ '-') (hdot : c ≠ '.') (rest : List Char) :
    isDocumentMark (c :: rest) = false := by
  rcases rest with - | ⟨a, - | ⟨b, rest⟩⟩
  · rfl
  · rfl
  · by_cases hca : c = a
    · by_cases hab : a = b
      · subst hca hab
        simp [isDocumentMark, hdash, hdot]
      · simp [isDocumentMark, hab]
    · simp [isDocumentMark, hca]

/-- A word that a line end follows ends where it would end by itself. -/
theorem endsWord_append_newline (s t : List Char) :
    endsWord (s ++ '\n' :: t) = endsWord s := by
  cases s <;> rfl

@[simp] theorem spaces_succ (n : Nat) : spaces (n + 1) = ' ' :: spaces n := rfl

theorem spaces_append_cons (n : Nat) : spaces n ++ [' '] = spaces (n + 1) := by
  simp [spaces, List.replicate_succ']

/-- No blank, break or comment comes next. -/
def StartsToken (s : List Char) : Prop :=
  ∀ c ∈ s.head?, isGap c = false ∧ isBreak c = false ∧ c ≠ '#' ∧ c ≠ byteOrderMark

theorem startsToken_nil : StartsToken [] := nofun

theorem StartsToken.head (h : StartsToken rest) (hc : c ∈ rest.head?) :
    isBreak c = false ∧ c ≠ '\t' ∧ c ≠ ' ' := by
  obtain ⟨hgap, hbreak, -⟩ := h c hc
  simp only [isGap, Bool.or_eq_false_iff, decide_eq_false_iff_not] at hgap
  exact ⟨hbreak, hgap.2, hgap.1⟩

theorem startsToken_cons :
    StartsToken (c :: rest) ↔
      isGap c = false ∧ isBreak c = false ∧ c ≠ '#' ∧ c ≠ byteOrderMark := by
  simp [StartsToken]

end IncludeMap.Yaml
