import IncludeMap.Proofs.Yaml.Layout
import IncludeMap.Yaml.Document

/-! # The characters of written documents

A character that may not occur in a YAML text is escaped wherever a text holds it.
-/
namespace IncludeMap.Yaml
open Text

variable {s margin : List Char}

/-- No character of the text is one that may not occur. -/
def IsClean (s : List Char) : Prop := ∀ c ∈ s, isAllowed c = true

instance (s : List Char) : Decidable (IsClean s) :=
  List.decidableBAll (isAllowed · = true) s

theorem firstForbidden_of_isClean (h : IsClean s) (before : Nat) :
    firstForbidden before s = none := by
  induction s generalizing before with
  | nil => rfl
  | cons c s ih =>
    rw [firstForbidden, if_pos (h c List.mem_cons_self)]
    exact ih (fun x hx => h x (List.mem_cons_of_mem c hx)) _

theorem isClean_append {t : List Char} (hs : IsClean s) (ht : IsClean t) : IsClean (s ++ t) := by
  intro c hc
  rcases List.mem_append.mp hc with hc | hc
  · exact hs c hc
  · exact ht c hc

theorem isClean_cons {c : Char} (hc : isAllowed c = true) (hs : IsClean s) : IsClean (c :: s) :=
  isClean_append (s := [c]) (by simpa [IsClean] using hc) hs

theorem isClean_flatMap {α : Type} {xs : List α} {f : α → List Char} (h : ∀ x ∈ xs, IsClean (f x)) :
    IsClean (xs.flatMap f) := by
  intro c hc
  obtain ⟨x, hx, hc⟩ := List.mem_flatMap.mp hc
  exact h x hx c hc

theorem isClean_spaces (n : Nat) : IsClean (spaces n) := by
  intro c hc
  obtain rfl : c = ' ' := List.eq_of_mem_replicate hc
  decide

theorem isClean_of_all (h : ∀ c ∈ s, isPrintable c = true) : IsClean s := fun c hc =>
  isAllowed_of_isPrintable (h c hc)

theorem isClean_indented {fresh : Bool} (hmargin : IsClean margin) (hs : IsClean s) :
    IsClean (indented margin fresh s) := by
  induction s generalizing fresh with
  | nil => exact hs
  | cons c s ih =>
    have hc := hs c List.mem_cons_self
    have hrest : IsClean s := fun x hx => hs x (List.mem_cons_of_mem c hx)
    rw [indented]
    split
    · exact isClean_cons hc (ih hrest)
    · refine isClean_append ?_ (isClean_cons hc (ih hrest))
      split
      · exact hmargin
      · decide

theorem isClean_ended (hs : IsClean s) : IsClean (ended s) := by
  unfold ended
  split
  · exact hs
  · exact isClean_append hs (by decide)

/-! ## Scalars -/

theorem isClean_numberEscape (c : Char) : IsClean (numberEscape c) := by
  have hall : ∀ d < 16, isAllowed d.digitChar.toUpper = true := by decide
  have hdigits (width : Nat) : IsClean ((paddedHex width c.toNat).map Char.toUpper) := by
    intro x hx
    obtain ⟨y, hy, rfl⟩ := List.mem_map.mp hx
    obtain ⟨d, hd, rfl⟩ := mem_paddedHex hy
    exact hall d hd
  unfold numberEscape
  dsimp only
  split
  · exact isClean_cons (by decide) (isClean_cons (by decide) (hdigits 2))
  · split
    · exact isClean_cons (by decide) (isClean_cons (by decide) (hdigits 4))
    · exact isClean_cons (by decide) (isClean_cons (by decide) (hdigits 8))

theorem isClean_escaped (c : Char) : IsClean (escaped c) := by
  unfold escaped
  split
  · next h =>
    simp only [Bool.and_eq_true] at h
    exact isClean_of_all (by simpa using h.1.1.1)
  · split
    · next letter hl =>
      have hall : ∀ e ∈ letterEscapes, isAllowed e.2 = true := by decide
      obtain ⟨before, after, heq, -⟩ := List.lookup_eq_some_iff.mp hl
      exact isClean_cons (by decide)
        (by simpa [IsClean] using hall (c, letter) (by simp [heq]))
    · exact isClean_numberEscape c

theorem isClean_singleQuoted (hmargin : IsClean margin) (hs : IsClean s) :
    IsClean (singleQuoted margin s) := by
  have hquotes : IsClean (doubledQuotes s) := by
    refine isClean_flatMap fun c hc => ?_
    split
    · decide
    · simpa [IsClean] using hs c hc
  refine isClean_append (isClean_cons (by decide) (isClean_indented hmargin hquotes)) ?_
  split
  · exact isClean_append hmargin (by decide)
  · decide

theorem isClean_literal (hmargin : IsClean margin) (hs : IsClean s) :
    IsClean (literal margin s) := by
  have hdepth : IsClean (depthSign s) := by
    unfold depthSign
    split <;> decide
  have hsign : IsClean (chompingOf s).sign := by
    cases chompingOf s <;> decide
  exact isClean_append (isClean_append (isClean_cons (by decide) hdepth) hsign)
    (isClean_cons (by decide) (isClean_indented hmargin hs))

theorem isClean_writtenScalar (hmargin : IsClean margin) (s : List Char) :
    IsClean (writtenScalar margin s) := by
  unfold writtenScalar
  rcases Scanner.styleOf_cases s with ⟨h, hs⟩ | ⟨h, hs, -⟩ | h | ⟨h, hs, -⟩ <;>
    rw [h] <;> dsimp only
  · exact isClean_of_all (Scanner.exists_of_allowsPlain hs).1.printable
  · simp only [allowsSingleQuotes, Bool.and_eq_true, List.all_eq_true] at hs
    exact isClean_singleQuoted hmargin (isClean_of_all hs.1.1)
  · exact isClean_append (isClean_cons (by decide) (isClean_flatMap fun c _ => isClean_escaped c))
      (by decide)
  · simp only [allowsLiteral, Bool.and_eq_true, List.all_eq_true] at hs
    exact isClean_literal hmargin (isClean_of_all hs.1.1)

/-! ## Documents -/

theorem isClean_name {name : List Char} (h : IsName name) : IsClean name := by
  intro c hc
  have hletter := h.letters c hc
  have hrange : 0x20 ≤ c.toNat ∧ c.toNat ≤ 0x7e := by
    rcases hletter with h | rfl
    · have hbetween (low high : Char) (hlow : 0x20 ≤ low.toNat) (hhigh : high.toNat ≤ 0x7e)
          (h : c.val ≥ low.val ∧ c.val ≤ high.val) : 0x20 ≤ c.toNat ∧ c.toNat ≤ 0x7e := by
        have hleft : low.toNat ≤ c.toNat := UInt32.le_iff_toNat_le.mp h.1
        have hright : c.toNat ≤ high.toNat := UInt32.le_iff_toNat_le.mp h.2
        exact ⟨Nat.le_trans hlow hleft, Nat.le_trans hright hhigh⟩
      rcases Bool.or_eq_true_iff.mp h with hupper | hlower
      · exact hbetween 'A' 'Z' (by decide) (by decide) (of_decide_eq_true hupper)
      · obtain ⟨h₁, h₂⟩ := Bool.and_eq_true_iff.mp hlower
        exact hbetween 'a' 'z' (by decide) (by decide) ⟨of_decide_eq_true h₁, of_decide_eq_true h₂⟩
    · exact ⟨by decide, by decide⟩
  simp [isAllowed, hrange.1, hrange.2]

theorem isClean_scalarLine (depth : Nat) (s : List Char) : IsClean (scalarLine depth s) :=
  isClean_cons (by decide) (isClean_ended (isClean_writtenScalar (isClean_spaces _) s))

theorem isClean_writtenField {f : String × String} (hf : IsName f.1.toList) :
    IsClean (writtenField f) :=
  isClean_append (isClean_name hf) (isClean_cons (by decide) (isClean_scalarLine 2 _))

theorem isClean_writtenRecord {r : Fields} (hr : IsRecord r) : IsClean (writtenRecord r) := by
  obtain ⟨hne, hnames⟩ := hr
  obtain ⟨f, fs, rfl⟩ := List.exists_cons_of_ne_nil hne
  refine isClean_append (isClean_append (by decide)
    (isClean_writtenField (hnames f List.mem_cons_self))) (isClean_flatMap fun g hg => ?_)
  exact isClean_append (isClean_spaces _)
    (isClean_writtenField (hnames g (List.mem_cons_of_mem f hg)))

theorem isClean_writtenValue {v : Section} (hv : v.IsWritable) :
    IsClean (Scanner.writtenValue v) := by
  have hentries : ∀ e ∈ v.entries, IsClean e := by
    intro e he
    cases v with
    | texts items =>
      obtain ⟨x, -, rfl⟩ := List.mem_map.mp he
      exact isClean_cons (by decide) (isClean_scalarLine 1 _)
    | records items =>
      obtain ⟨r, hr, rfl⟩ := List.mem_map.mp he
      exact isClean_writtenRecord (hv r hr)
  unfold Scanner.writtenValue
  split
  · decide
  · refine isClean_cons (by decide) fun c hc => ?_
    obtain ⟨e, he, hc⟩ := List.mem_flatten.mp hc
    exact hentries e he c hc

theorem isClean_writtenDocument {sections : List (String × Section)}
    (h : ∀ x ∈ sections, IsName x.1.toList ∧ x.2.IsWritable) :
    IsClean (writtenDocument sections) := by
  unfold writtenDocument
  split
  · decide
  · refine isClean_flatMap fun x hx => ?_
    obtain ⟨hname, hvalue⟩ := h x hx
    dsimp only
    rw [Scanner.writtenSection_eq]
    exact isClean_append (isClean_name hname)
      (isClean_cons (by decide) (isClean_writtenValue hvalue))

end IncludeMap.Yaml
