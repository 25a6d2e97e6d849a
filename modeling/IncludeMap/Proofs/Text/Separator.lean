import IncludeMap.Text.Affix
import Mathlib.Data.List.Basic

/-! # The separators of a text

A text without a separator cannot be split; otherwise it splits at the first place of the separator,
or at the last one. Where a separator does not hold its own first character a second time, two of
its places never overlap, and the split of a text is its one decomposition around a separator with
no other separator in front.
-/
namespace IncludeMap.Text
variable {separator s before rest : List Char}

theorem between?_eq_some_iff {first last t : List Char} :
    between? first last s = some t ↔ s = first ++ (t ++ last) := by
  simp only [between?, Option.bind_eq_some_iff, List.isPrefixOf?_eq_some_iff_append_eq,
    List.isSuffixOf?_eq_some_iff_append_eq]
  constructor
  · rintro ⟨u, rfl, rfl⟩
    rfl
  · rintro rfl
    exact ⟨t ++ last, rfl, rfl⟩

theorem isPrefixOf?_eq_none_iff {p : List Char} : p.isPrefixOf? s = none ↔ ¬ p <+: s := by
  rw [← Option.isNone_iff_eq_none, ← Option.not_isSome, List.isSome_isPrefixOf?_eq_isPrefixOf,
    Bool.not_eq_true', Bool.eq_false_iff, ne_eq, List.isPrefixOf_iff_prefix]

theorem splitOnce_eq_none_iff : splitOnce separator s = none ↔ ¬ separator <:+: s := by
  induction s with
  | nil => rw [splitOnce, Option.map_eq_none_iff, isPrefixOf?_eq_none_iff, List.prefix_nil,
      List.infix_nil]
  | cons c s ih =>
    rw [List.infix_cons_iff, not_or, ← ih, splitOnce]
    cases hp : separator.isPrefixOf? (c :: s) with
    | none => simp [isPrefixOf?_eq_none_iff.mp hp]
    | some rest =>
      have hpre : separator <+: c :: s :=
        ⟨rest, List.isPrefixOf?_eq_some_iff_append_eq.mp hp⟩
      simp [hpre]

theorem eq_of_splitOnce (h : splitOnce separator s = some (before, rest)) :
    s = before ++ (separator ++ rest) := by
  induction s generalizing before with
  | nil =>
    obtain ⟨r, hr, he⟩ := Option.map_eq_some_iff.mp h
    cases he
    exact (List.isPrefixOf?_eq_some_iff_append_eq.mp hr).symm
  | cons c s ih =>
    rw [splitOnce] at h
    split at h
    · next r hr =>
      cases h
      exact (List.isPrefixOf?_eq_some_iff_append_eq.mp hr).symm
    · obtain ⟨⟨b, r⟩, hs, he⟩ := Option.map_eq_some_iff.mp h
      cases he
      rw [ih hs, List.cons_append]

theorem not_infix_of_splitOnce (hne : separator ≠ [])
    (h : splitOnce separator s = some (before, rest)) : ¬ separator <:+: before := by
  induction s generalizing before with
  | nil =>
    obtain ⟨r, -, he⟩ := Option.map_eq_some_iff.mp h
    cases he
    rwa [List.infix_nil]
  | cons c s ih =>
    rw [splitOnce] at h
    split at h
    · cases h
      rwa [List.infix_nil]
    · next hp =>
      obtain ⟨⟨b, r⟩, hs, he⟩ := Option.map_eq_some_iff.mp h
      cases he
      rw [List.infix_cons_iff, not_or]
      refine ⟨fun hb => isPrefixOf?_eq_none_iff.mp hp (hb.trans ?_), ih hs⟩
      rw [eq_of_splitOnce hs]
      exact List.prefix_append (c :: b) (separator ++ rest)

variable {first : Char}

/-- Where a separator starts in front of another one, it also ends there. -/
theorem prefix_of_prefix_append (hf : first ∉ separator) {t : List Char}
    (h : first :: separator <+: before ++ (first :: separator ++ t)) :
    before = [] ∨ first :: separator <+: before := by
  obtain ⟨u, hu⟩ := h
  cases before with
  | nil => exact .inl rfl
  | cons c b =>
    simp only [List.cons_append, List.cons.injEq] at hu
    obtain ⟨rfl, hu⟩ := hu
    right
    rcases List.append_eq_append_iff.mp hu with ⟨v, hb, -⟩ | ⟨v, hs, hv⟩
    · exact ⟨v, by rw [hb, List.cons_append]⟩
    · cases v with
      | nil => exact ⟨[], by simp [hs]⟩
      | cons d v =>
        simp only [List.cons_append, List.cons.injEq] at hv
        exact absurd (hs ▸ hv.1 ▸ List.mem_append_right b List.mem_cons_self) hf

theorem splitOnce_append (hf : first ∉ separator) (hb : ¬ first :: separator <:+: before)
    (t : List Char) :
    splitOnce (first :: separator) (before ++ (first :: separator ++ t)) = some (before, t) := by
  induction before with
  | nil =>
    have hp : (first :: separator).isPrefixOf? (first :: separator ++ t) = some t :=
      List.isPrefixOf?_eq_some_iff_append_eq.mpr rfl
    rw [List.nil_append, List.cons_append, splitOnce, ← List.cons_append, hp]
  | cons c b ih =>
    have hp : (first :: separator).isPrefixOf? (c :: b ++ (first :: separator ++ t)) = none := by
      rw [isPrefixOf?_eq_none_iff]
      intro h
      rcases prefix_of_prefix_append hf h with hn | hn
      · exact absurd hn (List.cons_ne_nil c b)
      · exact hb hn.isInfix
    have hb' : ¬ first :: separator <:+: b := fun h => hb (List.infix_cons h)
    rw [List.cons_append, splitOnce, ← List.cons_append, hp, ih hb']
    rfl

theorem splitOnce_eq_some_iff (hf : first ∉ separator) :
    splitOnce (first :: separator) s = some (before, rest) ↔
      s = before ++ (first :: separator ++ rest) ∧ ¬ first :: separator <:+: before := by
  constructor
  · intro h
    exact ⟨eq_of_splitOnce h, not_infix_of_splitOnce (List.cons_ne_nil first separator) h⟩
  · rintro ⟨rfl, hb⟩
    exact splitOnce_append hf hb rest

/-- The separator stands behind `before`, and nowhere nearer to the start of the text. -/
structure FirstAt (separator s before rest : List Char) : Prop where
  parts : s = before ++ (separator ++ rest)
  first : ∀ b r, s = b ++ (separator ++ r) → before.length ≤ b.length

/-- The separator stands behind `before`, and nowhere nearer to the end of the text. -/
structure LastAt (separator s before rest : List Char) : Prop where
  parts : s = before ++ (separator ++ rest)
  last : ∀ b r, s = b ++ (separator ++ r) → b.length ≤ before.length

theorem length_le_of_splitOnce (h : splitOnce separator s = some (before, rest))
    {b r : List Char} (hs : s = b ++ (separator ++ r)) : before.length ≤ b.length := by
  induction s generalizing before b with
  | nil =>
    obtain ⟨r, -, he⟩ := Option.map_eq_some_iff.mp h
    cases he
    exact Nat.zero_le _
  | cons c s ih =>
    rw [splitOnce] at h
    split at h
    · cases h
      exact Nat.zero_le _
    · next hp =>
      obtain ⟨⟨b', r'⟩, hsplit, he⟩ := Option.map_eq_some_iff.mp h
      cases he
      cases b with
      | nil => exact absurd ⟨r, hs.symm⟩ (isPrefixOf?_eq_none_iff.mp hp)
      | cons d b =>
        rw [List.cons_append, List.cons.injEq] at hs
        exact Nat.succ_le_succ (ih hsplit hs.2)

theorem splitOnce_eq_some_iff_firstAt :
    splitOnce separator s = some (before, rest) ↔ FirstAt separator s before rest := by
  constructor
  · intro h
    exact ⟨eq_of_splitOnce h, fun b r hs => length_le_of_splitOnce h hs⟩
  · rintro ⟨hs, hfirst⟩
    cases h : splitOnce separator s with
    | none =>
      have hin : separator <:+: s := ⟨before, rest, by rw [hs, List.append_assoc]⟩
      exact absurd hin (splitOnce_eq_none_iff.mp h)
    | some p =>
      obtain ⟨b, r⟩ := p
      have hb := eq_of_splitOnce h
      have hlen := Nat.le_antisymm (hfirst b r hb) (length_le_of_splitOnce h hs)
      obtain ⟨rfl, hr⟩ := List.append_inj (hs.symm.trans hb) hlen
      rw [List.append_cancel_left hr]

def splitLast (separator s : List Char) : Option (List Char × List Char) :=
  (splitOnce separator.reverse s.reverse).map fun (rest, before) => (before.reverse, rest.reverse)

theorem reverse_eq_append_iff {t a b c : List Char} :
    t.reverse = a.reverse ++ (b.reverse ++ c.reverse) ↔ t = c ++ (b ++ a) := by
  rw [← List.reverse_append, ← List.reverse_append, List.reverse_inj, List.append_assoc]

/-- Read backwards, the first place is the last one. -/
theorem firstAt_reverse_iff :
    FirstAt separator.reverse s.reverse rest.reverse before.reverse ↔
      LastAt separator s before rest := by
  constructor
  · rintro ⟨hs, hfirst⟩
    rw [reverse_eq_append_iff] at hs
    refine ⟨hs, fun b r hb => ?_⟩
    have hle := hfirst r.reverse b.reverse (reverse_eq_append_iff.mpr hb)
    have hlen := congrArg List.length (hs.symm.trans hb)
    simp only [List.length_append, List.length_reverse] at hle hlen
    omega
  · rintro ⟨hs, hlast⟩
    refine ⟨reverse_eq_append_iff.mpr hs, fun r b hb => ?_⟩
    rw [← List.reverse_reverse r, ← List.reverse_reverse b, reverse_eq_append_iff] at hb
    have hle := hlast _ _ hb
    have hlen := congrArg List.length (hs.symm.trans hb)
    simp only [List.length_append, List.length_reverse] at hle hlen ⊢
    omega

theorem splitLast_eq_some_iff :
    splitLast separator s = some (before, rest) ↔ LastAt separator s before rest := by
  rw [← firstAt_reverse_iff, ← splitOnce_eq_some_iff_firstAt, splitLast, Option.map_eq_some_iff]
  constructor
  · rintro ⟨⟨r, b⟩, h, he⟩
    cases he
    rw [List.reverse_reverse, List.reverse_reverse, h]
  · intro h
    exact ⟨_, h, by simp⟩

theorem splitLast_eq_none_iff : splitLast separator s = none ↔ ¬ separator <:+: s := by
  rw [splitLast, Option.map_eq_none_iff, splitOnce_eq_none_iff, List.reverse_infix]

/-- A piece that does not hold a character starts a text exactly when it starts the part in front of
that character. -/
theorem prefix_append_cons_iff {p : List Char} {c : Char} (hp : c ∉ p) {t : List Char} :
    p <+: s ++ c :: t ↔ p <+: s := by
  induction p generalizing s with
  | nil => simp
  | cons d p ih =>
    rw [List.mem_cons, not_or] at hp
    cases s with
    | nil => simp [Ne.symm hp.1]
    | cons e s => rw [List.cons_append, List.cons_prefix_cons, List.cons_prefix_cons, ih hp.2]

/-- What is put together from the parts in front of and behind each separator is put together from
the pieces between the separators. -/
theorem eq_flatMap_splitOn {α β : Type} [DecidableEq α] {separator : α} {f g : List α → List β}
    (hcons : ∀ s t, separator ∉ s → f (s ++ separator :: t) = g s ++ f t)
    (hlast : ∀ s, separator ∉ s → f s = g s) (s : List α) :
    f s = (s.splitOn separator).flatMap g := by
  induction hn : s.length using Nat.strongRecOn generalizing s with
  | ind n ih =>
    by_cases h : separator ∈ s
    · obtain ⟨a, b, rfl, ha⟩ := List.eq_append_cons_of_mem h
      have hlt : b.length < n := by
        rw [← hn, List.length_append, List.length_cons]
        omega
      rw [List.splitOn_append_cons_self_of_not_mem ha, List.flatMap_cons, hcons a b ha,
        ih b.length hlt b rfl]
    · rw [List.splitOn_eq_singleton h, List.flatMap_singleton, hlast s h]

end IncludeMap.Text
