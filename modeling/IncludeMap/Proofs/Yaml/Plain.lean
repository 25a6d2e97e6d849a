import IncludeMap.Proofs.Yaml.Character
import IncludeMap.Yaml.Scalar

/-! # Reading plain scalars

A text that may be written plain is read back from its line, and so is the name of a field in front
of its colon.
-/
namespace IncludeMap.Yaml

variable {indent : Int} {start p : Place} {s rest tail : List Char} {g : Gap} {k n : Nat}

/-! ## A text at the end of a line -/

theorem Gap.hasBreak_addBreak (g : Gap) (rest : List Char) :
    (g.addBreak '\n' rest).hasBreak = true := by
  simp [addBreak, isHalfBreak, hasBreak]

/-- The margin of the next line belongs to no plain scalar that is indented deeper. -/
theorem readPlain_margin (hg : g.hasBreak = true) (htail : StartsToken tail)
    (hindent : (p.column + k : Nat) < indent) :
    readPlain false indent start p g (spaces k ++ tail) = .ok ⟨[], true, ⟨p.right k, tail⟩⟩ := by
  induction k generalizing p with
  | zero =>
    have hempty : g.isEmpty = false := by simp [Gap.isEmpty, hg]
    have hcolumn : (p.column : Int) < indent := by simpa using hindent
    cases tail with
    | nil => simp [spaces, readPlain, hg]
    | cons c tail =>
      obtain ⟨hgap, hbreak, -, -⟩ := startsToken_cons.mp htail
      simp [spaces, readPlain, hgap, hbreak, endsPlain, hempty, hcolumn, hg]
  | succ k ih =>
    have hblank : g.addBlank ' ' = g := by simp [Gap.addBlank, hg]
    have hnext : ((p.right 1).column + k : Nat) < indent := by
      rw [right_column]
      omega
    have hpass : ∀ rest, p.pass ' ' rest = p.right 1 := fun rest => pass_of_not_isBreak rfl
    rw [spaces_succ, List.cons_append, readPlain, if_pos (by rfl), if_neg (by simp), hpass, hblank,
      ih hnext, right_right, Nat.add_comm 1 k]

theorem readPlain_lineEnd (htail : StartsToken tail) (hk : (k : Int) < indent) :
    readPlain false indent start p g ('\n' :: (spaces k ++ tail)) =
      .ok ⟨[], true, ⟨⟨p.index + 1 + k, p.line + 1, k⟩, tail⟩⟩ := by
  have hpass : p.pass '\n' (spaces k ++ tail) = ⟨p.index + 1, p.line + 1, 0⟩ :=
    pass_of_isBreak (by decide) (by decide)
  rw [readPlain, if_neg (by decide), if_pos (by decide), hpass,
    readPlain_margin (g.hasBreak_addBreak _) htail (by simpa using hk)]
  simp [Place.right]

/-- What a text is made of that can stand behind the first character of a plain scalar. -/
structure IsPlain (s : List Char) : Prop where
  printable : ∀ c ∈ s, isPrintable c = true
  oneLine : ∀ c ∈ s, isBreak c = false
  noIndicator : hasIndicator s = false

theorem IsPlain.of_cons {c : Char} (h : IsPlain (c :: s)) : IsPlain s where
  printable x hx := h.printable x (List.mem_cons_of_mem c hx)
  oneLine x hx := h.oneLine x (List.mem_cons_of_mem c hx)
  noIndicator := by
    have := h.noIndicator
    simp only [hasIndicator, Bool.or_eq_false_iff] at this
    exact this.2

theorem endsPlain_eq_false {c : Char} (hcolon : (decide (c = ':') && endsWord rest) = false)
    (hsign : 0 < n → c ≠ '#') (hcolumn : indent ≤ p.column) (hpos : 0 < p.column) :
    endsPlain false indent p ⟨spaces n, [], false⟩ (c :: rest) = false := by
  have hhash : (decide (c = '#') && !Gap.isEmpty ⟨spaces n, [], false⟩) = false := by
    cases n with
    | zero => simp [Gap.isEmpty, Gap.hasBreak, spaces]
    | succ n => simp [hsign (Nat.succ_pos n)]
  have hzero : p.column ≠ 0 := Nat.ne_of_gt hpos
  have hdeep : ¬ (p.column : Int) < indent := Int.not_lt.mpr hcolumn
  simp [endsPlain, hcolon, hhash, hzero, hdeep]

/-- The gap is what has been passed over of the text since its last character that is no space. -/
theorem readPlain_text (hs : IsPlain s) (hsign : 0 < n → s.head? ≠ some '#')
    (hlast : (spaces n ++ s).getLast? ≠ some ' ') (hcolumn : indent ≤ p.column)
    (hpos : 0 < p.column) (htail : StartsToken tail) (hk : (k : Int) < indent) :
    readPlain false indent start p ⟨spaces n, [], false⟩ (s ++ '\n' :: (spaces k ++ tail)) =
      .ok ⟨spaces n ++ s, true, ⟨⟨p.index + s.length + 1 + k, p.line + 1, k⟩, tail⟩⟩ := by
  induction s generalizing p n with
  | nil =>
    have hn : n = 0 := by
      cases n with
      | zero => rfl
      | succ n =>
        rw [List.append_nil, ← spaces_append_cons, List.getLast?_concat] at hlast
        exact absurd rfl hlast
    subst hn
    rw [List.nil_append, readPlain_lineEnd htail hk]
    rfl
  | cons c s ih =>
    have hprint := hs.printable c List.mem_cons_self
    have hbreak := hs.oneLine c List.mem_cons_self
    have hind := hs.noIndicator
    simp only [hasIndicator, Bool.or_eq_false_iff, Bool.and_eq_false_iff] at hind
    have hpass : ∀ rest, p.pass c rest = p.right 1 := fun rest => pass_of_not_isBreak hbreak
    have hindex : p.index + (c :: s).length + 1 + k = (p.right 1).index + s.length + 1 + k := by
      simp only [List.length_cons, Place.right]
      omega
    have hcolumn' : indent ≤ ((p.right 1).column : Nat) := by
      rw [right_column]
      omega
    rw [List.cons_append, readPlain, hpass, isGap_eq_isSpace hprint, hindex]
    by_cases hspace : c = ' '
    · subst hspace
      have hsign' : s.head? ≠ some '#' := by simpa [isGap] using hind.1.2
      have hlast' : (spaces (n + 1) ++ s).getLast? ≠ some ' ' := by
        rwa [← spaces_append_cons, List.append_assoc]
      have hblank : Gap.addBlank ⟨spaces n, [], false⟩ ' ' = ⟨spaces (n + 1), [], false⟩ := by
        simp [Gap.addBlank, Gap.hasBreak, spaces_append_cons]
      rw [if_pos (by rfl), if_neg (by simp), hblank,
        ih hs.of_cons (fun _ => hsign') hlast' hcolumn' (by simp), ← spaces_append_cons]
      simp
    · have hcolon : (decide (c = ':') && endsWord (s ++ '\n' :: (spaces k ++ tail))) = false := by
        rw [endsWord_append_newline]
        exact Bool.and_eq_false_iff.mpr hind.1.1
      have hends : endsPlain false indent p ⟨spaces n, [], false⟩
          (c :: (s ++ '\n' :: (spaces k ++ tail))) = false :=
        endsPlain_eq_false hcolon (fun hn => by simpa using hsign hn) hcolumn hpos
      have hlast' : (spaces 0 ++ s).getLast? ≠ some ' ' := by
        cases s with
        | nil => simp [spaces]
        | cons d s =>
          simpa [List.getLast?_append, List.getLast?_cons_cons, spaces] using hlast
      have hrest := ih (n := 0) hs.of_cons (fun h => absurd h (by decide)) hlast' hcolumn'
        (by simp)
      rw [if_neg (by simpa [isSpace] using hspace), if_neg (by simp [hbreak]),
        if_neg (by simp [hends]), if_neg (by simp [isStrayColon])]
      rw [show (⟨spaces 0, [], false⟩ : Gap) = Gap.empty from rfl] at hrest
      rw [hrest]
      simp [Gap.text, spaces]

/-! ## The name of a field -/

/-- What the key of an entry looks like here: it is a short word. -/
structure IsName (s : List Char) : Prop where
  nonempty : s ≠ []
  short : s.length ≤ 1024
  letters : ∀ c ∈ s, c.isAlpha = true ∨ c = '_'

theorem isName_iff {s : List Char} :
    IsName s ↔ s ≠ [] ∧ s.length ≤ 1024 ∧ (s.all fun c => c.isAlpha || c = '_') = true := by
  simp only [List.all_eq_true, Bool.or_eq_true, decide_eq_true_eq]
  exact ⟨fun ⟨h₁, h₂, h₃⟩ => ⟨h₁, h₂, h₃⟩, fun ⟨h₁, h₂, h₃⟩ => ⟨h₁, h₂, h₃⟩⟩

instance (s : List Char) : Decidable (IsName s) := decidable_of_iff' _ isName_iff

theorem ne_of_letter {c : Char} (h : c.isAlpha = true ∨ c = '_') {d : Char}
    (hd : d.isAlpha = false ∧ d ≠ '_') : c ≠ d := by
  rintro rfl
  rcases h with h | h
  · rw [hd.1] at h
    cases h
  · exact hd.2 h

theorem isGap_of_letter {c : Char} (h : c.isAlpha = true ∨ c = '_') : isGap c = false := by
  have h₁ : c ≠ ' ' := ne_of_letter h (by decide)
  have h₂ : c ≠ '\t' := ne_of_letter h (by decide)
  simp [isGap, h₁, h₂]

theorem isBreak_of_letter {c : Char} (h : c.isAlpha = true ∨ c = '_') : isBreak c = false := by
  have h₁ : c ≠ '\r' := ne_of_letter h (by decide)
  have h₂ : c ≠ '\n' := ne_of_letter h (by decide)
  have h₃ : c ≠ '\u0085' := ne_of_letter h (by decide)
  have h₄ : c ≠ '\u2028' := ne_of_letter h (by decide)
  have h₅ : c ≠ '\u2029' := ne_of_letter h (by decide)
  simp [isBreak, h₁, h₂, h₃, h₄, h₅]

theorem readPlain_name (hs : ∀ c ∈ s, c.isAlpha = true ∨ c = '_') (hrest : endsWord rest = true) :
    readPlain false indent start p .empty (s ++ ':' :: rest) =
      .ok ⟨s, false, ⟨p.right s.length, ':' :: rest⟩⟩ := by
  induction s generalizing p with
  | nil =>
    simp [readPlain, isGap, isBreak, endsPlain, hrest, Gap.hasBreak, Gap.empty]
  | cons c s ih =>
    have hc := hs c List.mem_cons_self
    have hhash : c ≠ '#' := ne_of_letter hc (by decide)
    have hcolon : c ≠ ':' := ne_of_letter hc (by decide)
    have hbreak := isBreak_of_letter hc
    have hends : endsPlain false indent p .empty (c :: (s ++ ':' :: rest)) = false := by
      have hmark := isDocumentMark_eq_false (ne_of_letter hc (d := '-') (by decide))
        (ne_of_letter hc (by decide)) (s ++ ':' :: rest)
      simp [endsPlain, hmark, hhash, hcolon, Gap.isEmpty, Gap.empty, Gap.hasBreak]
    have hpass : p.pass c (s ++ ':' :: rest) = p.right 1 := pass_of_not_isBreak hbreak
    rw [List.cons_append, readPlain, if_neg (by simp [isGap_of_letter hc]),
      if_neg (by simp [hbreak]), if_neg (by simp [hends]), if_neg (by simp [isStrayColon]), hpass,
      ih fun x hx => hs x (List.mem_cons_of_mem c hx), right_right, List.length_cons,
      Nat.add_comm 1 s.length]
    rfl

end IncludeMap.Yaml
