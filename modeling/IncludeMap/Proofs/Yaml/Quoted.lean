import IncludeMap.Proofs.Yaml.Character
import IncludeMap.Yaml.Scalar

/-! # Reading quoted scalars

Each text is read back from double quotes, where its characters are escaped one by one. From single
quotes a text is read back if there is no space beside any of its line breaks.
-/
namespace IncludeMap.Yaml
open Text

variable {c : Char} {start p : Place} {g : Gap} {s rest tail w : List Char} {single : Bool}

/-! ## Single characters -/

theorem readQuoted_space :
    readQuoted single start p g (' ' :: rest) =
      readQuoted single start (p.right 1) (g.addBlank ' ') rest := by
  have hmark : isDocumentMark (' ' :: rest) = false :=
    isDocumentMark_eq_false (by decide) (by decide) rest
  have hpass : p.pass ' ' rest = p.right 1 := pass_of_not_isBreak rfl
  rw [readQuoted.eq_def]
  dsimp only
  rw [if_neg (by simp [hmark]), if_pos (by rfl), hpass]

theorem readQuoted_break (hprint : isPrintable c = true) (hbreak : isBreak c = true) :
    readQuoted single start p g (c :: rest) =
      readQuoted single start ⟨p.index + 1, p.line + 1, 0⟩
        { g with breaks := g.breaks ++ [[c]] } rest := by
  have hmark : isDocumentMark (c :: rest) = false := by
    rcases eq_of_isBreak hprint hbreak with rfl | rfl | rfl <;>
      exact isDocumentMark_eq_false (by decide) (by decide) rest
  rw [readQuoted.eq_def]
  dsimp only
  rw [if_neg (by simp [hmark]), if_neg (by simp [isGap_of_isBreak hbreak]),
    if_pos hbreak, pass_of_isBreak hprint hbreak, Gap.addBreak,
    isHalfBreak_eq_false hprint, if_neg (by decide), breakText_eq hprint hbreak]

/-- A document ends in the first column only. -/
theorem not_marks (hpos : 0 < p.column) (s : List Char) :
    ¬ (decide (p.column = 0) && isDocumentMark s) = true := by
  simp [Nat.ne_of_gt hpos]

/-- A character that stands for itself ends the gap before it. -/
theorem readQuoted_itself (hpos : 0 < p.column) (hgap : isGap c = false)
    (hbreak : isBreak c = false) (hquote : c ≠ if single then '\'' else '"')
    (hescape : c ≠ '\\' ∨ single = true) :
    readQuoted single start p g (c :: rest) =
      (readQuoted single start (p.right 1) .empty rest).map fun (text, e) =>
        (g.text ++ c :: text, e) := by
  have hback : ¬ (decide (c = '\\') && !single) = true := by
    rcases hescape with h | h <;> simp [h]
  rw [readQuoted.eq_def]
  dsimp only
  rw [if_neg (not_marks hpos _), if_neg (by simp [hgap]), if_neg (by simp [hbreak]),
    if_neg hquote, if_neg hback, pass_of_not_isBreak hbreak]

/-! ## Double quotes -/

theorem readQuoted_doubleEnd (hpos : 0 < p.column) :
    readQuoted false start p g ('"' :: tail) = .ok (g.text, ⟨p.right 1, tail⟩) := by
  rw [readQuoted.eq_def]
  dsimp only
  rw [if_neg (not_marks hpos _), if_neg (by decide), if_neg (by decide),
    if_pos (by decide)]
  cases tail with
  | nil => rfl
  | cons d tail => rfl

theorem readQuoted_named {letter : Char} (hpos : 0 < p.column) (hbreak : isBreak letter = false)
    (hnamed : namedEscape? letter = some c) :
    readQuoted false start p g ('\\' :: letter :: rest) =
      (readQuoted false start (p.right 2) .empty rest).map fun (text, e) =>
        (g.text ++ c :: text, e) := by
  rw [readQuoted.eq_def]
  dsimp only
  rw [if_neg (not_marks hpos _), if_neg (by decide), if_neg (by decide),
    if_neg (by decide), if_pos (by decide)]
  simp only [hbreak, hnamed, Bool.false_eq_true, if_false]

theorem readQuoted_numbered {letter : Char} {n : Nat} {digits : List Char} (hpos : 0 < p.column)
    (hbreak : isBreak letter = false) (hnamed : namedEscape? letter = none)
    (hwidth : escapeDigits? letter = some n) (hlength : digits.length = n)
    (hdigits : hexNumber? digits = some c.toNat) :
    readQuoted false start p g ('\\' :: letter :: (digits ++ rest)) =
      (readQuoted false start (p.right (2 + n)) .empty rest).map fun (text, e) =>
        (g.text ++ c :: text, e) := by
  have htake : (digits ++ rest).take n = digits := List.take_left' hlength
  have hdrop : (digits ++ rest).drop n = rest := List.drop_left' hlength
  have hread : readDigits? n (digits ++ rest) = some c.toNat := by
    rw [readDigits?, htake, if_neg (by omega), hdigits]
  have hvalue : scalarValue? c.toNat = some c := by
    have hvalid : c.toNat < 0xd800 ∨ (0xdfff < c.toNat ∧ c.toNat < 0x110000) := c.valid
    rw [scalarValue?, if_neg (by omega), Char.ofNat_toNat]
  rw [readQuoted.eq_def]
  dsimp only
  rw [if_neg (not_marks hpos _), if_neg (by decide), if_neg (by decide),
    if_neg (by decide), if_pos (by decide)]
  simp only [hbreak, hnamed, hwidth, hread, hvalue, hdrop, Bool.false_eq_true, if_false]

theorem namedEscape?_of_lookup {letter : Char} (h : letterEscapes.lookup c = some letter) :
    isBreak letter = false ∧ namedEscape? letter = some c := by
  have hall : ∀ e ∈ letterEscapes, isBreak e.2 = false ∧ namedEscape? e.2 = some e.1 := by decide
  obtain ⟨before, after, heq, -⟩ := List.lookup_eq_some_iff.mp h
  exact hall (c, letter) (by simp [heq])

theorem hexNumber?_toUpper {cs : List Char} (h : ∀ c ∈ cs, ∃ d, d < 16 ∧ c = d.digitChar) :
    hexNumber? (cs.map Char.toUpper) = hexNumber? cs := by
  have hall : ∀ d < 16, hexValue? d.digitChar.toUpper = hexValue? d.digitChar := by decide
  have hfold : ∀ v, (cs.map Char.toUpper).foldlM (fun v c => (hexValue? c).map (v * 16 + ·)) v =
      cs.foldlM (fun v c => (hexValue? c).map (v * 16 + ·)) v := by
    induction cs with
    | nil => exact fun v => rfl
    | cons c cs ih =>
      intro v
      obtain ⟨d, hd, rfl⟩ := h c List.mem_cons_self
      have ih := ih fun x hx => h x (List.mem_cons_of_mem _ hx)
      rw [List.map_cons, List.foldlM_cons, List.foldlM_cons, hall d hd]
      exact bind_congr ih
  exact hfold 0

theorem readQuoted_numberEscape (hpos : 0 < p.column) :
    ∃ n, readQuoted false start p g (numberEscape c ++ rest) =
      (readQuoted false start (p.right n) .empty rest).map fun (text, e) =>
        (g.text ++ c :: text, e) := by
  have hupper (width : Nat) : hexNumber? ((paddedHex width c.toNat).map Char.toUpper) =
      some c.toNat := by
    rw [hexNumber?_toUpper fun x hx => mem_paddedHex hx, hexNumber?_paddedHex]
  have hlength {width : Nat} (hw : 0 < width) (hc : c.toNat < 16 ^ width) :
      ((paddedHex width c.toNat).map Char.toUpper).length = width := by
    rw [List.length_map]
    exact length_paddedHex ((Nat.length_toDigits_le_iff (by decide) hw).mpr hc)
  unfold numberEscape
  dsimp only
  split
  · exact ⟨2 + 2, readQuoted_numbered hpos (by decide) rfl rfl (hlength (by decide) (by omega))
      (hupper 2)⟩
  · split
    · exact ⟨2 + 4, readQuoted_numbered hpos (by decide) rfl rfl (hlength (by decide) (by omega))
        (hupper 4)⟩
    · have hvalid : c.toNat < 0xd800 ∨ (0xdfff < c.toNat ∧ c.toNat < 0x110000) := c.valid
      exact ⟨2 + 8, readQuoted_numbered hpos (by decide) rfl rfl (hlength (by decide) (by omega))
        (hupper 8)⟩

theorem readQuoted_escaped (hpos : 0 < p.column) (hspace : c ≠ ' ') :
    ∃ n, readQuoted false start p g (escaped c ++ rest) =
      (readQuoted false start (p.right n) .empty rest).map fun (text, e) =>
        (g.text ++ c :: text, e) := by
  unfold escaped
  split
  · next hplain =>
    simp only [Bool.and_eq_true, Bool.not_eq_true', bne_iff_ne] at hplain
    obtain ⟨⟨⟨hprint, hbreak⟩, hquote⟩, hback⟩ := hplain
    have hgap : isGap c = false := by
      rw [isGap_eq_isSpace hprint]
      simpa [isSpace] using hspace
    exact ⟨1, readQuoted_itself hpos hgap hbreak hquote (.inl hback)⟩
  · split
    · next letter hl =>
      obtain ⟨hbreak, hnamed⟩ := namedEscape?_of_lookup hl
      exact ⟨2, readQuoted_named hpos hbreak hnamed⟩
    · exact readQuoted_numberEscape hpos

theorem readQuoted_flatMap_escaped (hpos : 0 < p.column) :
    ∃ q, p.line ≤ q.line ∧
      readQuoted false start p ⟨w, [], false⟩ (s.flatMap escaped ++ '"' :: tail) =
        .ok (w ++ s, ⟨q, tail⟩) := by
  induction s generalizing p w with
  | nil =>
    refine ⟨p.right 1, Nat.le_refl _, ?_⟩
    rw [List.flatMap_nil, List.nil_append, readQuoted_doubleEnd hpos, List.append_nil]
    rfl
  | cons c s ih =>
    rw [List.flatMap_cons, List.append_assoc]
    by_cases hspace : c = ' '
    · subst hspace
      obtain ⟨q, hline, hq⟩ := ih (p := p.right 1) (w := w ++ [' ']) (by simp)
      refine ⟨q, hline, ?_⟩
      have hblank : Gap.addBlank ⟨w, [], false⟩ ' ' = ⟨w ++ [' '], [], false⟩ := rfl
      rw [show escaped ' ' = [' '] from rfl, List.singleton_append, readQuoted_space, hblank, hq,
        List.append_assoc, List.singleton_append]
    · obtain ⟨n, hn⟩ := readQuoted_escaped (g := ⟨w, [], false⟩) hpos hspace
      obtain ⟨q, hline, hq⟩ := ih (p := p.right n) (w := []) (Nat.add_pos_left hpos n)
      refine ⟨q, hline, ?_⟩
      rw [hn, Gap.empty, hq]
      rfl

/-! ## Single quotes -/

theorem readQuoted_singleEnd (hpos : 0 < p.column) (htail : tail.head? ≠ some '\'') :
    readQuoted true start p g ('\'' :: tail) = .ok (g.text, ⟨p.right 1, tail⟩) := by
  rw [readQuoted.eq_def]
  dsimp only
  rw [if_neg (not_marks hpos _), if_neg (by decide), if_neg (by decide),
    if_pos (by decide)]
  cases tail with
  | nil => rfl
  | cons d tail =>
    have hd : d ≠ '\'' := by simpa using htail
    simp [hd]

theorem readQuoted_doubled (hpos : 0 < p.column) :
    readQuoted true start p g ('\'' :: '\'' :: rest) =
      (readQuoted true start (p.right 2) .empty rest).map fun (text, e) =>
        (g.text ++ '\'' :: text, e) := by
  rw [readQuoted.eq_def]
  dsimp only
  rw [if_neg (not_marks hpos _), if_neg (by decide), if_neg (by decide),
    if_pos (by decide)]
  simp

/-- A character that is no blank is read from what stands for it between single quotes. -/
theorem readQuoted_doubledQuote (hpos : 0 < p.column) (hgap : isGap c = false)
    (hbreak : isBreak c = false) :
    ∃ n, readQuoted true start p g ((if c = '\'' then ['\'', '\''] else [c]) ++ rest) =
      (readQuoted true start (p.right n) .empty rest).map fun (text, e) =>
        (g.text ++ c :: text, e) := by
  by_cases hquote : c = '\''
  · subst hquote
    exact ⟨2, readQuoted_doubled hpos⟩
  · rw [if_neg hquote]
    exact ⟨1, readQuoted_itself hpos hgap hbreak hquote (.inr rfl)⟩

theorem readQuoted_margin (hg : g.hasBreak = true) (m : Nat) :
    readQuoted single start p g (spaces m ++ rest) =
      readQuoted single start (p.right m) g rest := by
  induction m generalizing p with
  | zero => rfl
  | succ m ih =>
    have hblank : g.addBlank ' ' = g := by simp [Gap.addBlank, hg]
    rw [spaces_succ, List.cons_append, readQuoted_space, hblank, ih, right_right, Nat.add_comm 1 m]

theorem head?_of_hasNeighbours {first second : Char → Bool}
    (h : hasNeighbours first second (c :: s) = false) (hc : first c = true) :
    ∀ d ∈ s.head?, second d = false := by
  intro d hd
  cases s with
  | nil => cases hd
  | cons e s =>
    obtain rfl : e = d := by simpa using hd
    simp only [hasNeighbours, hc, Bool.true_and, Bool.or_eq_false_iff] at h
    exact h.1

theorem hasNeighbours_of_cons {first second : Char → Bool}
    (h : hasNeighbours first second (c :: s) = false) : hasNeighbours first second s = false := by
  cases s with
  | nil => rfl
  | cons d s =>
    simp only [hasNeighbours, Bool.or_eq_false_iff] at h
    exact h.2

/-- A text that single quotes keep: of its line breaks none is a line feed, and none of them has a
space beside it. -/
structure IsQuotable (s : List Char) : Prop where
  printable : ∀ c ∈ s, isPrintable c = true
  noLineFeed : '\n' ∉ s
  spaceBreak : hasNeighbours isSpace isBreak s = false
  breakSpace : hasNeighbours isBreak isSpace s = false

theorem IsQuotable.of_cons (h : IsQuotable (c :: s)) : IsQuotable s where
  printable x hx := h.printable x (List.mem_cons_of_mem c hx)
  noLineFeed hn := h.noLineFeed (List.mem_cons_of_mem c hn)
  spaceBreak := hasNeighbours_of_cons h.spaceBreak
  breakSpace := hasNeighbours_of_cons h.breakSpace

/-- What stands between the last character that counted and the next one: line breaks at the
beginning of a line, which is `fresh`, and else spaces. -/
def between (fresh : Bool) (w : List Char) : Gap :=
  if fresh then ⟨[], w.map ([·]), false⟩ else ⟨w, [], false⟩

/-- At the place `p` the text `s` is left, and `w` stands before it. No space is beside a break. -/
structure Awaits (fresh : Bool) (w : List Char) (p : Place) (s : List Char) : Prop where
  breaks : fresh = true → w ≠ [] ∧ '\n' ∉ w
  noSpace : fresh = true → ∀ c ∈ s.head?, isSpace c = false
  noBreak : fresh = false → w ≠ [] → ∀ c ∈ s.head?, isBreak c = false
  inside : fresh = false → 0 < p.column

namespace Awaits

variable {fresh : Bool} {m : Nat}

theorem text_between (h : Awaits fresh w p s) : (between fresh w).text = w := by
  cases fresh with
  | false => rfl
  | true =>
    obtain ⟨hne, hmem⟩ := h.breaks rfl
    have hflat (v : List Char) : (v.map ([·])).flatten = v := by
      rw [← List.flatMap_def]
      exact List.flatMap_singleton' v
    cases w with
    | nil => exact absurd rfl hne
    | cons c w =>
      have hc : c ≠ '\n' := fun h => hmem (by simp [h])
      simp [between, Gap.text, hc, hflat]

/-- At the beginning of a line the margin changes nothing but the column. -/
theorem exists_margin (h : Awaits fresh w p s) (hm : 0 < m) (x : List Char) :
    ∃ q : Place, p.line ≤ q.line ∧ 0 < q.column ∧
      readQuoted true start p (between fresh w) ((if fresh then spaces m else []) ++ x) =
        readQuoted true start q (between fresh w) x := by
  cases fresh with
  | false => exact ⟨p, Nat.le_refl _, h.inside rfl, rfl⟩
  | true =>
    have hbreak : (between true w).hasBreak = true := by
      simp [between, Gap.hasBreak, (h.breaks rfl).1]
    refine ⟨p.right m, Nat.le_refl _, Nat.add_pos_right p.column hm, ?_⟩
    rw [if_pos rfl, readQuoted_margin hbreak]

theorem eq_nil (h : Awaits false w p (c :: s)) (hb : isBreak c = true) : w = [] := by
  cases w with
  | nil => rfl
  | cons d w => exact absurd hb (by simp [h.noBreak rfl (List.cons_ne_nil d w) c rfl])

/-- No blanks before a line break are lost, since there are none. -/
theorem between_break (h : Awaits fresh w p (c :: s)) (hb : isBreak c = true) :
    { between fresh w with breaks := (between fresh w).breaks ++ [[c]] } =
      between true (w ++ [c]) := by
  cases fresh with
  | true => simp [between]
  | false => simp [between, h.eq_nil hb]

theorem next_break (h : Awaits fresh w p (c :: s)) (hs : IsQuotable (c :: s))
    (hb : isBreak c = true) : Awaits true (w ++ [c]) ⟨p.index + 1, p.line + 1, 0⟩ s where
  breaks _ := by
    have hfeed : '\n' ≠ c := fun hc => hs.noLineFeed (hc ▸ List.mem_cons_self)
    cases fresh with
    | true => simp [(h.breaks rfl).2, hfeed]
    | false => simp [h.eq_nil hb, hfeed]
  noSpace _ := head?_of_hasNeighbours hs.breakSpace hb
  noBreak hf := by cases hf
  inside hf := by cases hf

theorem next_space (hs : IsQuotable (' ' :: s)) (hpos : 0 < p.column) :
    Awaits false (w ++ [' ']) p s where
  breaks hf := by cases hf
  noSpace hf := by cases hf
  noBreak _ _ := head?_of_hasNeighbours hs.spaceBreak rfl
  inside _ := hpos

theorem nothing (hpos : 0 < p.column) : Awaits false [] p s where
  breaks hf := by cases hf
  noSpace hf := by cases hf
  noBreak _ hne := absurd rfl hne
  inside _ := hpos

end Awaits

theorem indented_doubledQuotes_of_isBreak (hbreak : isBreak c = true) (margin : List Char)
    (fresh : Bool) :
    indented margin fresh (doubledQuotes (c :: s)) =
      c :: indented margin true (doubledQuotes s) := by
  have hquote : c ≠ '\'' := by
    rintro rfl
    exact absurd hbreak (by decide)
  rw [doubledQuotes, List.flatMap_cons, if_neg hquote, List.singleton_append, indented,
    if_pos hbreak, doubledQuotes]

theorem indented_doubledQuotes (hbreak : isBreak c = false) (margin : List Char) (fresh : Bool) :
    indented margin fresh (doubledQuotes (c :: s)) =
      (if fresh then margin else []) ++
        ((if c = '\'' then ['\'', '\''] else [c]) ++ indented margin false (doubledQuotes s)) := by
  rw [doubledQuotes, List.flatMap_cons]
  split
  · next hquote => simp [indented, isBreak, doubledQuotes]
  · next hquote => simp [indented, hbreak, doubledQuotes]

theorem elim_getLast?_cons (fresh : Bool) :
    (c :: s).getLast?.elim fresh isBreak = s.getLast?.elim (isBreak c) isBreak := by
  cases s with
  | nil => rfl
  | cons d s => simp [List.getLast?_cons]

/-- The induction is on the text that is left. -/
theorem readQuoted_indented {fresh : Bool} {m : Nat} (hs : IsQuotable s)
    (h : Awaits fresh w p s) (hm : 0 < m) (htail : tail.head? ≠ some '\'') :
    ∃ q, p.line ≤ q.line ∧
      readQuoted true start p (between fresh w)
        (indented (spaces m) fresh (doubledQuotes s) ++
          ((if s.getLast?.elim fresh isBreak then spaces m else []) ++ '\'' :: tail)) =
        .ok (w ++ s, ⟨q, tail⟩) := by
  induction s generalizing p w fresh with
  | nil =>
    obtain ⟨q, hline, hq, hread⟩ := h.exists_margin hm ('\'' :: tail)
    refine ⟨q.right 1, hline, ?_⟩
    rw [List.getLast?_nil, Option.elim_none, doubledQuotes, List.flatMap_nil, indented,
      List.nil_append, hread, readQuoted_singleEnd hq htail, h.text_between, List.append_nil]
  | cons c s ih =>
    have hprint := hs.printable c List.mem_cons_self
    rw [elim_getLast?_cons]
    by_cases hb : isBreak c = true
    · obtain ⟨q, hline, hq⟩ := ih hs.of_cons (h.next_break hs hb)
      refine ⟨q, Nat.le_of_succ_le hline, ?_⟩
      rw [hb, indented_doubledQuotes_of_isBreak hb, List.cons_append, readQuoted_break hprint hb,
        h.between_break hb, hq, List.append_assoc, List.singleton_append]
    · rw [Bool.not_eq_true] at hb
      rw [hb, indented_doubledQuotes hb, List.append_assoc, List.append_assoc]
      obtain ⟨q, hline, hpos, hread⟩ := h.exists_margin hm _
      rw [hread]
      by_cases hspace : c = ' '
      · subst hspace
        -- After a break a space would be lost in the margin, but the text has none there.
        have hf : fresh = false := by
          rw [Bool.eq_false_iff]
          exact fun hf => absurd (h.noSpace hf ' ' rfl) (by decide)
        subst hf
        obtain ⟨q', hline', hq'⟩ := ih (p := q.right 1) hs.of_cons
          (Awaits.next_space (w := w) hs (by simp))
        refine ⟨q', Nat.le_trans hline hline', ?_⟩
        have hblank : (between false w).addBlank ' ' = between false (w ++ [' ']) := rfl
        rw [if_neg (by decide), List.singleton_append, readQuoted_space, hblank, hq',
          List.append_assoc, List.singleton_append]
      · have hgap : isGap c = false := by
          rw [isGap_eq_isSpace hprint]
          simpa [isSpace] using hspace
        have hempty : Gap.empty = between false [] := rfl
        obtain ⟨n, hn⟩ := readQuoted_doubledQuote hpos hgap hb
        obtain ⟨q', hline', hq'⟩ := ih (p := q.right n) hs.of_cons
          (Awaits.nothing (Nat.add_pos_left hpos n))
        refine ⟨q', Nat.le_trans hline hline', ?_⟩
        rw [hn, hempty, hq', h.text_between]
        rfl

/-! ## Whole scalars -/

theorem isQuotable_of_allowsSingleQuotes (h : allowsSingleQuotes s = true) (hn : '\n' ∉ s) :
    IsQuotable s := by
  simp only [allowsSingleQuotes, Bool.and_eq_true, Bool.not_eq_true', List.all_eq_true] at h
  exact ⟨h.1.1, hn, h.2, h.1.2⟩

/-- A text in single quotes is read from behind its first quote on. -/
theorem readQuoted_singleQuoted (start : Place) {m : Nat} (hs : IsQuotable s) (hpos : 0 < p.column)
    (hm : 0 < m) (htail : tail.head? ≠ some '\'') :
    ∃ q, p.line ≤ q.line ∧
      readQuoted true start p .empty ((singleQuoted (spaces m) s).drop 1 ++ tail) =
        .ok (s, ⟨q, tail⟩) := by
  obtain ⟨q, hline, hq⟩ := readQuoted_indented hs (Awaits.nothing hpos) hm htail
  have hopen : (if endsInBreak s then spaces m ++ ['\''] else ['\'']) ++ tail =
      (if s.getLast?.elim false isBreak then spaces m else []) ++ '\'' :: tail := by
    have hend : endsInBreak s = s.getLast?.elim false isBreak := by
      rw [endsInBreak]
      cases s.getLast? <;> rfl
    rw [hend]
    split <;> simp
  refine ⟨q, hline, ?_⟩
  rw [singleQuoted, List.cons_append, List.drop_one, List.tail_cons, List.append_assoc, hopen]
  exact hq

theorem readQuoted_doubleQuoted (hpos : 0 < p.column) :
    ∃ q, p.line ≤ q.line ∧
      readQuoted false start p .empty ((doubleQuoted s).drop 1 ++ tail) = .ok (s, ⟨q, tail⟩) := by
  obtain ⟨q, hline, hq⟩ := readQuoted_flatMap_escaped (s := s) (w := []) hpos
  refine ⟨q, hline, ?_⟩
  rw [doubleQuoted, List.cons_append, List.drop_one, List.tail_cons, List.append_assoc]
  exact hq

end IncludeMap.Yaml
