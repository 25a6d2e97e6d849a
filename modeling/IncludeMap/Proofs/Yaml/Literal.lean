import IncludeMap.Proofs.Yaml.Character

/-! # Reading literals

A text of several lines is read back from a literal. The reader goes line by line; what follows the
last line that holds something is left to the chomping, which was chosen for the text.
-/
namespace IncludeMap.Yaml

variable {c x : Char} {start p q : Place} {s rest tail u v w text margin : List Char}
  {k n widest fuel : Nat}

/-! ## Indented lines -/

theorem indented_line (hs : ∀ c ∈ s, isBreak c = false) :
    indented margin false (s ++ rest) = s ++ indented margin false rest := by
  induction s with
  | nil => rfl
  | cons c s ih =>
    have hc := hs c List.mem_cons_self
    have hrest := ih fun x hx => hs x (List.mem_cons_of_mem c hx)
    simp only [List.cons_append, indented, hc, Bool.false_eq_true, if_false, List.nil_append, hrest]

theorem indented_breaks (hu : ∀ c ∈ u, isBreak c = true) (rest : List Char) :
    indented margin true (u ++ rest) = u ++ indented margin true rest := by
  induction u with
  | nil => rfl
  | cons c u ih =>
    have hc := hu c List.mem_cons_self
    have hmore := ih fun x hx => hu x (List.mem_cons_of_mem c hx)
    simp only [List.cons_append, indented, hc, if_true, hmore]

theorem indented_fresh (hc : isBreak c = false) :
    indented margin true (c :: s) = margin ++ indented margin false (c :: s) := by
  simp [indented, hc]

theorem head?_indented (hc : isBreak c = false) (margin s rest : List Char) :
    (indented margin false (c :: s) ++ rest).head? = some c := by
  simp [indented, hc]

theorem length_le_length_indented (margin : List Char) (fresh : Bool) (s : List Char) :
    s.length ≤ (indented margin fresh s).length := by
  induction s generalizing fresh with
  | nil => exact Nat.zero_le _
  | cons c s ih =>
    have h₁ := ih true
    have h₂ := ih false
    rw [indented]
    split
    · simpa using h₁
    · simp only [List.length_append, List.length_cons]
      omega

theorem getLast?_indented (fresh : Bool) : (indented margin fresh s).getLast? = s.getLast? := by
  induction s generalizing fresh with
  | nil => rfl
  | cons c s ih =>
    rw [indented]
    split
    · rw [List.getLast?_cons, List.getLast?_cons, ih]
    · rw [List.getLast?_append, List.getLast?_cons, List.getLast?_cons, ih]
      rfl

theorem indented_ended :
    indented margin true (ended s) = ended (indented margin true s) := by
  have hlast : endsInBreak (indented margin true s) = endsInBreak s := by
    rw [endsInBreak, endsInBreak, getLast?_indented]
  have hfeed (fresh : Bool) (t : List Char) :
      indented margin fresh (t ++ ['\n']) = indented margin fresh t ++ ['\n'] := by
    induction t generalizing fresh with
    | nil => rfl
    | cons c t ih =>
      rw [List.cons_append, indented, indented]
      split <;> simp [ih]
  rw [ended, ended, hlast]
  split
  · rfl
  · exact hfeed true s

/-! ## Empty lines -/

theorem readEmptyLines_margin {indent : Nat} (h : indent = 0 ∨ p.column + k ≤ indent) :
    readEmptyLines start indent widest p (spaces k ++ rest) =
      readEmptyLines start indent widest (p.right k) rest := by
  induction k generalizing p with
  | zero => rfl
  | succ k ih =>
    have hinside : (decide (indent = 0) || decide (p.column < indent)) = true := by
      rw [Bool.or_eq_true, decide_eq_true_eq, decide_eq_true_eq]
      omega
    have hnext : indent = 0 ∨ (p.right 1).column + k ≤ indent := by
      rw [right_column]
      omega
    rw [spaces_succ, List.cons_append, readEmptyLines]
    rw [hinside, if_pos (by rfl), ih hnext, right_right, Nat.add_comm 1 k]

theorem readEmptyLines_stop {indent : Nat}
    (h : ∀ c ∈ rest.head?, isBreak c = false ∧ c ≠ '\t' ∧
      (c ≠ ' ' ∨ (indent ≠ 0 ∧ indent ≤ p.column))) :
    readEmptyLines start indent widest p rest = .ok ⟨[], max widest p.column, ⟨p, rest⟩⟩ := by
  cases rest with
  | nil => rfl
  | cons c rest =>
    obtain ⟨hbreak, htab, hspace⟩ := h c rfl
    have hinside : ((decide (indent = 0) || decide (p.column < indent)) && decide (c = ' ')) =
        false := by
      rcases hspace with hspace | ⟨hzero, hcolumn⟩
      · simp [hspace]
      · simp [hzero, Nat.not_lt.mpr hcolumn]
    rw [readEmptyLines]
    rw [hinside, if_neg (by decide), if_neg (by simp [htab]), if_neg (by simp [hbreak])]

/-- Line breaks are passed over one by one. What is found behind them does not depend on them. -/
theorem readEmptyLines_breaks {indent : Nat} (hu : ∀ c ∈ u, isPrintable c = true ∧ isBreak c = true)
    (hp : p.column = 0) :
    ∃ (q : Place) (wider : Nat), q.column = 0 ∧
      readEmptyLines start indent widest p (u ++ rest) =
        (readEmptyLines start indent wider q rest).map fun e =>
          { e with breaks := u ++ e.breaks } := by
  induction u generalizing p widest with
  | nil =>
    refine ⟨p, widest, hp, ?_⟩
    rw [List.nil_append]
    cases readEmptyLines start indent widest p rest <;> rfl
  | cons c u ih =>
    obtain ⟨hprint, hbreak⟩ := hu c List.mem_cons_self
    have hgap := isGap_of_isBreak hbreak
    simp only [isGap, Bool.or_eq_false_iff, decide_eq_false_iff_not] at hgap
    obtain ⟨q, wider, hq, hread⟩ := ih (p := ⟨p.index + 1, p.line + 1, 0⟩)
      (fun x hx => hu x (List.mem_cons_of_mem c hx)) rfl
    refine ⟨q, wider, hq, ?_⟩
    rw [List.cons_append, readEmptyLines]
    rw [if_neg (by simp [hgap.1]), if_neg (by simp [hgap.2]), if_pos hbreak,
      pass_of_isBreak hprint hbreak, breakText_eq hprint hbreak, hread]
    cases readEmptyLines start indent wider q rest <;> rfl

/-- The reader passes over empty lines up to the margin of a line that holds something, or up to the
text behind the literal. -/
theorem exists_readEmptyLines {indent : Nat}
    (hu : ∀ c ∈ u, isPrintable c = true ∧ isBreak c = true) (hp : p.column = 0)
    (hindent : 0 < indent) (hk : k ≤ indent)
    (hrest : ∀ c ∈ rest.head?, isBreak c = false ∧ c ≠ '\t' ∧ (c ≠ ' ' ∨ k = indent)) :
    ∃ e, readEmptyLines start indent widest p (u ++ (spaces k ++ rest)) = .ok e ∧
      e.breaks = u ∧ e.cursor.rest = rest ∧ e.cursor.place.column = k := by
  obtain ⟨q, wider, hq, hread⟩ := readEmptyLines_breaks hu hp
  have hstop : ∀ c ∈ rest.head?, isBreak c = false ∧ c ≠ '\t' ∧
      (c ≠ ' ' ∨ (indent ≠ 0 ∧ indent ≤ (q.right k).column)) := by
    intro c hc
    obtain ⟨hbreak, htab, hspace⟩ := hrest c hc
    refine ⟨hbreak, htab, hspace.imp_right fun hki => ?_⟩
    rw [right_column]
    omega
  rw [hread, readEmptyLines_margin (.inr (by omega)), readEmptyLines_stop hstop]
  refine ⟨_, rfl, List.append_nil u, rfl, ?_⟩
  rw [right_column, hq, Nat.zero_add]

/-- Behind the last line the reader stops at the text behind the literal. -/
theorem exists_readEmptyLines_tail (hu : ∀ c ∈ u, isPrintable c = true ∧ isBreak c = true)
    (hp : p.column = 0) (hk : k < n) (htail : StartsToken tail) :
    ∃ e, readEmptyLines start n widest p (u ++ (spaces k ++ tail)) = .ok e ∧
      e.breaks = u ∧ e.cursor.rest = tail ∧ e.cursor.place.column = k := by
  refine exists_readEmptyLines hu hp (Nat.zero_lt_of_lt hk) (Nat.le_of_lt hk) fun c hc => ?_
  obtain ⟨hbreak, htab, hspace⟩ := htail.head hc
  exact ⟨hbreak, htab, .inl hspace⟩

/-! ## Lines -/

theorem readLines_outside {literal : Bool} {indent : Nat} {before trailing : List Char}
    {blank : Bool} {c : Cursor} (hc : c.place.column ≠ indent) :
    readLines literal start indent fuel before trailing blank c =
      .ok ([], before, trailing, c) := by
  cases fuel with
  | zero => rfl
  | succ fuel =>
    rw [readLines]
    dsimp only
    rw [if_neg fun h => hc h.1]

/-- The last line of a text that holds something is `text` up to the break `x`, and only breaks are
behind it. -/
structure LastLine (v text : List Char) (x : Char) (u : List Char) : Prop where
  eq : v = text ++ x :: u
  closed : ∃ t c, text = t ++ [c] ∧ isBreak c = false
  first : isBreak x = true
  more : ∀ c ∈ u, isBreak c = true

theorem LastLine.of_line (hline : ∀ c ∈ s, isBreak c = false) (hne : s ≠ [])
    (hx : isBreak x = true) (hu : ∀ c ∈ u, isBreak c = true) (w : List Char) :
    LastLine (w ++ (s ++ x :: u)) (w ++ s) x u where
  eq := by rw [List.append_assoc]
  closed := by
    refine ⟨w ++ s.dropLast, s.getLast hne, ?_, hline _ (List.getLast_mem hne)⟩
    rw [List.append_assoc, List.dropLast_concat_getLast hne]
  first := hx
  more := hu

theorem LastLine.prepend (h : LastLine v text x u) (w : List Char) :
    LastLine (w ++ v) (w ++ text) x u where
  eq := by rw [h.eq, List.append_assoc]
  closed := by
    obtain ⟨t, c, rfl, hc⟩ := h.closed
    exact ⟨w ++ t, c, (List.append_assoc w t [c]).symm, hc⟩
  first := h.first
  more := h.more

/-- One line is read, and the empty lines behind it. -/
theorem readLines_succ {before trailing line : List Char} {blank : Bool}
    (hline : ∀ c ∈ line, isBreak c = false) (hne : line ≠ []) (hq : q.column = n)
    (hx : isPrintable x = true) (hbreak : isBreak x = true) {e : EmptyLines}
    (he : readEmptyLines start n 0 ⟨q.index + line.length + 1, q.line + 1, 0⟩ rest = .ok e) :
    ∃ blank', readLines true start n (fuel + 1) before trailing blank ⟨q, line ++ x :: rest⟩ =
      (readLines true start n fuel [x] e.breaks blank' e.cursor).map
        fun (text, before', trailing', c) =>
          (before ++ trailing ++ line ++ text, before', trailing', c) := by
  have htake : (line ++ x :: rest).takeWhile (!isBreak ·) = line := by
    rw [List.takeWhile_append_of_pos (by simpa using hline), List.takeWhile_cons]
    simp [hbreak]
  have hdrop : (line ++ x :: rest).dropWhile (!isBreak ·) = x :: rest := by
    rw [List.dropWhile_append_of_pos (by simpa using hline), List.dropWhile_cons]
    simp [hbreak]
  have hafter : Cursor.skipBreak ⟨q.right line.length, x :: rest⟩ =
      ⟨⟨q.index + line.length + 1, q.line + 1, 0⟩, rest⟩ := by
    rw [Cursor.skipBreak]
    simp only [isHalfBreak_eq_false hx, hbreak, pass_of_isBreak hx hbreak, Place.right]
    rfl
  have hnext : nextBreak (x :: rest) = [x] := by
    simp only [nextBreak, isHalfBreak_eq_false hx, hbreak, breakText_eq hx hbreak]
    rfl
  refine ⟨line.head?.any isGap, ?_⟩
  rw [readLines]
  simp only [Cursor.span, htake, hdrop, hafter, hnext, he]
  rw [if_pos ⟨hq, hne⟩]
  rfl

theorem endsInBreak_append_cons : endsInBreak (s ++ c :: rest) = endsInBreak (c :: rest) := by
  rw [endsInBreak, endsInBreak, List.getLast?_append, List.getLast?_cons]
  rfl

theorem exists_line (hw : endsInBreak w = true) :
    ∃ line x r, w = line ++ x :: r ∧ (∀ c ∈ line, isBreak c = false) ∧ isBreak x = true := by
  induction w with
  | nil => cases hw
  | cons c w ih =>
    by_cases hc : isBreak c = true
    · exact ⟨[], c, w, rfl, nofun, hc⟩
    · have hw' : endsInBreak w = true := by
        cases w with
        | nil => exact absurd hw (by simpa [endsInBreak] using hc)
        | cons d w => simpa [endsInBreak, List.getLast?_cons_cons] using hw
      obtain ⟨line, x, r, rfl, hline, hx⟩ := ih hw'
      refine ⟨c :: line, x, r, rfl, ?_, hx⟩
      intro d hd
      rcases List.mem_cons.mp hd with rfl | hd
      · simpa using hc
      · exact hline d hd

theorem exists_breaks (w : List Char) :
    ∃ u v, w = u ++ v ∧ (∀ c ∈ u, isBreak c = true) ∧ ∀ c ∈ v.head?, isBreak c = false := by
  induction w with
  | nil => exact ⟨[], [], rfl, nofun, nofun⟩
  | cons c w ih =>
    by_cases hc : isBreak c = true
    · obtain ⟨u, v, rfl, hu, hv⟩ := ih
      refine ⟨c :: u, v, rfl, ?_, hv⟩
      intro d hd
      rcases List.mem_cons.mp hd with rfl | hd
      · exact hc
      · exact hu d hd
    · refine ⟨[], c :: w, rfl, nofun, ?_⟩
      intro d hd
      obtain rfl : c = d := by simpa using hd
      simpa using hc

/-- The induction is on the number of lines, which the fuel bounds. -/
theorem exists_readLines (hk : k < n) (htail : StartsToken tail)
    (hprint : ∀ c ∈ w, isPrintable c = true) (hne : w ≠ [])
    (hhead : ∀ c ∈ w.head?, isBreak c = false) (hend : endsInBreak w = true)
    (hfuel : w.length ≤ fuel) (hq : q.column = n) (before trailing : List Char) (blank : Bool) :
    ∃ text x u r, readLines true start n fuel before trailing blank
        ⟨q, indented (spaces n) false w ++ (spaces k ++ tail)⟩ = .ok (text, [x], u, r) ∧
      r.rest = tail ∧ r.place.column = k ∧ LastLine (before ++ trailing ++ w) text x u := by
  induction fuel generalizing w q before trailing blank with
  | zero =>
    obtain rfl : w = [] := List.eq_nil_of_length_eq_zero (Nat.le_zero.mp hfuel)
    exact absurd rfl hne
  | succ fuel ih =>
    obtain ⟨line, x, r, rfl, hline, hx⟩ := exists_line hend
    obtain ⟨u, v, rfl, hu, hv⟩ := exists_breaks r
    have hlne : line ≠ [] := by
      rintro rfl
      exact absurd hx (by simp [hhead x rfl])
    have hxp : isPrintable x = true := hprint x (by simp)
    have hup : ∀ c ∈ u, isPrintable c = true ∧ isBreak c = true := fun c hc =>
      ⟨hprint c (by simp [hc]), hu c hc⟩
    have hshape : indented (spaces n) false (line ++ x :: (u ++ v)) ++ (spaces k ++ tail) =
        line ++ x :: (u ++ (indented (spaces n) true v ++ (spaces k ++ tail))) := by
      rw [indented_line hline, indented, if_pos hx, indented_breaks hu]
      simp
    rw [hshape]
    cases v with
    | nil =>
      obtain ⟨e, he, hebreaks, herest, hecolumn⟩ := exists_readEmptyLines_tail
        (p := ⟨q.index + line.length + 1, q.line + 1, 0⟩) hup rfl hk htail
      obtain ⟨blank', hread⟩ := readLines_succ hline hlne hq hxp hx he
      have hout : e.cursor.place.column ≠ n := by omega
      refine ⟨before ++ trailing ++ line, x, u, e.cursor, ?_, herest, hecolumn, ?_⟩
      · rw [indented, List.nil_append, hread, readLines_outside hout, hebreaks]
        simp [Except.map]
      · rw [List.append_nil]
        exact .of_line hline hlne hx hu (before ++ trailing)
    | cons c v =>
      have hc : isBreak c = false := hv c rfl
      have htab : c ≠ '\t' := by
        rintro rfl
        exact absurd (hprint '\t' (by simp)) (by decide)
      have hstop : ∀ d ∈ (indented (spaces n) false (c :: v) ++ (spaces k ++ tail)).head?,
          isBreak d = false ∧ d ≠ '\t' ∧ (d ≠ ' ' ∨ n = n) := by
        rw [head?_indented hc]
        rintro d ⟨⟩
        exact ⟨hc, htab, .inr rfl⟩
      obtain ⟨e, he, hebreaks, herest, hecolumn⟩ := exists_readEmptyLines
        (p := ⟨q.index + line.length + 1, q.line + 1, 0⟩) hup rfl
        (Nat.zero_lt_of_lt hk) (Nat.le_refl n) hstop
      obtain ⟨blank', hread⟩ := readLines_succ hline hlne hq hxp hx he
      have hlength : (c :: v).length ≤ fuel := by
        have hpos := List.length_pos_iff.mpr hlne
        simp only [List.length_append, List.length_cons] at hfuel ⊢
        omega
      have hend' : endsInBreak (c :: v) = true := by
        rw [← hend, endsInBreak_append_cons, ← List.cons_append, endsInBreak_append_cons]
      obtain ⟨text, y, z, t, hrest, htrest, htcolumn, hlast⟩ := ih (w := c :: v)
        (q := e.cursor.place) (fun d hd => hprint d (by simp [hd])) (List.cons_ne_nil c v) hv hend'
        hlength hecolumn [x] e.breaks blank'
      have hcursor : (⟨e.cursor.place, e.cursor.rest⟩ : Cursor) = e.cursor := rfl
      rw [← herest, hcursor] at hrest
      refine ⟨before ++ trailing ++ line ++ text, y, z, t, ?_, htrest, htcolumn, ?_⟩
      · rw [indented_fresh hc, List.append_assoc, hread, hrest]
        rfl
      · have hwhole : before ++ trailing ++ (line ++ x :: (u ++ c :: v)) =
            before ++ trailing ++ line ++ ([x] ++ e.breaks ++ c :: v) := by
          simp [hebreaks]
        rw [hwhole]
        exact hlast.prepend _

/-! ## The header and the end -/

def literalIncrement (s : List Char) : Nat :=
  if s.head?.any fun c => isSpace c || isBreak c then nesting else 0

theorem readHeader_signs (start p : Place) (s rest : List Char) (chomping : Chomping) :
    ∃ q, readHeader start ⟨p, depthSign s ++ chomping.sign ++ '\n' :: rest⟩ =
      .ok (⟨chomping, literalIncrement s⟩, ⟨q, '\n' :: rest⟩) := by
  unfold depthSign literalIncrement
  split
  · cases chomping
    · exact ⟨p.right 1, rfl⟩
    · exact ⟨(p.right 1).right 1, rfl⟩
    · exact ⟨(p.right 1).right 1, rfl⟩
  · cases chomping
    · exact ⟨p, rfl⟩
    · exact ⟨p.right 1, rfl⟩
    · exact ⟨p.right 1, rfl⟩

/-- The end that the chomping keeps. -/
def Chomping.kept (chomping : Chomping) (before trailing : List Char) : List Char :=
  match chomping with
  | .strip => []
  | .clip => before
  | .keep => before ++ trailing

theorem chompingOf_concat (t : List Char) (c : Char) :
    chompingOf (t ++ [c]) =
      if isBreak c then if t.getLast?.all isBreak then .keep else .clip else .strip := by
  simp [chompingOf]

/-- The chomping of a text keeps as much of the end as the text has. -/
theorem LastLine.append_kept (h : LastLine (ended s) text x u) :
    text ++ (chompingOf s).kept [x] u = s := by
  obtain ⟨heq, ⟨t, c, rfl, hc⟩, hx, hu⟩ := h
  unfold ended at heq
  split at heq
  · rcases List.eq_nil_or_concat u with rfl | ⟨u, y, rfl⟩
    · rw [heq, chompingOf_concat, if_pos hx]
      simp [hc, Chomping.kept]
    · rw [List.concat_eq_append] at heq hu
      have hy : isBreak y = true := hu y (by simp)
      have hlast : (t ++ [c] ++ x :: u).getLast?.all isBreak = true := by
        rw [List.getLast?_append, List.getLast?_cons]
        cases hl : u.getLast? with
        | none => simpa using hx
        | some z => simpa using hu z (List.mem_append_left _ (List.mem_of_getLast? hl))
      have hs : s = t ++ [c] ++ x :: u ++ [y] := by simp [heq]
      rw [hs, chompingOf_concat, if_pos hy, if_pos hlast]
      simp [Chomping.kept]
  · next hend =>
    rcases List.eq_nil_or_concat u with rfl | ⟨u, y, rfl⟩
    · obtain ⟨rfl, -⟩ := List.append_inj' heq rfl
      rw [chompingOf_concat, if_neg (by simp [hc])]
      simp [Chomping.kept]
    · rw [List.concat_eq_append, ← List.cons_append, ← List.append_assoc] at heq
      obtain ⟨rfl, -⟩ := List.append_inj' heq rfl
      refine absurd ?_ hend
      rw [endsInBreak, List.getLast?_append, List.getLast?_cons]
      cases hl : u.getLast? with
      | none => simpa using hx
      | some z =>
        simpa using hu z (by simp [List.mem_of_getLast? hl])

/-- A text of nothing but breaks is all end. -/
theorem chompingOf_breaks (hs : ∀ c ∈ s, isBreak c = true) (hne : s ≠ []) :
    chompingOf s = .keep := by
  rcases List.eq_nil_or_concat s with rfl | ⟨t, c, rfl⟩
  · exact absurd rfl hne
  · rw [List.concat_eq_append] at hs ⊢
    have hlast : t.getLast?.all isBreak = true := by
      cases hl : t.getLast? with
      | none => rfl
      | some z => simpa using hs z (List.mem_append_left _ (List.mem_of_getLast? hl))
    rw [chompingOf_concat, if_pos (hs c (by simp)), if_pos hlast]

/-! ## Whole literals -/

theorem ended_append (ht : text ≠ []) : ended (s ++ text) = s ++ ended text := by
  cases text with
  | nil => exact absurd rfl ht
  | cons c t =>
    rw [ended, ended, endsInBreak_append_cons]
    split
    · rfl
    · rw [List.append_assoc]

theorem ended_literal (hs : s ≠ []) :
    ended (literal margin s) =
      '|' :: (depthSign s ++ (chompingOf s).sign ++ '\n' :: indented margin true (ended s)) := by
  have hne : indented margin true s ≠ [] := by
    intro h
    have := length_le_length_indented margin true s
    rw [h, List.length_nil, Nat.le_zero] at this
    exact hs (List.eq_nil_of_length_eq_zero this)
  have hsplit : literal margin s =
      ('|' :: (depthSign s ++ (chompingOf s).sign ++ ['\n'])) ++ indented margin true s := by
    simp [literal]
  rw [hsplit, ended_append hne, ← indented_ended]
  simp

theorem printable_ended (hs : ∀ c ∈ s, isPrintable c = true) :
    ∀ c ∈ ended s, isPrintable c = true := by
  intro c hc
  unfold ended at hc
  split at hc
  · exact hs c hc
  · rcases List.mem_append.mp hc with hc | hc
    · exact hs c hc
    · obtain rfl : c = '\n' := by simpa using hc
      decide

theorem mem_ended (hc : c ∈ s) : c ∈ ended s := by
  unfold ended
  split
  · exact hc
  · exact List.mem_append_left _ hc

theorem endsInBreak_ended (s : List Char) : endsInBreak (ended s) = true := by
  unfold ended
  split
  · assumption
  · exact endsInBreak_append_cons (s := s) (c := '\n')

theorem ended_of_breaks (hs : ∀ c ∈ s, isBreak c = true) (hne : s ≠ []) : ended s = s := by
  have hend : endsInBreak s = true := by
    rw [endsInBreak, List.getLast?_eq_some_getLast hne]
    exact hs _ (List.getLast_mem hne)
  rw [ended, if_pos hend]

theorem readBlock_of_lines {outer : Nat} {header : BlockHeader} {e : EmptyLines} {q : Place}
    {before trailing : List Char} {r : Cursor}
    (hheader : readHeader start ⟨p, s⟩ = .ok (header, ⟨q, '\n' :: rest⟩))
    (hempty : readEmptyLines start (if header.increment = 0 then 0
      else blockIndent outer header.increment 0) 0 ⟨q.index + 1, q.line + 1, 0⟩ rest = .ok e)
    (hlines : readLines true start (blockIndent outer header.increment e.widest)
      (e.cursor.rest.length + 1) [] e.breaks false e.cursor = .ok (text, before, trailing, r)) :
    readBlock true outer start ⟨p, s⟩ = .ok (text ++ header.chomping.kept before trailing, r) := by
  have hcomment : Cursor.skipComment ⟨q, '\n' :: rest⟩ = ⟨q, '\n' :: rest⟩ := rfl
  have hskip : Cursor.skipBreak ⟨q, '\n' :: rest⟩ = ⟨⟨q.index + 1, q.line + 1, 0⟩, rest⟩ := rfl
  have hcheck : (!endsWord ('\n' :: rest) || Cursor.sees ⟨q, '\n' :: rest⟩ isGap) = false := rfl
  rw [readBlock]
  simp only [hheader, hcomment, hskip, hcheck, hempty, hlines, bind, Except.bind,
    Bool.false_eq_true, if_false]
  rfl

theorem blockIndent_nesting (outer widest : Nat) :
    blockIndent outer nesting widest = outer + nesting := rfl

/-- The depth is read off the first line that holds something, where the header does not give it. -/
theorem exists_readEmptyLines_first {outer increment : Nat}
    (hu : ∀ c ∈ u, isPrintable c = true ∧ isBreak c = true) (hp : p.column = 0)
    (hrest : ∀ c ∈ rest.head?, isBreak c = false ∧ c ≠ '\t')
    (hinc : increment = nesting ∨ (increment = 0 ∧ u = [] ∧ ∀ c ∈ rest.head?, c ≠ ' ')) :
    ∃ e, readEmptyLines start (if increment = 0 then 0 else blockIndent outer increment 0) 0 p
        (u ++ (spaces (outer + nesting) ++ rest)) = .ok e ∧
      e.breaks = u ∧ e.cursor.rest = rest ∧ e.cursor.place.column = outer + nesting ∧
      blockIndent outer increment e.widest = outer + nesting := by
  rcases hinc with rfl | ⟨rfl, rfl, hspace⟩
  · have hstop : ∀ c ∈ rest.head?, isBreak c = false ∧ c ≠ '\t' ∧
        (c ≠ ' ' ∨ outer + nesting = outer + nesting) := fun c hc =>
      ⟨(hrest c hc).1, (hrest c hc).2, .inr rfl⟩
    obtain ⟨e, he, hbreaks, herest, hcolumn⟩ :=
      exists_readEmptyLines hu hp (Nat.succ_pos _) (Nat.le_refl (outer + nesting)) hstop
    exact ⟨e, he, hbreaks, herest, hcolumn, blockIndent_nesting outer e.widest⟩
  · have hstop : ∀ c ∈ rest.head?, isBreak c = false ∧ c ≠ '\t' ∧
        (c ≠ ' ' ∨ ((0 : Nat) ≠ 0 ∧ 0 ≤ (p.right (outer + nesting)).column)) := fun c hc =>
      ⟨(hrest c hc).1, (hrest c hc).2, .inl (hspace c hc)⟩
    refine ⟨⟨[], max 0 (p.right (outer + nesting)).column, ⟨p.right (outer + nesting), rest⟩⟩, ?_,
      rfl, rfl, ?_, ?_⟩
    · rw [if_pos rfl, List.nil_append, readEmptyLines_margin (.inl rfl), readEmptyLines_stop hstop]
    · rw [right_column, hp, Nat.zero_add]
    · rw [blockIndent, if_neg (by decide), right_column, hp, nesting]
      dsimp only
      omega

theorem literalIncrement_cases (hne : s ≠ []) (hsplit : ended s = u ++ v)
    (hu : ∀ c ∈ u, isBreak c = true) :
    literalIncrement s = nesting ∨
      (literalIncrement s = 0 ∧ u = [] ∧ ∀ c ∈ v.head?, c ≠ ' ') := by
  cases s with
  | nil => exact absurd rfl hne
  | cons d s =>
    unfold literalIncrement
    split
    · exact .inl rfl
    · next hd =>
      have hd : isSpace d = false ∧ isBreak d = false := by simpa using hd
      have hhead : (u ++ v).head? = some d := by
        rw [← hsplit, ended]
        split <;> rfl
      cases u with
      | cons b u =>
        obtain rfl : b = d := by simpa using hhead
        exact absurd (hu b List.mem_cons_self) (by simp [hd.2])
      | nil =>
        refine .inr ⟨rfl, rfl, fun c hc => ?_⟩
        obtain rfl : d = c := by
          rw [List.nil_append] at hhead
          rw [hhead] at hc
          simpa using hc
        simpa [isSpace] using hd.1

/-- A literal of nothing but breaks ends with its empty lines. -/
theorem readBlock_breaks (start p : Place) {outer : Nat}
    (hs : ∀ c ∈ s, isPrintable c = true ∧ isBreak c = true) (hne : s ≠ [])
    (hk : k < outer + nesting) (htail : StartsToken tail) :
    ∃ r, readBlock true outer start
        ⟨p, depthSign s ++ (chompingOf s).sign ++ '\n' :: (s ++ (spaces k ++ tail))⟩ =
        .ok (s, r) ∧ r.rest = tail ∧ r.place.column = k := by
  obtain ⟨q, hheader⟩ := readHeader_signs start p s (s ++ (spaces k ++ tail)) (chompingOf s)
  have hincrement : literalIncrement s = nesting := by
    obtain ⟨d, t, rfl⟩ := List.exists_cons_of_ne_nil hne
    simp [literalIncrement, (hs d List.mem_cons_self).2]
  obtain ⟨e, he, hebreaks, herest, hecolumn⟩ := exists_readEmptyLines_tail
    (p := ⟨q.index + 1, q.line + 1, 0⟩) hs rfl hk htail
  have hout : e.cursor.place.column ≠ outer + nesting := by omega
  have hlines : readLines true start (blockIndent outer (literalIncrement s) e.widest)
      (e.cursor.rest.length + 1) [] e.breaks false e.cursor = .ok ([], [], s, e.cursor) := by
    rw [hincrement, blockIndent_nesting, readLines_outside hout, hebreaks]
  refine ⟨e.cursor, ?_, herest, hecolumn⟩
  rw [readBlock_of_lines hheader ?_ hlines, chompingOf_breaks (fun c hc => (hs c hc).2) hne]
  · rfl
  · rw [hincrement]
    exact he

theorem readBlock_literal (start p : Place) {outer : Nat} (hs : allowsLiteral s = true)
    (hne : s ≠ []) (hk : k ≤ outer) (htail : StartsToken tail) :
    ∃ r, readBlock true outer start
        ⟨p, (ended (literal (spaces (outer + nesting)) s)).drop 1 ++ (spaces k ++ tail)⟩ =
        .ok (s, r) ∧ r.rest = tail ∧ r.place.column = k := by
  have hprint : ∀ c ∈ ended s, isPrintable c = true := by
    simp only [allowsLiteral, Bool.and_eq_true, List.all_eq_true] at hs
    exact printable_ended hs.1.1
  have hk' : k < outer + nesting := Nat.lt_succ_of_le (Nat.le_succ_of_le hk)
  obtain ⟨u, v, hsplit, hu, hv⟩ := exists_breaks (ended s)
  rw [ended_literal hne, List.drop_one, List.tail_cons, List.append_assoc, List.cons_append, hsplit,
    indented_breaks hu]
  -- The breaks at the beginning have no margin; a text may hold nothing else.
  cases v with
  | nil =>
    rw [List.append_nil] at hsplit
    have hbreaks : ∀ c ∈ s, isBreak c = true := fun c hc => hu c (hsplit ▸ mem_ended hc)
    obtain rfl : s = u := (ended_of_breaks hbreaks hne).symm.trans hsplit
    rw [indented, List.append_nil]
    exact readBlock_breaks start p
      (fun c hc => ⟨hprint c (mem_ended hc), hbreaks c hc⟩) hne hk' htail
  | cons c v =>
    have hup : ∀ c ∈ u, isPrintable c = true ∧ isBreak c = true := fun c hc =>
      ⟨hprint c (by simp [hsplit, hc]), hu c hc⟩
    have hc : isBreak c = false := hv c rfl
    have htab : c ≠ '\t' := by
      rintro rfl
      exact absurd (hprint '\t' (by simp [hsplit])) (by decide)
    have hfirst := head?_indented hc (spaces (outer + nesting)) v (spaces k ++ tail)
    have hinc := literalIncrement_cases hne hsplit hu
    obtain ⟨q, hheader⟩ := readHeader_signs start p s
      (u ++ indented (spaces (outer + nesting)) true (c :: v) ++ (spaces k ++ tail)) (chompingOf s)
    obtain ⟨e, he, hbreaks, herest, hcolumn, hindent⟩ := exists_readEmptyLines_first
      (p := ⟨q.index + 1, q.line + 1, 0⟩) hup rfl
      (by rw [hfirst]; rintro d ⟨⟩; exact ⟨hc, htab⟩) (by rw [hfirst]; exact hinc)
    have hend : endsInBreak (c :: v) = true := by
      rw [← endsInBreak_append_cons (s := u), ← hsplit, endsInBreak_ended]
    have hlength : (c :: v).length ≤ e.cursor.rest.length + 1 := by
      have := length_le_length_indented (spaces (outer + nesting)) false (c :: v)
      rw [herest, List.length_append]
      omega
    have hvprint : ∀ d ∈ c :: v, isPrintable d = true := fun d hd =>
      hprint d (hsplit ▸ List.mem_append_right u hd)
    obtain ⟨text, x, t, r, hlines, hrest, hrcolumn, hlast⟩ := exists_readLines (w := c :: v) hk'
      htail hvprint (List.cons_ne_nil c v) hv hend hlength hcolumn [] u false
    rw [List.nil_append, ← hsplit] at hlast
    refine ⟨r, ?_, hrest, hrcolumn⟩
    rw [readBlock_of_lines hheader (e := e) (r := r), hlast.append_kept]
    · rw [indented_fresh hc, List.append_assoc, List.append_assoc]
      exact he
    · rw [hindent, hbreaks, ← hlines, ← herest]

end IncludeMap.Yaml
