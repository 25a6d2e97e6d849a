import IncludeMap.Proofs.Yaml.Scanner

/-! # The tokens of written pieces

A dash, a key with its colon, an empty list and each of the written forms of a scalar lead a scanner
from the point before them to the point behind them.
-/
namespace IncludeMap.Yaml

def scalarKind (s : List Char) : Kind := .scalar s (decide (styleOf s = .plain))

namespace Scanner

variable {p q : Place} {s rest tail : List Char} {allowed : Bool} {k : Nat} {indent : Int}
  {outer : List Int} {tokens : List Token} {key : Option PossibleKey} {kinds : List Kind}

/-! ## Entries -/

theorem isDocumentMark_dash (rest : List Char) : isDocumentMark ('-' :: ' ' :: rest) = false := by
  cases rest <;> simp [isDocumentMark]

theorem leads_blockEntry (h : StartsToken rest) :
    Leads ⟨'-' :: ' ' :: rest, 0, 0, outer, true, kinds⟩
      ⟨rest, 2, 0, outer, true, .blockEntry :: kinds⟩ := by
  intro s hs
  refine hs.step fun p tokens hcolumn hkinds => ?_
  simp only at hcolumn hkinds
  have htake : (outside none p ('-' :: ' ' :: rest) 0 outer true tokens).takeToken =
      .ok (outside none (p.right 1) (' ' :: rest) 0 outer true (⟨.blockEntry, p⟩ :: tokens)) := by
    simp [takeToken, outside, place, isDocumentMark_dash, endsWord, isGap, takeBlockEntry, inFlow,
      rollIndent, hcolumn, dropKey, Except.map, take, add, allowKey, Cursor.skip]
  refine ⟨outside none (p.right 1) (spaces 1 ++ rest) 0 outer true (⟨.blockEntry, p⟩ :: tokens), ?_,
    by simp [outside, spaces], ?_⟩
  · rw [htake]
    rfl
  · refine (reaches_spaces h ?_ ?_).at (by simp)
    · rw [right_column, hcolumn]
    · rw [List.map_cons, hkinds]

/-! ## Plain scalars begin -/

theorem ne_of_opener {c d : Char} (hc : openers.contains c = false)
    (hd : openers.contains d = true) : c ≠ d := by
  rintro rfl
  rw [hc] at hd
  cases hd

theorem beginsPlain_of_ne_opener {c : Char} (hopen : openers.contains c = false)
    (hgap : isGap c = false) (hbreak : isBreak c = false)
    (hword : c = '-' ∨ c = '?' ∨ c = ':' → endsWord rest = false) :
    beginsPlain false c rest = true := by
  by_cases hc : c = '-' ∨ c = '?' ∨ c = ':'
  · have hends := hword hc
    rcases hc with rfl | rfl | rfl
    · have hhead : rest.head?.any isGap = false := by
        cases rest with
        | nil => rfl
        | cons d rest =>
          simp only [endsWord, Bool.or_eq_false_iff] at hends
          exact hends.1
      simp [beginsPlain, hhead]
    · simp [beginsPlain, hends]
    · simp [beginsPlain, hends]
  · have hall : (indicators.all fun d =>
        openers.contains d || d = '-' || d = '?' || d = ':') = true := by decide
    have hmem : indicators.contains c = false := by
      rw [Bool.eq_false_iff]
      intro hmem
      have hind := List.all_eq_true.mp hall c (List.contains_iff_mem.mp hmem)
      rw [hopen] at hind
      exact hc (by simpa [or_assoc] using hind)
    simp only [beginsPlain, hgap, hbreak, hmem, Bool.not_false, Bool.and_self, Bool.true_or]

theorem takeToken_plain {c : Char} (hopen : openers.contains c = false) (hgap : isGap c = false)
    (hbreak : isBreak c = false) (hword : c = '-' ∨ c = '?' ∨ c = ':' → endsWord rest = false)
    (hmark : p.column = 0 → isDocumentMark (c :: rest) = false) :
    (outside key p (c :: rest) indent outer allowed tokens).takeToken =
      (outside key p (c :: rest) indent outer allowed tokens).takePlain := by
  have hne (d : Char) (hd : openers.contains d = true) : c ≠ d := ne_of_opener hopen hd
  have hplain := beginsPlain_of_ne_opener hopen hgap hbreak hword
  have hends (d : Char) (hd : d = '-' ∨ d = '?' ∨ d = ':') :
      (decide (c = d) && endsWord rest) = false := by
    by_cases h : c = d
    · simp [hword (h ▸ hd)]
    · simp [h]
  have hfirst : (decide (p.column = 0) && isDocumentMark (c :: rest)) = false := by
    by_cases h : p.column = 0
    · simp [hmark h]
    · simp [h]
  have hflow : (outside key p (c :: rest) indent outer allowed tokens).inFlow = false := rfl
  have hplace : (outside key p (c :: rest) indent outer allowed tokens).place = p := rfl
  have hrest : (outside key p (c :: rest) indent outer allowed tokens).cursor.rest = c :: rest :=
    rfl
  simp only [takeToken, hrest, hflow, hplace, hfirst, hends '-' (by decide),
    hends '?' (by decide), hends ':' (by decide), hplain,
    hne '%' (by decide), hne '[' (by decide), hne '\x7b' (by decide), hne ']' (by decide),
    hne '\x7d' (by decide), hne ',' (by decide), hne '*' (by decide), hne '&' (by decide),
    hne '!' (by decide), hne '|' (by decide), hne '>' (by decide), hne '\'' (by decide),
    hne '"' (by decide), decide_false, Bool.and_false, Bool.false_and, Bool.false_or,
    Bool.false_eq_true, if_false, if_true]

/-! ## Keys -/

/-- The levels behind a key in the column `k`: a mapping begins if the column is deeper than that of
the innermost block. -/
def behindKey (k : Nat) (indent : Int) (outer : List Int) (name : List Char) (kinds : List Kind) :
    Int × List Int × List Kind :=
  if indent < k then
    (k, indent :: outer, .value :: .scalar name true :: .key :: .blockMappingStart :: kinds)
  else (indent, outer, .value :: .scalar name true :: .key :: kinds)

theorem dropStale_name {name : List Char} (hname : name.length ≤ 1024) {required : Bool}
    {number : Nat} :
    (outside (some ⟨required, number, p⟩) (p.right name.length) rest indent outer allowed
      tokens).dropStale =
      .ok (outside (some ⟨required, number, p⟩) (p.right name.length) rest indent outer allowed
        tokens) := by
  have hstale : isStale (p.right name.length) ⟨required, number, p⟩ = false := by
    simp [isStale, Place.right, hname]
  simp [dropStale, outside, freshKey, place, hstale, bind, Except.bind, pure, Except.pure]

/-- A name is a plain scalar, and a key may begin at it. -/
theorem takeToken_name {name : List Char} (hname : IsName name) (hrest : endsWord rest = true) :
    ∃ required, (outside none p (name ++ ':' :: rest) indent outer true tokens).takeToken =
      .ok (outside (some ⟨required, tokens.length, p⟩) (p.right name.length)
        (':' :: rest) indent outer false (⟨.scalar name true, p⟩ :: tokens)) := by
  have hread : readPlain false (indent + 1) p p .empty (name ++ ':' :: rest) =
      .ok ⟨name, false, ⟨p.right name.length, ':' :: rest⟩⟩ := readPlain_name hname.letters hrest
  obtain ⟨c, t, rfl⟩ := List.exists_cons_of_ne_nil hname.nonempty
  have hc := hname.letters c List.mem_cons_self
  have hne (d : Char) (hd : d.isAlpha = false ∧ d ≠ '_') : c ≠ d := ne_of_letter hc hd
  have hopen : openers.contains c = false := by
    have hall : (openers.all fun d => !d.isAlpha && d != '_') = true := by decide
    rw [Bool.eq_false_iff]
    intro hmem
    have hother := List.all_eq_true.mp hall c (List.contains_iff_mem.mp hmem)
    exact hne c (by simpa using hother) rfl
  have hword : c = '-' ∨ c = '?' ∨ c = ':' → endsWord (t ++ ':' :: rest) = false := by
    rintro (h | h | h)
    · exact absurd h (hne '-' (by decide))
    · exact absurd h (hne '?' (by decide))
    · exact absurd h (hne ':' (by decide))
  rw [List.cons_append] at hread ⊢
  rw [takeToken_plain hopen (isGap_of_letter hc) (isBreak_of_letter hc) hword fun _ =>
    isDocumentMark_eq_false (hne '-' (by decide)) (hne '.' (by decide)) _]
  have hsave : (outside none p (c :: (t ++ ':' :: rest)) indent outer true tokens).saveKey =
      .ok (outside (some ⟨decide (indent = p.column), tokens.length, p⟩) p (c :: (t ++ ':' :: rest))
        indent outer true tokens) := rfl
  refine ⟨decide (indent = p.column), ?_⟩
  rw [takePlain, hsave]
  simp only [bind, Except.bind]
  simp only [outside, place, inFlow, List.isEmpty_nil, Bool.not_true, hread]
  rfl

/-- The colon makes a key of the scalar before it. -/
theorem takeToken_colon {name : List Char} {required : Bool} (hrest : endsWord rest = true) :
    ∃ tokens', (outside (some ⟨required, tokens.length, p⟩) q (':' :: rest) indent outer false
        (⟨.scalar name true, p⟩ :: tokens)).takeToken =
        .ok (outside none (q.right 1) rest
          (behindKey p.column indent outer name (tokens.map Token.kind)).1
          (behindKey p.column indent outer name (tokens.map Token.kind)).2.1 false tokens') ∧
      tokens'.map Token.kind =
        (behindKey p.column indent outer name (tokens.map Token.kind)).2.2 := by
  have hmark := isDocumentMark_eq_false (c := ':') (by decide) (by decide) rest
  by_cases hlt : indent < p.column
  · refine ⟨⟨.value, q⟩ :: ⟨.scalar name true, p⟩ :: ⟨.key, p⟩ :: ⟨.blockMappingStart, p⟩ :: tokens,
      ?_, ?_⟩
    · have htwo : tokens.length + 1 + 1 - tokens.length = 2 := by omega
      simp [takeToken, outside, place, hmark, hrest, takeValue, inFlow, insert, rollIndent, hlt,
        take, add, allowKey, Cursor.skip, behindKey, htwo]
    · simp [behindKey, hlt]
  · refine ⟨⟨.value, q⟩ :: ⟨.scalar name true, p⟩ :: ⟨.key, p⟩ :: tokens, ?_, ?_⟩
    · simp [takeToken, outside, place, hmark, hrest, takeValue, inFlow, insert, rollIndent, hlt,
        take, add, allowKey, Cursor.skip, behindKey]
    · simp [behindKey, hlt]

theorem next_colon {name : List Char} {required : Bool} (hname : name.length ≤ 1024)
    (hrest : endsWord rest = true) (hle : indent ≤ p.column) :
    ∃ tokens', (outside (some ⟨required, tokens.length, p⟩) (p.right name.length) (':' :: rest)
        indent outer false (⟨.scalar name true, p⟩ :: tokens)).next =
        .ok (outside none ((p.right name.length).right 1) rest
          (behindKey p.column indent outer name (tokens.map Token.kind)).1
          (behindKey p.column indent outer name (tokens.map Token.kind)).2.1 false tokens') ∧
      tokens'.map Token.kind =
        (behindKey p.column indent outer name (tokens.map Token.kind)).2.2 := by
  obtain ⟨tokens', htake, hkinds⟩ := takeToken_colon (p := p) (q := p.right name.length) hrest
  refine ⟨tokens', ?_, hkinds⟩
  have hle' : indent ≤ (p.right name.length).column := by
    rw [right_column]
    omega
  rw [next_eq, aligned_outside (startsToken_cons.mpr (by decide)) (dropStale_name hname) hle']
  rw [Except.bind, htake]
  rfl

theorem At.exists_key {s : Scanner} {name : List Char}
    (h : s.At ⟨name ++ ':' :: rest, k, indent, outer, true, kinds⟩) (hname : IsName name)
    (hrest : endsWord rest = true) (hk : indent ≤ k) :
    ∃ q tokens, Reads s (outside none q rest (behindKey k indent outer name kinds).1
        (behindKey k indent outer name kinds).2.1 false tokens) ∧
      q.column = k + name.length + 1 ∧
      tokens.map Token.kind = (behindKey k indent outer name kinds).2.2 := by
  obtain ⟨t, hst, p, tokens, required, rfl, rfl, rfl⟩ := h.step (Q := fun t =>
    ∃ (p : Place) (tokens : List Token) (required : Bool),
      t = outside (some ⟨required, tokens.length, p⟩) (p.right name.length) (':' :: rest) indent
        outer false (⟨.scalar name true, p⟩ :: tokens) ∧
      p.column = k ∧ tokens.map Token.kind = kinds) (by
    intro p tokens hcolumn hkinds
    obtain ⟨required, htake⟩ := takeToken_name (p := p) hname hrest
    have hpos := List.length_pos_iff.mpr hname.nonempty
    refine ⟨_, ?_, ?_, p, tokens, required, rfl, hcolumn, hkinds⟩
    · rw [htake]
      exact dropStale_name hname.short
    · simp only [outside, List.length_append]
      omega)
  obtain ⟨tokens', hnext, hkinds⟩ := next_colon (p := p) hname.short hrest hk
  exact ⟨_, tokens', hst.trans (.step hnext (by simp [outside]) rfl (.refl _)), rfl, hkinds⟩

/-! ## Scalars -/

theorem exists_saveKey (h : indent < p.column) :
    ∃ key, Harmless p.line key ∧
      (outside none p rest indent outer allowed tokens).saveKey =
        .ok (outside key p rest indent outer allowed tokens) := by
  cases allowed with
  | false => exact ⟨none, harmless_none _, rfl⟩
  | true =>
    have hne : ¬ indent = p.column := by omega
    refine ⟨some ⟨false, tokens.length, p⟩, ?_, ?_⟩
    · rintro k ⟨⟩
      exact ⟨rfl, Nat.le_refl _⟩
    · simp [saveKey, outside, dropKey, inFlow, place, hne, Except.map]

theorem ended_of_last {c : Char} (hc : isBreak c = false) :
    ended (s ++ [c]) = s ++ [c] ++ ['\n'] := by
  rw [ended, endsInBreak, List.getLast?_concat]
  simp [hc]

/-- What a text that is written plain looks like. -/
theorem exists_of_allowsPlain (h : allowsPlain s = true) :
    IsPlain s ∧ s.getLast? ≠ some ' ' ∧ ended s = s ++ ['\n'] ∧
      ∃ c t, s = c :: t ∧ openers.contains c = false ∧ isGap c = false ∧
        (c = '-' ∨ c = '?' ∨ c = ':' → endsWord t = false) := by
  simp only [allowsPlain, Bool.and_eq_true, Bool.not_eq_true', List.all_eq_true] at h
  obtain ⟨⟨⟨⟨htext, hchars⟩, hopen⟩, hbegin⟩, hindicator⟩ := h
  have hplain : IsPlain s := ⟨fun c hc => (hchars c hc).1, fun c hc => (hchars c hc).2, hindicator⟩
  have hne : s ≠ [] := by
    rintro rfl
    exact absurd htext (by decide)
  obtain ⟨c, t, rfl⟩ := List.exists_cons_of_ne_nil hne
  simp only [hasOpenEnd, Bool.or_eq_false_iff] at hopen
  have hlast : (c :: t).getLast? ≠ some ' ' := by
    intro hl
    rw [hl] at hopen
    exact absurd hopen.2 (by decide)
  have hended : ended (c :: t) = c :: t ++ ['\n'] := by
    rw [ended, if_neg]
    rw [endsInBreak, List.getLast?_eq_some_getLast hne]
    simp [hplain.oneLine _ (List.getLast_mem hne)]
  simp only [beginsOtherwise, Bool.or_eq_false_iff, Bool.and_eq_false_iff] at hbegin
  have hgap : isGap c = false := by
    rw [isGap_eq_isSpace (hplain.printable c List.mem_cons_self)]
    have := hopen.1
    simp only [List.head?_cons, Option.any_some, Bool.or_eq_false_iff] at this
    exact this.1
  refine ⟨hplain, hlast, hended, c, t, rfl, hbegin.2.1, hgap, fun hc => ?_⟩
  rcases hbegin.2.2 with h | h
  · simp only [decide_eq_false_iff_not] at h
    rcases hc with hc | hc | hc
    · exact absurd hc h.2
    · exact absurd hc h.1.1
    · exact absurd hc h.1.2
  · exact h

theorem startsToken_of_allowsPlain (h : allowsPlain s = true) : StartsToken (s ++ rest) := by
  obtain ⟨hplain, -, -, c, t, rfl, hopen, hgap, -⟩ := exists_of_allowsPlain h
  refine startsToken_cons.mpr ⟨hgap, hplain.oneLine c List.mem_cons_self, ?_,
    ne_byteOrderMark (hplain.printable c List.mem_cons_self)⟩
  exact ne_of_opener hopen (by decide)

theorem takeToken_allowsPlain (outer : List Int) (allowed : Bool) (tokens : List Token) {i : Nat}
    (h : allowsPlain s = true) (hi : i < p.column) (hk : k ≤ i) (htail : StartsToken tail) :
    ∃ key, Harmless p.line key ∧
      (outside none p (ended s ++ (spaces k ++ tail)) i outer allowed tokens).takeToken =
        .ok (outside key ⟨p.index + s.length + 1 + k, p.line + 1, k⟩ tail i outer true
          (⟨.scalar s true, p⟩ :: tokens)) := by
  obtain ⟨hplain, hlast, hended, c, t, rfl, hopen, hgap, hword⟩ := exists_of_allowsPlain h
  obtain ⟨key, hkey, hsave⟩ := exists_saveKey (Int.ofNat_lt.mpr hi)
  have hword' : c = '-' ∨ c = '?' ∨ c = ':' →
      endsWord (t ++ '\n' :: (spaces k ++ tail)) = false := by
    rw [endsWord_append_newline]
    exact hword
  have htext : ended (c :: t) ++ (spaces k ++ tail) = c :: t ++ '\n' :: (spaces k ++ tail) := by
    rw [hended]
    simp
  have hread : readPlain false (i + 1) p p .empty (c :: t ++ '\n' :: (spaces k ++ tail)) =
      .ok ⟨c :: t, true, ⟨p.index + (c :: t).length + 1 + k, p.line + 1, k⟩, tail⟩ :=
    readPlain_text (n := 0) hplain (fun h => absurd h (by decide)) hlast (by omega) (by omega) htail
      (by omega)
  refine ⟨key, hkey, ?_⟩
  rw [htext, List.cons_append, takeToken_plain hopen hgap
    (hplain.oneLine c List.mem_cons_self) hword' (by omega), ← List.cons_append, takePlain, hsave]
  simp only [bind, Except.bind]
  simp only [outside, place, inFlow, List.isEmpty_nil, Bool.not_true, hread]
  rfl

theorem takeToken_quoted {single : Bool} {quote : Char} {body : List Char} (hpos : 0 < p.column)
    (hquote : quote = if single then '\'' else '"') (hlt : indent < p.column)
    (hread : ∃ q, p.line ≤ q.line ∧
      readQuoted single p (p.right 1) .empty (body ++ rest) = .ok (s, ⟨q, rest⟩)) :
    ∃ key q, Harmless q.line key ∧
      (outside none p (quote :: body ++ rest) indent outer allowed tokens).takeToken =
        .ok (outside key q rest indent outer false (⟨.scalar s false, p⟩ :: tokens)) := by
  obtain ⟨q, hline, hq⟩ := hread
  obtain ⟨key, hkey, hsave⟩ := exists_saveKey hlt
  have hzero : p.column ≠ 0 := by omega
  have hquoted : (outside none p (quote :: body ++ rest) indent outer allowed tokens).takeQuoted
      single = .ok (outside key q rest indent outer false (⟨.scalar s false, p⟩ :: tokens)) := by
    rw [takeQuoted, hsave]
    simp only [bind, Except.bind]
    simp only [outside, place, List.cons_append, List.drop_one, List.tail_cons, hq]
    rfl
  refine ⟨key, q, fun k hk => ⟨(hkey k hk).1, Nat.le_trans (hkey k hk).2 hline⟩, ?_⟩
  rw [← hquoted]
  cases single with
  | true =>
    obtain rfl : quote = '\'' := hquote
    simp [takeToken, outside, place, hzero, inFlow]
  | false =>
    obtain rfl : quote = '"' := hquote
    simp [takeToken, outside, place, hzero, inFlow]

theorem takeToken_literal (outer : List Int) (allowed : Bool) (tokens : List Token) {i : Nat}
    (hs : allowsLiteral s = true) (hne : s ≠ []) (hi : i < p.column) (hk : k ≤ i)
    (htail : StartsToken tail) :
    ∃ q : Place, q.column = k ∧
      (outside none p (ended (literal (spaces (i + nesting)) s) ++ (spaces k ++ tail)) i outer
        allowed tokens).takeToken =
        .ok (outside none q tail i outer true (⟨.scalar s false, p⟩ :: tokens)) := by
  obtain ⟨r, hread, hrest, hcolumn⟩ := readBlock_literal p (p.right 1) hs hne hk htail
  have hzero : p.column ≠ 0 := by omega
  obtain ⟨body, hbody⟩ : ∃ body, ended (literal (spaces (i + nesting)) s) = '|' :: body :=
    ⟨_, ended_literal hne⟩
  rw [hbody, List.drop_one, List.tail_cons] at hread
  refine ⟨r.place, hcolumn, ?_⟩
  subst hrest
  rw [hbody]
  simp [takeToken, outside, place, hzero, inFlow, takeBlockScalar, dropKey, Cursor.skip, hread,
    bind, Except.bind, add]

/-- What a style asks of the text. -/
theorem styleOf_cases (s : List Char) :
    (styleOf s = .plain ∧ allowsPlain s = true) ∨
      (styleOf s = .singleQuoted ∧ allowsSingleQuotes s = true ∧ '\n' ∉ s) ∨
      styleOf s = .doubleQuoted ∨ (styleOf s = .literal ∧ allowsLiteral s = true ∧ s ≠ []) := by
  unfold styleOf
  by_cases hn : s.contains '\n' = true
  · rw [if_pos hn]
    split
    · next hl =>
      refine .inr (.inr (.inr ⟨rfl, hl, ?_⟩))
      rintro rfl
      cases hn
    · exact .inr (.inr (.inl rfl))
  · rw [if_neg hn]
    have hmem : '\n' ∉ s := fun h => hn (List.contains_iff_mem.mpr h)
    split
    · next hp => exact .inl ⟨rfl, hp⟩
    · split
      · next hq => exact .inr (.inl ⟨rfl, hq, hmem⟩)
      · exact .inr (.inr (.inl rfl))

theorem exists_singleQuoted (margin : List Char) :
    ∃ body, singleQuoted margin s = '\'' :: body ∧
      ended (singleQuoted margin s) = '\'' :: body ++ ['\n'] := by
  refine ⟨_, rfl, ?_⟩
  have hend : endsInBreak (singleQuoted margin s) = false := by
    have hquote : isBreak '\'' = false := by decide
    rw [endsInBreak, singleQuoted, List.getLast?_append]
    split <;> simp [hquote, List.getLast?_append]
  rw [ended, hend]
  rfl

theorem startsToken_writtenScalar (margin : List Char) :
    StartsToken (ended (writtenScalar margin s) ++ rest) := by
  unfold writtenScalar
  rcases styleOf_cases s with ⟨h, hs⟩ | ⟨h, -, -⟩ | h | ⟨h, -, hne⟩ <;> rw [h] <;> dsimp only
  · obtain ⟨-, -, hended, -⟩ := exists_of_allowsPlain hs
    rw [hended, List.append_assoc]
    exact startsToken_of_allowsPlain hs
  · obtain ⟨body, -, hbody⟩ := exists_singleQuoted (s := s) margin
    rw [hbody]
    exact startsToken_cons.mpr (by decide)
  · rw [doubleQuoted, ended_of_last (by decide)]
    exact startsToken_cons.mpr (by decide)
  · rw [ended_literal hne]
    exact startsToken_cons.mpr (by decide)

/-- A scanner that has read a token from a quote on to the end of its line. -/
theorem At.exists_quoted {s : Scanner} {quote : Char} {body text : List Char} {n : Nat}
    (h : s.At ⟨quote :: body ++ '\n' :: (spaces k ++ tail), n, indent, outer, allowed, kinds⟩)
    (single : Bool) (hpos : 0 < n) (hquote : quote = if single then '\'' else '"')
    (hlt : indent < n) (htail : StartsToken tail)
    (hread : ∀ p : Place, 0 < p.column → ∃ q, p.line ≤ q.line ∧
      readQuoted single p (p.right 1) .empty (body ++ '\n' :: (spaces k ++ tail)) =
        .ok (text, ⟨q, '\n' :: (spaces k ++ tail)⟩)) :
    ∃ t, Reads s t ∧ t.Reaches ⟨tail, k, indent, outer, true, .scalar text false :: kinds⟩ := by
  refine h.step fun p tokens hcolumn hkinds => ?_
  simp only at hcolumn hkinds
  subst hcolumn hkinds
  obtain ⟨key, q, hkey, htake⟩ := takeToken_quoted hpos hquote hlt (hread p hpos)
  obtain ⟨key', hkey', hdrop⟩ := dropStale_of_harmless hkey
  refine ⟨outside key' q ('\n' :: (spaces k ++ tail)) indent outer false
    (⟨.scalar text false, p⟩ :: tokens), ?_, ?_, reaches_newline htail hkey' rfl⟩
  · rw [htake]
    exact hdrop
  · simp only [outside, List.cons_append, List.length_cons, List.length_append]
    omega

theorem At.exists_scalar {s : Scanner} {text : List Char} {i n : Nat}
    (h : s.At ⟨ended (writtenScalar (spaces (i + nesting)) text) ++ (spaces k ++ tail), n, i, outer,
      allowed, kinds⟩)
    (hn : i < n) (hk : k ≤ i) (htail : StartsToken tail) :
    ∃ t, Reads s t ∧ t.Reaches ⟨tail, k, i, outer, true, scalarKind text :: kinds⟩ := by
  unfold writtenScalar scalarKind at *
  rcases styleOf_cases text with
      ⟨hstyle, htext⟩ | ⟨hstyle, htext, hfeed⟩ | hstyle | ⟨hstyle, htext, hne⟩ <;>
    rw [hstyle] at h ⊢ <;> dsimp only at h
  · refine h.step fun p tokens hcolumn hkinds => ?_
    simp only at hcolumn hkinds
    subst hcolumn hkinds
    obtain ⟨key, hkey, htake⟩ := takeToken_allowsPlain outer allowed tokens htext hn hk htail
    refine ⟨outside none ⟨p.index + text.length + 1 + k, p.line + 1, k⟩ tail i outer true
      (⟨.scalar text true, p⟩ :: tokens), ?_, ?_, reaches_spaces (k := 0) htail rfl rfl⟩
    · simp only [htake]
      exact dropStale_of_lt hkey (Nat.lt_succ_self p.line)
    · obtain ⟨-, -, hended, -⟩ := exists_of_allowsPlain htext
      simp only [outside, hended, List.length_append, List.length_singleton]
      omega
  · obtain ⟨body, hsingle, hbody⟩ := exists_singleQuoted (s := text) (spaces (i + nesting))
    rw [hbody, List.append_assoc, List.singleton_append] at h
    refine h.exists_quoted true (by omega) rfl (by omega) htail fun p hp => ?_
    have hread := readQuoted_singleQuoted p (p := p.right 1) (m := i + nesting)
      (isQuotable_of_allowsSingleQuotes htext hfeed) (by simp) (Nat.succ_pos _)
      (show ('\n' :: (spaces k ++ tail)).head? ≠ some '\'' by simp)
    rw [hsingle] at hread
    exact hread
  · rw [doubleQuoted, ended_of_last (by decide), List.append_assoc, List.singleton_append] at h
    refine h.exists_quoted false (by omega) rfl (by omega) htail fun p hp => ?_
    exact readQuoted_doubleQuoted (p := p.right 1) (s := text) (by simp)
  · refine h.step fun p tokens hcolumn hkinds => ?_
    simp only at hcolumn hkinds
    subst hcolumn hkinds
    obtain ⟨q, hq, htake⟩ := takeToken_literal outer allowed tokens htext hne hn hk htail
    refine ⟨outside none q tail i outer true (⟨.scalar text false, p⟩ :: tokens), ?_, ?_, ?_⟩
    · simp only [htake]
      rfl
    · rw [ended_literal hne]
      simp only [outside, List.cons_append, List.length_cons, List.length_append]
      omega
    · exact reaches_spaces (k := 0) htail hq rfl

/-! ## Empty lists -/

/-- Behind the bracket that opens a list: no key has begun inside or outside of it. -/
def opened (p : Place) (rest : List Char) (indent : Int) (outer : List Int) (tokens : List Token) :
    Scanner :=
  ⟨⟨p, rest⟩, indent, outer, none, [none], true, tokens, tokens.length, false⟩

theorem next_opened :
    (opened p (']' :: rest) indent outer tokens).next =
      .ok (outside none (p.right 1) rest indent outer false (⟨.flowSequenceEnd, p⟩ :: tokens)) := by
  have hread : skipToToken true true false p (']' :: rest) = (true, ⟨p, ']' :: rest⟩) :=
    skipToToken_startsToken (startsToken_cons.mpr (by decide))
  have hskip : (opened p (']' :: rest) indent outer tokens).aligned =
      .ok (opened p (']' :: rest) indent outer tokens) := by
    simp only [aligned, skipped, opened, place, inFlow, List.isEmpty_cons, Bool.not_false, hread]
    rfl
  have htake : (opened p (']' :: rest) indent outer tokens).takeToken =
      .ok (outside none (p.right 1) rest indent outer false (⟨.flowSequenceEnd, p⟩ :: tokens)) := by
    simp [takeToken, opened, outside, place, isDocumentMark_eq_false, takeFlowEnd, dropKey, take,
      add, allowKey, Cursor.skip, Except.map]
  rw [next_eq, hskip]
  simp only [Except.bind, htake]
  rfl

theorem leads_emptyList {n : Nat} (h : StartsToken tail) :
    Leads ⟨"[]\n".toList ++ tail, n, 0, outer, false, kinds⟩
      ⟨tail, 0, 0, outer, true, .flowSequenceEnd :: .flowSequenceStart :: kinds⟩ := by
  intro s hs
  obtain ⟨t, hst, p, tokens, rfl, hkinds⟩ := hs.step (Q := fun t => ∃ p tokens,
      t = opened p (']' :: '\n' :: tail) 0 outer tokens ∧
        tokens.map Token.kind = .flowSequenceStart :: kinds) (by
    intro p tokens hcolumn hkinds
    have htake : (outside none p ("[]\n".toList ++ tail) 0 outer false tokens).takeToken =
        .ok (opened (p.right 1) (']' :: '\n' :: tail) 0 outer
          (⟨.flowSequenceStart, p⟩ :: tokens)) := by
      simp [takeToken, opened, outside, place, isDocumentMark_eq_false, takeFlowStart, saveKey,
        take, add, allowKey, Cursor.skip, Except.map]
    refine ⟨opened (p.right 1) (']' :: '\n' :: tail) 0 outer (⟨.flowSequenceStart, p⟩ :: tokens),
      ?_, by simp [opened], p.right 1, ⟨.flowSequenceStart, p⟩ :: tokens, rfl, congrArg _ hkinds⟩
    rw [htake]
    rfl)
  refine ⟨_, hst.trans (.step next_opened ?_ rfl (.refl _)), ?_⟩
  · simp [opened, outside]
  · refine (reaches_newline (k := 0) h (harmless_none _) ?_).at (Int.le_refl 0)
    rw [List.map_cons, hkinds]

/-! ## The end of the text -/

theorem At.exists_end {s : Scanner} (h : s.At ⟨[], 0, 0, [-1], allowed, kinds⟩) :
    ∃ t, s.next = .ok t ∧ t.finished = true ∧
      t.tokens.map Token.kind = .streamEnd :: .blockEnd :: kinds := by
  obtain ⟨⟨p, tokens, hs, hcolumn, hkinds⟩, -, -⟩ := h
  simp only at hs hcolumn hkinds
  have htake : (outside none p [] 0 [-1] allowed tokens).takeToken =
      .ok { outside none p [] (-1) [] false (⟨.streamEnd, p⟩ :: ⟨.blockEnd, p⟩ :: tokens) with
        finished := true } := by
    simp [takeToken, outside, takeEnd, place, hcolumn, unrollIndent, inFlow, closeBlocks, add,
      dropKey, Except.map]
  refine ⟨{ outside none p [] (-1) [] false (⟨.streamEnd, p⟩ :: ⟨.blockEnd, p⟩ :: tokens) with
    finished := true }, ?_, rfl, ?_⟩
  · rw [next_eq, hs]
    simp only [Except.bind, htake]
    rfl
  · simp [outside, hkinds]

theorem tokensOf_of_leads {text : List Char} (htext : StartsToken text)
    (h : Leads ⟨text, 0, -1, [], true, [.streamStart]⟩ ⟨[], 0, 0, [-1], allowed, kinds⟩) :
    ∃ tokens, tokensOf text = ⟨tokens, none⟩ ∧
      tokens.map Token.kind = kinds.reverse ++ [.blockEnd, .streamEnd] := by
  have hstart : (Scanner.start text).At ⟨text, 0, -1, [], true, [.streamStart]⟩ :=
    (reaches_spaces (p := .start) (k := 0) htext rfl rfl).at
      (show (-1 : Int) ≤ (0 : Nat) by decide)
  obtain ⟨t, hreads, ht⟩ := h _ hstart
  obtain ⟨u, hnext, hfinished, hkinds⟩ := ht.exists_end
  obtain ⟨fuel, -, hrun⟩ := hreads.run (Nat.le_refl text.length)
  refine ⟨u.tokens.reverse, ?_, by simp [List.map_reverse, hkinds]⟩
  rw [tokensOf, hrun, Scanner.run, if_neg (by simp [ht.unfinished])]
  simp only [hnext]
  rw [Scanner.run, if_pos hfinished]

end Scanner
end IncludeMap.Yaml
