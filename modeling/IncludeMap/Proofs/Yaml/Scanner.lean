import IncludeMap.Proofs.Yaml.Literal
import IncludeMap.Proofs.Yaml.Plain
import IncludeMap.Proofs.Yaml.Quoted
import IncludeMap.Yaml.Scanner

/-! # Scanning written texts

What a scanner does next depends on the rest of the text, on its column, and on the blocks that are
open; places matter to failures only. So a scanner is described by a point, and a written piece of
text leads from one point to another.
-/
namespace IncludeMap.Yaml

variable {p q : Place} {s rest tail : List Char} {allowed : Bool} {k : Nat} {indent : Int}
  {outer : List Int} {tokens : List Token} {key : Option PossibleKey} {kinds : List Kind}

namespace Scanner

/-! ## Between tokens -/

theorem skipToToken_startsToken {flow : Bool} (h : StartsToken rest) :
    skipToToken flow allowed false p rest = (allowed, ⟨p, rest⟩) := by
  cases rest with
  | nil => rfl
  | cons c rest =>
    obtain ⟨hgap, hbreak, hhash, hmark⟩ := startsToken_cons.mp h
    simp only [isGap, Bool.or_eq_false_iff, decide_eq_false_iff_not] at hgap
    simp [skipToToken, hbreak, hgap.1, hgap.2, hhash, hmark]

theorem skipToToken_spaces {flow : Bool} (h : StartsToken rest) :
    skipToToken flow allowed false p (spaces k ++ rest) = (allowed, ⟨p.right k, rest⟩) := by
  induction k generalizing p with
  | zero => exact skipToToken_startsToken h
  | succ k ih =>
    rw [spaces_succ, List.cons_append, skipToToken, if_neg (by decide), if_pos (by simp), ih,
      right_right, Nat.add_comm 1 k]

theorem skipToToken_newline (h : StartsToken rest) :
    skipToToken false allowed false p ('\n' :: (spaces k ++ rest)) =
      (true, ⟨⟨p.index + 1 + k, p.line + 1, k⟩, rest⟩) := by
  have hpass : p.pass '\n' (spaces k ++ rest) = ⟨p.index + 1, p.line + 1, 0⟩ :=
    pass_of_isBreak (by decide) (by decide)
  rw [skipToToken, if_pos (by decide), hpass, Bool.not_false, Bool.or_true, Bool.false_and,
    skipToToken_spaces h]
  simp [Place.right]

/-- Outside of flow collections, where a key may have begun. -/
def outside (key : Option PossibleKey) (p : Place) (rest : List Char) (indent : Int)
    (outer : List Int) (allowed : Bool) (tokens : List Token) : Scanner :=
  ⟨⟨p, rest⟩, indent, outer, key, [], allowed, tokens, tokens.length, false⟩

/-- A key that need not be one, and that began no later than in the line. -/
def Harmless (line : Nat) (key : Option PossibleKey) : Prop :=
  ∀ k ∈ key, k.required = false ∧ k.place.line ≤ line

theorem harmless_none (line : Nat) : Harmless line none := nofun

theorem dropStale_of_harmless (h : Harmless p.line key) :
    ∃ key', Harmless p.line key' ∧
      (outside key p rest indent outer allowed tokens).dropStale =
        .ok (outside key' p rest indent outer allowed tokens) := by
  cases key with
  | none => exact ⟨none, h, rfl⟩
  | some k =>
    obtain ⟨hrequired, -⟩ := h k rfl
    by_cases hstale : isStale p k = true
    · refine ⟨none, harmless_none _, ?_⟩
      simp [dropStale, outside, freshKey, place, hstale, hrequired, bind, Except.bind, pure,
        Except.pure]
    · refine ⟨some k, h, ?_⟩
      simp [dropStale, outside, freshKey, place, hstale, bind, Except.bind, pure, Except.pure]

theorem dropStale_of_lt {line : Nat} (h : Harmless line key) (hp : line < p.line) :
    (outside key p rest indent outer allowed tokens).dropStale =
      .ok (outside none p rest indent outer allowed tokens) := by
  cases key with
  | none => rfl
  | some k =>
    obtain ⟨hrequired, hline⟩ := h k rfl
    have hstale : isStale p k = true := by
      rw [isStale, Bool.or_eq_true, decide_eq_true_eq]
      exact .inl (by omega)
    simp [dropStale, outside, freshKey, place, hstale, hrequired, bind, Except.bind, pure,
      Except.pure]

def skipped (s : Scanner) : Except Failure Scanner :=
  let (allowed, c) := skipToToken s.inFlow s.keyAllowed false s.place s.cursor.rest
  dropStale { s with cursor := c, keyAllowed := allowed }

/-- Pass over what stands before the next token, and close the blocks that have ended. -/
def aligned (s : Scanner) : Except Failure Scanner :=
  s.skipped.map fun t => t.unrollIndent t.place.column

theorem next_eq (s : Scanner) :
    s.next = s.aligned.bind fun t => t.takeToken.bind dropStale := by
  unfold next aligned skipped
  dsimp only [bind, Except.bind]
  cases dropStale { s with
    cursor := (skipToToken s.inFlow s.keyAllowed false s.place s.cursor.rest).2
    keyAllowed := (skipToToken s.inFlow s.keyAllowed false s.place s.cursor.rest).1 } <;> rfl

theorem unrollIndent_of_le (h : indent ≤ p.column) :
    (outside key p rest indent outer allowed tokens).unrollIndent p.column =
      outside key p rest indent outer allowed tokens := by
  have hlt : ¬ (p.column : Int) < indent := by omega
  cases outer with
  | nil => rfl
  | cons o outer => simp [outside, unrollIndent, inFlow, closeBlocks, hlt]

theorem unrollIndent_one {o : Int} (h : (p.column : Int) < indent) (ho : o ≤ p.column) :
    (outside key p rest indent (o :: outer) allowed tokens).unrollIndent p.column =
      outside key p rest o outer allowed (⟨.blockEnd, p⟩ :: tokens) := by
  have hlt : ¬ (p.column : Int) < o := by omega
  cases outer with
  | nil => simp [outside, unrollIndent, inFlow, closeBlocks, h, add, place]
  | cons o' outer => simp [outside, unrollIndent, inFlow, closeBlocks, h, hlt, add, place]

theorem aligned_outside {key' : Option PossibleKey} (h : StartsToken rest)
    (hdrop : (outside key p rest indent outer allowed tokens).dropStale =
      .ok (outside key' p rest indent outer allowed tokens)) (hle : indent ≤ p.column) :
    (outside key p rest indent outer allowed tokens).aligned =
      .ok (outside key' p rest indent outer allowed tokens) := by
  have hskipped : (outside key p rest indent outer allowed tokens).skipped =
      .ok (outside key' p rest indent outer allowed tokens) := by
    rw [← hdrop]
    simp only [skipped, outside, place, skipToToken_startsToken h]
  rw [aligned, hskipped]
  exact congrArg Except.ok (unrollIndent_of_le hle)

/-! ## Points -/

/-- A scanner in front of a token, up to places: no key has begun before it. -/
structure Point where
  rest : List Char
  column : Nat
  indent : Int
  outer : List Int
  allowed : Bool
  /-- The kinds of the tokens so far, the newest first. -/
  kinds : List Kind

def Shows (r : Except Failure Scanner) (x : Point) : Prop :=
  ∃ p tokens, r = .ok (outside none p x.rest x.indent x.outer x.allowed tokens) ∧
    p.column = x.column ∧ tokens.map Token.kind = x.kinds

/-- The scanner comes to the point, where blocks may end. -/
structure Reaches (s : Scanner) (x : Point) : Prop where
  shows : Shows s.skipped x
  length_le : x.rest.length ≤ s.cursor.rest.length
  unfinished : s.finished = false

/-- The scanner comes to the point, where the blocks that end there have been closed. -/
structure At (s : Scanner) (x : Point) : Prop where
  shows : Shows s.aligned x
  length_le : x.rest.length ≤ s.cursor.rest.length
  unfinished : s.finished = false

theorem Reaches.at {s : Scanner} {x : Point} (h : s.Reaches x) (hx : x.indent ≤ x.column) :
    s.At x := by
  obtain ⟨⟨p, tokens, hs, hcolumn, hkinds⟩, hlength, hfinished⟩ := h
  refine ⟨⟨p, tokens, ?_, hcolumn, hkinds⟩, hlength, hfinished⟩
  rw [aligned, hs]
  exact congrArg Except.ok (unrollIndent_of_le (by omega))

theorem Reaches.at_blockEnd {s : Scanner} {o : Int}
    (h : s.Reaches ⟨rest, k, indent, o :: outer, allowed, kinds⟩) (hk : (k : Int) < indent)
    (ho : o ≤ k) : s.At ⟨rest, k, o, outer, allowed, .blockEnd :: kinds⟩ := by
  obtain ⟨⟨p, tokens, hs, hcolumn, hkinds⟩, hlength, hfinished⟩ := h
  simp only at hs hcolumn hkinds
  refine ⟨⟨p, ⟨.blockEnd, p⟩ :: tokens, ?_, hcolumn, by simp [hkinds]⟩, hlength, hfinished⟩
  rw [aligned, hs]
  exact congrArg Except.ok (unrollIndent_one (by omega) (by omega))

theorem reaches_spaces {n : Nat} (h : StartsToken rest) (hn : p.column + k = n)
    (hkinds : tokens.map Token.kind = kinds) :
    (outside none p (spaces k ++ rest) indent outer allowed tokens).Reaches
      ⟨rest, n, indent, outer, allowed, kinds⟩ := by
  refine ⟨⟨p.right k, tokens, ?_, hn, hkinds⟩, by simp [outside], rfl⟩
  simp only [skipped, outside, place, skipToToken_spaces h]
  rfl

theorem reaches_newline (h : StartsToken rest) (hkey : Harmless p.line key)
    (hkinds : tokens.map Token.kind = kinds) :
    (outside key p ('\n' :: (spaces k ++ rest)) indent outer allowed tokens).Reaches
      ⟨rest, k, indent, outer, true, kinds⟩ := by
  have hlength : rest.length ≤ ('\n' :: (spaces k ++ rest)).length := by
    rw [List.length_cons, List.length_append]
    omega
  refine ⟨⟨⟨p.index + 1 + k, p.line + 1, k⟩, tokens, ?_, rfl, hkinds⟩, hlength, rfl⟩
  have hflow : (outside key p ('\n' :: (spaces k ++ rest)) indent outer allowed tokens).inFlow =
      false := rfl
  simp only [skipped, hflow]
  simp only [outside, place, skipToToken_newline h]
  exact dropStale_of_lt hkey (Nat.lt_succ_self p.line)

/-! ## Runs -/

/-- The scanner comes from one state to another, each time with less text left. -/
inductive Reads : Scanner → Scanner → Prop where
  | refl (s : Scanner) : Reads s s
  | step {s t u : Scanner} (next : s.next = .ok t)
    (shorter : t.cursor.rest.length < s.cursor.rest.length) (unfinished : s.finished = false)
    (more : Reads t u) : Reads s u

theorem Reads.trans {s t u : Scanner} (h : Reads s t) (hu : Reads t u) : Reads s u := by
  induction h with
  | refl => exact hu
  | step hn hlt hf _ ih => exact .step hn hlt hf (ih hu)

/-- Steps that pass over text are no more than its characters. -/
theorem Reads.run {s t : Scanner} (h : Reads s t) {fuel : Nat}
    (hfuel : s.cursor.rest.length ≤ fuel) :
    ∃ fuel', t.cursor.rest.length ≤ fuel' ∧
      Scanner.run (fuel + 2) s = Scanner.run (fuel' + 2) t := by
  induction h generalizing fuel with
  | refl s => exact ⟨fuel, hfuel, rfl⟩
  | @step s t u hn hlt hf _ ih =>
    have hless : t.cursor.rest.length ≤ fuel - 1 := by omega
    obtain ⟨fuel', hle, hrun⟩ := ih hless
    have hsucc : fuel + 2 = (fuel - 1 + 2) + 1 := by omega
    refine ⟨fuel', hle, ?_⟩
    rw [← hrun, hsucc, Scanner.run, if_neg (by simp [hf])]
    simp only [hn]

def Leads (x y : Point) : Prop := ∀ s : Scanner, s.At x → ∃ t, Reads s t ∧ t.At y

theorem Leads.trans {x y z : Point} (h : Leads x y) (hz : Leads y z) : Leads x z := by
  intro s hs
  obtain ⟨t, hst, ht⟩ := h s hs
  obtain ⟨u, htu, hu⟩ := hz t ht
  exact ⟨u, hst.trans htu, hu⟩

theorem Leads.refl (x : Point) : Leads x x := fun s hs => ⟨s, .refl s, hs⟩

theorem At.step {s : Scanner} {x : Point} (h : s.At x) {Q : Scanner → Prop}
    (htake : ∀ p tokens, p.column = x.column → tokens.map Token.kind = x.kinds →
      ∃ t, (outside none p x.rest x.indent x.outer x.allowed tokens).takeToken.bind dropStale =
        .ok t ∧ t.cursor.rest.length < x.rest.length ∧ Q t) :
    ∃ t, Reads s t ∧ Q t := by
  obtain ⟨⟨p, tokens, hs, hcolumn, hkinds⟩, hlength, hfinished⟩ := h
  obtain ⟨t, hnext, hlt, ht⟩ := htake p tokens hcolumn hkinds
  refine ⟨t, .step ?_ (Nat.lt_of_lt_of_le hlt hlength) hfinished (.refl t), ht⟩
  rw [next_eq, hs]
  exact hnext

end Scanner

end IncludeMap.Yaml
