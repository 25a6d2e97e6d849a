import IncludeMap.Document.Read
import Mathlib

/-! # Comments and line endings

A document is read from those of its lines that are no comments, without their endings. So it does
not matter where comment lines stand, nor how many there are, nor whether lines end with a carriage
return: the rules are the same, and a failure is the same at the same place.
-/
namespace IncludeMap.Document
open Text

variable {s t line before after : List Char}

/-- The first character that is not blank is a number sign. -/
def StartsWithSign (line : List Char) : Prop :=
  ∃ blanks text, line = blanks ++ '#' :: text ∧ ∀ c ∈ blanks, isBlank c = true

/-- Behind the text a line starts. -/
def EndsLine (before : List Char) : Prop := before = [] ∨ ∃ s, before = s ++ ['\n']

/-- The second text has one comment line more than the first, with the line feed that ends it. -/
inductive HasMore : List Char → List Char → Prop where
  | comment (before line after : List Char) (hb : EndsLine before) (hs : StartsWithSign line)
    (hl : '\n' ∉ line) : HasMore (before ++ after) (before ++ (line ++ '\n' :: after))

/-- Comment lines have been put in and taken out, any number of them one after the other. -/
def SameButComments : List Char → List Char → Prop := Relation.EqvGen HasMore

def withReturns (s : List Char) : List Char :=
  s.flatMap fun c => if c = '\n' then ['\r', '\n'] else [c]

section Lines

theorem lines_cons {c : Char} (hn : c ≠ '\n') (hr : c = '\r' → s.head? ≠ some '\n') :
    lines (c :: s) =
      match lines s with
      | [] => [[c]]
      | l :: ls => (c :: l) :: ls := by
  apply lines.eq_4
  · exact hn
  · rintro cs hc rfl
    exact hr hc rfl

theorem exists_lines_append (hl : '\n' ∉ line) :
    ∃ m, (line = m ∨ line = m ++ ['\r']) ∧ ∀ t, lines (line ++ '\n' :: t) = m :: lines t := by
  induction line with
  | nil => exact ⟨[], .inl rfl, fun t => rfl⟩
  | cons c line ih =>
    rw [List.mem_cons, not_or] at hl
    by_cases hend : c = '\r' ∧ line = []
    · obtain ⟨rfl, rfl⟩ := hend
      exact ⟨[], .inr rfl, fun t => rfl⟩
    · obtain ⟨m, hm, hlines⟩ := ih hl.2
      refine ⟨c :: m, ?_, ?_⟩
      · rcases hm with rfl | rfl
        · exact .inl rfl
        · exact .inr rfl
      · intro t
        have hno : c = '\r' → (line ++ '\n' :: t).head? ≠ some '\n' := by
          intro hc hh
          cases line with
          | nil => exact hend ⟨hc, rfl⟩
          | cons d line => exact hl.2 (Option.some.inj hh ▸ List.mem_cons_self)
        rw [List.cons_append, lines_cons (Ne.symm hl.1) hno, hlines]

theorem lines_append_of_endsLine (hb : EndsLine before) (after : List Char) :
    lines (before ++ after) = lines before ++ lines after := by
  -- The induction takes the first line off `before`, and what is behind it ends a line again.
  induction hk : before.length using Nat.strongRecOn generalizing before with
  | ind k ih =>
    rcases hb with rfl | ⟨s, hs⟩
    · rfl
    · have hmem : '\n' ∈ before := by simp [hs]
      obtain ⟨line, rest, rfl, hl⟩ := List.eq_append_cons_of_mem hmem
      obtain ⟨m, -, hlines⟩ := exists_lines_append hl
      have hrest : EndsLine rest := by
        rcases List.eq_nil_or_concat' rest with rfl | ⟨r, c, rfl⟩
        · exact .inl rfl
        · have hends : (line ++ '\n' :: r) ++ [c] = s ++ ['\n'] := by rw [← hs]; simp
          obtain ⟨-, hc⟩ := List.append_inj' hends rfl
          exact .inr ⟨r, congrArg (r ++ ·) hc⟩
      have hlt : rest.length < k := by
        rw [← hk, List.length_append, List.length_cons]
        omega
      rw [List.append_assoc, List.cons_append, hlines, hlines, ih rest.length hlt hrest rfl,
        List.cons_append]

theorem lines_withReturns (h : '\r' ∉ s) : lines (withReturns s) = lines s := by
  induction s with
  | nil => rfl
  | cons c s ih =>
    rw [List.mem_cons, not_or] at h
    have hs := ih h.2
    by_cases hc : c = '\n'
    · subst hc
      exact congrArg ([] :: ·) hs
    · have hcons : withReturns (c :: s) = c :: withReturns s := by
        simp [withReturns, hc]
      have hr : c = '\r' → ∀ t : List Char, t.head? ≠ some '\n' := fun hr => absurd hr.symm h.1
      rw [hcons, lines_cons hc fun h => hr h _, lines_cons hc fun h => hr h _, hs]

end Lines

section Comments

theorem isComment_iff : isComment line = true ↔ StartsWithSign line := by
  rw [isComment, decide_eq_true_eq, trimStart]
  constructor
  · intro h
    obtain ⟨text, htext⟩ := List.head?_eq_some_iff.mp h
    refine ⟨line.takeWhile isBlank, text, ?_, ?_⟩
    · rw [← htext, List.takeWhile_append_dropWhile]
    · intro c hc
      exact List.mem_takeWhile_imp hc
  · rintro ⟨blanks, text, rfl, hblanks⟩
    have hsign : isBlank '#' = false := by decide
    rw [List.dropWhile_append_of_pos hblanks, List.dropWhile_cons_of_neg (by simp [hsign])]
    rfl

theorem StartsWithSign.of_concat (h : StartsWithSign (line ++ ['\r'])) : StartsWithSign line := by
  obtain ⟨blanks, text, heq, hblanks⟩ := h
  rcases List.eq_nil_or_concat' text with rfl | ⟨text, c, rfl⟩
  · obtain ⟨-, hsign⟩ := List.append_inj' heq rfl
    cases hsign
  · have hends : line ++ ['\r'] = (blanks ++ '#' :: text) ++ [c] := by rw [heq]; simp
    obtain ⟨hline, -⟩ := List.append_inj' hends rfl
    exact ⟨blanks, text, hline, hblanks⟩

theorem withoutComments_of_hasMore (h : HasMore s t) : withoutComments s = withoutComments t := by
  cases h with
  | comment before line after hb hs hl =>
    obtain ⟨m, hm, hlines⟩ := exists_lines_append hl
    have hcomment : isComment m = true := by
      apply isComment_iff.mpr
      rcases hm with rfl | rfl
      · exact hs
      · exact hs.of_concat
    rw [withoutComments, withoutComments, lines_append_of_endsLine hb,
      lines_append_of_endsLine hb, hlines, List.filter_append, List.filter_append,
      List.filter_cons_of_neg (by simp [hcomment])]

theorem withoutComments_of_sameButComments (h : SameButComments s t) :
    withoutComments s = withoutComments t := by
  induction h with
  | rel s t h => exact withoutComments_of_hasMore h
  | refl s => rfl
  | symm s t _ ih => exact ih.symm
  | trans s t u _ _ hst htu => exact hst.trans htu

theorem parse_eq_of_withoutComments {d d' : String}
    (h : withoutComments d'.toList = withoutComments d.toList) : parse d' = parse d := by
  simp only [parse, readEntries, h]

end Comments

/-- A document is read alike, rules and failures with their places included, with comment lines put
in or taken out at any start of a line, and with a carriage return in front of every line feed. -/
theorem parse_of_sameButComments (d : String) :
    (∀ d' : String, SameButComments d.toList d'.toList → parse d' = parse d) ∧
      ('\r' ∉ d.toList → parse (String.ofList (withReturns d.toList)) = parse d) := by
  constructor
  · intro d' h
    exact parse_eq_of_withoutComments (withoutComments_of_sameButComments h).symm
  · intro h
    apply parse_eq_of_withoutComments
    rw [String.toList_ofList, withoutComments, withoutComments, lines_withReturns h]

def brokenRow : String := "[\n x]\n"

/-- The same document with a comment in front of either line, one behind a blank that is no space
and with a carriage return at its end. -/
def commentedRow : String := "\u2003# [\r\n[\n#\n x]\n"

/-- The failure is told at the second line in all three spellings. -/
theorem parse_commentedRow :
    SameButComments brokenRow.toList commentedRow.toList ∧ '\r' ∉ brokenRow.toList ∧
      parse brokenRow = .error (.ofJson "expected value at line 2 column 2") ∧
      parse commentedRow = parse brokenRow ∧ parse "[\r\n x]\r\n" = parse brokenRow := by
  have hblank : ∀ c ∈ ['\u2003'], isBlank c = true := by simp [isBlank, blankRanges]
  have hfirst : HasMore brokenRow.toList "\u2003# [\r\n[\n x]\n".toList :=
    .comment [] "\u2003# [\r".toList brokenRow.toList (.inl rfl) ⟨['\u2003'], _, rfl, hblank⟩
      (by decide)
  have hsecond : HasMore "\u2003# [\r\n[\n x]\n".toList commentedRow.toList :=
    .comment "\u2003# [\r\n[\n".toList ['#'] " x]\n".toList
      (.inr ⟨"\u2003# [\r\n[".toList, rfl⟩) ⟨[], [], rfl, by simp⟩ (by decide)
  have hsame : SameButComments brokenRow.toList commentedRow.toList :=
    .trans _ _ _ (.rel _ _ hfirst) (.rel _ _ hsecond)
  have hr : '\r' ∉ brokenRow.toList := by decide
  obtain ⟨hcomments, hreturns⟩ := parse_of_sameButComments brokenRow
  refine ⟨hsame, hr, by decide +kernel, hcomments _ hsame, ?_⟩
  have htext : "[\r\n x]\r\n" = String.ofList (withReturns brokenRow.toList) := by decide
  rw [htext]
  exact hreturns hr

end IncludeMap.Document
