import IncludeMap.Document.Read
import IncludeMap.Document.Render
import IncludeMap.Proofs.Document.Literal

/-! # Reading entries back

A reader takes each part of an entry's text for what it was written for, so the lines of entries are
read as the entries.
-/
namespace IncludeMap.Json

theorem skipBlanks_of_blank {c : Char} (hc : isBlank c = true) (s : List Char) :
    skipBlanks (c :: s) = skipBlanks s := by
  rw [skipBlanks, List.dropWhile_cons, if_pos hc]
  rfl

theorem skipBlanks_of_not_blank {c : Char} (hc : isBlank c = false) (s : List Char) :
    skipBlanks (c :: s) = c :: s := by
  rw [skipBlanks, List.dropWhile_cons, hc]
  rfl

variable {α : Type} {item : Reader α}

theorem readMore_of_end {s rest : List Char} (hs : skipBlanks s = ']' :: rest) :
    readMore item s = .ok ([], rest) := by
  rw [readMore]
  split
  · next h => exact absurd (hs.symm.trans h) (List.cons_ne_nil _ _)
  · next c r h =>
    obtain ⟨rfl, rfl⟩ := List.cons.inj (hs.symm.trans h)
    rw [if_pos rfl]

theorem readMore_of_comma {s rest t u v : List Char} {a : α} {as : List α}
    (hs : skipBlanks s = ',' :: rest) (hv : nextValue rest = .ok t)
    (hi : item.read t = .ok (a, u)) (hm : readMore item u = .ok (as, v)) :
    readMore item s = .ok (a :: as, v) := by
  rw [readMore]
  split
  · next h => exact absurd (hs.symm.trans h) (List.cons_ne_nil _ _)
  · next c r h =>
    obtain ⟨rfl, rfl⟩ := List.cons.inj (hs.symm.trans h)
    rw [if_neg (by decide), if_pos rfl]
    split
    · next h => cases hv.symm.trans h
    · next h =>
      cases hv.symm.trans h
      split
      · next h => cases hi.symm.trans h
      · next h =>
        cases hi.symm.trans h
        rw [hm]

end IncludeMap.Json

namespace IncludeMap.Document
open Text Json

theorem literal_append (s : String) (t : List Char) :
    literal s ++ t = '"' :: (writeRuns s.toList ++ '"' :: t) := by
  simp [literal]

theorem readText_literal (s : String) (t : List Char) :
    readText (literal s ++ t) = .ok (s.toList, t) := by
  rw [literal_append, readText, skipBlanks_of_not_blank (by decide)]
  exact readBody_writeRuns s.toList t

theorem readPart_literal (expected : String) (s : String) (t : List Char) :
    readPart expected 0 (literal s ++ t) = .ok (s.toList, t) := by
  have h := readText_literal s t
  rw [literal_append] at h ⊢
  rw [readPart, skipBlanks_of_not_blank (by decide)]
  exact h

theorem readPart_comma_literal (expected : String) (n : Nat) (s : String) (t : List Char) :
    readPart expected (n + 1) (',' :: ' ' :: (literal s ++ t)) = .ok (s.toList, t) := by
  have h := readText_literal s t
  have hn : nextValue (' ' :: (literal s ++ t)) = .ok (literal s ++ t) := by
    rw [nextValue, skipBlanks_of_blank (by decide), literal_append,
      skipBlanks_of_not_blank (by decide)]
    rfl
  rw [readPart, skipBlanks_of_not_blank (by decide)]
  simp only [if_neg (show ¬ (',' = ']') by decide), if_neg (Nat.succ_ne_zero n), if_true, hn, h]

theorem readTexts_separated (e : Entry) (t : List Char) :
    readTexts e.kind (separated [literal e.subject, literal e.subjectMark, literal e.target,
      literal e.targetMark] ++ ']' :: t) = .ok (e, t) := by
  have hend : endList (']' :: t) = .ok t := by
    rw [endList, skipBlanks_of_not_blank (by decide)]
    rfl
  simp only [separated, List.append_assoc, List.cons_append, List.nil_append]
  simp only [readTexts, readPart_literal, readPart_comma_literal, hend, bind, Except.bind,
    String.ofList_toList]

theorem kindOf?_name (k : Kind) : kindOf? k.name.toList = some k := by
  cases k <;> decide

/-- What stands between the name of an entry and its closing brace. -/
theorem readTextList_separated (e : Entry) (t : List Char) :
    readTextList e.kind (' ' :: '[' :: (separated [literal e.subject, literal e.subjectMark,
      literal e.target, literal e.targetMark] ++ ']' :: t)) = .ok (e, t) := by
  rw [readTextList, skipBlanks_of_blank (by decide), skipBlanks_of_not_blank (by decide)]
  exact readTexts_separated e t

theorem readKey_literal (k : Kind) (t : List Char) :
    readKey (literal k.name ++ t) = .ok (k, t) := by
  rw [literal_append, readKey, skipBlanks_of_not_blank (by decide)]
  simp only [if_true, readKind, readBody_writeRuns, kindOf?_name]

theorem readColon_cons (t : List Char) : readColon (':' :: t) = .ok t := by
  rw [readColon, skipBlanks_of_not_blank (by decide)]
  rfl

theorem endEntry_cons (t : List Char) : endEntry ('\x7d' :: t) = .ok t := by
  rw [endEntry, skipBlanks_of_not_blank (by decide)]
  rfl

theorem entryText_append (e : Entry) (t : List Char) :
    entryText e ++ t = '\x7b' :: (literal e.kind.name ++ ':' :: ' ' :: '[' ::
      (separated [literal e.subject, literal e.subjectMark, literal e.target,
        literal e.targetMark] ++ ']' :: '\x7d' :: t)) := by
  simp [entryText]

theorem readEntry_entryText (e : Entry) (t : List Char) :
    readEntry (entryText e ++ t) = .ok (e, t) := by
  rw [entryText_append, readEntry, skipBlanks_of_not_blank (by decide)]
  show readBraced _ = _
  simp only [readBraced, readKey_literal, readColon_cons, readTextList_separated, endEntry_cons,
    bind, Except.bind]

/-- The text of entries behind another one, and the end of the list. -/
def moreText : List Entry → List Char → List Char
  | [], t => '\n' :: ']' :: t
  | e :: es, t => ',' :: '\n' :: ' ' :: ' ' :: (entryText e ++ moreText es t)

theorem readMore_moreText (es : List Entry) (t : List Char) :
    readMore entryReader (moreText es t) = .ok (es, t) := by
  induction es with
  | nil =>
    apply readMore_of_end
    rw [moreText, skipBlanks_of_blank (by decide), skipBlanks_of_not_blank (by decide)]
  | cons e es ih =>
    have hs : skipBlanks (moreText (e :: es) t) =
        ',' :: '\n' :: ' ' :: ' ' :: (entryText e ++ moreText es t) := by
      rw [moreText, skipBlanks_of_not_blank (by decide)]
    have hv : nextValue ('\n' :: ' ' :: ' ' :: (entryText e ++ moreText es t)) =
        .ok (entryText e ++ moreText es t) := by
      rw [nextValue, skipBlanks_of_blank (by decide), skipBlanks_of_blank (by decide),
        skipBlanks_of_blank (by decide), entryText_append, skipBlanks_of_not_blank (by decide)]
      rfl
    exact readMore_of_comma hs hv (readEntry_entryText e _) ih

theorem entryLines_append (e : Entry) (es : List Entry) (t : List Char) :
    entryLines (e :: es) ++ '\n' :: ']' :: t = ' ' :: ' ' :: (entryText e ++ moreText es t) := by
  induction es generalizing e with
  | nil => simp [entryLines, moreText]
  | cons f es ih =>
    rw [entryLines, moreText, List.append_assoc, ih]
    simp

theorem readItems_entryLines (es : List Entry) (t : List Char) :
    readItems entryReader ('\n' :: (entryLines es ++ '\n' :: ']' :: t)) = .ok (es, t) := by
  cases es with
  | nil =>
    rw [readItems, skipBlanks_of_blank (by decide), entryLines, List.nil_append,
      skipBlanks_of_blank (by decide), skipBlanks_of_not_blank (by decide)]
    rfl
  | cons e es =>
    have hread : entryReader.read (entryText e ++ moreText es t) = .ok (e, moreText es t) :=
      readEntry_entryText e (moreText es t)
    rw [entryText_append] at hread
    rw [entryLines_append, readItems, skipBlanks_of_blank (by decide),
      skipBlanks_of_blank (by decide), skipBlanks_of_blank (by decide), entryText_append,
      skipBlanks_of_not_blank (by decide)]
    simp only [if_neg (show ¬ ('\x7b' = ']') by decide), hread, readMore_moreText]

/-- A text that holds nothing but the lines of entries between brackets is read as the entries. -/
theorem listOf_entryLines (es : List Entry) :
    listOf entryReader ('[' :: '\n' :: (entryLines es ++ '\n' :: ']' :: ['\n'])) = .ok es := by
  have hfeed : Json.isBlank '\n' = true := by decide
  rw [listOf, readList, skipBlanks_of_not_blank (by decide)]
  simp only [if_true, readItems_entryLines, skipBlanks_of_blank hfeed]
  rfl

end IncludeMap.Document
