import IncludeMap.Proofs.Document.Entry
import IncludeMap.Proofs.Document.Reading

/-! # Writing a document and reading it back

A document has a line for the banner, one for each bracket and one for each entry. Only the banner
is a comment, so without comments the document is the list of its entries, and reading it gives the
rules whose entries they are.
-/
namespace IncludeMap.Document
open Text Json

/-- The lines between the brackets of a document. -/
def entryRows : List Entry → List (List Char)
  | [] => [[]]
  | [e] => [' ' :: ' ' :: entryText e]
  | e :: f :: rest => (' ' :: ' ' :: (entryText e ++ [','])) :: entryRows (f :: rest)

theorem entryRows_ne_nil (es : List Entry) : entryRows es ≠ [] := by
  unfold entryRows
  split <;> simp

theorem joinLines_entryRows (es : List Entry) : joinLines (entryRows es) = entryLines es := by
  induction es with
  | nil => rfl
  | cons e es ih =>
    cases es with
    | nil => rfl
    | cons f es =>
      rw [entryRows, joinLines_cons (entryRows_ne_nil _), ih, entryLines]
      simp

/-- The lines of a document. -/
def documentRows (r : RuleSet) : List (List Char) :=
  banner.toList :: ['['] :: (entryRows (entriesOf r) ++ [[']'], []])

theorem toList_render (r : RuleSet) : (render r).toList = joinLines (documentRows r) ++ ['\n'] := by
  have hrows := entryRows_ne_nil (entriesOf r)
  rw [render, String.toList_ofList, documentRows, joinLines_cons (by simp),
    joinLines_cons (by simp), joinLines_append hrows (by simp), joinLines_entryRows]
  simp [joinLines]

theorem all_isPrintable_literal (s : String) : (literal s).all isPrintable = true :=
  List.all_eq_true.mpr fun _ h => isPrintable_of_mem_literal h

theorem all_isPrintable_entryText (e : Entry) : (entryText e).all isPrintable = true := by
  have hb : ['\x7b'].all isPrintable = true := by decide
  have hc : [':', ' ', '['].all isPrintable = true := by decide
  have hs : [',', ' '].all isPrintable = true := by decide
  have he : [']', '\x7d'].all isPrintable = true := by decide
  simp only [entryText, separated, List.all_append, all_isPrintable_literal, hb, hc, hs, he,
    Bool.and_self]

theorem not_mem_of_all_isPrintable {l : List Char} (h : l.all isPrintable = true) :
    '\n' ∉ l ∧ '\r' ∉ l := by
  rw [List.all_eq_true] at h
  constructor
  · intro hm
    exact absurd (h _ hm) (by decide)
  · intro hm
    exact absurd (h _ hm) (by decide)

theorem isComment_entryText (e : Entry) (t : List Char) :
    isComment (' ' :: ' ' :: (entryText e ++ t)) = false := by
  rw [entryText_append]
  rfl

theorem entryRows_facts {es : List Entry} {row : List Char} (h : row ∈ entryRows es) :
    row.all isPrintable = true ∧ isComment row = false := by
  have hb : isPrintable ' ' = true := by decide
  have hc : isPrintable ',' = true := by decide
  induction es with
  | nil =>
    rw [entryRows, List.mem_singleton] at h
    rw [h]
    exact ⟨rfl, rfl⟩
  | cons e es ih =>
    cases es with
    | nil =>
      rw [entryRows, List.mem_singleton] at h
      rw [h]
      refine ⟨by simp only [List.all_cons, hb, all_isPrintable_entryText, Bool.and_self], ?_⟩
      rw [← List.append_nil (entryText e)]
      exact isComment_entryText e []
    | cons f es =>
      rw [entryRows, List.mem_cons] at h
      rcases h with rfl | h
      · refine ⟨?_, isComment_entryText e [',']⟩
        simp only [List.all_cons, List.all_append, List.all_nil, hb, hc, all_isPrintable_entryText,
          Bool.and_self]
      · exact ih h

theorem all_isPrintable_of_mem_documentRows {r : RuleSet} {row : List Char}
    (h : row ∈ documentRows r) : row.all isPrintable = true := by
  simp only [documentRows, List.mem_cons, List.mem_append, List.not_mem_nil, or_false] at h
  rcases h with rfl | rfl | h | rfl | rfl
  · decide
  · decide
  · exact (entryRows_facts h).1
  · decide
  · rfl

theorem lines_render (r : RuleSet) : lines (render r).toList = documentRows r := by
  rw [toList_render]
  exact lines_joinLines (List.cons_ne_nil _ _) fun _ h =>
    not_mem_of_all_isPrintable (all_isPrintable_of_mem_documentRows h)

theorem withoutComments_render (r : RuleSet) :
    withoutComments (render r).toList =
      '[' :: '\n' :: (entryLines (entriesOf r) ++ '\n' :: ']' :: ['\n']) := by
  have hrows : (entryRows (entriesOf r)).filter (!isComment ·) = entryRows (entriesOf r) :=
    List.filter_eq_self.mpr fun row h => by rw [(entryRows_facts h).2]; rfl
  have hfilter : (documentRows r).filter (!isComment ·) =
      ['['] :: (entryRows (entriesOf r) ++ [[']'], []]) := by
    have hbanner : (!isComment banner.toList) = false := by decide
    rw [documentRows, List.filter_cons, hbanner, List.filter_cons, List.filter_append, hrows]
    rfl
  rw [withoutComments, lines_render, hfilter, joinLines_cons (by simp),
    joinLines_append (entryRows_ne_nil _) (by simp), joinLines_entryRows]
  rfl

theorem readEntries_render (r : RuleSet) : readEntries (render r) = .ok (entriesOf r) := by
  simp only [readEntries, withoutComments_render, listOf_entryLines]

theorem parse_render (r : RuleSet) :
    parse (render r) = .ok ⟨r.symbols, r.includes.map settle⟩ := by
  simp only [parse, readEntries_render, rulesOf_entriesOf]

/-- A document is always read, and it gives its rules back unless a module holds an end of a
module. -/
theorem parse_render_eq_self_iff (r : RuleSet) :
    (∃ s, parse (render r) = .ok s) ∧
      (parse (render r) = .ok r ↔
        ∀ i ∈ r.includes, ¬ moduleEnd.toList <:+: i.module.toList) := by
  refine ⟨⟨_, parse_render r⟩, ?_⟩
  rw [parse_render, Except.ok.injEq]
  constructor
  · intro h
    exact map_settle_eq_self_iff.mp (congrArg RuleSet.includes h)
  · intro h
    rw [map_settle_eq_self_iff.mpr h]

end IncludeMap.Document
