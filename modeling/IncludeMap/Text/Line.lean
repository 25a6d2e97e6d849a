/-! # Lines of a text

A line ends at a line feed, and a carriage return right before that line feed belongs to the ending.
What follows the last line feed is a line too, unless it is empty; a carriage return there is kept.
-/
namespace IncludeMap.Text

/-- The lines of a text, without their endings. -/
def lines : List Char → List (List Char)
  | [] => []
  | '\n' :: cs => [] :: lines cs
  | '\r' :: '\n' :: cs => [] :: lines cs
  | c :: cs =>
    match lines cs with
    | [] => [[c]]
    | l :: ls => (c :: l) :: ls

def joinLines : List (List Char) → List Char
  | [] => []
  | [l] => l
  | l :: m :: ls => l ++ '\n' :: joinLines (m :: ls)

theorem lines_append {l : List Char} (hf : '\n' ∉ l) (hr : '\r' ∉ l) (s : List Char) :
    lines (l ++ '\n' :: s) = l :: lines s := by
  induction l with
  | nil => rfl
  | cons c l ih =>
    rw [List.mem_cons, not_or] at hf hr
    rw [List.cons_append, lines, ih hf.2 hr.2]
    · exact fun h => hf.1 h.symm
    · exact fun _ h _ => hr.1 h.symm

theorem joinLines_cons {ls : List (List Char)} (hls : ls ≠ []) (l : List Char) :
    joinLines (l :: ls) = l ++ '\n' :: joinLines ls := by
  cases ls with
  | nil => exact absurd rfl hls
  | cons m ms => rfl

theorem joinLines_append {ls ms : List (List Char)} (hls : ls ≠ []) (hms : ms ≠ []) :
    joinLines (ls ++ ms) = joinLines ls ++ '\n' :: joinLines ms := by
  induction ls with
  | nil => exact absurd rfl hls
  | cons l ls ih =>
    rw [List.cons_append, joinLines_cons (by simp [hms])]
    by_cases h : ls = []
    · simp [h, joinLines]
    · rw [ih h, joinLines_cons h, List.append_assoc, List.cons_append]

/-- Lines that hold no break are found again in their text. -/
theorem lines_joinLines {ls : List (List Char)} (hls : ls ≠ [])
    (h : ∀ l ∈ ls, '\n' ∉ l ∧ '\r' ∉ l) : lines (joinLines ls ++ ['\n']) = ls := by
  induction ls with
  | nil => exact absurd rfl hls
  | cons l ls ih =>
    obtain ⟨hf, hr⟩ := h l List.mem_cons_self
    by_cases hn : ls = []
    · subst hn
      exact lines_append hf hr []
    · rw [joinLines_cons hn, List.append_assoc, List.cons_append, lines_append hf hr,
        ih hn fun m hm => h m (List.mem_cons_of_mem l hm)]

end IncludeMap.Text
