import IncludeMap.Json.Failure

/-! # Readers

A reader takes a value from the front of a text and answers with the value and the rest. It consumes
something whenever it succeeds, so values can be read one after the other until the text ends.
-/
namespace IncludeMap.Json

abbrev Outcome (α : Type) := Except Failure (α × List Char)

structure Reader (α : Type) where
  read : List Char → Outcome α
  shortens : ∀ {s a rest}, read s = .ok (a, rest) → rest.length < s.length

def isBlank (c : Char) : Bool :=
  c = ' ' || c = '\n' || c = '\t' || c = '\r'

def skipBlanks (s : List Char) : List Char := s.dropWhile isBlank

theorem skipBlanks_length_le (s : List Char) : (skipBlanks s).length ≤ s.length :=
  (List.dropWhile_sublist _).length_le

theorem length_lt_of_skipBlanks {s t : List Char} {c : Char} (h : skipBlanks s = c :: t) :
    t.length < s.length := by
  have := skipBlanks_length_le s
  rw [h, List.length_cons] at this
  omega

theorem bind_eq_ok {α β : Type} {x : Except Failure α} {f : α → Except Failure β} {b : β} :
    (x >>= f) = .ok b ↔ ∃ a, x = .ok a ∧ f a = .ok b := by
  cases x with
  | error e => simp [bind, Except.bind]
  | ok a => simp [bind, Except.bind]

end IncludeMap.Json
