/-! # Included headers

A header names a private header by `#include "name.h"`. A name reaches as far as it can in its line,
up to the last ending there, and the search goes on behind the ending.
-/
namespace IncludeMap.Header

def opening : List Char := "#include \"".toList

def ending : List Char := ".h\"".toList

/-- The longest name that the text starts with, up to an ending in the same line, and the text
behind that ending. -/
def longestName : List Char → Option (List Char × List Char)
  | [] => none
  | c :: cs =>
    match if c = '\n' then none else longestName cs with
    | some (name, rest) => some (c :: name, rest)
    | none => if ending.isPrefixOf (c :: cs) then some ([], cs.drop 2) else none

theorem longestName_length {s name rest : List Char} (h : longestName s = some (name, rest)) :
    rest.length < s.length := by
  induction s generalizing name with
  | nil => simp [longestName] at h
  | cons c cs ih =>
    unfold longestName at h
    split at h
    · next name' rest' hc =>
      split at hc
      · exact absurd hc (by simp)
      · cases h
        exact Nat.lt_succ_of_lt (ih hc)
    · split at h
      · cases h
        simp only [List.length_drop, List.length_cons]
        omega
      · exact absurd h (by simp)

/-- The names in a text, from left to right. -/
def namesIn (s : List Char) : List (List Char) :=
  match s with
  | [] => []
  | c :: cs =>
    if opening.isPrefixOf (c :: cs) then
      match _h : longestName (cs.drop 9) with
      | some (name, rest) => name :: namesIn rest
      | none => namesIn cs
    else namesIn cs
termination_by s.length
decreasing_by
  · have := longestName_length _h
    simp only [List.length_drop] at this
    simp only [List.length_cons]
    omega
  all_goals simp

def localIncludes (text : String) : List String :=
  (namesIn text.toList).map String.ofList

end IncludeMap.Header
