import IncludeMap.Json.Misplaced

/-! # Lists

A list holds values between brackets, with a comma between two of them. A whole text may hold one
list and blanks around it.
-/
namespace IncludeMap.Json
open Text

def readText (s : List Char) : Outcome (List Char) :=
  match skipBlanks s with
  | [] => .error ⟨.endInValue, 0⟩
  | c :: rest => if c = '"' then readBody rest else .error (misplaced "a string" (c :: rest))

theorem readText_length {s xs rest : List Char} (h : readText s = .ok (xs, rest)) :
    rest.length < s.length := by
  unfold readText at h
  split at h
  · simp at h
  · next c t hs =>
    split at h
    · exact Nat.lt_trans (readBody_length h) (length_lt_of_skipBlanks hs)
    · simp at h

def Reader.text : Reader (List Char) := ⟨readText, readText_length⟩

/-- The start of the next value behind a comma. -/
def nextValue (s : List Char) : Except Failure (List Char) :=
  match skipBlanks s with
  | [] => .error ⟨.endInValue, 0⟩
  | c :: rest =>
    if c = ']' then .error ⟨.trailingComma, weight (c :: rest) - 1⟩ else .ok (c :: rest)

theorem nextValue_length {s t : List Char} (h : nextValue s = .ok t) : t.length ≤ s.length := by
  unfold nextValue at h
  have hle := skipBlanks_length_le s
  split at h
  · simp at h
  · next c rest hs =>
    split at h
    · simp at h
    · simp only [Except.ok.injEq] at h
      rw [← h, ← hs]
      exact hle

/-- The values of a list from behind one of them on, up to the closing bracket. -/
def readMore {α : Type} (item : Reader α) (s : List Char) : Outcome (List α) :=
  match _hs : skipBlanks s with
  | [] => .error ⟨.endInList, 0⟩
  | c :: rest =>
    if c = ']' then .ok ([], rest)
    else if c = ',' then
      match _hv : nextValue rest with
      | .error e => .error e
      | .ok t =>
        match _hi : item.read t with
        | .error e => .error e
        | .ok (a, t) =>
          match readMore item t with
          | .error e => .error e
          | .ok (as, t) => .ok (a :: as, t)
    else .error ⟨.expectedListCommaOrEnd, weight (c :: rest) - 1⟩
termination_by s.length
decreasing_by
  have := length_lt_of_skipBlanks _hs
  have := nextValue_length _hv
  have := item.shortens _hi
  omega

def readItems {α : Type} (item : Reader α) (s : List Char) : Outcome (List α) :=
  match skipBlanks s with
  | [] => .error ⟨.endInList, 0⟩
  | c :: rest =>
    if c = ']' then .ok ([], rest)
    else
      match item.read (c :: rest) with
      | .error e => .error e
      | .ok (a, t) =>
        match readMore item t with
        | .error e => .error e
        | .ok (as, t) => .ok (a :: as, t)

def readList {α : Type} (item : Reader α) (s : List Char) : Outcome (List α) :=
  match skipBlanks s with
  | [] => .error ⟨.endInValue, 0⟩
  | c :: rest =>
    if c = '[' then readItems item rest else .error (misplaced "a sequence" (c :: rest))

/-- The values of the one list that a text holds. -/
def listOf {α : Type} (item : Reader α) (s : List Char) : Except Failure (List α) :=
  match readList item s with
  | .error e => .error e
  | .ok (as, rest) =>
    match skipBlanks rest with
    | [] => .ok as
    | c :: rest => .error ⟨.trailingCharacters, weight (c :: rest) - 1⟩

/-- What is left when a list is given up behind one of its values: the closing bracket is passed
over, or else a comma. -/
def leaveList (s : List Char) : List Char :=
  match skipBlanks s with
  | [] => []
  | c :: rest =>
    if c = ']' then rest else if c = ',' then skipBlanks rest else c :: rest

/-- The next one of a fixed number of texts in a list, `before` of which have been read. -/
def readPart (expected : String) (before : Nat) (s : List Char) : Outcome (List Char) :=
  match skipBlanks s with
  | [] => .error ⟨.endInList, 0⟩
  | c :: rest =>
    if c = ']' then .error ⟨.invalidLength before expected, weight rest⟩
    else if before = 0 then readText (c :: rest)
    else if c = ',' then
      match nextValue rest with
      | .error e => .error e
      | .ok t => readText t
    else .error ⟨.expectedListCommaOrEnd, weight (c :: rest) - 1⟩

/-- The end of a list in which as many values as expected have been read. -/
def endList (s : List Char) : Except Failure (List Char) :=
  match skipBlanks s with
  | [] => .error ⟨.endInList, 0⟩
  | c :: rest =>
    if c = ']' then .ok rest
    else if c = ',' then
      match skipBlanks rest with
      | [] => .error ⟨.trailingCharacters, 0⟩
      | d :: rest =>
        if d = ']' then .error ⟨.trailingComma, weight (d :: rest) - 1⟩
        else .error ⟨.trailingCharacters, weight (d :: rest) - 1⟩
    else .error ⟨.trailingCharacters, weight (c :: rest) - 1⟩

end IncludeMap.Json
