import IncludeMap.Document.Entry
import IncludeMap.Json.Sequence
import IncludeMap.Text.Blank
import IncludeMap.Text.Line

/-! # Reading a mapping document

A line is a comment when its first character that is not blank is a number sign. The other lines
hold a list of entries in JSON; first the whole list is read, and then each entry is checked.
-/
namespace IncludeMap.Document
open Text Json

def isComment (line : List Char) : Bool := (trimStart line).head? = some '#'

def withoutComments (s : List Char) : List Char :=
  joinLines ((lines s).filter (!isComment ·))

def knownKinds : String := "`symbol` or `include`"

def kindOf? (name : List Char) : Option Kind :=
  if name = "symbol".toList then some .symbol
  else if name = "include".toList then some .include
  else none

/-- What a message calls the texts of an entry. -/
def Kind.tupleName : Kind → String
  | .symbol => "tuple variant ImpEntry::Symbol"
  | .include => "tuple variant ImpEntry::Include"

/-- The texts of an entry, from behind the opening bracket on. -/
def readTexts (k : Kind) (s : List Char) : Except Failure (Entry × List Char) := do
  let expected := k.tupleName ++ " with 4 elements"
  let (subject, s) ← readPart expected 0 s
  let (subjectMark, s) ← readPart expected 1 s
  let (target, s) ← readPart expected 2 s
  let (targetMark, s) ← readPart expected 3 s
  let s ← endList s
  .ok (⟨k, String.ofList subject, String.ofList subjectMark, String.ofList target,
    String.ofList targetMark⟩, s)

def readTextList (k : Kind) (s : List Char) : Outcome Entry :=
  match skipBlanks s with
  | [] => .error ⟨.endInValue, 0⟩
  | c :: rest =>
    if c = '[' then readTexts k rest else .error (misplaced k.tupleName (c :: rest))

/-- The name of an entry, from behind its first quote on. -/
def readKind (s : List Char) : Outcome Kind :=
  match readBody s with
  | .error e => .error e
  | .ok (name, rest) =>
    match kindOf? name with
    | some k => .ok (k, rest)
    | none => .error ⟨.unknownName name knownKinds, weight rest⟩

def readKey (s : List Char) : Outcome Kind :=
  match skipBlanks s with
  | [] => .error ⟨.endInObject, 0⟩
  | c :: rest =>
    if c = '"' then readKind rest else .error ⟨.keyMustBeString, weight (c :: rest) - 1⟩

def readColon (s : List Char) : Except Failure (List Char) :=
  match skipBlanks s with
  | [] => .error ⟨.endInObject, 0⟩
  | c :: rest => if c = ':' then .ok rest else .error ⟨.expectedColon, weight (c :: rest) - 1⟩

def endEntry (s : List Char) : Except Failure (List Char) :=
  match skipBlanks s with
  | [] => .error ⟨.endInObject, 0⟩
  | c :: rest => if c = '\x7d' then .ok rest else .error ⟨.expectedValue, weight (c :: rest)⟩

/-- An entry between braces, from behind the opening one on. -/
def readBraced (s : List Char) : Except Failure (Entry × List Char) := do
  let (k, s) ← readKey s
  let s ← readColon s
  let (e, s) ← readTextList k s
  let s ← endEntry s
  .ok (e, s)

theorem readPart_length {expected : String} {n : Nat} {s xs rest : List Char}
    (h : readPart expected n s = .ok (xs, rest)) : rest.length < s.length := by
  unfold readPart at h
  split at h
  · simp at h
  · next c t hs =>
    have hle := skipBlanks_length_le s
    rw [hs, List.length_cons] at hle
    split at h
    · simp at h
    · split at h
      · have := readText_length h
        rw [List.length_cons] at this
        omega
      · split at h
        · split at h
          · simp at h
          · next hv =>
            have := nextValue_length hv
            have := readText_length h
            omega
        · simp at h

theorem endList_length {s rest : List Char} (h : endList s = .ok rest) :
    rest.length < s.length := by
  unfold endList at h
  split at h
  · simp at h
  · next hs =>
    split at h
    · simp only [Except.ok.injEq] at h
      exact h ▸ length_lt_of_skipBlanks hs
    · split at h
      · split at h
        · simp at h
        · split at h <;> simp at h
      · simp at h

theorem readTextList_length {k : Kind} {s rest : List Char} {e : Entry}
    (h : readTextList k s = .ok (e, rest)) : rest.length < s.length := by
  unfold readTextList at h
  split at h
  · simp at h
  · next hs =>
    split at h
    · obtain ⟨⟨a, s₁⟩, h₁, h⟩ := bind_eq_ok.mp h
      obtain ⟨⟨b, s₂⟩, h₂, h⟩ := bind_eq_ok.mp h
      obtain ⟨⟨c, s₃⟩, h₃, h⟩ := bind_eq_ok.mp h
      obtain ⟨⟨d, s₄⟩, h₄, h⟩ := bind_eq_ok.mp h
      obtain ⟨s₅, h₅, h⟩ := bind_eq_ok.mp h
      simp only [Except.ok.injEq, Prod.mk.injEq] at h
      have := length_lt_of_skipBlanks hs
      have := readPart_length h₁
      have := readPart_length h₂
      have := readPart_length h₃
      have := readPart_length h₄
      have := endList_length h₅
      rw [← h.2]
      omega
    · simp at h

theorem readKey_length {s rest : List Char} {k : Kind} (h : readKey s = .ok (k, rest)) :
    rest.length < s.length := by
  unfold readKey at h
  split at h
  · simp at h
  · next hs =>
    split at h
    · unfold readKind at h
      split at h
      · simp at h
      · next hb =>
        split at h
        · simp only [Except.ok.injEq, Prod.mk.injEq] at h
          have := readBody_length hb
          have := length_lt_of_skipBlanks hs
          rw [← h.2]
          omega
        · simp at h
    · simp at h

theorem readColon_length {s rest : List Char} (h : readColon s = .ok rest) :
    rest.length < s.length := by
  unfold readColon at h
  split at h
  · simp at h
  · next hs =>
    split at h
    · simp only [Except.ok.injEq] at h
      exact h ▸ length_lt_of_skipBlanks hs
    · simp at h

theorem endEntry_length {s rest : List Char} (h : endEntry s = .ok rest) :
    rest.length < s.length := by
  unfold endEntry at h
  split at h
  · simp at h
  · next hs =>
    split at h
    · simp only [Except.ok.injEq] at h
      exact h ▸ length_lt_of_skipBlanks hs
    · simp at h

theorem readBraced_length {s rest : List Char} {e : Entry} (h : readBraced s = .ok (e, rest)) :
    rest.length < s.length := by
  obtain ⟨⟨k, s₁⟩, h₁, h⟩ := bind_eq_ok.mp h
  obtain ⟨s₂, h₂, h⟩ := bind_eq_ok.mp h
  obtain ⟨⟨x, s₃⟩, h₃, h⟩ := bind_eq_ok.mp h
  obtain ⟨s₄, h₄, h⟩ := bind_eq_ok.mp h
  simp only [Except.ok.injEq, Prod.mk.injEq] at h
  have := readKey_length h₁
  have := readColon_length h₂
  have := readTextList_length h₃
  have := endEntry_length h₄
  rw [← h.2]
  omega

/-- The failure where an entry is a name alone, from behind the first quote of the name on. It shows
behind the list. -/
def bareEntry (s : List Char) : Failure :=
  match readKind s with
  | .error e => e
  | .ok (_, rest) => ⟨.invalidType .bareName "tuple variant", weight (leaveList rest)⟩

def readEntry (s : List Char) : Outcome Entry :=
  match skipBlanks s with
  | [] => .error ⟨.endInValue, 0⟩
  | c :: rest =>
    if c = '\x7b' then readBraced rest
    else if c = '"' then .error (bareEntry rest)
    else .error ⟨.expectedValue, weight (c :: rest) - 1⟩

theorem readEntry_length {s rest : List Char} {e : Entry} (h : readEntry s = .ok (e, rest)) :
    rest.length < s.length := by
  unfold readEntry at h
  split at h
  · simp at h
  · next c t hs =>
    have ht := length_lt_of_skipBlanks hs
    split at h
    · exact Nat.lt_trans (readBraced_length h) ht
    · split at h <;> simp at h

def entryReader : Reader Entry := ⟨readEntry, readEntry_length⟩

def readEntries (document : String) : Except Problem (List Entry) :=
  let s := withoutComments document.toList
  match listOf entryReader s with
  | .ok es => .ok es
  | .error f => .error (.ofJson (f.message s))

def parse (document : String) : Except Problem RuleSet :=
  match readEntries document with
  | .ok es => rulesOf es
  | .error p => .error p

end IncludeMap.Document
