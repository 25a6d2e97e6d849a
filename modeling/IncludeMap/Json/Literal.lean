import IncludeMap.Json.Reader
import IncludeMap.Text.Utf16

/-! # Text literals

A text stands between double quotes. An escape stands for a quote, a backslash, a slash or a
control, or gives UTF-16 units by four hexadecimal digits each; two units must make one character.
-/
namespace IncludeMap.Json
open Text

/-- The unit that four digits stand for. Four bytes are taken, even where they are no digits. -/
def readUnit (s : List Char) : Outcome Nat :=
  if weight (s.take 4) < 4 then .error ⟨.endInString, 0⟩
  else
    match hexNumber? (s.take 4) with
    | some u => if (s.take 4).length = 4 then .ok (u, s.drop 4)
      else .error ⟨.invalidEscape, weight s - 4⟩
    | none => .error ⟨.invalidEscape, weight s - 4⟩

/-- The second half of a pair of units, and so the character. -/
def readLowUnit (high : Nat) (s : List Char) : Outcome Char :=
  match s with
  | [] => .error ⟨.endInString, 0⟩
  | [c] => if c = '\\' then .error ⟨.endInString, 0⟩ else .error ⟨.unfinishedPair, weight s - 1⟩
  | c :: d :: rest =>
    if c ≠ '\\' then .error ⟨.unfinishedPair, weight s - 1⟩
    else if d ≠ 'u' then .error ⟨.unfinishedPair, weight (d :: rest) - 1⟩
    else
      match readUnit rest with
      | .error e => .error e
      | .ok (low, rest) =>
        if isLowUnit low then .ok (pairChar high low, rest) else .error ⟨.loneUnit, weight rest⟩

def readUnits (s : List Char) : Outcome Char :=
  match readUnit s with
  | .error e => .error e
  | .ok (u, rest) =>
    if isLowUnit u then .error ⟨.loneUnit, weight rest⟩
    else if isHighUnit u then readLowUnit u rest
    else .ok (Char.ofNat u, rest)

def simpleEscape? (c : Char) : Option Char :=
  if c = '"' ∨ c = '\\' ∨ c = '/' then some c
  else if c = 'b' then some '\x08'
  else if c = 'f' then some '\x0c'
  else if c = 'n' then some '\n'
  else if c = 'r' then some '\r'
  else if c = 't' then some '\t'
  else none

/-- The character that an escape stands for, from behind the backslash on. -/
def readEscape (s : List Char) : Outcome Char :=
  match s with
  | [] => .error ⟨.endInString, 0⟩
  | c :: rest =>
    if c = 'u' then readUnits rest
    else
      match simpleEscape? c with
      | some x => .ok (x, rest)
      | none => .error ⟨.invalidEscape, weight (c :: rest) - 1⟩

theorem readUnit_length {s rest : List Char} {u : Nat} (h : readUnit s = .ok (u, rest)) :
    rest.length ≤ s.length := by
  unfold readUnit at h
  split at h
  · cases h
  · split at h
    · split at h
      · cases h
        exact (List.drop_sublist _ _).length_le
      · cases h
    · cases h

theorem readLowUnit_length {high : Nat} {s rest : List Char} {c : Char}
    (h : readLowUnit high s = .ok (c, rest)) : rest.length ≤ s.length := by
  unfold readLowUnit at h
  split at h
  · simp at h
  · split at h <;> simp at h
  · split at h
    · simp at h
    · split at h
      · simp at h
      · split at h
        · simp at h
        · next hr =>
          split at h
          · simp only [Except.ok.injEq, Prod.mk.injEq] at h
            have := readUnit_length hr
            rw [← h.2]
            simp only [List.length_cons]
            omega
          · simp at h

theorem readUnits_length {s rest : List Char} {c : Char} (h : readUnits s = .ok (c, rest)) :
    rest.length ≤ s.length := by
  unfold readUnits at h
  split at h
  · cases h
  · next u r hr =>
    have hle := readUnit_length hr
    split at h
    · cases h
    · split at h
      · exact Nat.le_trans (readLowUnit_length h) hle
      · cases h
        exact hle

theorem readEscape_length {s rest : List Char} {c : Char} (h : readEscape s = .ok (c, rest)) :
    rest.length < s.length := by
  unfold readEscape at h
  split at h
  · cases h
  · next d r =>
    rw [List.length_cons]
    split at h
    · exact Nat.lt_succ_of_le (readUnits_length h)
    · split at h
      · cases h
        omega
      · cases h

/-- The characters of a literal, from behind the first quote on. -/
def readBody (s : List Char) : Outcome (List Char) :=
  match s with
  | [] => .error ⟨.endInString, 0⟩
  | c :: cs =>
    if c = '"' then .ok ([], cs)
    else if c = '\\' then
      match _h : readEscape cs with
      | .error e => .error e
      | .ok (x, rest) =>
        match readBody rest with
        | .error e => .error e
        | .ok (xs, rest) => .ok (x :: xs, rest)
    else if c.toNat < 0x20 then .error ⟨.controlCharacter, weight cs⟩
    else
      match readBody cs with
      | .error e => .error e
      | .ok (xs, rest) => .ok (c :: xs, rest)
termination_by s.length
decreasing_by
  · have := readEscape_length _h
    simp only [List.length_cons]
    omega
  · simp

theorem readBody_length {s xs rest : List Char} (h : readBody s = .ok (xs, rest)) :
    rest.length < s.length := by
  fun_induction readBody s generalizing xs with
  | case1 => simp at h
  | case2 => simp at h; simp [← h.2]
  | case3 => simp at h
  | case4 => simp at h
  | case5 cs c r he ys r' hb _ ih =>
    simp only [Except.ok.injEq, Prod.mk.injEq] at h
    rw [h.2] at hb
    have := ih hb
    have := readEscape_length he
    simp only [List.length_cons]
    omega
  | case6 => simp at h
  | case7 => simp at h
  | case8 c r _ _ _ ys r' hb ih =>
    simp only [Except.ok.injEq, Prod.mk.injEq] at h
    rw [h.2] at hb
    have := ih hb
    simp only [List.length_cons]
    omega

end IncludeMap.Json
