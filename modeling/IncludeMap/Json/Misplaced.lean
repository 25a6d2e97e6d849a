import IncludeMap.Json.Literal
import IncludeMap.Json.Numeral

/-! # Misplaced values

Where a value of one kind is expected and another stands, the failure names what was found. A list
or a map is named by its first bracket; every other value is read to its end first, and if that
fails, this is the failure.
-/
namespace IncludeMap.Json
open Text

def readWord (found : Found) : List Char → List Char → Outcome Found
  | [], s => .ok (found, s)
  | _ :: _, [] => .error ⟨.endInValue, 0⟩
  | w :: ws, c :: cs =>
    if c = w then readWord found ws cs else .error ⟨.expectedWord, weight (c :: cs) - 1⟩

/-- The value that a text starts with, so far as it is needed to name it. -/
def readFound (s : List Char) : Outcome Found :=
  match s with
  | [] => .error ⟨.expectedValue, 0⟩
  | c :: rest =>
    if c = 'n' then readWord .null "ull".toList rest
    else if c = 't' then readWord (.boolean true) "rue".toList rest
    else if c = 'f' then readWord (.boolean false) "alse".toList rest
    else if c = '-' then readNumeral true rest
    else if c.isDigit then readNumeral false s
    else if c = '"' then (readBody rest).map fun (text, rest) => (.text text, rest)
    else if c = '[' then .ok (.sequence, s)
    else if c = '\x7b' then .ok (.map, s)
    else .error ⟨.expectedValue, weight s - 1⟩

/-- The failure where something else than the expected value stands. -/
def misplaced (expected : String) (s : List Char) : Failure :=
  match readFound s with
  | .ok (found, rest) => ⟨.invalidType found expected, weight rest⟩
  | .error e => e

end IncludeMap.Json
