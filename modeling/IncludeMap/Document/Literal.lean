import IncludeMap.Text.Hex
import IncludeMap.Text.Utf16

/-! # Text literals of a mapping document

A literal is written in runs. A run ends at a quote, a backslash or a control, which have escapes of
their own, and is copied as it is when it holds printable ASCII characters alone; else its other
characters are written by their UTF-16 units.
-/
namespace IncludeMap.Document
open Text

def unitEscape (u : Nat) : List Char := ['\\', 'u'] ++ paddedHex 4 u

/-- The character has an escape of its own, which ends a run. -/
def isEscaped (c : Char) : Bool := c = '"' || c = '\\' || c.toNat < 0x20

/-- The escape of a quote, a backslash or a control. -/
def escape (c : Char) : List Char :=
  if c = '"' ∨ c = '\\' then ['\\', c]
  else if c = '\x08' then ['\\', 'b']
  else if c = '\t' then ['\\', 't']
  else if c = '\n' then ['\\', 'n']
  else if c = '\x0c' then ['\\', 'f']
  else if c = '\r' then ['\\', 'r']
  else unitEscape c.toNat

def isPlain (c : Char) : Bool := c.toNat < 0x7f

/-- A run: all of it copied, or character by character. -/
def writeRun (run : List Char) : List Char :=
  if run.all isPlain then run
  else run.flatMap fun c => if isPlain c then [c] else (units c).flatMap unitEscape

/-- The inside of a literal. -/
def writeRuns (s : List Char) : List Char :=
  match _h : s.dropWhile (!isEscaped ·) with
  | [] => writeRun (s.takeWhile (!isEscaped ·))
  | c :: rest => writeRun (s.takeWhile (!isEscaped ·)) ++ escape c ++ writeRuns rest
termination_by s.length
decreasing_by
  have := (List.dropWhile_sublist (l := s) (!isEscaped ·)).length_le
  rw [_h, List.length_cons] at this
  omega

def literal (s : String) : List Char := '"' :: writeRuns s.toList ++ ['"']

end IncludeMap.Document
