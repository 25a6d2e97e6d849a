import IncludeMap.Yaml.Place

/-! # Characters of a YAML text

Which characters may occur, which end a line, and where one is after one of them. A carriage return
and a line feed end one line together: the place does not move on to the next line before the line
feed, and the return stands for nothing.
-/
namespace IncludeMap.Yaml

def isAllowed (c : Char) : Bool :=
  c = '\t' || c = '\n' || c = '\r' || (0x20 ≤ c.toNat && c.toNat ≤ 0x7e) || c.toNat = 0x85
    || (0xa0 ≤ c.toNat && c.toNat ≤ 0xd7ff) || (0xe000 ≤ c.toNat && c.toNat ≤ 0xfffd)
    || 0x10000 ≤ c.toNat

def byteOrderMark : Char := '\ufeff'

def isBreak (c : Char) : Bool :=
  c = '\r' || c = '\n' || c = '\u0085' || c = '\u2028' || c = '\u2029'

def isGap (c : Char) : Bool := c = ' ' || c = '\t'

/-- A blank, a line break or the end comes next. -/
def endsWord : List Char → Bool
  | [] => true
  | c :: _ => isGap c || isBreak c

def isNameChar (c : Char) : Bool := c.isAlphanum || c = '_' || c = '-'

/-- The return of a line end that a line feed completes. -/
def isHalfBreak (c : Char) (rest : List Char) : Bool := c = '\r' && rest.head? = some '\n'

/-- What a line break stands for: separators are kept, all others become a line feed. -/
def breakText (c : Char) (rest : List Char) : List Char :=
  if isHalfBreak c rest then []
  else if c = '\u2028' || c = '\u2029' then [c]
  else ['\n']

def Place.pass (p : Place) (c : Char) (rest : List Char) : Place :=
  if isHalfBreak c rest then ⟨p.index + 1, p.line, p.column⟩
  else if isBreak c then ⟨p.index + 1, p.line + 1, 0⟩
  else p.right 1

/-- Three dashes or three dots that stand for themselves. They end a document in a first column. -/
def isDocumentMark : List Char → Bool
  | a :: b :: c :: rest => a = b && b = c && (c = '-' || c = '.') && endsWord rest
  | _ => false

structure Cursor where
  place : Place
  rest : List Char

namespace Cursor

/-- Pass over characters of the same line. -/
def skip (c : Cursor) (n : Nat) : Cursor := ⟨c.place.right n, c.rest.drop n⟩

def span (c : Cursor) (test : Char → Bool) : List Char × Cursor :=
  let run := c.rest.takeWhile test
  (run, ⟨c.place.right run.length, c.rest.dropWhile test⟩)

def sees (c : Cursor) (test : Char → Bool) : Bool := c.rest.head?.any test

def skipBreak (c : Cursor) : Cursor :=
  match c.rest with
  | [] => c
  | x :: xs =>
    if isHalfBreak x xs then ⟨⟨c.place.index + 2, c.place.line + 1, 0⟩, xs.drop 1⟩
    else if isBreak x then ⟨c.place.pass x xs, xs⟩
    else c

/-- Pass over the rest of a line that may hold blanks and a comment. -/
def skipComment (c : Cursor) : Cursor :=
  let c := (c.span isGap).2
  if c.sees (· = '#') then (c.span (!isBreak ·)).2 else c

end Cursor

end IncludeMap.Yaml
