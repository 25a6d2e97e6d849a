/-! # Places in a YAML text

A place counts characters, lines and columns from zero and shows lines and columns from one. The
place at the start of a text is not shown.
-/
namespace IncludeMap.Yaml

structure Place where
  index : Nat
  line : Nat
  column : Nat
  deriving DecidableEq

namespace Place

def start : Place := ⟨0, 0, 0⟩

def right (p : Place) (n : Nat) : Place := ⟨p.index + n, p.line, p.column + n⟩

def sameSpot (p q : Place) : Bool := p.line = q.line && p.column = q.column

def isShown (p : Place) : Bool := !p.sameSpot start

def text (p : Place) : String :=
  "line " ++ Nat.repr (p.line + 1) ++ " column " ++ Nat.repr (p.column + 1)

end Place

structure Failure where
  problem : String
  place : Place
  /-- What was being read, and where that began. -/
  context : Option (String × Place)
  deriving DecidableEq

namespace Failure

def plain (problem : String) (place : Place) : Failure := ⟨problem, place, none⟩

def during (activity : String) (start : Place) (problem : String) (place : Place) : Failure :=
  ⟨problem, place, some (activity, start)⟩

def contextText (f : Failure) : String :=
  match f.context with
  | none => ""
  | some (activity, start) =>
    ", " ++ activity ++
      if start.isShown && !start.sameSpot f.place then " at " ++ start.text else ""

def message (f : Failure) : String :=
  f.problem ++ (if f.place.isShown then " at " ++ f.place.text else "") ++ f.contextText

end Failure

end IncludeMap.Yaml
