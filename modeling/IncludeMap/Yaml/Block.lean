import IncludeMap.Yaml.Character

/-! # Block scalars

A block scalar is a header and the indented lines below it. Literal blocks keep their line breaks,
and folded ones make one line out of lines that start with no blank. The header says what happens
to the breaks at the end and may give the indentation, which is else that of the first line that
is not empty.
-/
namespace IncludeMap.Yaml

/-- What happens to the line breaks at the end. -/
inductive Chomping where
  /-- The first of them is kept. -/
  | clip
  | strip
  | keep
  deriving DecidableEq

structure BlockHeader where
  chomping : Chomping
  /-- How much deeper than its surroundings the block is indented; zero if that is not said. -/
  increment : Nat

def blockFailure (start : Place) (problem : String) (p : Place) : Failure :=
  .during "while scanning a block scalar" start problem p

def readChomping (c : Cursor) : Option Chomping × Cursor :=
  match c.rest with
  | '+' :: _ => (some .keep, c.skip 1)
  | '-' :: _ => (some .strip, c.skip 1)
  | _ => (none, c)

def readIncrement (start : Place) (c : Cursor) : Except Failure (Nat × Cursor) :=
  match c.rest with
  | [] => .ok (0, c)
  | d :: _ =>
    if d = '0' then
      .error (blockFailure start "found an indentation indicator equal to 0" c.place)
    else if d.isDigit then .ok (d.toNat - 48, c.skip 1)
    else .ok (0, c)

/-- The header, from behind its first character on. Sign and digit may stand in either order. -/
def readHeader (start : Place) (c : Cursor) : Except Failure (BlockHeader × Cursor) :=
  match readChomping c with
  | (some chomping, c) =>
    (readIncrement start c).map fun (n, c) => (⟨chomping, n⟩, c)
  | (none, c) =>
    (readIncrement start c).map fun (n, c) =>
      if n = 0 then (⟨.clip, 0⟩, c)
      else
        let (chomping, c) := readChomping c
        (⟨chomping.getD .clip, n⟩, c)

structure EmptyLines where
  breaks : List Char
  /-- The greatest column that was reached. -/
  widest : Nat
  cursor : Cursor

/-- Pass over indentation and empty lines. Where the indentation is zero it is not known yet. -/
def readEmptyLines (start : Place) (indent : Nat) (widest : Nat) (p : Place) :
    List Char → Except Failure EmptyLines
  | [] => .ok ⟨[], max widest p.column, ⟨p, []⟩⟩
  | c :: rest =>
    let inside := indent = 0 || decide (p.column < indent)
    if inside && c = ' ' then readEmptyLines start indent widest (p.right 1) rest
    else if inside && c = '\t' then
      .error (blockFailure start
        "found a tab character where an indentation space is expected" p)
    else if isBreak c then
      (readEmptyLines start indent (max widest p.column) (p.pass c rest) rest).map fun e =>
        { e with breaks := breakText c rest ++ e.breaks }
    else .ok ⟨[], max widest p.column, ⟨p, c :: rest⟩⟩

/-- The indentation of the block: what the header says, or else the greatest column before the first
line, but more than the indentation around the block. -/
def blockIndent (outer : Int) (increment widest : Nat) : Nat :=
  if increment ≠ 0 then outer.toNat + increment else max widest (max (outer + 1).toNat 1)

def lineJoint (literal : Bool) (before trailing : List Char) (blankBefore blankNow : Bool) :
    List Char :=
  if !literal && before.head? = some '\n' && !blankBefore && !blankNow then
    if trailing = [] then [' '] else trailing
  else before ++ trailing

def nextBreak (s : List Char) : List Char :=
  match s with
  | [] => []
  | c :: rest => if isHalfBreak c rest then ['\n'] else if isBreak c then breakText c rest else []

/-- The lines of a block from the cursor on, and what the breaks at its end stand for. `before` is
the break of the line before, `trailing` are those of the empty lines behind it; `fuel` bounds the
number of lines. -/
def readLines (literal : Bool) (start : Place) (indent : Nat) : Nat → List Char → List Char → Bool →
    Cursor → Except Failure (List Char × List Char × List Char × Cursor)
  | 0, before, trailing, _, c => .ok ([], before, trailing, c)
  | fuel + 1, before, trailing, blankBefore, c =>
    let (line, behind) := c.span (!isBreak ·)
    if c.place.column = indent ∧ line ≠ [] then
      let blankNow := line.head?.any isGap
      let after := behind.skipBreak
      match readEmptyLines start indent 0 after.place after.rest with
      | .error f => .error f
      | .ok e =>
        (readLines literal start indent fuel (nextBreak behind.rest) e.breaks blankNow e.cursor).map
          fun (text, before', trailing', c) =>
            (lineJoint literal before trailing blankBefore blankNow ++ line ++ text, before',
              trailing', c)
    else .ok ([], before, trailing, c)

/-- Read a block scalar from behind its first character on; `outer` is the indentation around it. -/
def readBlock (literal : Bool) (outer : Int) (start : Place) (c : Cursor) :
    Except Failure (List Char × Cursor) := do
  let (header, c) ← readHeader start c
  let c := c.skipComment
  if !endsWord c.rest || c.sees isGap then
    .error (blockFailure start "did not find expected comment or line break" c.place)
  else
    let c := c.skipBreak
    let given := if header.increment = 0 then 0 else blockIndent outer header.increment 0
    let e ← readEmptyLines start given 0 c.place c.rest
    let indent := blockIndent outer header.increment e.widest
    let (text, before, trailing, c) ←
      readLines literal start indent (e.cursor.rest.length + 1) [] e.breaks false e.cursor
    let tail :=
      match header.chomping with
      | .strip => []
      | .clip => before
      | .keep => before ++ trailing
    .ok (text ++ tail, c)

end IncludeMap.Yaml
