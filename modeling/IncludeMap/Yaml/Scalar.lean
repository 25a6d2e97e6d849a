import IncludeMap.Text.Hex
import IncludeMap.Yaml.Character

/-! # Scalars in a line of text

Plain and quoted scalars may run over several lines. Blanks around a line break do not count; a lone
break stands for a blank, and of several breaks the first is left out. Only in double quotes are
there escapes.
-/
namespace IncludeMap.Yaml
open Text

structure Gap where
  /-- The blanks before the first line break. -/
  blanks : List Char
  /-- What the line breaks stand for, one by one. -/
  breaks : List (List Char)
  /-- The first line break is escaped, and so is not among the breaks. -/
  escaped : Bool

namespace Gap

def empty : Gap := ⟨[], [], false⟩

def afterEscape : Gap := ⟨[], [], true⟩

def hasBreak (g : Gap) : Bool := g.escaped || !g.breaks.isEmpty

def isEmpty (g : Gap) : Bool := g.blanks.isEmpty && !g.hasBreak

def addBlank (g : Gap) (c : Char) : Gap :=
  if g.hasBreak then g else { g with blanks := g.blanks ++ [c] }

def addBreak (g : Gap) (c : Char) (rest : List Char) : Gap :=
  if isHalfBreak c rest then g else { g with breaks := g.breaks ++ [breakText c rest] }

def text (g : Gap) : List Char :=
  if g.escaped then g.breaks.flatten
  else
    match g.breaks with
    | [] => g.blanks
    | first :: more =>
      if first ≠ ['\n'] then first ++ more.flatten
      else if more = [] then [' ']
      else more.flatten

end Gap

/-! ## Plain scalars -/

structure PlainEnd where
  text : List Char
  /-- There is a line break behind the scalar. -/
  broken : Bool
  cursor : Cursor

def isFlowMark (c : Char) : Bool :=
  c = ',' || c = '[' || c = ']' || c = '\x7b' || c = '\x7d'

/-- A plain scalar ends before this text, which starts with no blank. -/
def endsPlain (flow : Bool) (indent : Int) (p : Place) (g : Gap) (s : List Char) : Bool :=
  match s with
  | [] => true
  | c :: rest =>
    (p.column = 0 && isDocumentMark s) || (c = '#' && !g.isEmpty)
      || (!flow && !g.isEmpty && decide ((p.column : Int) < indent))
      || (c = ':' && endsWord rest) || (flow && isFlowMark c)

/-- A colon that neither belongs to a plain scalar in a flow collection nor ends it. -/
def isStrayColon (flow : Bool) (c : Char) (rest : List Char) : Bool :=
  flow && c = ':' && rest.head?.any fun d => d = '?' || isFlowMark d

/-- Read a plain scalar that began at `start`, behind the gap `g`. Its lines are indented by
`indent` at least. -/
def readPlain (flow : Bool) (indent : Int) (start : Place) (p : Place) (g : Gap) :
    List Char → Except Failure PlainEnd
  | [] => .ok ⟨[], g.hasBreak, ⟨p, []⟩⟩
  | c :: rest =>
    if isGap c then
      if g.hasBreak && decide ((p.column : Int) < indent) && c = '\t' then
        .error (.during "while scanning a plain scalar" start
          "found a tab character that violates indentation" p)
      else readPlain flow indent start (p.pass c rest) (g.addBlank c) rest
    else if isBreak c then readPlain flow indent start (p.pass c rest) (g.addBreak c rest) rest
    else if endsPlain flow indent p g (c :: rest) then .ok ⟨[], g.hasBreak, ⟨p, c :: rest⟩⟩
    else if isStrayColon flow c rest then
      .error (.during "while scanning a plain scalar" start "found unexpected ':'" p)
    else
      match readPlain flow indent start (p.pass c rest) .empty rest with
      | .error f => .error f
      | .ok e => .ok ⟨g.text ++ c :: e.text, e.broken, e.cursor⟩

/-! ## Quoted scalars -/

def namedEscape? (c : Char) : Option Char :=
  match c with
  | '0' => some '\x00'
  | 'a' => some '\x07'
  | 'b' => some '\x08'
  | 't' => some '\t'
  | '\t' => some '\t'
  | 'n' => some '\n'
  | 'v' => some '\x0b'
  | 'f' => some '\x0c'
  | 'r' => some '\r'
  | 'e' => some '\x1b'
  | ' ' => some ' '
  | '"' => some '"'
  | '/' => some '/'
  | '\\' => some '\\'
  | 'N' => some '\u0085'
  | '_' => some '\u00a0'
  | 'L' => some '\u2028'
  | 'P' => some '\u2029'
  | _ => none

/-- The number of digits that the letter behind a backslash asks for. -/
def escapeDigits? (c : Char) : Option Nat :=
  match c with
  | 'x' => some 2
  | 'u' => some 4
  | 'U' => some 8
  | _ => none

def scalarValue? (n : Nat) : Option Char :=
  if (0xd800 ≤ n ∧ n ≤ 0xdfff) ∨ 0x10ffff < n then none else some (Char.ofNat n)

/-- The code point that the first `n` characters give in hexadecimal. -/
def readDigits? (n : Nat) (s : List Char) : Option Nat :=
  if (s.take n).length < n then none else hexNumber? (s.take n)

/-- Read a quoted scalar that began at `start`, behind the gap `g`, up to its closing quote. -/
def readQuoted (single : Bool) (start : Place) (p : Place) (g : Gap) (s : List Char) :
    Except Failure (List Char × Cursor) :=
  match s with
  | [] =>
    .error (.during "while scanning a quoted scalar" start "found unexpected end of stream" p)
  | c :: rest =>
    if p.column = 0 && isDocumentMark (c :: rest) then
      .error (.during "while scanning a quoted scalar" start
        "found unexpected document indicator" p)
    else if isGap c then readQuoted single start (p.pass c rest) (g.addBlank c) rest
    else if isBreak c then readQuoted single start (p.pass c rest) (g.addBreak c rest) rest
    else if c = (if single then '\'' else '"') then
      match rest with
      | [] => .ok (g.text, ⟨p.right 1, []⟩)
      | d :: rest =>
        if single && d = '\'' then
          (readQuoted single start (p.right 2) .empty rest).map fun (text, e) =>
            (g.text ++ '\'' :: text, e)
        else .ok (g.text, ⟨p.right 1, d :: rest⟩)
    else if c = '\\' && !single then
      match rest with
      | [] => .error (.during "while parsing a quoted scalar" start
          "found unknown escape character" p)
      | d :: rest =>
        if isBreak d then
          if isHalfBreak d rest then
            (readQuoted single start (((p.right 1).pass d rest).pass '\n' []) .afterEscape
              (rest.drop 1)).map fun (text, e) => (g.text ++ text, e)
          else
            (readQuoted single start ((p.right 1).pass d rest) .afterEscape rest).map
              fun (text, e) => (g.text ++ text, e)
        else
          match namedEscape? d, escapeDigits? d with
          | some x, _ =>
            (readQuoted single start (p.right 2) .empty rest).map fun (text, e) =>
              (g.text ++ x :: text, e)
          | none, none => .error (.during "while parsing a quoted scalar" start
              "found unknown escape character" p)
          | none, some n =>
            match readDigits? n rest with
            | none => .error (.during "while parsing a quoted scalar" start
                "did not find expected hexadecimal number" (p.right 2))
            | some v =>
              match scalarValue? v with
              | none => .error (.during "while parsing a quoted scalar" start
                  "found invalid Unicode character escape code" (p.right 2))
              | some x =>
                (readQuoted single start (p.right (2 + n)) .empty (rest.drop n)).map
                  fun (text, e) => (g.text ++ x :: text, e)
    else
      (readQuoted single start (p.pass c rest) .empty rest).map fun (text, e) =>
        (g.text ++ c :: text, e)
termination_by s.length
decreasing_by
  all_goals simp only [List.length_cons, List.length_drop]
  all_goals omega

end IncludeMap.Yaml
