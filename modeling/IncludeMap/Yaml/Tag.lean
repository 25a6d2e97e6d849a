import IncludeMap.Text.Hex
import IncludeMap.Text.Utf8
import IncludeMap.Yaml.Character

/-! # Tags, anchors and directives

A tag is written in full between angle brackets, or as a handle and a rest; escapes in it stand
for the octets of UTF-8 sequences. A directive at the start of a document gives the version of
YAML, or a short form for the start of tags.
-/
namespace IncludeMap.Yaml
open Text

/-! ## Tags -/

inductive TagPart where
  | inDirective
  | inNode
  deriving DecidableEq

/-- What is being read, in the words of messages about a handle. -/
def TagPart.scanning : TagPart → String
  | .inDirective => "while scanning a tag directive"
  | .inNode => "while scanning a tag"

/-- What is being read, in the words of messages about the rest of a tag. -/
def TagPart.parsing : TagPart → String
  | .inDirective => "while parsing a %TAG directive"
  | .inNode => "while parsing a tag"

/-- The character may stand in a tag. Some marks may do so only where `marks` says it. -/
def isTagChar (marks : Bool) (c : Char) : Bool :=
  isNameChar c || ";/?:@&=+$.%!~*'()".toList.contains c || (marks && ",[]".toList.contains c)

def octet? : List Char → Option Nat
  | p :: a :: b :: _ =>
    if p = '%' then (hexValue? a).bind fun x => (hexValue? b).map fun y => x * 16 + y else none
  | _ => none

/-- The number of octets in the sequence that a first octet announces; zero if it announces none. -/
def sequenceLength (octet : Nat) : Nat :=
  if octet < 0x80 then 1
  else if 0xc0 ≤ octet ∧ octet < 0xe0 then 2
  else if 0xe0 ≤ octet ∧ octet < 0xf0 then 3
  else if 0xf0 ≤ octet ∧ octet < 0xf8 then 4
  else 0

/-- The number of octets that are due behind an octet, when `due` of them were due before it. -/
def dueAfter (due octet : Nat) : Except String Nat :=
  if due ≠ 0 then
    if 0x80 ≤ octet ∧ octet < 0xc0 then .ok (due - 1)
    else .error "found an incorrect trailing UTF-8 octet"
  else if sequenceLength octet = 0 then .error "found an incorrect leading UTF-8 octet"
  else .ok (sequenceLength octet - 1)

/-- Read the characters of a tag; `due` more octets of a sequence must come as escapes first. -/
def readTagChars (part : TagPart) (marks : Bool) (start : Place) (due : Nat) (p : Place)
    (s : List Char) : Except Failure (Bytes × Cursor) :=
  match s with
  | [] =>
    if due = 0 then .ok ([], ⟨p, []⟩)
    else .error (.during part.parsing start "did not find URI escaped octet" p)
  | c :: rest =>
    if due ≠ 0 ∨ c = '%' then
      match octet? (c :: rest) with
      | none => .error (.during part.parsing start "did not find URI escaped octet" p)
      | some v =>
        match dueAfter due v with
        | .error problem => .error (.during part.parsing start problem p)
        | .ok due =>
          (readTagChars part marks start due (p.right 3) (rest.drop 2)).map fun (bytes, e) =>
            (UInt8.ofNat v :: bytes, e)
    else if isTagChar marks c then
      (readTagChars part marks start 0 (p.right 1) rest).map fun (bytes, e) =>
        (encode [c] ++ bytes, e)
    else .ok ([], ⟨p, c :: rest⟩)
termination_by s.length
decreasing_by
  all_goals simp only [List.length_cons, List.length_drop]
  all_goals omega

/-- Read the rest of a tag behind what was read of it as a handle. It must not be empty together
with that. -/
def readTagRest (part : TagPart) (marks : Bool) (start : Place) (head : List Char) (c : Cursor) :
    Except Failure (Bytes × Cursor) :=
  match readTagChars part marks start 0 c.place c.rest with
  | .error f => .error f
  | .ok (bytes, e) =>
    if head = [] ∧ bytes = [] then
      .error (.during part.parsing start "did not find expected tag URI" e.place)
    else .ok (encode (head.drop 1) ++ bytes, e)

/-- Read a handle: an exclamation mark, and perhaps a name and another mark. -/
def readHandle (part : TagPart) (start : Place) (c : Cursor) :
    Except Failure (List Char × Cursor) :=
  if !c.sees (· = '!') then
    .error (.during part.scanning start "did not find expected '!'" c.place)
  else
    let (name, c) := (c.skip 1).span isNameChar
    if c.sees (· = '!') then .ok ('!' :: name ++ ['!'], c.skip 1)
    else if part = .inDirective ∧ name ≠ [] then
      .error (.during "while parsing a tag directive" start "did not find expected '!'" c.place)
    else .ok ('!' :: name, c)

/-- The text is a handle, and not only what begins a tag. -/
def isHandle (s : List Char) : Bool := 1 < s.length && s.getLast? = some '!'

def readTagBody (start : Place) (c : Cursor) : Except Failure (List Char × Bytes × Cursor) :=
  if (c.skip 1).sees (· = '<') then
    match readTagRest .inNode true start [] (c.skip 2) with
    | .error f => .error f
    | .ok (rest, c) =>
      if c.sees (· = '>') then .ok ([], rest, c.skip 1)
      else .error (.during "while scanning a tag" start "did not find the expected '>'" c.place)
  else
    match readHandle .inNode start c with
    | .error f => .error f
    | .ok (handle, c) =>
      if isHandle handle then
        (readTagRest .inNode false start [] c).map fun (rest, c) => (handle, rest, c)
      else
        (readTagRest .inNode false start handle c).map fun (rest, c) =>
          if rest = [] then ([], encode ['!'], c) else (['!'], rest, c)

/-- Read a tag, which a blank must follow, or in a flow collection a comma. -/
def readTag (flow : Bool) (c : Cursor) : Except Failure (List Char × Bytes × Cursor) :=
  match readTagBody c.place c with
  | .error f => .error f
  | .ok (handle, rest, e) =>
    if endsWord e.rest || (flow && e.sees (· = ',')) then .ok (handle, rest, e)
    else .error (.during "while scanning a tag" c.place
      "did not find expected whitespace or line break" e.place)

/-! ## Anchors and aliases -/

def readAnchor (activity : String) (c : Cursor) : Except Failure (List Char × Cursor) :=
  let (name, e) := (c.skip 1).span isNameChar
  if name ≠ [] ∧ (endsWord e.rest || e.sees ("?:,]\x7d%@`".toList.contains ·)) then .ok (name, e)
  else .error (.during activity c.place
    "did not find expected alphabetic or numeric character" e.place)

/-! ## Directives -/

inductive Directive where
  | version (major minor : Nat)
  | tagForm (handle : List Char) (start : Bytes)

def readVersionNumber (start : Place) (c : Cursor) : Except Failure (Nat × Cursor) :=
  let (digits, e) := c.span Char.isDigit
  if 9 < digits.length then
    .error (.during "while scanning a %YAML directive" start
      "found extremely long version number" (c.place.right 9))
  else if digits = [] then
    .error (.during "while scanning a %YAML directive" start
      "did not find expected version number" c.place)
  else .ok (digits.foldl (fun v d => v * 10 + (d.toNat - 48)) 0, e)

/-- Read a version, from behind the name of the directive on. -/
def readVersion (start : Place) (c : Cursor) : Except Failure (Directive × Cursor) := do
  let (major, c) ← readVersionNumber start (c.span isGap).2
  if c.sees (· = '.') then
    let (minor, c) ← readVersionNumber start (c.skip 1)
    .ok (.version major minor, c)
  else
    .error (.during "while scanning a %YAML directive" start
      "did not find expected digit or '.' character" c.place)

/-- Read a short form for tags, from behind the name of the directive on. -/
def readTagForm (start : Place) (c : Cursor) : Except Failure (Directive × Cursor) := do
  let (handle, c) ← readHandle .inDirective start (c.span isGap).2
  if !c.sees isGap then
    .error (.during "while scanning a %TAG directive" start
      "did not find expected whitespace" c.place)
  else
    let (bytes, c) ← readTagRest .inDirective true start [] (c.span isGap).2
    if endsWord c.rest then .ok (.tagForm handle bytes, c)
    else
      .error (.during "while scanning a %TAG directive" start
        "did not find expected whitespace or line break" c.place)

def readDirective (c : Cursor) : Except Failure (Directive × Cursor) := do
  let start := c.place
  let (name, c) := (c.skip 1).span isNameChar
  if name = [] then
    .error (.during "while scanning a directive" start
      "could not find expected directive name" c.place)
  else if !endsWord c.rest then
    .error (.during "while scanning a directive" start
      "found unexpected non-alphabetical character" c.place)
  else
    let (directive, c) ←
      if name = "YAML".toList then readVersion start c
      else if name = "TAG".toList then readTagForm start c
      else
        .error (.during "while scanning a directive" start "found unknown directive name" c.place)
    let c := c.skipComment
    if endsWord c.rest && !c.sees isGap then .ok (directive, c.skipBreak)
    else
      .error (.during "while scanning a directive" start
        "did not find expected comment or line break" c.place)

end IncludeMap.Yaml
