import IncludeMap.Yaml.Token

/-! # From tokens to events

Events say what the text holds, in the order of the text: scalars, aliases, and the starts and
ends of sequences and mappings. What is missing (a value without a key, an entry without a value)
becomes an empty scalar. An event reader knows what it expects next, and what after that when it
leaves a collection.
-/
namespace IncludeMap.Yaml
open Text

inductive Event where
  | streamStart
  | streamEnd
  | documentStart
  | documentEnd
  | alias (name : List Char)
  | scalar (anchor : Option (List Char)) (tag : Option Bytes) (text : List Char) (plain : Bool)
  | sequenceStart (anchor : Option (List Char))
  | sequenceEnd
  | mappingStart (anchor : Option (List Char))
  | mappingEnd
  deriving DecidableEq

/-- What can come next. A `first` one includes the start of the collection. -/
inductive Expectation where
  | stream
  /-- A document, which may begin without a mark. -/
  | firstDocument
  | document
  | content
  | documentEnd
  | blockNode
  | firstBlockEntry
  | blockEntry
  | indentlessEntry
  | firstBlockKey
  | blockKey
  | blockValue
  | firstFlowEntry
  | flowEntry
  /-- The key of a pair that stands in a sequence without braces. -/
  | pairKey
  | pairValue
  | pairEnd
  | firstFlowKey
  | flowKey
  | flowValue
  | flowEmptyValue
  | nothing
  deriving DecidableEq

structure EventReader where
  tokens : List Token
  failure : Option Failure
  expected : Expectation
  /-- What is expected behind the node that is being read. -/
  later : List Expectation
  openings : List Place
  /-- The short forms for the start of tags. -/
  forms : List (List Char × Bytes)

abbrev Step := Except Failure ((Event × Place) × EventReader)

/-- The place behind a token of one character. -/
def Token.behind (t : Token) : Place := t.place.right 1

namespace EventReader

def start (tokens : List Token) (failure : Option Failure) : EventReader :=
  ⟨tokens, failure, .stream, [], [], []⟩

/-- The failure behind the tokens. Tokens without one end with the stream, and no more are asked for
then. -/
def ending (r : EventReader) : Failure :=
  r.failure.getD (.plain "unexpected end of stream" .start)

def peek (r : EventReader) : Except Failure Token :=
  match r.tokens with
  | [] => .error r.ending
  | t :: _ => .ok t

def skip (r : EventReader) : EventReader := { r with tokens := r.tokens.drop 1 }

def expect (r : EventReader) (e : Expectation) : EventReader := { r with expected := e }

def push (r : EventReader) (e : Expectation) : EventReader := { r with later := e :: r.later }

def pop (r : EventReader) : EventReader :=
  match r.later with
  | [] => r.expect .nothing
  | e :: later => { r with expected := e, later := later }

def enter (r : EventReader) (p : Place) : EventReader :=
  { r.skip with openings := p :: r.openings }

def opening (r : EventReader) : Place := r.openings.head?.getD .start

def leave (r : EventReader) : EventReader := { r.skip.pop with openings := r.openings.drop 1 }

def emit (r : EventReader) (e : Event) (p : Place) : Step := .ok ((e, p), r)

def emitEmpty (r : EventReader) (p : Place) : Step := r.emit (.scalar none none [] true) p

/-! ## Documents -/

def defaultForms : List (List Char × Bytes) :=
  [("!".toList, encode "!".toList), ("!!".toList, encode "tag:yaml.org,2002:".toList)]

def withDefaults (forms : List (List Char × Bytes)) : List (List Char × Bytes) :=
  forms ++ defaultForms.filter fun d => (forms.lookup d.1).isNone

def directives (ending : Failure) (version : Bool) (forms : List (List Char × Bytes)) :
    List Token → Except Failure (List (List Char × Bytes) × List Token)
  | [] => .error ending
  | t :: rest =>
    match t.kind with
    | .version major minor =>
      if version then .error (.plain "found duplicate %YAML directive" t.place)
      else if major ≠ 1 ∨ (minor ≠ 1 ∧ minor ≠ 2) then
        .error (.plain "found incompatible YAML document" t.place)
      else directives ending true forms rest
    | .tagForm handle start =>
      if (forms.lookup handle).isSome then
        .error (.plain "found duplicate %TAG directive" t.place)
      else directives ending version (forms ++ [(handle, start)]) rest
    | _ => .ok (withDefaults forms, t :: rest)

def afterEnds (tokens : List Token) : List Token := tokens.dropWhile (·.kind = .documentEnd)

/-- A token that a document without a mark cannot begin with. -/
def opensDocument : Kind → Bool
  | .version _ _ => true
  | .tagForm _ _ => true
  | .documentStart => true
  | .streamEnd => true
  | _ => false

def documentStep (r : EventReader) (implicit : Bool) : Step := do
  let r := if implicit then r else { r with tokens := afterEnds r.tokens }
  let t ← r.peek
  if implicit && !opensDocument t.kind then
    let r := { r.push .documentEnd with forms := defaultForms }
    (r.expect .blockNode).emit .documentStart t.place
  else if t.kind = .streamEnd then (r.skip.expect .nothing).emit .streamEnd t.place
  else
    let (forms, tokens) ← directives r.ending false [] r.tokens
    let r := { r with tokens := tokens, forms := forms }
    let u ← r.peek
    if u.kind = .documentStart then
      ((r.skip.push .documentEnd).expect .content).emit .documentStart t.place
    else .error (.plain "did not find expected <document start>" u.place)

def documentEndStep (r : EventReader) : Step := do
  let t ← r.peek
  let r := { r.expect .document with forms := [] }
  (if t.kind = .documentEnd then r.skip else r).emit .documentEnd t.place

/-! ## Nodes -/

/-- What may stand before a node. -/
structure Properties where
  anchor : Option (List Char)
  tag : Option (List Char × Bytes × Place)
  /-- Where the node begins, its properties included. -/
  place : Place

/-- Read an anchor and a tag, in either order. -/
def properties (r : EventReader) : Except Failure (Properties × EventReader) := do
  let t ← r.peek
  match t.kind with
  | .anchor name =>
    let r := r.skip
    let u ← r.peek
    match u.kind with
    | .tag handle rest => .ok (⟨some name, some (handle, rest, u.place), t.place⟩, r.skip)
    | _ => .ok (⟨some name, none, t.place⟩, r)
  | .tag handle rest =>
    let r := r.skip
    let u ← r.peek
    match u.kind with
    | .anchor name => .ok (⟨some name, some (handle, rest, t.place), t.place⟩, r.skip)
    | _ => .ok (⟨none, some (handle, rest, t.place), t.place⟩, r)
  | _ => .ok (⟨none, none, t.place⟩, r)

def fullTag (r : EventReader) (p : Properties) : Except Failure (Option Bytes) :=
  match p.tag with
  | none => .ok none
  | some (handle, rest, place) =>
    if handle = [] then .ok (some rest)
    else
      match r.forms.lookup handle with
      | some start => .ok (some (start ++ rest))
      | none => .error (.during "while parsing a node" p.place "found undefined tag handle" place)

/-- The tag of a scalar. A lone exclamation mark is no tag. -/
def scalarTag (tag : Option Bytes) : Option Bytes :=
  if tag = some (encode ['!']) then none else tag

/-- A node behind its properties. Block collections are nodes only where `block` says so, and a
sequence that is not indented only where `indentless` does. -/
def contentStep (r : EventReader) (block indentless : Bool) (p : Properties) (tag : Option Bytes)
    (t : Token) : Step :=
  match t.kind with
  | .scalar text plain =>
    r.pop.skip.emit (.scalar p.anchor (scalarTag tag) text plain) p.place
  | .flowSequenceStart => (r.expect .firstFlowEntry).emit (.sequenceStart p.anchor) p.place
  | .flowMappingStart => (r.expect .firstFlowKey).emit (.mappingStart p.anchor) p.place
  | k =>
    if indentless ∧ k = .blockEntry then
      (r.expect .indentlessEntry).emit (.sequenceStart p.anchor) p.place
    else if block ∧ k = .blockSequenceStart then
      (r.expect .firstBlockEntry).emit (.sequenceStart p.anchor) p.place
    else if block ∧ k = .blockMappingStart then
      (r.expect .firstBlockKey).emit (.mappingStart p.anchor) p.place
    else if p.anchor.isSome ∨ tag.isSome then
      r.pop.emit (.scalar p.anchor tag [] true) p.place
    else
      .error (.during (if block then "while parsing a block node" else "while parsing a flow node")
        p.place "did not find expected node content" t.place)

def nodeStep (r : EventReader) (block indentless : Bool) : Step := do
  let t ← r.peek
  match t.kind with
  | .alias name => r.pop.skip.emit (.alias name) t.place
  | _ =>
    let (p, r) ← r.properties
    let u ← r.peek
    let tag ← r.fullTag p
    r.contentStep block indentless p tag u

/-- The content of a document that begins with a mark. -/
def documentContentStep (r : EventReader) : Step := do
  let t ← r.peek
  if opensDocument t.kind || t.kind = .documentEnd then r.pop.emitEmpty t.place
  else r.nodeStep true false

/-! ## Block collections -/

def blockEntryStep (r : EventReader) : Step := do
  let t ← r.peek
  if t.kind = .blockEntry then
    let r := r.skip
    let u ← r.peek
    if u.kind = .blockEntry ∨ u.kind = .blockEnd then (r.expect .blockEntry).emitEmpty t.behind
    else (r.push .blockEntry).nodeStep true false
  else if t.kind = .blockEnd then r.leave.emit .sequenceEnd t.place
  else
    .error (.during "while parsing a block collection" r.opening
      "did not find expected '-' indicator" t.place)

def endsBlockValue (k : Kind) : Bool := k = .key || k = .value || k = .blockEnd

def indentlessEntryStep (r : EventReader) : Step := do
  let t ← r.peek
  if t.kind = .blockEntry then
    let r := r.skip
    let u ← r.peek
    if u.kind = .blockEntry ∨ endsBlockValue u.kind then
      (r.expect .indentlessEntry).emitEmpty t.behind
    else (r.push .indentlessEntry).nodeStep true false
  else r.pop.emit .sequenceEnd t.place

def blockKeyStep (r : EventReader) : Step := do
  let t ← r.peek
  if t.kind = .key then
    let r := r.skip
    let u ← r.peek
    if endsBlockValue u.kind then (r.expect .blockValue).emitEmpty t.behind
    else (r.push .blockValue).nodeStep true true
  else if t.kind = .blockEnd then r.leave.emit .mappingEnd t.place
  else
    .error (.during "while parsing a block mapping" r.opening "did not find expected key" t.place)

def blockValueStep (r : EventReader) : Step := do
  let t ← r.peek
  if t.kind = .value then
    let r := r.skip
    let u ← r.peek
    if endsBlockValue u.kind then (r.expect .blockKey).emitEmpty t.behind
    else (r.push .blockKey).nodeStep true true
  else (r.expect .blockKey).emitEmpty t.place

/-! ## Flow collections -/

/-- Pass over the comma that must stand before every entry but the first. -/
def skipComma (r : EventReader) (first : Bool) (close : Kind) (activity problem : String) :
    Except Failure EventReader := do
  let t ← r.peek
  if first || t.kind = close then .ok r
  else if t.kind = .flowEntry then .ok r.skip
  else .error (.during activity r.opening problem t.place)

def flowEntryStep (r : EventReader) (first : Bool) : Step := do
  let r ← r.skipComma first .flowSequenceEnd "while parsing a flow sequence"
    "did not find expected ',' or ']'"
  let t ← r.peek
  if t.kind = .key then (r.skip.expect .pairKey).emit (.mappingStart none) t.place
  else if t.kind = .flowSequenceEnd then r.leave.emit .sequenceEnd t.place
  else (r.push .flowEntry).nodeStep false false

/-- The key of a pair. Where it is missing the token in its place is passed over. -/
def pairKeyStep (r : EventReader) : Step := do
  let t ← r.peek
  if t.kind = .value ∨ t.kind = .flowEntry ∨ t.kind = .flowSequenceEnd then
    (r.skip.expect .pairValue).emitEmpty t.behind
  else (r.push .pairValue).nodeStep false false

def pairValueStep (r : EventReader) : Step := do
  let t ← r.peek
  if t.kind = .value then
    let r := r.skip
    let u ← r.peek
    if u.kind = .flowEntry ∨ u.kind = .flowSequenceEnd then (r.expect .pairEnd).emitEmpty u.place
    else (r.push .pairEnd).nodeStep false false
  else (r.expect .pairEnd).emitEmpty t.place

def flowKeyStep (r : EventReader) (first : Bool) : Step := do
  let r ← r.skipComma first .flowMappingEnd "while parsing a flow mapping"
    "did not find expected ',' or '\x7d'"
  let t ← r.peek
  if t.kind = .key then
    let r := r.skip
    let u ← r.peek
    if u.kind = .value ∨ u.kind = .flowEntry ∨ u.kind = .flowMappingEnd then
      (r.expect .flowValue).emitEmpty u.place
    else (r.push .flowValue).nodeStep false false
  else if t.kind = .flowMappingEnd then r.leave.emit .mappingEnd t.place
  else (r.push .flowEmptyValue).nodeStep false false

def flowValueStep (r : EventReader) : Step := do
  let t ← r.peek
  if t.kind = .value then
    let r := r.skip
    let u ← r.peek
    if u.kind = .flowEntry ∨ u.kind = .flowMappingEnd then (r.expect .flowKey).emitEmpty u.place
    else (r.push .flowKey).nodeStep false false
  else (r.expect .flowKey).emitEmpty t.place

def begin (r : EventReader) : Except Failure EventReader := do
  let t ← r.peek
  .ok (r.enter t.place)

def step (r : EventReader) : Step :=
  match r.expected with
  | .stream => do
    let t ← r.peek
    (r.skip.expect .firstDocument).emit .streamStart t.place
  | .firstDocument => r.documentStep true
  | .document => r.documentStep false
  | .content => r.documentContentStep
  | .documentEnd => r.documentEndStep
  | .blockNode => r.nodeStep true false
  | .firstBlockEntry => do (← r.begin).blockEntryStep
  | .blockEntry => r.blockEntryStep
  | .indentlessEntry => r.indentlessEntryStep
  | .firstBlockKey => do (← r.begin).blockKeyStep
  | .blockKey => r.blockKeyStep
  | .blockValue => r.blockValueStep
  | .firstFlowEntry => do (← r.begin).flowEntryStep true
  | .flowEntry => r.flowEntryStep false
  | .pairKey => r.pairKeyStep
  | .pairValue => r.pairValueStep
  | .pairEnd => do
    let t ← r.peek
    (r.expect .flowEntry).emit .mappingEnd t.place
  | .firstFlowKey => do (← r.begin).flowKeyStep true
  | .flowKey => r.flowKeyStep false
  | .flowValue => r.flowValueStep
  | .flowEmptyValue => do
    let t ← r.peek
    (r.expect .flowKey).emitEmpty t.place
  | .nothing => .error r.ending

end EventReader

structure Events where
  events : List (Event × Place)
  failure : Option Failure

/-- All events from the present one on; `fuel` bounds their number. -/
def EventReader.run : Nat → EventReader → Events
  | 0, _ => ⟨[], none⟩
  | fuel + 1, r =>
    match r.step with
    | .error f => ⟨[], some f⟩
    | .ok (e, next) =>
      if e.1 = .streamEnd then ⟨[e], none⟩
      else
        let later := next.run fuel
        ⟨e :: later.events, later.failure⟩

/-- The events of tokens. No more than eight of them come between two tokens. -/
def eventsOf (tokens : List Token) (failure : Option Failure) : Events :=
  (EventReader.start tokens failure).run (8 * tokens.length + 8)

end IncludeMap.Yaml
