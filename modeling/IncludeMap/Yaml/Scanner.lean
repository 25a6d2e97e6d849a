import IncludeMap.Yaml.Block
import IncludeMap.Yaml.Scalar
import IncludeMap.Yaml.Tag
import IncludeMap.Yaml.Token

/-! # From text to tokens

Indentation opens and closes collections, and a colon makes a key of what stands before it in its
line, if that is no longer than 1024 characters. The token of such a key is put in afterwards,
before the tokens that were read since. Therefore a token can only be handed on when no key can
still begin at it; a failure comes after those that could be handed on before.
-/
namespace IncludeMap.Yaml

structure PossibleKey where
  /-- Nothing but a key is possible there. -/
  required : Bool
  /-- The number of the token that is the first of the key. -/
  number : Nat
  place : Place

structure Scanner where
  cursor : Cursor
  indent : Int
  outerIndents : List Int
  /-- The key that may have begun at the present level of flow collections. -/
  key : Option PossibleKey
  /-- The keys that may have begun at the levels outside. -/
  outerKeys : List (Option PossibleKey)
  keyAllowed : Bool
  /-- The tokens, the newest first. -/
  tokens : List Token
  count : Nat
  finished : Bool

namespace Scanner

/-- Behind the first token. -/
def start (s : List Char) : Scanner :=
  ⟨⟨.start, s⟩, -1, [], none, [], true, [⟨.streamStart, .start⟩], 1, false⟩

def place (s : Scanner) : Place := s.cursor.place

def inFlow (s : Scanner) : Bool := !s.outerKeys.isEmpty

def add (s : Scanner) (k : Kind) (p : Place) : Scanner :=
  { s with tokens := ⟨k, p⟩ :: s.tokens, count := s.count + 1 }

def insert (s : Scanner) (number : Nat) (k : Kind) (p : Place) : Scanner :=
  let newer := s.count - number
  { s with
    tokens := s.tokens.take newer ++ ⟨k, p⟩ :: s.tokens.drop newer
    count := s.count + 1 }

/-- The failure where a key without a colon was the only possibility. -/
def missingColon (k : PossibleKey) (p : Place) : Failure :=
  .during "while scanning a simple key" k.place "could not find expected ':'" p

/-- A key cannot have begun there any more: the line is over, or it would be too long. -/
def isStale (p : Place) (k : PossibleKey) : Bool :=
  k.place.line < p.line || k.place.index + 1024 < p.index

def freshKey (p : Place) (k : Option PossibleKey) : Except Failure (Option PossibleKey) :=
  match k with
  | none => .ok none
  | some k =>
    if isStale p k then
      if k.required then .error (missingColon k p) else .ok none
    else .ok (some k)

def dropStale (s : Scanner) : Except Failure Scanner := do
  let outer ← s.outerKeys.mapM (freshKey s.place)
  let key ← freshKey s.place s.key
  .ok { s with key := key, outerKeys := outer }

def dropKey (s : Scanner) : Except Failure Scanner :=
  match s.key with
  | none => .ok s
  | some k => if k.required then .error (missingColon k s.place) else .ok { s with key := none }

def saveKey (s : Scanner) : Except Failure Scanner :=
  if s.keyAllowed then
    (dropKey s).map fun s =>
      { s with key := some ⟨!s.inFlow && s.indent = s.place.column, s.count, s.place⟩ }
  else .ok s

/-- Open a block collection, if the column is deeper than that of the innermost one. Its token gets
the number, or else comes last. -/
def rollIndent (s : Scanner) (column : Nat) (number : Option Nat) (k : Kind) (p : Place) :
    Scanner :=
  if !s.inFlow && s.indent < column then
    let s := { s with outerIndents := s.indent :: s.outerIndents, indent := column }
    match number with
    | some n => s.insert n k p
    | none => s.add k p
  else s

/-- Close block collections, one for each of the columns, as long as they are deeper. -/
def closeBlocks (s : Scanner) (column : Int) : List Int → Scanner
  | [] => s
  | outer :: rest =>
    if column < s.indent then
      closeBlocks { s.add .blockEnd s.place with indent := outer, outerIndents := rest } column rest
    else s

def unrollIndent (s : Scanner) (column : Int) : Scanner :=
  if s.inFlow then s else s.closeBlocks column s.outerIndents

def take (s : Scanner) (n : Nat) (k : Kind) : Scanner :=
  { s.add k s.place with cursor := s.cursor.skip n }

def allowKey (s : Scanner) (allowed : Bool) : Scanner := { s with keyAllowed := allowed }

def refuse (s : Scanner) (problem : String) : Except Failure Scanner :=
  .error (.plain problem s.place)

/-- The end of the text, which ends the last line too. -/
def takeEnd (s : Scanner) : Except Failure Scanner :=
  let p := s.place
  let p := if p.column = 0 then p else ⟨p.index, p.line + 1, 0⟩
  let s := { s with cursor := ⟨p, s.cursor.rest⟩ }
  (dropKey (s.unrollIndent (-1))).map fun s =>
    { s.add .streamEnd s.place with keyAllowed := false, finished := true }

def takeDirective (s : Scanner) : Except Failure Scanner := do
  let s ← dropKey (s.unrollIndent (-1))
  let (directive, c) ← readDirective s.cursor
  let k : Kind :=
    match directive with
    | .version major minor => .version major minor
    | .tagForm handle start => .tagForm handle start
  .ok { s.add k s.place with cursor := c, keyAllowed := false }

def takeDocumentMark (s : Scanner) (k : Kind) : Except Failure Scanner :=
  (dropKey (s.unrollIndent (-1))).map fun s => (s.take 3 k).allowKey false

def takeFlowStart (s : Scanner) (k : Kind) : Except Failure Scanner :=
  (saveKey s).map fun s =>
    { (s.take 1 k).allowKey true with key := none, outerKeys := s.key :: s.outerKeys }

def takeFlowEnd (s : Scanner) (k : Kind) : Except Failure Scanner :=
  (dropKey s).map fun s =>
    let s := (s.take 1 k).allowKey false
    match s.outerKeys with
    | [] => s
    | key :: outer => { s with key := key, outerKeys := outer }

def takeFlowEntry (s : Scanner) : Except Failure Scanner :=
  (dropKey s).map fun s => (s.take 1 .flowEntry).allowKey true

def takeBlockEntry (s : Scanner) : Except Failure Scanner :=
  if !s.inFlow && !s.keyAllowed then
    s.refuse "block sequence entries are not allowed in this context"
  else
    (dropKey (s.rollIndent s.place.column none .blockSequenceStart s.place)).map fun s =>
      (s.take 1 .blockEntry).allowKey true

def takeKey (s : Scanner) : Except Failure Scanner :=
  if !s.inFlow && !s.keyAllowed then s.refuse "mapping keys are not allowed in this context"
  else
    (dropKey (s.rollIndent s.place.column none .blockMappingStart s.place)).map fun s =>
      (s.take 1 .key).allowKey (!s.inFlow)

def takeValue (s : Scanner) : Except Failure Scanner :=
  match s.key with
  | some k =>
    let s := (s.insert k.number .key k.place).rollIndent k.place.column (some k.number)
      .blockMappingStart k.place
    .ok { (s.take 1 .value).allowKey false with key := none }
  | none =>
    if !s.inFlow && !s.keyAllowed then s.refuse "mapping values are not allowed in this context"
    else
      let s := s.rollIndent s.place.column none .blockMappingStart s.place
      .ok ((s.take 1 .value).allowKey (!s.inFlow))

def takeAlias (s : Scanner) : Except Failure Scanner := do
  let s ← saveKey s
  let (name, c) ← readAnchor "while scanning an alias" s.cursor
  .ok { s.add (.alias name) s.place with cursor := c, keyAllowed := false }

def takeAnchor (s : Scanner) : Except Failure Scanner := do
  let s ← saveKey s
  let (name, c) ← readAnchor "while scanning an anchor" s.cursor
  .ok { s.add (.anchor name) s.place with cursor := c, keyAllowed := false }

def takeTag (s : Scanner) : Except Failure Scanner := do
  let s ← saveKey s
  let (handle, rest, c) ← readTag s.inFlow s.cursor
  .ok { s.add (.tag handle rest) s.place with cursor := c, keyAllowed := false }

def takeBlockScalar (s : Scanner) (literal : Bool) : Except Failure Scanner := do
  let s ← dropKey s
  let (text, c) ← readBlock literal s.indent s.place (s.cursor.skip 1)
  .ok { s.add (.scalar text false) s.place with cursor := c, keyAllowed := true }

def takeQuoted (s : Scanner) (single : Bool) : Except Failure Scanner := do
  let s ← saveKey s
  let (text, c) ← readQuoted single s.place (s.place.right 1) .empty (s.cursor.rest.drop 1)
  .ok { s.add (.scalar text false) s.place with cursor := c, keyAllowed := false }

def takePlain (s : Scanner) : Except Failure Scanner := do
  let s ← saveKey s
  let e ← readPlain s.inFlow (s.indent + 1) s.place s.place .empty s.cursor.rest
  .ok { s.add (.scalar e.text true) s.place with cursor := e.cursor, keyAllowed := e.broken }

/-- The blanks, line breaks and comments before a token: whether a key is allowed behind them, and
the cursor there. Tabs count as blanks where no key can begin. -/
def skipToToken (flow keyAllowed inComment : Bool) (p : Place) : List Char → Bool × Cursor
  | [] => (keyAllowed, ⟨p, []⟩)
  | c :: rest =>
    if isBreak c then
      skipToToken flow (keyAllowed || !flow) (inComment && isHalfBreak c rest) (p.pass c rest) rest
    else if inComment || c = ' ' || (c = '\t' && (flow || !keyAllowed))
        || (p.index = 0 && c = byteOrderMark) then
      skipToToken flow keyAllowed inComment (p.right 1) rest
    else if c = '#' then skipToToken flow keyAllowed true (p.right 1) rest
    else (keyAllowed, ⟨p, c :: rest⟩)

def indicators : List Char := "-?:,[]\x7b\x7d#&*!|>'\"%@`".toList

def beginsPlain (flow : Bool) (c : Char) (rest : List Char) : Bool :=
  (!isGap c && !isBreak c && !indicators.contains c)
    || (c = '-' && !rest.head?.any isGap)
    || (!flow && (c = '?' || c = ':') && !endsWord rest)

/-- Read the token at the cursor, which is behind all blanks. -/
def takeToken (s : Scanner) : Except Failure Scanner :=
  match s.cursor.rest with
  | [] => s.takeEnd
  | c :: rest =>
    if s.place.column = 0 && c = '%' then s.takeDirective
    else if s.place.column = 0 && isDocumentMark (c :: rest) then
      s.takeDocumentMark (if c = '-' then .documentStart else .documentEnd)
    else if c = '[' then s.takeFlowStart .flowSequenceStart
    else if c = '\x7b' then s.takeFlowStart .flowMappingStart
    else if c = ']' then s.takeFlowEnd .flowSequenceEnd
    else if c = '\x7d' then s.takeFlowEnd .flowMappingEnd
    else if c = ',' then s.takeFlowEntry
    else if c = '-' && endsWord rest then s.takeBlockEntry
    else if c = '?' && (s.inFlow || endsWord rest) then s.takeKey
    else if c = ':' && (s.inFlow || endsWord rest) then s.takeValue
    else if c = '*' then s.takeAlias
    else if c = '&' then s.takeAnchor
    else if c = '!' then s.takeTag
    else if c = '|' && !s.inFlow then s.takeBlockScalar true
    else if c = '>' && !s.inFlow then s.takeBlockScalar false
    else if c = '\'' then s.takeQuoted true
    else if c = '"' then s.takeQuoted false
    else if beginsPlain s.inFlow c rest then s.takePlain
    else
      .error (.during "while scanning for the next token" s.place
        "found character that cannot start any token" s.place)

/-- Read the next token and what it closes. -/
def next (s : Scanner) : Except Failure Scanner := do
  let (allowed, c) := skipToToken s.inFlow s.keyAllowed false s.place s.cursor.rest
  let s ← dropStale { s with cursor := c, keyAllowed := allowed }
  let s ← takeToken (s.unrollIndent s.place.column)
  dropStale s

/-- The number of tokens before the first one at which a key can still begin. -/
def settled (s : Scanner) : Nat :=
  (s.key :: s.outerKeys).foldl (fun n k =>
    match k with
    | none => n
    | some k => min n k.number) s.count

end Scanner

/-- The tokens of a text, and the failure behind them. Tokens that reach the end of the text are
followed by no failure. -/
structure Tokens where
  tokens : List Token
  failure : Option Failure

namespace Scanner

/-- All tokens from the present ones on; `fuel` bounds the number of steps. -/
def run : Nat → Scanner → Tokens
  | 0, s => ⟨s.tokens.reverse, none⟩
  | fuel + 1, s =>
    if s.finished then ⟨s.tokens.reverse, none⟩
    else
      match s.next with
      | .ok t => run fuel t
      | .error f => ⟨(s.tokens.drop (s.count - s.settled)).reverse, some f⟩

end Scanner

/-- The tokens of a text. A step takes at least one character until the text ends. -/
def tokensOf (s : List Char) : Tokens := (Scanner.start s).run (s.length + 2)

end IncludeMap.Yaml
