import IncludeMap.Yaml.Document
import IncludeMap.Yaml.Resolve

/-! # Reading values out of a document

Values are read in the order of the document. An alias is read at the item that it refers to, and
reading goes on behind the alias; so that a short document cannot ask for endless work, the number
of aliases followed is bounded. A value of the wrong kind is reported with the route to it and
with its place.
-/
namespace IncludeMap.Yaml
open Text

/-! ## Failures -/

inductive Part where
  | field (name : String)
  | index (i : Nat)
  /-- A field whose name is written as an alias. -/
  | hidden
  deriving DecidableEq

/-- The route to a value, the outermost part first. -/
abbrev Route := List Part

def Part.appendTo (before : String) : Part → String
  | .field name => if before = "" then name else before ++ "." ++ name
  | .hidden => if before = "" then "?" else before ++ ".?"
  | .index i => before ++ "[" ++ Nat.repr i ++ "]"

def Route.text (r : Route) : String := r.foldl Part.appendTo ""

inductive Misfit where
  /-- The document ends before the value does. -/
  | incomplete (t : Option Trouble)
  | wrong (problem : String) (route : Route) (place : Place)
  | tooManyAliases
  | moreDocuments
  deriving DecidableEq

def Misfit.message : Misfit → String
  | .incomplete (some t) => t.message
  | .incomplete none => "EOF while parsing a value"
  | .wrong problem route place =>
    (if route = [] then "" else route.text ++ ": ") ++ problem ++
      if place.isShown then " at " ++ place.text else ""
  | .tooManyAliases => "repetition limit exceeded"
  | .moreDocuments => "deserializing from YAML containing more than one document is not supported"

/-- The start of all tags of YAML itself. -/
def coreTag (name : String) : Bytes := encode ("tag:yaml.org,2002:" ++ name).toList

def wrongKind (found expected : String) : String :=
  "invalid type: " ++ found ++ ", expected " ++ expected

/-- The problem of a scalar with one of the tags of YAML itself, where something else is expected.
-/
def wrongTagged (value : Option Value) (text : List Char) (tagged expected : String) : String :=
  match value with
  | some v => wrongKind v.describe expected
  | none => "invalid value: " ++ (Value.text text).describe ++ ", expected " ++ tagged

def wrongScalar (tag : Option Bytes) (text : List Char) (plain : Bool) (expected : String) :
    String :=
  let asText := wrongKind (Value.text text).describe expected
  let resolved := wrongKind (valueOf text).describe expected
  match tag with
  | none => if plain then resolved else asText
  | some t =>
    if t = coreTag "bool" then
      wrongTagged ((boolean? text).map .boolean) text "a boolean" expected
    else if t = coreTag "int" then
      wrongTagged ((integer? text).map .integer) text "an integer" expected
    else if t = coreTag "float" then wrongTagged (float? text) text "a float" expected
    else if t = coreTag "null" then
      wrongTagged (if isNull text then some .null else none) text "null" expected
    else if t.head? = some '!'.toNat.toUInt8 ∧ plain then resolved
    else asText

def Misfit.ofItem (i : Item) (expected : String) (route : Route) (place : Place) : Misfit :=
  match i with
  | .scalar tag text plain => .wrong (wrongScalar tag text plain expected) route place
  | .mappingStart => .wrong (wrongKind "map" expected) route place
  | .sequenceStart => .wrong (wrongKind "sequence" expected) route place
  | _ => .incomplete none

/-! ## The reader -/

structure Position where
  left : List (Item × Place)
  followed : Nat

abbrev Reading (α : Type) := StateT Position (Except Misfit) α

def fault {α : Type} (m : Misfit) : Reading α := fun _ => .error m

/-- The next item, which stays there. -/
def peekItem (d : Document) : Reading (Item × Place) := do
  match (← get).left with
  | [] => fault (.incomplete d.trouble)
  | x :: _ => pure x

def nextItem (d : Document) : Reading (Item × Place) := do
  let x ← peekItem d
  modify fun s => { s with left := s.left.drop 1 }
  pure x

/-- Read a value at the item that an alias refers to, and go on behind the alias. -/
def follow {α : Type} (d : Document) (number : Nat) (read : Reading α) : Reading α := do
  let here := (← get).left
  modify fun s => { s with followed := s.followed + 1 }
  if d.items.length * 100 < (← get).followed then fault .tooManyAliases
  else
    modify fun s => { s with left := d.items.drop ((d.targets.lookup number).getD 0) }
    let a ← read
    modify fun s => { s with left := here }
    pure a

/-- Read a value that begins with the next item, or with the one that an alias there refers to. -/
def readNode {α : Type} (d : Document) (read : Item → Place → Reading α) : Reading α := do
  let (i, p) ← nextItem d
  match i with
  | .alias number =>
    follow d number do
      let (i, p) ← nextItem d
      read i p
  | i => read i p

/-- A text, whatever its value is. -/
def readText (d : Document) (expected : String) (route : Route) : Reading String :=
  readNode d fun i p =>
    match i with
    | .scalar _ text _ => pure (String.ofList text)
    | i => fault (.ofItem i expected route p)

/-- The item stands for a collection without entries. -/
def Item.isVoid : Item → Bool
  | .nothing => true
  | .scalar _ text plain => text.isEmpty && plain
  | _ => false

/-- The entries of a sequence up to its end; `fuel` bounds their number. -/
def readEntries {α : Type} (d : Document) (read : Nat → Reading α) : Nat → Nat → Reading (List α)
  | 0, _ => fault (.incomplete none)
  | fuel + 1, i => do
    match (← peekItem d).1 with
    | .sequenceEnd =>
      let _ ← nextItem d
      pure []
    | _ =>
      let a ← read i
      let as ← readEntries d read fuel (i + 1)
      pure (a :: as)

def readSequence {α : Type} (d : Document) (route : Route) (read : Route → Reading α) :
    Reading (List α) :=
  readNode d fun i p =>
    if i = .sequenceStart then
      readEntries d (fun n => read (route ++ [.index n])) (d.items.length + 1) 0
    else if i.isVoid then pure []
    else fault (.ofItem i "a sequence" route p)

/-- Pass over items until as many collections as are open have ended. -/
def afterNode : Nat → List (Item × Place) → Option (List (Item × Place))
  | _, [] => none
  | depth, (i, _) :: rest =>
    match i with
    | .sequenceStart => afterNode (depth + 1) rest
    | .mappingStart => afterNode (depth + 1) rest
    | .sequenceEnd => if depth ≤ 1 then some rest else afterNode (depth - 1) rest
    | .mappingEnd => if depth ≤ 1 then some rest else afterNode (depth - 1) rest
    | _ => if depth = 0 then some rest else afterNode depth rest

/-- Pass over a value. An alias in it is not followed. -/
def skipNode (d : Document) : Reading Unit := do
  match afterNode 0 (← get).left with
  | none => fault (.incomplete d.trouble)
  | some rest => modify fun s => { s with left := rest }

def keyPart : Item → Part
  | .scalar _ text _ => .field (String.ofList text)
  | _ => .hidden

/-- The entries of a mapping up to its end. Each is read by `read`, which is given the name of the
key, the route to the value, and what the entries before have given; `fuel` bounds their number. -/
def readFields {α : Type} (d : Document) (route : Route) (read : String → Route → α → Reading α) :
    Nat → α → Reading α
  | 0, _ => fault (.incomplete none)
  | fuel + 1, a => do
    let (i, _) ← peekItem d
    match i with
    | .mappingEnd =>
      let _ ← nextItem d
      pure a
    | i =>
      let name ← readText d "field identifier" route
      let a ← read name (route ++ [keyPart i]) a
      readFields d route read fuel a

/-- A mapping with named fields. What the entries have given is finished at its end, or at once
where there is nothing. -/
def readMapping {α β : Type} (d : Document) (expected : String) (route : Route) (start : α)
    (read : Place → String → Route → α → Reading α) (finish : Place → α → Reading β) : Reading β :=
  readNode d fun i p => do
    if i = .mappingStart then
      finish p (← readFields d route (read p) (d.items.length + 1) start)
    else if i.isVoid then finish p start
    else fault (.ofItem i expected route p)

def duplicateField (name : String) (route : Route) (p : Place) : Misfit :=
  .wrong ("duplicate field `" ++ name ++ "`") route p

/-- A record of texts: its fields in the order of `names`. Other fields are passed over. -/
def readRecord (d : Document) (expected : String) (names : List String) (route : Route) :
    Reading (List String) :=
  readMapping d expected route []
    (fun p name here found => do
      if names.contains name then
        if (found.lookup name).isSome then fault (duplicateField name route p)
        else pure ((name, ← readText d "a string" here) :: found)
      else
        skipNode d
        pure found)
    fun p found => names.mapM fun name =>
      match found.lookup name with
      | some text => pure text
      | none => fault (.wrong ("missing field `" ++ name ++ "`") route p)

def readOnly {α : Type} (d : Document) (read : Reading α) : Except Misfit α :=
  match read ⟨d.items, 0⟩ with
  | .error m => .error m
  | .ok (a, _) =>
    match d.trouble with
    | some t => .error (.incomplete (some t))
    | none => if d.single then .ok a else .error .moreDocuments

end IncludeMap.Yaml
