import IncludeMap.Yaml.Event
import IncludeMap.Yaml.Scanner

/-! # Documents

The first document of a text as a row of items. An alias refers to an anchor by a number; when an
anchor is defined again, the number is that of the names so far, so it can be the same as that of
another anchor, and then the later one counts. What fails in the document is kept with it: it
matters only when all items before it have been used.
-/
namespace IncludeMap.Yaml
open Text

inductive Item where
  | alias (number : Nat)
  | scalar (tag : Option Bytes) (text : List Char) (plain : Bool)
  | sequenceStart
  | sequenceEnd
  | mappingStart
  | mappingEnd
  | nothing
  deriving DecidableEq

/-- Why a document is incomplete. -/
inductive Trouble where
  | syntaxError (f : Failure)
  | unreadable (offset : Nat)
  | unknownAnchor (place : Place)
  deriving DecidableEq

def Trouble.message : Trouble → String
  | .syntaxError f => f.message
  | .unreadable offset =>
    "control characters are not allowed" ++
      if offset = 0 then "" else " at position " ++ Nat.repr offset
  | .unknownAnchor p => "unknown anchor" ++ if p.isShown then " at " ++ p.text else ""

structure Document where
  items : List (Item × Place)
  /-- The position of the item that each number of an anchor refers to. -/
  targets : List (Nat × Nat)
  trouble : Option Trouble
  /-- Nothing but the end of the text follows. -/
  single : Bool

structure Gathering where
  /-- The items, the newest first. -/
  items : List (Item × Place)
  count : Nat
  names : List (List Char × Nat)
  targets : List (Nat × Nat)

namespace Gathering

def empty : Gathering := ⟨[], 0, [], []⟩

def add (g : Gathering) (i : Item) (p : Place) : Gathering :=
  { g with items := (i, p) :: g.items, count := g.count + 1 }

/-- Define an anchor at the item that comes next. -/
def define (g : Gathering) (anchor : Option (List Char)) : Gathering :=
  match anchor with
  | none => g
  | some name =>
    let number := g.names.length
    { g with
      names := (name, number) :: g.names.filter (·.1 ≠ name)
      targets := (number, g.count) :: g.targets }

def finish (g : Gathering) (trouble : Option Trouble) (single : Bool) : Document :=
  ⟨g.items.reverse, g.targets, trouble, single⟩

def endsStream (events : List (Event × Place)) : Bool :=
  match events with
  | (.streamEnd, _) :: _ => true
  | _ => false

def collect (failure : Option Failure) : Gathering → List (Event × Place) → Document
  | g, [] => g.finish (failure.map .syntaxError) false
  | g, (e, p) :: rest =>
    match e with
    | .streamStart => collect failure g rest
    | .documentStart => collect failure g rest
    | .documentEnd => g.finish none (endsStream rest)
    | .streamEnd => (if g.items = [] then g.add .nothing p else g).finish none true
    | .alias name =>
      match g.names.lookup name with
      | some number => collect failure (g.add (.alias number) p) rest
      | none => g.finish (some (.unknownAnchor p)) false
    | .scalar anchor tag text plain =>
      collect failure ((g.define anchor).add (.scalar tag text plain) p) rest
    | .sequenceStart anchor => collect failure ((g.define anchor).add .sequenceStart p) rest
    | .sequenceEnd => collect failure (g.add .sequenceEnd p) rest
    | .mappingStart anchor => collect failure ((g.define anchor).add .mappingStart p) rest
    | .mappingEnd => collect failure (g.add .mappingEnd p) rest

end Gathering

/-- How many bytes stand before the first character that may not occur. -/
def firstForbidden (before : Nat) : List Char → Option Nat
  | [] => none
  | c :: rest => if isAllowed c then firstForbidden (before + c.utf8Size) rest else some before

def documentOf (s : List Char) : Document :=
  match firstForbidden 0 s with
  | some offset => ⟨[], [], some (.unreadable offset), false⟩
  | none =>
    let tokens := tokensOf s
    let events := eventsOf tokens.tokens tokens.failure
    Gathering.empty.collect events.failure events.events

end IncludeMap.Yaml
