import IncludeMap.CommandLine.Refusal
import IncludeMap.File.Path
import IncludeMap.Text.Similarity

/-! # Requests

What a command line asks for. Its words are read from left to right. The value of an argument is
accepted as late as with the next argument, so where two words are at fault the second one can be
the one that is reported.
-/
namespace IncludeMap.CommandLine
open File Text

structure Request where
  root : Path
  output : Path
  config : Option Path
  verbose : Bool
  deriving DecidableEq

/-- What a command line without a run asks for. -/
inductive Ending where
  | help (long : Bool)
  | version
  | refused (r : Refusal)

def dash : UInt8 := 0x2d

def equalsSign : UInt8 := 0x3d

/-- A word by the dashes that it starts with. A dash alone is a plain word. -/
inductive Word where
  | plain
  /-- All words that follow are plain. -/
  | escape
  | long (name : Bytes) (value : Option Bytes)
  | short (letters : Bytes)

/-- The name in front of the first equals sign, and the value behind it. -/
def longWord (b : Bytes) : Word :=
  match b.dropWhile (· ≠ equalsSign) with
  | [] => .long b none
  | _ :: value => .long (b.takeWhile (· ≠ equalsSign)) (some value)

def Word.ofBytes : Bytes → Word
  | a :: b :: rest =>
    if a ≠ dash then .plain
    else if b ≠ dash then .short (b :: rest)
    else if rest = [] then .escape
    else longWord rest
  | _ => .plain

structure Progress where
  given : List (Argument × Bytes)
  /-- The argument that is to be accepted next, and its value if that has come. -/
  pending : Option (Argument × Option Bytes)
  places : List Argument
  escaped : Bool

namespace Progress

def start : Progress := ⟨[], none, Argument.placed, false⟩

def refuse {α : Type} (r : Refusal) : Except Ending α := .error (.refused r)

def arguments (p : Progress) : List Argument := p.given.map (·.1)

def accept (p : Progress) (a : Argument) (value : Bytes) : Except Ending Progress :=
  if p.arguments.contains a then refuse (.repeated a)
  else if a.takesValue && value = [] then refuse (.missingValue a)
  else .ok { p with given := p.given ++ [(a, value)] }

/-- Accept the argument that is pending. -/
def settle (p : Progress) : Except Ending Progress :=
  match p.pending with
  | none => .ok p
  | some (a, none) => refuse (.missingValue a)
  | some (a, some value) => { p with pending := none }.accept a value

/-- The arguments met so far. One that was met twice does not count. -/
def met (p : Progress) : List Argument :=
  match p.pending with
  | some (a, some _) =>
    if p.arguments.contains a then p.arguments.erase a else p.arguments ++ [a]
  | _ => p.arguments

def optionsAmong (as : List Argument) : List Argument :=
  as.filter fun a => Argument.named.contains a

def usageOf (as : List Argument) : Usage :=
  if as = [] then .general else .naming (optionsAmong as)

def unknown (p : Progress) (name : String) : Refusal :=
  let similar := (mostSimilar? name.toList (Argument.named.map Argument.long)).bind Argument.ofLong?
  let met := p.met ++ similar.toList.filter fun a => !p.met.contains a
  .unexpected ("--" ++ name) similar true (usageOf met)

def overfull (p : Progress) (a : Argument) (value : Bytes) : Refusal :=
  .unexpectedValue (String.ofList (decodeLossy value)) a
    (if p.given = [] then .naming [a]
      else .besides ([a].filter fun a => !Argument.ofRun.contains a))

def flag (p : Progress) (a : Argument) (long : Bool) : Except Ending Progress := do
  let p ← p.settle
  match a with
  | .help => .error (.help long)
  | .version => .error .version
  | a => p.accept a []

/-- An argument that is named by two dashes. -/
def option (p : Progress) (name : Bytes) (value : Option Bytes) : Except Ending Progress :=
  let name := String.ofList (decodeLossy name)
  match Argument.ofLong? name with
  | none => refuse (p.unknown name)
  | some a =>
    match value with
    | some value =>
      if a.takesValue then do
        let p ← p.settle
        p.accept a value
      else refuse (p.overfull a value)
    | none =>
      if a.takesValue then do
        let p ← p.settle
        pure { p with pending := some (a, none) }
      else p.flag a true

/-- The letters behind one dash, and a rest that holds none. -/
def letters (p : Progress) : List Piece → Except Ending Progress
  | [] => .ok p
  | .scalar c :: rest =>
    match Argument.ofLetter? c with
    | some a => do
      let p ← p.flag a false
      p.letters rest
    | none => refuse (.unexpected (String.ofList ['-', c]) none true .general)
  | .broken b :: rest =>
    let shown := (Piece.broken b :: rest).map fun x => x.char?.getD '\ufffd'
    refuse (.unexpected (String.ofList ('-' :: shown)) none true .general)

def place (p : Progress) (word : Bytes) : Except Ending Progress :=
  match p.places with
  | [] => refuse (.unexpected (String.ofList (decodeLossy word)) none false .general)
  | a :: places => do
    let p ← p.settle
    pure { p with pending := some (a, some word), places }

/-- A plain word: the value that is waited for, or one for the next place. -/
def plain (p : Progress) (word : Bytes) : Except Ending Progress :=
  match p.pending with
  | some (a, none) =>
    if p.escaped then p.place word else .ok { p with pending := some (a, some word) }
  | _ => p.place word

def step (p : Progress) (word : Bytes) : Except Ending Progress :=
  if p.escaped then p.plain word
  else
    match Word.ofBytes word with
    | .plain => p.plain word
    | .escape => .ok { p with escaped := true }
    | .long name value => p.option name value
    | .short letters => p.letters (pieces letters)

def path? (p : Progress) (a : Argument) : Option Path := (p.given.lookup a).map fun b => ⟨b⟩

def finish (p : Progress) : Except Ending Request := do
  let p ← p.settle
  match p.path? .root, p.path? .output with
  | some root, some output =>
    pure ⟨root, output, p.path? .config, p.arguments.contains .verbose⟩
  | _, _ =>
    refuse (.missing (Argument.placed.filter fun a => !p.arguments.contains a)
      (.naming (optionsAmong p.arguments)))

end Progress

def Request.ofWords (words : List Bytes) : Except Ending Request := do
  let p ← words.foldlM Progress.step Progress.start
  p.finish

end IncludeMap.CommandLine
