import IncludeMap.Report
import IncludeMap.Text.Blank
import IncludeMap.Text.Utf8

/-! # Filters for reported lines

A filter is a list of directives. A directive sets how urgent a line must be, for all topics or
for those whose name starts in a given way; the longest such start decides, and the later one of
two equal starts. A line that no directive is about is not shown.
-/
namespace IncludeMap.CommandLine
open Text

/-- Who reports a line. -/
inductive Topic where
  /-- The treatment of the command line. -/
  | request
  /-- The scan of a tree and what is made of it. -/
  | mapping
  deriving DecidableEq

def Topic.name : Topic → String
  | request => "qtmap"
  | mapping => "qtmap_rs"

/-- Lines up to a rank are shown, of the topics that start with a name. -/
structure Directive where
  start : List Char
  rank : Nat

abbrev Filter := List Directive

/-- The names of ranks, from the one at which nothing is shown on. -/
def rankNames : List String := ["off", "error", "warn", "info", "debug", "trace"]

def numberedRank? (s : List Char) : Option Nat :=
  let digits :=
    match s with
    | '+' :: rest => rest
    | _ => s
  if digits = [] || !digits.all Char.isDigit then none
  else
    let n := digits.foldl (fun v c => v * 10 + (c.toNat - 48)) 0
    if n < rankNames.length then some n else none

def rank? (s : List Char) : Option Nat :=
  match numberedRank? s with
  | some n => some n
  | none => rankNames.findIdx? fun name => name.toList = s.map Char.toLower

/-- The rank behind an equals sign. None at all is the last one. -/
def rankBehind? (s : List Char) : Option Nat :=
  if s = [] then some Level.trace.rank else rank? s

def startsTopic (c : Char) : Bool :=
  c.isAlphanum || c = '-' || c = ':' || c = '_' || 128 ≤ c.toNat

/-- What follows the brackets of a directive. -/
def isSpanEnd (s : List Char) : Bool :=
  match s with
  | [] => true
  | '=' :: rank => (rankBehind? rank).isSome
  | _ => false

/-- A directive for spans of work that have a name. No line lies in one. -/
def spans? (s : List Char) : Option Filter :=
  match s.dropWhile (· ≠ ']') with
  | [] => none
  | _ :: rest => if isSpanEnd rest then some [] else none

def directive? (s : List Char) : Option Filter :=
  let start := s.takeWhile fun c => c ≠ '=' && c ≠ '['
  if start.head?.any (!startsTopic ·) then none
  else
    match s.drop start.length with
    | [] =>
      some [match rank? start with
        | some n => ⟨[], n⟩
        | none => ⟨start, Level.trace.rank⟩]
    | '=' :: rank => if start = [] then none else (rankBehind? rank).map fun n => [⟨start, n⟩]
    | _ :: rest => spans? rest

def commaPieces (s : List Char) : List (List Char) :=
  (s.splitOn ',').filter (· ≠ [])

def Filter.upTo (level : Level) : Filter := [⟨[], level.rank⟩]

/-- The filter that a text gives. An empty text leaves the most urgent lines. -/
def Filter.ofText? (s : String) : Option Filter :=
  match commaPieces s.toList with
  | [] => some (.upTo .error)
  | pieces => (pieces.mapM directive?).map List.flatten

/-- The filter of a run: a text for one counts more than the wish to hear much. -/
def Filter.ofRun (text : Option String) (verbose : Bool) : Filter :=
  (text.bind Filter.ofText?).getD (.upTo (if verbose then .debug else .info))

def Filter.about? (f : Filter) (topic : Topic) : Option Directive :=
  f.foldl (fun best d =>
    if d.start.isPrefixOf topic.name.toList then
      match best with
      | some b => if b.start.length ≤ d.start.length then some d else best
      | none => some d
    else best) none

def Filter.shows (f : Filter) (topic : Topic) (line : Line) : Bool :=
  (f.about? topic).any fun d => line.level.rank ≤ d.rank

end IncludeMap.CommandLine
