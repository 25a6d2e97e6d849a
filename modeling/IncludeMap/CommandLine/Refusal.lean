import IncludeMap.CommandLine.Argument

/-! # Refused command lines

Why a command line asks for nothing that the program does, and what is said about it. A refusal
often shows how the program is used; that leaves out the options that were not met.
-/
namespace IncludeMap.CommandLine

/-- What a line on the use of the program shows. -/
inductive Usage where
  | general
  /-- The options, and the arguments that have places. -/
  | naming (options : List Argument)
  /-- The options, and any argument of a run. -/
  | besides (options : List Argument)

inductive Refusal where
  /-- Nothing takes the word. It may be like the name of an argument, or be meant as a value. -/
  | unexpected (word : String) (similar : Option Argument) (asValue : Bool) (usage : Usage)
  | unexpectedValue (value : String) (a : Argument) (usage : Usage)
  /-- A value is missing or empty. -/
  | missingValue (a : Argument)
  | repeated (a : Argument)
  | missing (absent : List Argument) (usage : Usage)

def alternatives : String :=
  let name (a : Argument) : String := if Argument.placed.contains a then a.long else a.shown
  "<" ++ "|".intercalate (Argument.ofRun.map name) ++ ">"

def Usage.text (u : Usage) : String :=
  let words : List String :=
    match u with
    | .general => "[OPTIONS]" :: Argument.placed.map Argument.shown
    | .naming options => options.map Argument.shown ++ Argument.placed.map Argument.shown
    | .besides options => options.map Argument.shown ++ [alternatives]
  "Usage: " ++ " ".intercalate (programName :: words)

namespace Refusal

def headline : Refusal → String
  | unexpected word _ _ _ => "unexpected argument '" ++ word ++ "' found"
  | unexpectedValue value a _ =>
    "unexpected value '" ++ value ++ "' for '" ++ a.shown ++ "' found; no more were expected"
  | missingValue a => "a value is required for '" ++ a.shown ++ "' but none was supplied"
  | repeated a => "the argument '" ++ a.shown ++ "' cannot be used multiple times"
  | missing absent _ =>
    "the following required arguments were not provided:" ++
      String.join (absent.map fun a => "\n  " ++ a.shown)

def tip? : Refusal → Option String
  | unexpected _ (some a) _ _ => some ("a similar argument exists: '--" ++ a.long ++ "'")
  | unexpected word none true _ =>
    some ("to pass '" ++ word ++ "' as a value, use '-- " ++ word ++ "'")
  | _ => none

def usage? : Refusal → Option Usage
  | unexpected _ _ _ u => some u
  | unexpectedValue _ _ u => some u
  | missingValue _ => none
  | repeated _ => some .general
  | missing _ u => some u

/-- The parts of what is said, with an empty line between them. -/
def parts (r : Refusal) : List String :=
  ["error: " ++ r.headline] ++ (r.tip?.map ("  tip: " ++ ·)).toList ++
    (r.usage?.map Usage.text).toList ++ ["For more information, try '--help'."]

def text (r : Refusal) : String := "\n\n".intercalate r.parts ++ "\n"

end Refusal

end IncludeMap.CommandLine
