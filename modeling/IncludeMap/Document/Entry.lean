import IncludeMap.Problem
import IncludeMap.Rule.Basic
import IncludeMap.Text.Affix

/-! # Entries of a mapping document

An entry has a kind and four texts. That of a symbol rule gives the symbol, that of an include
rule a pattern for the names by which the private header may be included. The marks say that what
is named first is private and what is named last is public, and the public header stands between
angle brackets. Reading the entry of a rule back gives the rule, unless a module holds the text
that ends modules in patterns.
-/
namespace IncludeMap.Document
open Text

inductive Kind where
  | symbol
  | include
  deriving DecidableEq

structure Entry where
  kind : Kind
  /-- The symbol, or the pattern for a private header. -/
  subject : String
  subjectMark : String
  target : String
  targetMark : String
  deriving DecidableEq

def privateMark : String := "private"

def publicMark : String := "public"

def angled (header : String) : String := "<" ++ header ++ ">"

/-- What a pattern starts with: an opening quote or bracket, and the start of an optional part. -/
def patternStart : String := "@[\"<]("

/-- What ends the optional part for the module. -/
def moduleEnd : String := "/)?"

/-- What a pattern ends with: the ending of the file, and a closing quote or bracket. -/
def patternEnd : String := "\\.h[\">]"

def pattern (module included : String) : String :=
  patternStart ++ module ++ moduleEnd ++ included ++ patternEnd

namespace Entry

def ofSymbolRule (r : SymbolRule) : Entry :=
  ⟨.symbol, r.symbol, privateMark, angled r.header, publicMark⟩

def ofIncludeRule (r : IncludeRule) : Entry :=
  ⟨.include, pattern r.module r.included, privateMark, angled r.header, publicMark⟩

end Entry

def entriesOf (r : RuleSet) : List Entry :=
  r.symbols.map Entry.ofSymbolRule ++ r.includes.map Entry.ofIncludeRule

def headerOf? (target : String) : Option String :=
  (between? ['<'] ['>'] target.toList).map String.ofList

/-- The module and the private header of a pattern. The module ends at the first place where it
may. -/
def splitPattern? (subject : String) : Option (String × String) :=
  match patternStart.toList.isPrefixOf? subject.toList with
  | none => none
  | some rest =>
    match splitOnce moduleEnd.toList rest with
    | none => none
    | some (module, rest) =>
      (patternEnd.toList.isSuffixOf? rest).map fun included =>
        (String.ofList module, String.ofList included)

def Entry.rule (e : Entry) : Except Problem RuleSet :=
  if e.subjectMark ≠ privateMark ∨ e.targetMark ≠ publicMark then
    .error (.parse ("Expected \"" ++ privateMark ++ "\" and \"" ++ publicMark ++ "\" markers")
      (some (e.subjectMark ++ " -> " ++ e.targetMark)))
  else
    match headerOf? e.target with
    | none => .error (.parse "Target header must be angle-bracketed" (some e.target))
    | some header =>
      match e.kind with
      | .symbol => .ok ⟨[⟨e.subject, header⟩], []⟩
      | .include =>
        match splitPattern? e.subject with
        | none => .error (.parse "Unrecognised include pattern" (some e.subject))
        | some (module, included) => .ok ⟨[], [⟨module, included, header⟩]⟩

/-- The rules of entries, in the order of the entries, or what is wrong with the first bad one. -/
def rulesOf : List Entry → Except Problem RuleSet
  | [] => .ok .empty
  | e :: es =>
    match e.rule with
    | .error p => .error p
    | .ok r =>
      match rulesOf es with
      | .error p => .error p
      | .ok s => .ok (r ++ s)

end IncludeMap.Document
