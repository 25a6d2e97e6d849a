import IncludeMap.Problem
import IncludeMap.Rule.Basic
import IncludeMap.Text.Blank

/-! # The configuration

What a scan leaves out, and which rules are added to it. A configuration is acceptable when each of
its names holds more than blanks; `validate` answers with the first part at fault.
-/
namespace IncludeMap
open Text

structure Config where
  /-- Classes that contribute no rules. -/
  excludedClasses : List String
  /-- Endings of file names that tell an implementation header from a class header. -/
  excludedSuffixes : List String
  extraSymbols : List SymbolRule
  extraIncludes : List IncludeRule
  deriving DecidableEq

namespace Config

/-- The fields of a configuration, in their order in a file. -/
inductive Field where
  | excludedClasses
  | excludedSuffixes
  | extraSymbols
  | extraIncludes
  deriving DecidableEq

namespace Field

def all : List Field := [excludedClasses, excludedSuffixes, extraSymbols, extraIncludes]

def key : Field → String
  | excludedClasses => "excluded_classes"
  | excludedSuffixes => "excluded_suffixes"
  | extraSymbols => "extra_symbol_overrides"
  | extraIncludes => "extra_include_overrides"

def ofKey? (name : String) : Option Field := all.find? fun f => f.key = name

end Field

def defaultExcludedClasses : List String := ["QInternal"]

def defaultExcludedSuffixes : List String := [".h"]

def default : Config := ⟨defaultExcludedClasses, defaultExcludedSuffixes, [], []⟩

instance : Inhabited Config := ⟨default⟩

def isExcludedClass (c : Config) (name : String) : Bool :=
  c.excludedClasses.contains name

def hasExcludedSuffix (c : Config) (fileName : String) : Bool :=
  c.excludedSuffixes.any fun s => s.toList.isSuffixOf fileName.toList

/-- Refuse a name that is blank all over. -/
def checkNames (field : String) (names : List String) : Except Problem Unit :=
  if names.any fun n => isBlankText n.toList then
    .error (.config (field ++ " must not contain empty names") (some field))
  else .ok ()

def entryName (field : String) (i : Nat) : String :=
  field ++ "[" ++ Nat.repr i ++ "]"

/-- Check the names of each entry of a list, from the entry `i` on. -/
def checkEntries (field : String) (i : Nat) : List (List String) → Except Problem Unit
  | [] => .ok ()
  | names :: rest =>
    match checkNames (entryName field i) names with
    | .ok () => checkEntries field (i + 1) rest
    | .error p => .error p

/-- Answer with the first part that holds a blank name. -/
def validate (c : Config) : Except Problem Unit := do
  checkNames Field.excludedClasses.key c.excludedClasses
  checkNames Field.excludedSuffixes.key c.excludedSuffixes
  checkEntries Field.extraSymbols.key 0 (c.extraSymbols.map fun r => [r.symbol, r.header])
  checkEntries Field.extraIncludes.key 0
    (c.extraIncludes.map fun r => [r.module, r.included, r.header])

end Config

end IncludeMap
