import IncludeMap.Config.Basic
import IncludeMap.File.Access
import IncludeMap.Yaml.Reading

/-! # Loading a configuration

A configuration is a mapping in YAML. A field that is missing has its default value, and fields of
other names are passed over.
-/
namespace IncludeMap
open File Yaml

namespace Config

structure Draft where
  classes : Option (List String)
  suffixes : Option (List String)
  symbols : Option (List SymbolRule)
  includes : Option (List IncludeRule)

def Draft.empty : Draft := ⟨none, none, none, none⟩

/-- The configuration with default values for missing fields. -/
def Draft.config (d : Draft) : Config :=
  { excludedClasses := d.classes.getD defaultExcludedClasses
    excludedSuffixes := d.suffixes.getD defaultExcludedSuffixes
    extraSymbols := d.symbols.getD []
    extraIncludes := d.includes.getD [] }

def readSymbolRule (d : Document) (route : Route) : Reading SymbolRule := do
  match ← readRecord d "struct SymbolOverride" ["symbol", "header"] route with
  | [symbol, header] => pure ⟨symbol, header⟩
  | _ => fault (.incomplete none)

def readIncludeRule (d : Document) (route : Route) : Reading IncludeRule := do
  match ← readRecord d "struct IncludeOverride" ["module", "include", "header"] route with
  | [module, included, header] => pure ⟨module, included, header⟩
  | _ => fault (.incomplete none)

def readOnce {α : Type} (field : Field) (place : Place) (before : Option α) (read : Reading α) :
    Reading (Option α) :=
  if before.isSome then fault (duplicateField field.key [] place) else some <$> read

def readValue (d : Document) (place : Place) (route : Route) (draft : Draft) (field : Field) :
    Reading Draft :=
  match field with
  | .excludedClasses => do
    let x ← readOnce field place draft.classes (readSequence d route (readText d "a string"))
    pure { draft with classes := x }
  | .excludedSuffixes => do
    let x ← readOnce field place draft.suffixes (readSequence d route (readText d "a string"))
    pure { draft with suffixes := x }
  | .extraSymbols => do
    let x ← readOnce field place draft.symbols (readSequence d route (readSymbolRule d))
    pure { draft with symbols := x }
  | .extraIncludes => do
    let x ← readOnce field place draft.includes (readSequence d route (readIncludeRule d))
    pure { draft with includes := x }

/-- The value of the field of a name. Other names are passed over. -/
def readField (d : Document) (place : Place) (name : String) (route : Route) (draft : Draft) :
    Reading Draft :=
  match Field.ofKey? name with
  | some field => readValue d place route draft field
  | none => do
    skipNode d
    pure draft

def readDocument (d : Document) : Reading Config :=
  readMapping d "struct MappingConfig" [] Draft.empty (readField d) fun _ draft =>
    pure draft.config

def ofText (s : String) : Except Misfit Config :=
  let d := documentOf s.toList
  readOnly d (readDocument d)

def load (fs : FileSystem) (p : Path) : Except Problem Config :=
  match fs.readText p with
  | .error f => .error (.io s!"Failed to read config file: {p.display}" f)
  | .ok s =>
    match ofText s with
    | .ok c => .ok c
    | .error m => .error ((Problem.ofYaml m.message).within s!"Invalid config file {p.display}")

end Config

end IncludeMap
