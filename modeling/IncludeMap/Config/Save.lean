import IncludeMap.Config.Basic
import IncludeMap.File.Access
import IncludeMap.Yaml.Written

/-! # Saving a configuration

Every field is written, an empty list too, so that loading the file answers with the configuration
whatever the defaults are.
-/
namespace IncludeMap
open File Text Yaml

namespace Config

def symbolFields (r : SymbolRule) : Fields := [("symbol", r.symbol), ("header", r.header)]

def includeFields (r : IncludeRule) : Fields :=
  [("module", r.module), ("include", r.included), ("header", r.header)]

def content (c : Config) : Field → Section
  | .excludedClasses => .texts c.excludedClasses
  | .excludedSuffixes => .texts c.excludedSuffixes
  | .extraSymbols => .records (c.extraSymbols.map symbolFields)
  | .extraIncludes => .records (c.extraIncludes.map includeFields)

def written (c : Config) (fields : List Field) : String :=
  String.ofList (writtenDocument (fields.map fun f => (f.key, c.content f)))

def save (c : Config) (fs : FileSystem) (p : Path) : Except Problem FileSystem :=
  match fs.overwrite p (encode (c.written Field.all).toList) with
  | .ok fs => .ok fs
  | .error f => .error (.io s!"Failed to write config file: {p.display}" f)

end Config

end IncludeMap
