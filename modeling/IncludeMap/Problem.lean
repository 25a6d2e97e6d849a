import IncludeMap.File.Fault
import IncludeMap.File.Path

/-! # Problems

Why an operation has failed. A problem keeps enough context (a path, the offending entry or field)
to tell which part of the header tree, of the configuration or of the output is at fault.
-/
namespace IncludeMap

open File

inductive Problem where
  | io (message : String) (fault : Fault)
  | path (message : String) (path : Path)
  /-- A configuration is not acceptable; `field` is the part at fault. -/
  | config (message : String) (field : Option String)
  /-- A text of the format `format` cannot be read; `cause` says why. -/
  | serialization (message : String) (format : Option String) (cause : String)
  /-- A document of mapping entries holds one of another shape. -/
  | parse (message : String) (entry : Option String)
  deriving DecidableEq

namespace Problem

def message : Problem → String
  | .io m _ => "I/O error: " ++ m
  | .path m p => "Path error: " ++ m ++ " (" ++ p.display ++ ")"
  | .config m _ => "Configuration error: " ++ m
  | .serialization m _ _ => "Serialization error: " ++ m
  | .parse m _ => "Parse error: " ++ m

def cause? : Problem → Option String
  | .io _ f => some f.text
  | .serialization _ _ c => some c
  | _ => none

/-- Say in which circumstances a problem arose. -/
def within (context : String) : Problem → Problem
  | .io m f => .io (context ++ ": " ++ m) f
  | .path m p => .path (context ++ ": " ++ m) p
  | .config m f => .config (context ++ ": " ++ m) f
  | .serialization m d c => .serialization (context ++ ": " ++ m) d c
  | .parse m e => .parse (context ++ ": " ++ m) e

def ofFault (f : Fault) : Problem := .io "I/O operation failed" f

def ofJson (cause : String) : Problem :=
  .serialization ("JSON serialization failed: " ++ cause) (some "JSON") cause

def ofYaml (cause : String) : Problem :=
  .serialization ("YAML serialization failed: " ++ cause) (some "YAML") cause

end Problem

end IncludeMap
