import IncludeMap.Text.Utf8
import IncludeMap.Yaml.Place

/-! # Tokens of a YAML text -/
namespace IncludeMap.Yaml
open Text

inductive Kind where
  | streamStart
  | streamEnd
  | version (major minor : Nat)
  /-- A short form for the start of tags. -/
  | tagForm (handle : List Char) (start : Bytes)
  | documentStart
  | documentEnd
  | blockSequenceStart
  | blockMappingStart
  | blockEnd
  | flowSequenceStart
  | flowSequenceEnd
  | flowMappingStart
  | flowMappingEnd
  | blockEntry
  | flowEntry
  | key
  | value
  | alias (name : List Char)
  | anchor (name : List Char)
  /-- A tag; without a handle the rest is the whole tag. -/
  | tag (handle : List Char) (rest : Bytes)
  /-- A scalar; a plain one has neither quotes nor a block of lines. -/
  | scalar (text : List Char) (plain : Bool)
  deriving DecidableEq

structure Token where
  kind : Kind
  place : Place
  deriving DecidableEq

end IncludeMap.Yaml
