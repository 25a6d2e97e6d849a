import IncludeMap.Config.Basic
import IncludeMap.File.Walk
import IncludeMap.Header.Basic

/-! # Catalogs of headers

A catalog holds the headers of a scan. Umbrella headers are put off: they include the headers of
other classes, so their rules must come after those of the classes themselves. Within each of the
two parts the order of arrival is kept.
-/
namespace IncludeMap
open File Text

structure Catalog where
  regular : List Header
  /-- The umbrella headers, which are processed last. -/
  deferred : List Header
  deriving DecidableEq

namespace Catalog

def empty : Catalog := ⟨[], []⟩

instance : Inhabited Catalog := ⟨empty⟩

def push (c : Catalog) (h : Header) : Catalog :=
  if h.isUmbrella then ⟨c.regular, c.deferred ++ [h]⟩ else ⟨c.regular ++ [h], c.deferred⟩

def inProcessingOrder (c : Catalog) : List Header := c.regular ++ c.deferred

def size (c : Catalog) : Nat := c.regular.length + c.deferred.length

def isEmpty (c : Catalog) : Bool := c.size = 0

theorem length_inProcessingOrder (c : Catalog) : c.inProcessingOrder.length = c.size := by
  simp [inProcessingOrder, size]

theorem size_push (c : Catalog) (h : Header) : (c.push h).size = c.size + 1 := by
  unfold push size
  split
  · simp only [List.length_append, List.length_singleton]
    omega
  · simp only [List.length_append, List.length_singleton]
    omega

/-- A name that listings do not show: a text that starts with a dot. -/
def isHiddenName (n : Name) : Bool :=
  match decode? n with
  | some s => s.head? = some '.'
  | none => false

def isCandidate (config : Config) (f : Found) : Bool :=
  !isHiddenName f.module && !isHiddenName f.name
    && !config.hasExcludedSuffix (Header.nameText f.name)

def headerOf (root : Path) (f : Found) : Header :=
  .ofPath ((root.child f.module).child f.name)

/-- Add the class headers among the files of a walk, up to an entry that cannot be visited. -/
def collect (config : Config) (root : Path) :
    Catalog → List (Except Problem Found) → Report Catalog
  | c, [] => pure c
  | _, .error p :: _ => Report.fail p
  | c, .ok f :: rest =>
    let h := headerOf root f
    if isCandidate config f = false then collect config root c rest
    else if config.isExcludedClass h.className then do
      Report.say .debug s!"Skipping excluded header {h.path.display}"
      collect config root c rest
    else collect config root (c.push h) rest

def discover (fs : FileSystem) (config : Config) (root : Path) : Report Catalog :=
  match fs.locate root with
  | .error _ => Report.fail (.path "Include root does not exist" root)
  | .ok l =>
    if fs.isFolder l = false then Report.fail (.path "Include root is not a directory" root)
    else do
      let c ← collect config root empty (fs.walkModules l root)
      Report.say .info
        s!"Catalogued {c.size} headers under {root.display} ({c.deferred.length} umbrella)"
      pure c

end Catalog

end IncludeMap
