import IncludeMap.File.Reading
import IncludeMap.Header.Included

/-! # Headers

A public header is a file named after its class, in a folder named after its module. The names of
the private headers that it includes are read once and then kept, so a later change of the file does
not show; a reading that fails leaves nothing behind.
-/
namespace IncludeMap
open File Text

structure Header where
  path : Path
  /-- The names read from the file, if it has been read. -/
  known : Option (List String)
  deriving DecidableEq

namespace Header

def ofPath (p : Path) : Header := ⟨p, none⟩

/-- The text of a name, with U+FFFD for broken pieces. -/
def nameText (n : Name) : String := String.ofList (decodeLossy n)

def className (h : Header) : String :=
  match h.path.fileName? with
  | some n => nameText (stem n)
  | none => ""

def moduleName (h : Header) : String :=
  match h.path.parent?.bind Path.fileName? with
  | some n => nameText n
  | none => ""

/-- The header stands for its whole module. -/
def isUmbrella (h : Header) : Bool := h.className = h.moduleName

def privateHeaders (fs : FileSystem) (h : Header) : Report (List String) :=
  match h.known with
  | some names => pure names
  | none => do
    let text ← fs.readLossy h.path
    let names := localIncludes text
    Report.say .debug s!"{h.path.display} includes {names.length} private header(s)"
    pure names

/-- The header after an attempt to read it. -/
def afterReading (fs : FileSystem) (h : Header) : Header :=
  match (h.privateHeaders fs).value with
  | .ok names => ⟨h.path, some names⟩
  | .error _ => h

/-- The file can be read, or has been. -/
def isReadable (fs : FileSystem) (h : Header) : Bool :=
  match (h.privateHeaders fs).value with
  | .ok _ => true
  | .error _ => false

theorem privateHeaders_of_known {fs : FileSystem} {h : Header} {names : List String}
    (hk : h.known = some names) : h.privateHeaders fs = pure names := by
  unfold privateHeaders
  rw [hk]

end Header

end IncludeMap
