import IncludeMap.File.Access
import IncludeMap.Problem

/-! # Walking an include tree

A tree holds a folder for each module, and a module's folder holds its headers. Both levels are
visited in the order of names, and links are followed. An entry cannot be visited when it is a link
that leads nowhere, or to a folder that the walk is in. Nothing is decided here about which files
count as headers.
-/
namespace IncludeMap.File

structure Found where
  module : Name
  name : Name
  deriving DecidableEq

namespace FileSystem

/-- The folder that an entry leads to, or none where it leads to a file. The walk is in the folders
`above`. -/
def visit (fs : FileSystem) (above : List Location) (l : Location) (p : Path) :
    Except Problem (Option Location) :=
  match fs.node? l with
  | some (.link _) =>
    match fs.locate p with
    | .error f => .error (.io s!"Failed to walk {p.display}" f)
    | .ok t =>
      if fs.isFolder t = false then .ok none
      else if above.contains t then .error (.io s!"Failed to walk {p.display}" .cycle)
      else .ok (some t)
  | some .folder => .ok (some l)
  | _ => .ok none

/-- The files of a folder, and in their place the entries that cannot be visited. -/
def filesIn (fs : FileSystem) (above : List Location) (l : Location) (p : Path) :
    List (Except Problem Name) :=
  (fs.sortedNames l).filterMap fun n =>
    match fs.visit above (l ++ [n]) (p.child n) with
    | .ok none => some (.ok n)
    | .ok (some _) => none
    | .error e => some (.error e)

/-- The files of all modules of a tree, and in their place the entries that cannot be visited. -/
def walkModules (fs : FileSystem) (root : Location) (p : Path) : List (Except Problem Found) :=
  (fs.sortedNames root).flatMap fun m =>
    match fs.visit [root] (root ++ [m]) (p.child m) with
    | .ok none => []
    | .ok (some l) => (fs.filesIn [l, root] l (p.child m)).map fun x => x.map (⟨m, ·⟩)
    | .error e => [.error e]

end FileSystem

end IncludeMap.File
