import IncludeMap.File.Fault
import IncludeMap.File.Tree

/-! # Lookup of paths

A lookup walks from folder to folder, one step of the path at a time. A link in the way is replaced
by the steps of its target, and at most forty links are followed in one lookup. What the last step
names may be absent: then the lookup ends in the folder that would hold it.
-/
namespace IncludeMap.File
open Text

/-- How a lookup treats the last name of the path. -/
inductive Last where
  | follow
  | keep
  /-- The name may be created as a file: links are followed, and a closing slash is refused. -/
  | create
  deriving DecidableEq

inductive Landing where
  | existing (l : Location)
  | absent (folder : Location) (name : Name)
  deriving DecidableEq

def maxLinks : Nat := 40

namespace FileSystem

/-- Where the steps of a link's target start, seen from the folder that holds the link. -/
def startOf (p : Path) (l : Location) : Location :=
  if p.isAbsolute then [] else l

def walk (fs : FileSystem) (last : Last) (links : Nat) (l : Location) :
    List Step → Except Fault Landing
  | [] => .ok (.existing l)
  | s :: rest =>
    if fs.isFolder l = false then .error .notADirectory
    else
      match s with
      | .stay => fs.walk last links l rest
      | .closing => fs.walk last links l rest
      | .up => fs.walk last links l.dropLast rest
      | .down n =>
        if last = .create ∧ rest = [.closing] then .error .isADirectory
        else
          match fs.node? (l ++ [n]) with
          | none => if rest = [] then .ok (.absent l n) else .error .notFound
          | some (.link target) =>
            if rest = [] ∧ last = .keep then .ok (.existing (l ++ [n]))
            else
              match links with
              | 0 => .error .linkLoop
              | links + 1 => fs.walk last links (startOf target l) (target.steps ++ rest)
          | some _ => fs.walk last links (l ++ [n]) rest
termination_by steps => (links, steps.length)

def lookup (fs : FileSystem) (last : Last) (p : Path) : Except Fault Landing :=
  if p.bytes = [] then .error .notFound
  else fs.walk last maxLinks (startOf p fs.workplace) p.steps

/-- The location that a path leads to, all links followed. -/
def locate (fs : FileSystem) (p : Path) : Except Fault Location :=
  match fs.lookup .follow p with
  | .ok (.existing l) => .ok l
  | .ok (.absent _ _) => .error .notFound
  | .error f => .error f

def locateFolder (fs : FileSystem) (p : Path) : Except Fault Location :=
  match fs.locate p with
  | .ok l => if fs.isFolder l then .ok l else .error .notADirectory
  | .error f => .error f

def nodeAt? (fs : FileSystem) (p : Path) : Option Node :=
  match fs.locate p with
  | .ok l => fs.node? l
  | .error _ => none

def exists? (fs : FileSystem) (p : Path) : Bool :=
  (fs.nodeAt? p).isSome

def isFolderAt (fs : FileSystem) (p : Path) : Bool :=
  fs.nodeAt? p == some .folder

/-- The node that a path names, a link at the end not followed. -/
def ownNode? (fs : FileSystem) (p : Path) : Option Node :=
  match fs.lookup .keep p with
  | .ok (.existing l) => fs.node? l
  | _ => none

def linkAt? (fs : FileSystem) (p : Path) : Option Path :=
  match fs.ownNode? p with
  | some (.link target) => some target
  | _ => none

end FileSystem

end IncludeMap.File
