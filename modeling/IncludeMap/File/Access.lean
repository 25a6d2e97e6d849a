import IncludeMap.File.Lookup

/-! # Reading and writing files

The plain operations. Reading follows links; a plain write follows links too, keeps the mode of a
file that is there and gives a new one the default mode.
-/
namespace IncludeMap.File
open Text

/-- The mode of a new file: reading for all and writing for the owner. -/
def defaultMode : Nat := 0o644

namespace FileSystem

def readBytes (fs : FileSystem) (p : Path) : Except Fault Bytes :=
  match fs.locate p with
  | .error f => .error f
  | .ok l =>
    match fs.node? l with
    | some (.file _ content) => .ok content
    | some .folder => .error .isADirectory
    | _ => .error .notFound

/-- The text of a file whose bytes are UTF-8. -/
def readText (fs : FileSystem) (p : Path) : Except Fault String :=
  match fs.readBytes p with
  | .error f => .error f
  | .ok bytes =>
    match decode? bytes with
    | some s => .ok (String.ofList s)
    | none => .error .invalidText

/-- Create or truncate the file that the path leads to, and write it. -/
def overwrite (fs : FileSystem) (p : Path) (content : Bytes) : Except Fault FileSystem :=
  match fs.lookup .create p with
  | .error f => .error f
  | .ok (.absent l n) => .ok (fs.put (l ++ [n]) (.file defaultMode content))
  | .ok (.existing l) =>
    match fs.node? l with
    | some (.file mode _) => .ok (fs.put l (.file mode content))
    | _ => .error .isADirectory

/-- Create an entry where nothing is. Links to nowhere are in the way, too. -/
def make (fs : FileSystem) (p : Path) (n : Node) : Except Fault FileSystem :=
  match fs.lookup .keep p with
  | .ok (.absent l name) => .ok (fs.put (l ++ [name]) n)
  | .ok (.existing _) => .error ⟨.other, "File exists (os error 17)"⟩
  | .error f => .error f

/-- Create the folder and, before it, each folder on the way that is absent. -/
def makeFolders (fs : FileSystem) (p : Path) : Except Fault FileSystem :=
  let parts := segments p.bytes
  (List.range parts.length).foldlM (fun fs i =>
    let here : Path := ⟨joinSegments (parts.take (i + 1))⟩
    if here.bytes = [] ∨ fs.isFolderAt here then .ok fs else fs.make here .folder) fs

def makeLink (fs : FileSystem) (p target : Path) : Except Fault FileSystem :=
  fs.make p (.link target)

/-- Remove what the path names, a folder with all that it holds. -/
def remove (fs : FileSystem) (p : Path) : Except Fault FileSystem :=
  match fs.lookup .keep p with
  | .ok (.existing l) => .ok (fs.erase l)
  | .ok (.absent _ _) => .error .notFound
  | .error f => .error f

/-- Set the mode of the file that the path leads to. Folders keep no mode here. -/
def setMode (fs : FileSystem) (p : Path) (mode : Nat) : Except Fault FileSystem :=
  match fs.locate p with
  | .error f => .error f
  | .ok l =>
    match fs.node? l with
    | some (.file _ content) => .ok (fs.put l (.file mode content))
    | _ => .ok fs

def nameLe (a b : Name) : Bool := !decide (b < a)

def sortedNames (fs : FileSystem) (l : Location) : List Name :=
  (fs.names l).mergeSort nameLe

def list (fs : FileSystem) (p : Path) : Except Fault (List Name) :=
  match fs.locateFolder p with
  | .ok l => .ok (fs.sortedNames l)
  | .error f => .error f

end FileSystem

end IncludeMap.File
