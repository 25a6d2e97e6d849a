import IncludeMap.CommandLine.Answer

/-! # The program

A run is computed on a copy of the part of the disk that it can see: the ways to the paths of the
command line, the include tree down to its headers, and the files with configurations. Modes cannot
be read, so each file of the copy has the default one. The disk is then taken through the states of
the copy one by one: the output is written beside its place and renamed.
-/
namespace IncludeMap.Program
open File Text CommandLine

def pathText (l : Location) : String :=
  String.ofList (decodeLossy (slash :: joinSegments l))

def locationOf (path : String) : Location :=
  (segments (encode path.toList)).filter (· ≠ [])

def bytesOf (b : ByteArray) : Bytes := b.toList

/-- Put a folder and the folders that it lies in. -/
def putFolders (fs : FileSystem) (l : Location) : FileSystem :=
  (List.range l.length).foldl (fun fs i => fs.put (l.take (i + 1)) .folder) fs

def attempt {α : Type} (action : IO α) : IO (Option α) := do
  match ← action.toBaseIO with
  | .ok a => pure (some a)
  | .error _ => pure none

/-- The location on the disk that a location leads to, all links followed. -/
def realLocation (l : Location) : IO (Option Location) := do
  let real ← attempt (IO.FS.realPath (pathText l))
  pure (real.map fun p => locationOf p.toString)

/-- Copy the file or folder at a location that is no link. A folder's location is the answer. -/
def copyReal (fs : FileSystem) (l : Location) : IO (FileSystem × Option Location) := do
  let fs := putFolders fs l.dropLast
  match ← attempt (IO.FS.readBinFile (pathText l)) with
  | some content => pure (fs.put l (.file defaultMode (bytesOf content)), none)
  | none =>
    if ← ((← IO.currentDir) / pathText l).isDir then pure (fs.put l .folder, some l)
    else pure (fs, none)

/-- A path that leads nowhere: no name on a disk has the byte zero in it. -/
def nowhere : Path := ⟨[slash, 0, slash, 0]⟩

/-- Copy the entry of a folder. If it leads to a folder, the answer has that folder's location. -/
def copyEntry (fs : FileSystem) (l : Location) : IO (FileSystem × Option Location) := do
  match ← realLocation l with
  | none =>
    match ← attempt ((← IO.currentDir) / pathText l).symlinkMetadata with
    | none => pure (fs, none)
    | some _ => pure (fs.put l (.link nowhere), none)
  | some real =>
    if real = l then copyReal fs l
    else copyReal (fs.put l (.link ⟨slash :: joinSegments real⟩)) real

/-- Copy the entries of a folder, and of the folders in it down to a depth. -/
def copyBelow : Nat → FileSystem → Location → IO FileSystem
  | 0, fs, _ => pure fs
  | depth + 1, fs, l => do
    let entries ← attempt ((← IO.currentDir) / pathText l).readDir
    (entries.getD #[]).foldlM (fun fs e => do
      let (fs, inner) ← copyEntry fs (l ++ [encode e.fileName.toList])
      match inner with
      | some l => copyBelow depth fs l
      | none => pure fs) fs

def copyPath (depth : Nat) (fs : FileSystem) (p : Path) : IO FileSystem := do
  let start := FileSystem.startOf p fs.workplace
  let (fs, l) ← p.steps.foldlM (fun ((fs, l) : FileSystem × Option Location) step =>
    match step, l with
    | .down n, some l => copyEntry fs (l ++ [n])
    | .up, some l => pure (fs, some l.dropLast)
    | _, l => pure (fs, l)) (putFolders fs start, some start)
  match l with
  | some l => copyBelow depth fs l
  | none => pure fs

/-- The levels of an include tree: its modules and their headers. -/
def treeDepth : Nat := 2

/-- Copy the names in the folder of an output, so that a name which is free in the copy is free on
the disk. An entry that has not been copied leads nowhere. -/
def copyNames (fs : FileSystem) (output : Path) : IO FileSystem := do
  let target := (fs.pathBehind? FileSystem.maxHops output).getD output
  match fs.locateFolder (FileSystem.folderOf target) with
  | .error _ => pure fs
  | .ok folder =>
    let entries ← attempt ((← IO.currentDir) / pathText folder).readDir
    pure ((entries.getD #[]).foldl (fun fs e =>
      let l := folder ++ [encode e.fileName.toList]
      if (fs.node? l).isSome then fs else fs.put l (.link nowhere)) fs)

def copyFor (r : Request) : IO FileSystem := do
  let here := locationOf (← IO.currentDir).toString
  let fs ← (r.output :: r.config.toList ++ usualConfigs).foldlM (copyPath 0) (.empty here)
  let fs ← copyPath treeDepth fs r.root
  copyNames fs r.output

/-- The locations at which something is in the first state only. -/
def lost (before after : FileSystem) : List Location :=
  (before.entries.map (·.1)).filter fun l => (after.node? l).isNone

/-- The entries that the second state has and the first one has not. -/
def gained (before after : FileSystem) : List (Location × Node) :=
  after.entries.filter fun (l, n) => before.node? l ≠ some n

/-- Take the disk from one state of the copy to the next. A file that has moved is renamed, so that
no reader sees a part of it. -/
def takeStep (before after : FileSystem) : IO Unit :=
  match lost before after, gained before after with
  | [source], [(target, _)] => IO.FS.rename (pathText source) (pathText target)
  | gone, new => do
    new.forM fun (l, n) =>
      match n with
      | .file _ content => IO.FS.writeBinFile (pathText l) ⟨content.toArray⟩
      | _ => pure ()
    gone.forM fun l => IO.FS.removeFile (pathText l)

def takeSteps : FileSystem → List FileSystem → IO Unit
  | _, [] => pure ()
  | before, after :: rest => do
    takeStep before after
    takeSteps after rest

/-- Take the disk through the states of the copy. If it refuses one, files that are not in the last
state are removed. -/
def writeStates (fs : FileSystem) (states : List FileSystem) : IO Unit := do
  match ← (takeSteps fs states).toBaseIO with
  | .ok () => pure ()
  | .error e =>
    let temporary := states.flatMap fun s => lost s (states.getLast?.getD fs)
    temporary.forM fun l => discard (attempt (IO.FS.removeFile (pathText l)))
    throw e

def respond (words : List Bytes) : IO UInt32 := do
  let fs ←
    match Request.ofWords words with
    | .ok r => copyFor r
    | .error _ => pure (.empty [])
  let (a, states) := answer fs (← IO.getEnv "RUST_LOG") words
  writeStates fs states
  IO.eprint a.messages
  IO.print a.output
  pure (UInt32.ofNat a.status)

end IncludeMap.Program

def main (words : List String) : IO UInt32 :=
  IncludeMap.Program.respond (words.map fun w => IncludeMap.Text.encode w.toList)
