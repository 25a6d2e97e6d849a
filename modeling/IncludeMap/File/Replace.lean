import IncludeMap.File.Access
import IncludeMap.Report

/-! # Replacing a file

A file is replaced by writing a temporary file beside it and renaming that over it, so a reader sees
the old content or the whole new content. A link at the path is followed first: the link stays, and
what it leads to is replaced. A replaced file keeps its mode.
-/
namespace IncludeMap.File
open Text

/-- The outcome of an operation that changes the file system, and every state that it goes through,
one after each change. -/
structure Effect (α : Type) where
  report : Report α
  states : List FileSystem

def Effect.final {α : Type} (e : Effect α) (fs : FileSystem) : FileSystem :=
  e.states.getLast?.getD fs

/-- An effect that begins with a report, and ends there if the report is of a problem. -/
def Effect.before {α β : Type} (x : Report α) (f : α → Effect β) : Effect β :=
  match x.value with
  | .ok a => ⟨⟨(f a).report.value, x.lines ++ (f a).report.lines⟩, (f a).states⟩
  | .error p => ⟨⟨.error p, x.lines⟩, []⟩

def Effect.after {α β : Type} (e : Effect α) (g : α → Report β) : Effect β :=
  ⟨e.report >>= g, e.states⟩

namespace FileSystem

/-- What a link at `p` with the target `target` stands for. -/
def behindLink (p target : Path) : Path :=
  match p.parent? with
  | some parent => if target.isAbsolute then target else parent.join target
  | none => target

/-- The first path behind `p` that is no link, if fewer than `hops` links are in the way. -/
def pathBehind? (fs : FileSystem) : Nat → Path → Option Path
  | 0, _ => none
  | hops + 1, p =>
    match fs.linkAt? p with
    | some target => fs.pathBehind? hops (behindLink p target)
    | none => some p

def folderOf (p : Path) : Path :=
  match p.parent? with
  | some parent => if parent.bytes = [] then ⟨[dot]⟩ else parent
  | none => ⟨[dot]⟩

/-- The names for temporary files: a stem and at least six digits. -/
def temporaryName (i : Nat) : Name :=
  let digits := Nat.toDigits 10 i
  encode (".tmp".toList ++ List.replicate (6 - digits.length) '0' ++ digits)

/-- The first temporary name that neither the folder nor the path uses. -/
def freshName (fs : FileSystem) (folder : Location) (p : Path) : Name :=
  let used := p.fileName?.toList ++ fs.names folder
  (((List.range (used.length + 1)).map temporaryName).find? fun n => !used.contains n).getD
    (temporaryName 0)

def workplacePath (fs : FileSystem) : Path :=
  ⟨slash :: joinSegments fs.workplace⟩

/-- A fault that says which path it is about. -/
def faultAt (f : Fault) (p : Path) : Fault :=
  ⟨f.kind, f.text ++ " at path " ++ p.quoted⟩

def walkFolder (fs : FileSystem) (l : Location) (steps : List Step) : Except Fault Location :=
  match fs.walk .follow maxLinks l steps with
  | .ok (.existing l) => if fs.isFolder l then .ok l else .error .notADirectory
  | .ok (.absent _ _) => .error .notFound
  | .error f => .error f

/-- The location that a rename of a file puts it at. A link there is not followed, and only a name
can be renamed to. -/
def renamed (fs : FileSystem) (p : Path) : Except Fault Location :=
  let start := startOf p fs.workplace
  if p.bytes = [] then .error .notFound
  else
    match p.steps.reverse with
    | .closing :: .down _ :: before =>
      (fs.walkFolder start before.reverse).bind fun _ => .error .notADirectory
    | .closing :: _ :: before => (fs.walkFolder start before.reverse).bind fun _ => .error .busy
    | .down n :: before => (fs.walkFolder start before.reverse).map (· ++ [n])
    | _ :: before => (fs.walkFolder start before.reverse).bind fun _ => .error .busy
    | [] => .error .busy

def rename (fs : FileSystem) (source : Location) (p : Path) : Except Fault FileSystem :=
  match fs.renamed p, fs.node? source with
  | .ok l, some n => if fs.isFolder l then .error .isADirectory else .ok ((fs.erase source).put l n)
  | .ok _, none => .error .notFound
  | .error f, _ => .error f

def modeAt? (fs : FileSystem) (p : Path) : Option Nat :=
  match fs.nodeAt? p with
  | some (.file mode _) => some mode
  | some .folder => some 0o755
  | _ => none

/-- The temporary file through which `content` is written to `target`: created, given the mode of
what is there, written, and renamed; if the renaming is refused it is removed again. -/
def replaceThrough (fs : FileSystem) (target : Path) (temp : Location) (content : Bytes) :
    Effect Unit :=
  let created := fs.put temp (.file defaultMode [])
  let mode := (created.modeAt? target).getD defaultMode
  let permitted := created.put temp (.file mode [])
  let written := permitted.put temp (.file mode content)
  match written.rename temp target with
  | .ok moved =>
    ⟨Report.say .debug s!"Wrote {content.length} bytes to {target.display}",
      [created, permitted, written, moved]⟩
  | .error f =>
    ⟨Report.fail (.io s!"Failed to move output into {target.display}" f),
      [created, permitted, written, written.erase temp]⟩

/-- The most links at the end of a path that a replacement follows. -/
def maxHops : Nat := 40

/-- Replace what the path leads to by a file with the content. -/
def replaceFile (fs : FileSystem) (p : Path) (content : Bytes) : Effect Unit :=
  match fs.pathBehind? maxHops p with
  | none => ⟨Report.fail (.path "Too many levels of symbolic links" p), []⟩
  | some target =>
    let parent := folderOf target
    match fs.locateFolder parent with
    | .error f =>
      let temp := (fs.workplacePath.join parent).child (temporaryName 0)
      ⟨Report.fail (.io s!"Failed to create temporary file in {parent.display}" (faultAt f temp)),
        []⟩
    | .ok folder =>
      fs.replaceThrough target (folder ++ [fs.freshName folder target]) content

end FileSystem

end IncludeMap.File
