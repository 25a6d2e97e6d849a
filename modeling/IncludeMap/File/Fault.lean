/-! # Faults of the file system

What an operation on the file system answers when it is refused: a kind, and the words of the
system.
-/
namespace IncludeMap.File

inductive FaultKind where
  | notFound
  | permissionDenied
  | notADirectory
  | isADirectory
  | linkLoop
  | busy
  | invalidData
  | other
  deriving DecidableEq, Repr

structure Fault where
  kind : FaultKind
  text : String
  deriving DecidableEq

namespace Fault

def notFound : Fault := ⟨.notFound, "No such file or directory (os error 2)"⟩

def notADirectory : Fault := ⟨.notADirectory, "Not a directory (os error 20)"⟩

def isADirectory : Fault := ⟨.isADirectory, "Is a directory (os error 21)"⟩

def linkLoop : Fault := ⟨.linkLoop, "Too many levels of symbolic links (os error 40)"⟩

def busy : Fault := ⟨.busy, "Device or resource busy (os error 16)"⟩

/-- The bytes of a file are no UTF-8. -/
def invalidText : Fault := ⟨.invalidData, "stream did not contain valid UTF-8"⟩

/-- A link leads to a folder that it lies in. -/
def cycle : Fault := ⟨.other, "filesystem loop"⟩

end Fault

end IncludeMap.File
