import IncludeMap.File.Access
import IncludeMap.Report

/-! # Reading texts of any bytes

The text of a file is read even where its bytes are no UTF-8; then a warning says so. Either way it
is the lossy reading of the bytes, which `value_readLossy` states.
-/
namespace IncludeMap.File
open Text

namespace FileSystem

/-- The text of a file, with U+FFFD for each broken piece. -/
def readLossy (fs : FileSystem) (p : Path) : Report String :=
  match fs.readBytes p with
  | .error f => Report.fail (.io s!"Failed to read file: {p.display}" f)
  | .ok bytes =>
    match decode? bytes with
    | some s => pure (String.ofList s)
    | none => do
      Report.say .warn
        s!"File contained invalid UTF-8, converted with lossy encoding: {p.display}"
      pure (String.ofList (decodeLossy bytes))

theorem value_readLossy (fs : FileSystem) (p : Path) :
    (fs.readLossy p).value =
      match fs.readBytes p with
      | .ok bytes => .ok (String.ofList (decodeLossy bytes))
      | .error f => .error (.io s!"Failed to read file: {p.display}" f) := by
  unfold readLossy
  cases fs.readBytes p with
  | error f => rfl
  | ok bytes =>
    cases h : decode? bytes with
    | some s => simp only [h, Report.value_pure, decodeLossy_of_decode? h]
    | none => simp only [h]; rfl

end FileSystem

end IncludeMap.File
