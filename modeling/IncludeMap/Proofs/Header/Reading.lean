import IncludeMap.Header.Basic
import IncludeMap.Proofs.Header.Included
import IncludeMap.Proofs.Text.Lossy
import Mathlib

/-! # The private headers of a file, line by line

The bytes of a file are read in the same way whether they are those of a text or not, and a line
break among them is always read as one. So each line of a file gives the names that a file with no
other line gives, whatever broken pieces the other lines hold.
-/
namespace IncludeMap.Header
open File Text
variable {fs : FileSystem} {p : Path} {bytes : Bytes}

def namesHeld (bytes : Bytes) : List String :=
  localIncludes (String.ofList (decodeLossy bytes))

theorem namesHeld_append_newline (s t : Bytes) :
    namesHeld (s ++ 0x0a :: t) = namesHeld s ++ namesHeld t := by
  have hread : decodeLossy (s ++ 0x0a :: t) = decodeLossy s ++ '\n' :: decodeLossy t :=
    decodeLossy_append (by decide) s t
  simp only [namesHeld, localIncludes, String.toList_ofList, hread, namesIn_append_newline,
    List.map_append]

theorem namesHeld_eq_flatMap (bytes : Bytes) :
    namesHeld bytes = (bytes.splitOn 0x0a).flatMap namesHeld :=
  eq_flatMap_splitOn (fun s t _ => namesHeld_append_newline s t) (fun _ _ => rfl) bytes

theorem privateHeaders_of_readBytes (h : fs.readBytes p = .ok bytes) :
    ((ofPath p).privateHeaders fs).value = .ok (namesHeld bytes) := by
  simp only [privateHeaders, ofPath, Report.value_bind, FileSystem.value_readLossy, h]
  rfl

theorem readText_eq_ok_iff (h : fs.readBytes p = .ok bytes) {s : String} :
    fs.readText p = .ok s ↔ bytes = encode s.toList := by
  rw [← decode?_eq_some_iff, FileSystem.readText, h]
  cases hd : decode? bytes with
  | none => simp [hd]
  | some t =>
    simp only [hd, Except.ok.injEq, Option.some.injEq]
    constructor
    · rintro rfl
      exact String.toList_ofList.symm
    · rintro rfl
      exact String.ofList_toList

/-- A file is read as the lossy reading of its bytes, on the strict path where these are the bytes
of a text and on the lossy one elsewhere. Its private headers are those of its lines, each taken for
the whole of a file, and a byte of an ASCII character is read as the character, whatever stands in
front of it. -/
theorem privateHeaders_lines (h : fs.readBytes p = .ok bytes) :
    (fs.readLossy p).value = .ok (String.ofList (decodeLossy bytes)) ∧
      (∀ s, fs.readText p = .ok s ↔ bytes = encode s.toList) ∧
      (∀ s, fs.readText p = .ok s → s = String.ofList (decodeLossy bytes)) ∧
      ((ofPath p).privateHeaders fs).value = .ok ((bytes.splitOn 0x0a).flatMap namesHeld) ∧
      (∀ (gs : FileSystem) (q : Path) (line : Bytes), gs.readBytes q = .ok line →
        ((ofPath q).privateHeaders gs).value = .ok (namesHeld line)) ∧
      ∀ before b after, bytes = before ++ b :: after → b < 0x80 →
        decodeLossy bytes = decodeLossy before ++ Char.ofNat b.toNat :: decodeLossy after := by
  refine ⟨?_, fun _ => readText_eq_ok_iff h, fun s hs => ?_, ?_,
    fun _ _ _ => privateHeaders_of_readBytes, ?_⟩
  · rw [FileSystem.value_readLossy, h]
  · have hd := decode?_eq_some_iff.mpr ((readText_eq_ok_iff h).mp hs)
    rw [decodeLossy_of_decode? hd, String.ofList_toList]
  · rw [privateHeaders_of_readBytes h, namesHeld_eq_flatMap]
  · rintro before b after rfl hb
    exact decodeLossy_append hb before after

/-- A character cut off at the end of each of two lines. -/
def brokenBytes : Bytes :=
  encode "// caf".toList ++ 0xe9 :: 0x0a :: encode "#include \"".toList ++ 0xf0 :: 0x9f ::
    encode ".h\"".toList ++ 0xe2 :: 0x82 :: 0x0a :: encode "#include \"a.h\"".toList

def brokenFile : FileSystem := (FileSystem.empty []).put [encode ['f']] (.file 0o600 brokenBytes)

/-- The include behind the broken lines is found. -/
theorem privateHeaders_brokenFile :
    brokenFile.readBytes (.ofString "f") = .ok brokenBytes ∧
      ((ofPath (.ofString "f")).privateHeaders brokenFile).value = .ok ["\ufffd", "a"] := by
  have h : brokenFile.readBytes (.ofString "f") = .ok brokenBytes := by cbv
  refine ⟨h, ?_⟩
  obtain ⟨-, -, -, hnames, -⟩ := privateHeaders_lines h
  rw [hnames]
  decide +kernel

end IncludeMap.Header
