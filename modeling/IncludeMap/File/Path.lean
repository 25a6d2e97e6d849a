import IncludeMap.Text.Quoted

/-! # Paths

A path is a sequence of bytes cut into segments at the slashes. Empty segments mean nothing, and a
segment of one dot means nothing either, except as the first segment of a relative path.
-/
namespace IncludeMap.File
open Text

abbrev Name := Bytes

structure Path where
  bytes : Bytes
  deriving DecidableEq

def slash : UInt8 := 0x2f

def dot : UInt8 := 0x2e

/-- The pieces between slashes, empty ones included. -/
def segments : Bytes → List Bytes
  | [] => [[]]
  | b :: bs =>
    if b = slash then [] :: segments bs
    else
      match segments bs with
      | [] => [[b]]
      | s :: ss => (b :: s) :: ss

/-- Segments with a slash between two of them. -/
def joinSegments : List Bytes → Bytes
  | [] => []
  | [s] => s
  | s :: t :: ss => s ++ slash :: joinSegments (t :: ss)

theorem segments_ne_nil (bs : Bytes) : segments bs ≠ [] := by
  cases bs with
  | nil => simp [segments]
  | cons b bs =>
    simp only [segments]
    split
    · simp
    · split <;> simp

theorem joinSegments_segments (bs : Bytes) : joinSegments (segments bs) = bs := by
  induction bs with
  | nil => rfl
  | cons b bs ih =>
    simp only [segments]
    cases h : segments bs with
    | nil => exact absurd h (segments_ne_nil bs)
    | cons s ss =>
      rw [h] at ih
      by_cases hb : b = slash
      · simp [hb, joinSegments, ih]
      · cases ss with
        | nil => simp [hb, joinSegments] at ih ⊢; exact ih
        | cons t ts => simp [hb, joinSegments] at ih ⊢; exact ih

namespace Path

def ofString (s : String) : Path := ⟨encode s.toList⟩

def isAbsolute (p : Path) : Bool := p.bytes.head? == some slash

/-- The path as a text, with U+FFFD for broken pieces. -/
def display (p : Path) : String := String.ofList (decodeLossy p.bytes)

/-- The path in quotes, as messages of the system show it. -/
def quoted (p : Path) : String := String.ofList (quotedBytes p.bytes)

/-- Segments from the last one backwards, from the first on that means something. -/
def trimSegments : List Bytes → List Bytes
  | [] => []
  | [s] => if s = [] then [] else [s]
  | s :: t :: ss => if s = [] ∨ s = [dot] then trimSegments (t :: ss) else s :: t :: ss

/-- The segments that count, the last one first. -/
def backwards (p : Path) : List Bytes :=
  trimSegments (segments p.bytes).reverse

def parent? (p : Path) : Option Path :=
  match p.backwards with
  | [] => none
  | _ :: rest =>
    match trimSegments rest with
    | [] => some ⟨if p.isAbsolute then [slash] else []⟩
    | ss => some ⟨joinSegments ss.reverse⟩

/-- The last segment, if it is a name. -/
def fileName? (p : Path) : Option Name :=
  match p.backwards with
  | [] => none
  | s :: _ => if s = [dot] ∨ s = [dot, dot] then none else some s

/-- `p` followed by `q`; an absolute `q` stands alone. -/
def join (p q : Path) : Path :=
  if q.isAbsolute ∨ p.bytes = [] then q
  else if p.bytes.getLast? = some slash then ⟨p.bytes ++ q.bytes⟩
  else ⟨p.bytes ++ slash :: q.bytes⟩

def child (p : Path) (name : Name) : Path := p.join ⟨name⟩

end Path

/-- A file name up to its last dot. A name without a dot, or with none but a first one, is whole. -/
def stem (name : Name) : Name :=
  match name.reverse.dropWhile (· ≠ dot) with
  | [] => name
  | [_] => name
  | _ :: before => before.reverse

inductive Step where
  | stay
  | up
  | down (name : Name)
  /-- A slash at the end: what was reached must be a folder. -/
  | closing
  deriving DecidableEq

def stepOf (s : Bytes) : Step :=
  if s = [dot] then .stay else if s = [dot, dot] then .up else .down s

def Path.steps (p : Path) : List Step :=
  let ss := (segments p.bytes).filter (· ≠ [])
  ss.map stepOf ++
    if ss ≠ [] ∧ p.bytes.getLast? = some slash then [.closing] else []

end IncludeMap.File
