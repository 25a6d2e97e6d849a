/-! # UTF-8

A text is encoded character by character. Decoding reads a scalar value where the bytes hold one
and otherwise passes over a broken piece: the longest start of a valid sequence, or else one byte.
The lossy reading shows U+FFFD for each broken piece; the strict reading has no answer when there
is one.
-/
namespace IncludeMap.Text

abbrev Bytes := List UInt8

def encode (s : List Char) : Bytes :=
  s.flatMap String.utf8EncodeChar

@[simp] theorem encode_nil : encode [] = [] := rfl

@[simp] theorem encode_append (s t : List Char) : encode (s ++ t) = encode s ++ encode t := by
  simp [encode]

theorem encode_injective {s t : List Char} (h : encode s = encode t) : s = t := by
  have hst : String.ofList s = String.ofList t :=
    String.toByteArray_inj.mp (congrArg List.toByteArray h)
  rw [← String.toList_ofList (l := s), hst, String.toList_ofList]

theorem utf8EncodeChar_of_le {c : Char} (h : c.val ≤ 127) :
    String.utf8EncodeChar c = [c.val.toUInt8] :=
  String.utf8EncodeChar_eq_singleton (Char.utf8Size_eq_one_iff.mpr h)

def continuation : UInt8 × UInt8 := (0x80, 0xbf)

/-- What a first byte announces: its share of the value and the ranges of the bytes that it asks
for. The narrowed second ranges exclude overlong forms, surrogates and values above U+10FFFF. -/
def announced (b : UInt8) : Option (Nat × List (UInt8 × UInt8)) :=
  if b < 0x80 then some (b.toNat, [])
  else if b < 0xc2 then none
  else if b < 0xe0 then some (b.toNat % 32, [continuation])
  else if b = 0xe0 then some (0, [(0xa0, 0xbf), continuation])
  else if b = 0xed then some (13, [(0x80, 0x9f), continuation])
  else if b < 0xf0 then some (b.toNat % 16, [continuation, continuation])
  else if b = 0xf0 then some (0, [(0x90, 0xbf), continuation, continuation])
  else if b < 0xf4 then some (b.toNat % 8, [continuation, continuation, continuation])
  else if b = 0xf4 then some (4, [(0x80, 0x8f), continuation, continuation])
  else none

/-- Read the bytes asked for. The first one out of its range is left unread. -/
def follow : List (UInt8 × UInt8) → Nat → Bytes → Option Nat × Bytes
  | [], v, rest => (some v, rest)
  | _ :: _, _, [] => (none, [])
  | r :: rs, v, b :: rest =>
    if r.1 ≤ b && b ≤ r.2 then follow rs (v * 64 + b.toNat % 64) rest else (none, b :: rest)

theorem follow_length_le (rs : List (UInt8 × UInt8)) (v : Nat) (bytes : Bytes) :
    (follow rs v bytes).2.length ≤ bytes.length := by
  induction rs generalizing v bytes with
  | nil => simp [follow]
  | cons r rs ih =>
    cases bytes with
    | nil => simp [follow]
    | cons b rest =>
      simp only [follow]
      split
      · exact Nat.le_trans (ih _ _) (by simp)
      · simp

/-- A part of a byte sequence: one scalar value, or bytes that encode none. -/
inductive Piece where
  | scalar (c : Char)
  | broken (bytes : Bytes)
  deriving DecidableEq

def Piece.char? : Piece → Option Char
  | .scalar c => some c
  | .broken _ => none

def pieces : Bytes → List Piece
  | [] => []
  | b :: rest =>
    match announced b with
    | none => .broken [b] :: pieces rest
    | some (v, asked) =>
      have : (follow asked v rest).2.length ≤ rest.length := follow_length_le asked v rest
      match (follow asked v rest).1 with
      | some n => .scalar (Char.ofNat n) :: pieces (follow asked v rest).2
      | none =>
        .broken (b :: rest.take (rest.length - (follow asked v rest).2.length)) ::
          pieces (follow asked v rest).2
termination_by bytes => bytes.length
decreasing_by
  all_goals simp only [List.length_cons]
  all_goals omega

/-- The scalar values held by the bytes, with `none` for each broken piece. -/
def scalars (bytes : Bytes) : List (Option Char) :=
  (pieces bytes).map Piece.char?

/-- The reading that shows U+FFFD for each broken piece. -/
def decodeLossy (bytes : Bytes) : List Char :=
  (scalars bytes).map (·.getD '\ufffd')

/-- The reading of bytes without a broken piece. -/
def decode? (bytes : Bytes) : Option (List Char) :=
  (scalars bytes).mapM id

/-- Where the strict reading has an answer the lossy reading gives the same. -/
theorem decodeLossy_of_decode? {bytes : Bytes} {s : List Char} (h : decode? bytes = some s) :
    decodeLossy bytes = s := by
  unfold decode? at h
  unfold decodeLossy
  generalize scalars bytes = xs at h
  induction xs generalizing s with
  | nil => simp at h; simp [h]
  | cons x xs ih =>
    cases x with
    | none => simp at h
    | some c =>
      cases hm : xs.mapM id with
      | none => simp [hm] at h
      | some t => simp [hm] at h; simp [ih hm, ← h]

end IncludeMap.Text
