import IncludeMap.Proofs.Text.Utf8
import IncludeMap.Proofs.Text.Separator

/-! # Where a reading starts afresh

The bytes that are asked for are never those of ASCII characters, so a broken piece ends in front of
such a byte at the latest and the reading starts afresh with it. Only the bytes of a text have no
broken piece.
-/
namespace IncludeMap.Text
variable {b : UInt8} {bytes rest t : Bytes} {v n : Nat} {r : UInt8 × UInt8}
  {asked : List (UInt8 × UInt8)}

/-- The range is one of bytes that continue a character. -/
def IsTrailing (r : UInt8 × UInt8) : Prop := 0x80 ≤ r.1.toNat ∧ r.2.toNat ≤ 0xbf

instance (r : UInt8 × UInt8) : Decidable (IsTrailing r) := inferInstanceAs (Decidable (_ ∧ _))

theorem isTrailing_of_announced (h : announced b = some (v, asked)) :
    ∀ r ∈ asked, IsTrailing r := by
  have hb := b.toNat_lt
  rw [← UInt8.ofNat_toNat (x := b), announced_ofNat hb] at h
  split_ifs at h
  all_goals
    cases h
    simp [IsTrailing, continuation]

section Afresh

/-- A byte of an ASCII character is left unread with all behind it. -/
theorem follow_append (hb : b < 0x80) (hasked : ∀ r ∈ asked, IsTrailing r) (v : Nat)
    (rest t : Bytes) :
    follow asked v (rest ++ b :: t) =
      ((follow asked v rest).1, (follow asked v rest).2 ++ b :: t) := by
  induction asked generalizing v rest with
  | nil => rfl
  | cons r asked ih =>
    cases rest with
    | nil =>
      have hlow : ¬ r.1 ≤ b := by
        have hr := (hasked r List.mem_cons_self).1
        have hb' : b.toNat < 0x80 := UInt8.lt_iff_toNat_lt.mp hb
        rw [UInt8.le_iff_toNat_le]
        omega
      simp [follow, hlow]
    | cons a rest =>
      rw [List.cons_append, follow, follow]
      split
      · exact ih (fun r hr => hasked r (List.mem_cons_of_mem _ hr)) _ rest
      · rfl

theorem announced_of_lt (hb : b < 0x80) : announced b = some (b.toNat, []) := by
  rw [announced, if_pos hb]

theorem pieces_append (hb : b < 0x80) (bytes t : Bytes) :
    pieces (bytes ++ b :: t) = pieces bytes ++ .scalar (Char.ofNat b.toNat) :: pieces t := by
  fun_induction pieces bytes with
  | case1 => rw [List.nil_append, List.nil_append, pieces_of_follow (announced_of_lt hb) rfl]
  | case2 a rest ha ih => rw [List.cons_append, pieces, ha, ih, List.cons_append]
  | case3 a rest v asked ha hle n hn ih =>
    have hf := follow_append hb (isTrailing_of_announced ha) v rest t
    rw [hn] at hf
    rw [List.cons_append, pieces_of_follow ha hf, ih, List.cons_append]
  | case4 a rest v asked ha hle hn ih =>
    have hf := follow_append hb (isTrailing_of_announced ha) v rest t
    rw [hn] at hf
    have htake : (rest ++ b :: t).take
        ((rest ++ b :: t).length - ((follow asked v rest).2 ++ b :: t).length) =
          rest.take (rest.length - (follow asked v rest).2.length) := by
      have hlen : (rest ++ b :: t).length - ((follow asked v rest).2 ++ b :: t).length =
          rest.length - (follow asked v rest).2.length := by
        simp only [List.length_append]
        omega
      rw [hlen, List.take_append_of_le_length (Nat.sub_le _ _)]
    rw [List.cons_append, pieces, ha]
    simp only [hf, htake, ih, List.cons_append]

theorem decodeLossy_append (hb : b < 0x80) (bytes t : Bytes) :
    decodeLossy (bytes ++ b :: t) =
      decodeLossy bytes ++ Char.ofNat b.toNat :: decodeLossy t := by
  simp only [decodeLossy, scalars, pieces_append hb, List.map_append, List.map_cons, Piece.char?,
    Option.getD_some]

end Afresh

section Strict

theorem utf8EncodeChar_ofNat (hn : n.isValidChar) :
    String.utf8EncodeChar (Char.ofNat n) =
      if n ≤ 0x7f then [UInt8.ofNat n]
      else if n ≤ 0x7ff then [UInt8.ofNat (n / 64 % 32 + 192), UInt8.ofNat (n % 64 + 128)]
      else if n ≤ 0xffff then
        [UInt8.ofNat (n / 4096 % 16 + 224), UInt8.ofNat (n / 64 % 64 + 128),
          UInt8.ofNat (n % 64 + 128)]
      else
        [UInt8.ofNat (n / 262144 % 8 + 240), UInt8.ofNat (n / 4096 % 64 + 128),
          UInt8.ofNat (n / 64 % 64 + 128), UInt8.ofNat (n % 64 + 128)] := by
  have htoNat : (Char.ofNat n).toNat = n := by
    rw [Char.ofNat, dif_pos hn]
    rfl
  rw [utf8EncodeChar_eq, htoNat]

theorem exists_of_follow_cons (hr : IsTrailing r)
    (h : follow (r :: asked) v rest = (some n, t)) :
    ∃ j s, rest = UInt8.ofNat (j + 128) :: s ∧ j < 64 ∧ r.1.toNat ≤ j + 128 ∧
      j + 128 ≤ r.2.toNat ∧ follow asked (v * 64 + j) s = (some n, t) := by
  cases rest with
  | nil => cases h
  | cons a s =>
    rw [follow] at h
    split at h
    · next ha =>
      simp only [Bool.and_eq_true, decide_eq_true_eq, UInt8.le_iff_toNat_le] at ha
      obtain ⟨hlow, hhigh⟩ := hr
      have hmod : a.toNat % 64 = a.toNat - 128 := by omega
      have hsub : a.toNat - 128 + 128 = a.toNat := by omega
      refine ⟨a.toNat - 128, s, by rw [hsub, UInt8.ofNat_toNat], by omega, by omega, by omega, ?_⟩
      rw [← hmod, h]
    · cases h

theorem isTrailing_continuation : IsTrailing continuation := by decide

theorem eq_append_of_follow_one {k : Nat} (hlow : 0xc2 ≤ k) (hhigh : k < 0xe0)
    (hf : follow [continuation] (k % 32) rest = (some n, t)) :
    UInt8.ofNat k :: rest = String.utf8EncodeChar (Char.ofNat n) ++ t := by
  obtain ⟨j, s, rfl, hj, -, -, hf⟩ := exists_of_follow_cons isTrailing_continuation hf
  cases hf
  have h₁ : (k % 32 * 64 + j) / 64 % 32 + 192 = k := by omega
  have h₂ : (k % 32 * 64 + j) % 64 + 128 = j + 128 := by omega
  rw [utf8EncodeChar_ofNat (.inl (by omega)), if_neg (by omega), if_pos (by omega), h₁, h₂]
  rfl

theorem eq_append_of_follow_two (hr : IsTrailing r) (hv : v < 16)
    (hlow : 0x800 ≤ (v * 64 + (r.1.toNat - 128)) * 64)
    (hgap : (v * 64 + (r.2.toNat - 127)) * 64 ≤ 0xd800 ∨
      0xdfff < (v * 64 + (r.1.toNat - 128)) * 64)
    (hf : follow [r, continuation] v rest = (some n, t)) :
    UInt8.ofNat (v + 224) :: rest = String.utf8EncodeChar (Char.ofNat n) ++ t := by
  obtain ⟨i, s, rfl, hi, hmin, hmax, hf⟩ := exists_of_follow_cons hr hf
  obtain ⟨j, s, rfl, hj, -, -, hf⟩ := exists_of_follow_cons isTrailing_continuation hf
  cases hf
  have hn : ((v * 64 + i) * 64 + j).isValidChar :=
    hgap.imp (fun h => by omega) fun h => ⟨by omega, by omega⟩
  have h₁ : ((v * 64 + i) * 64 + j) / 4096 % 16 + 224 = v + 224 := by omega
  have h₂ : ((v * 64 + i) * 64 + j) / 64 % 64 + 128 = i + 128 := by omega
  have h₃ : ((v * 64 + i) * 64 + j) % 64 + 128 = j + 128 := by omega
  rw [utf8EncodeChar_ofNat hn, if_neg (by omega), if_neg (by omega), if_pos (by omega), h₁, h₂, h₃]
  rfl

theorem eq_append_of_follow_three (hr : IsTrailing r)
    (hlow : 0xffff < (v * 64 + (r.1.toNat - 128)) * 4096)
    (hhigh : (v * 64 + (r.2.toNat - 127)) * 4096 ≤ 0x110000)
    (hf : follow [r, continuation, continuation] v rest = (some n, t)) :
    UInt8.ofNat (v + 240) :: rest = String.utf8EncodeChar (Char.ofNat n) ++ t := by
  obtain ⟨h, s, rfl, hh, hmin, hmax, hf⟩ := exists_of_follow_cons hr hf
  obtain ⟨i, s, rfl, hi, -, -, hf⟩ := exists_of_follow_cons isTrailing_continuation hf
  obtain ⟨j, s, rfl, hj, -, -, hf⟩ := exists_of_follow_cons isTrailing_continuation hf
  cases hf
  have hn : (((v * 64 + h) * 64 + i) * 64 + j).isValidChar := .inr ⟨by omega, by omega⟩
  have h₁ : (((v * 64 + h) * 64 + i) * 64 + j) / 262144 % 8 + 240 = v + 240 := by omega
  have h₂ : (((v * 64 + h) * 64 + i) * 64 + j) / 4096 % 64 + 128 = h + 128 := by omega
  have h₃ : (((v * 64 + h) * 64 + i) * 64 + j) / 64 % 64 + 128 = i + 128 := by omega
  have h₄ : (((v * 64 + h) * 64 + i) * 64 + j) % 64 + 128 = j + 128 := by omega
  rw [utf8EncodeChar_ofNat hn, if_neg (by omega), if_neg (by omega), if_neg (by omega), h₁, h₂, h₃,
    h₄]
  rfl

/-- A scalar value is read off the bytes of its character only. -/
theorem eq_append_of_follow (ha : announced b = some (v, asked))
    (hf : follow asked v rest = (some n, t)) :
    b :: rest = String.utf8EncodeChar (Char.ofNat n) ++ t := by
  have hasked := isTrailing_of_announced ha
  obtain ⟨k, hk, rfl⟩ : ∃ k < 256, b = UInt8.ofNat k :=
    ⟨b.toNat, b.toNat_lt, UInt8.ofNat_toNat.symm⟩
  have h₁ : continuation.1.toNat = 0x80 := rfl
  have h₂ : continuation.2.toNat = 0xbf := rfl
  rw [announced_ofNat hk] at ha
  split_ifs at ha with hk₁ hk₂ hk₃ hk₄ hk₅ hk₆ hk₇ hk₈ hk₉ <;> cases ha
  · cases hf
    rw [utf8EncodeChar_ofNat (.inl (by omega)), if_pos (by omega)]
    rfl
  · exact eq_append_of_follow_one (by omega) hk₃ hf
  · rw [hk₄]
    exact eq_append_of_follow_two (hasked _ (by simp)) (by decide) (by decide) (by decide) hf
  · rw [hk₅]
    exact eq_append_of_follow_two (hasked _ (by simp)) (by decide) (by decide) (by decide) hf
  · obtain ⟨v, rfl⟩ : ∃ v, k = v + 224 := ⟨k - 224, by omega⟩
    have hv : (v + 224) % 16 = v := by omega
    rw [hv] at hf
    exact eq_append_of_follow_two (hasked _ (by simp)) (by omega) (by omega) (by omega) hf
  · rw [hk₇]
    exact eq_append_of_follow_three (hasked _ (by simp)) (by decide) (by decide) hf
  · obtain ⟨v, rfl⟩ : ∃ v, k = v + 240 := ⟨k - 240, by omega⟩
    have hv : (v + 240) % 8 = v := by omega
    rw [hv] at hf
    exact eq_append_of_follow_three (hasked _ (by simp)) (by omega) (by omega) hf
  · rw [hk₉]
    exact eq_append_of_follow_three (hasked _ (by simp)) (by decide) (by decide) hf

/-- The strict reading accepts the bytes of a text, and no others. -/
theorem decode?_eq_some_iff {s : List Char} : decode? bytes = some s ↔ bytes = encode s := by
  constructor
  · intro h
    have hs := scalars_of_decode? h
    clear h
    rw [scalars] at hs
    fun_induction pieces bytes generalizing s with
    | case1 =>
      obtain rfl : s = [] := List.map_eq_nil_iff.mp hs.symm
      rfl
    | case2 b rest ha ih => cases s <;> simp [Piece.char?] at hs
    | case3 b rest v asked ha hle n hn ih =>
      cases s with
      | nil => simp at hs
      | cons c s =>
        rw [List.map_cons, List.map_cons, List.cons.injEq] at hs
        obtain ⟨hc, hs⟩ := hs
        cases hc
        show b :: rest = String.utf8EncodeChar (Char.ofNat n) ++ encode s
        rw [← ih hs]
        exact eq_append_of_follow ha (Prod.ext hn rfl)
    | case4 b rest v asked ha hle hn ih => cases s <;> simp [Piece.char?] at hs
  · rintro rfl
    exact decode?_encode s

end Strict

end IncludeMap.Text
