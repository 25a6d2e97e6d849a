import IncludeMap.Text.Utf8
import Mathlib.Algebra.Order.Ring.Nat

/-! # Reading encoded texts

The bytes of a text are read as the text, whatever follows them. Bytes that encode no text are read,
too, but never as an ASCII character: such a character is read only where its byte stands.
-/
namespace IncludeMap.Text

theorem pieces_of_follow {b : UInt8} {v n : Nat} {asked : List (UInt8 × UInt8)} {rest t : Bytes}
    (ha : announced b = some (v, asked)) (hf : follow asked v rest = (some n, t)) :
    pieces (b :: rest) = .scalar (Char.ofNat n) :: pieces t := by
  rw [pieces, ha]
  simp only [hf]

theorem announced_ofNat {k : Nat} (hk : k < 256) :
    announced (UInt8.ofNat k) =
      if k < 0x80 then some (k, [])
      else if k < 0xc2 then none
      else if k < 0xe0 then some (k % 32, [continuation])
      else if k = 0xe0 then some (0, [(0xa0, 0xbf), continuation])
      else if k = 0xed then some (13, [(0x80, 0x9f), continuation])
      else if k < 0xf0 then some (k % 16, [continuation, continuation])
      else if k = 0xf0 then some (0, [(0x90, 0xbf), continuation, continuation])
      else if k < 0xf4 then some (k % 8, [continuation, continuation, continuation])
      else if k = 0xf4 then some (4, [(0x80, 0x8f), continuation, continuation])
      else none := by
  revert k
  decide +kernel

theorem follow_ofNat {r : UInt8 × UInt8} {rs : List (UInt8 × UInt8)} {k v : Nat} {rest : Bytes}
    (hk : k < 64) (hlow : r.1.toNat ≤ k + 128) (hhigh : k + 128 ≤ r.2.toNat) :
    follow (r :: rs) v (UInt8.ofNat (k + 128) :: rest) = follow rs (v * 64 + k) rest := by
  have hn : (UInt8.ofNat (k + 128)).toNat = k + 128 := by
    rw [UInt8.toNat_ofNat']
    omega
  rw [follow, if_pos]
  · rw [hn]
    congr 1
    omega
  · simp only [Bool.and_eq_true, decide_eq_true_eq, UInt8.le_iff_toNat_le, hn]
    exact ⟨hlow, hhigh⟩

theorem follow_continuation {rs : List (UInt8 × UInt8)} {k v : Nat} {rest : Bytes} (hk : k < 64) :
    follow (continuation :: rs) v (UInt8.ofNat (k + 128) :: rest) =
      follow rs (v * 64 + k) rest := by
  have h₁ : continuation.1.toNat = 0x80 := rfl
  have h₂ : continuation.2.toNat = 0xbf := rfl
  exact follow_ofNat hk (by omega) (by omega)

theorem utf8EncodeChar_eq (c : Char) :
    String.utf8EncodeChar c =
      if c.toNat ≤ 0x7f then [UInt8.ofNat c.toNat]
      else if c.toNat ≤ 0x7ff then
        [UInt8.ofNat (c.toNat / 64 % 32 + 192), UInt8.ofNat (c.toNat % 64 + 128)]
      else if c.toNat ≤ 0xffff then
        [UInt8.ofNat (c.toNat / 4096 % 16 + 224), UInt8.ofNat (c.toNat / 64 % 64 + 128),
          UInt8.ofNat (c.toNat % 64 + 128)]
      else
        [UInt8.ofNat (c.toNat / 262144 % 8 + 240), UInt8.ofNat (c.toNat / 4096 % 64 + 128),
          UInt8.ofNat (c.toNat / 64 % 64 + 128), UInt8.ofNat (c.toNat % 64 + 128)] := rfl

theorem announced_of_three {n : Nat} (hlow : 0x800 ≤ n) (hhigh : n ≤ 0xffff)
    (hn : n < 0xd800 ∨ 0xdfff < n) :
    ∃ r, announced (UInt8.ofNat (n / 4096 % 16 + 224)) = some (n / 4096, [r, continuation]) ∧
      r.1.toNat ≤ n / 64 % 64 + 128 ∧ n / 64 % 64 + 128 ≤ r.2.toNat := by
  rw [announced_ofNat (by omega), if_neg (by omega), if_neg (by omega), if_neg (by omega)]
  -- Overlong forms and surrogates are what the two narrowed ranges shut out.
  by_cases he : n / 4096 = 0
  · refine ⟨(0xa0, 0xbf), by rw [if_pos (by omega), he], ?_⟩
    show 0xa0 ≤ _ ∧ _ ≤ 0xbf
    omega
  · rw [if_neg (by omega)]
    by_cases hd : n / 4096 = 13
    · refine ⟨(0x80, 0x9f), by rw [if_pos (by omega), hd], ?_⟩
      show 0x80 ≤ _ ∧ _ ≤ 0x9f
      omega
    · have hv : (n / 4096 % 16 + 224) % 16 = n / 4096 := by omega
      refine ⟨continuation, by rw [if_neg (by omega), if_pos (by omega), hv], ?_⟩
      show 0x80 ≤ _ ∧ _ ≤ 0xbf
      omega

theorem announced_of_four {n : Nat} (hlow : 0xffff < n) (hhigh : n < 0x110000) :
    ∃ r, announced (UInt8.ofNat (n / 262144 % 8 + 240)) =
        some (n / 262144, [r, continuation, continuation]) ∧
      r.1.toNat ≤ n / 4096 % 64 + 128 ∧ n / 4096 % 64 + 128 ≤ r.2.toNat := by
  rw [announced_ofNat (by omega), if_neg (by omega), if_neg (by omega), if_neg (by omega),
    if_neg (by omega), if_neg (by omega), if_neg (by omega)]
  -- Overlong forms and values above U+10FFFF are what the two narrowed ranges shut out.
  by_cases he : n / 262144 = 0
  · refine ⟨(0x90, 0xbf), by rw [if_pos (by omega), he], ?_⟩
    show 0x90 ≤ _ ∧ _ ≤ 0xbf
    omega
  · rw [if_neg (by omega)]
    by_cases hf : n / 262144 = 4
    · refine ⟨(0x80, 0x8f), by rw [if_neg (by omega), if_pos (by omega), hf], ?_⟩
      show 0x80 ≤ _ ∧ _ ≤ 0x8f
      omega
    · have hv : (n / 262144 % 8 + 240) % 8 = n / 262144 := by omega
      refine ⟨continuation, by rw [if_pos (by omega), hv], ?_⟩
      show 0x80 ≤ _ ∧ _ ≤ 0xbf
      omega

theorem exists_announced (c : Char) :
    ∃ b bs v asked, String.utf8EncodeChar c = b :: bs ∧ announced b = some (v, asked) ∧
      ∀ rest, follow asked v (bs ++ rest) = (some c.toNat, rest) := by
  have hc : c.toNat < 0xd800 ∨ 0xdfff < c.toNat ∧ c.toNat < 0x110000 := c.valid
  rw [utf8EncodeChar_eq]
  generalize c.toNat = n at hc ⊢
  split
  · next h₁ =>
    refine ⟨_, _, n, [], rfl, ?_, fun rest => rfl⟩
    rw [announced_ofNat (by omega), if_pos (by omega)]
  · next h₁ =>
    split
    · next h₂ =>
      refine ⟨_, _, (n / 64 % 32 + 192) % 32, [continuation], rfl, ?_, fun rest => ?_⟩
      · rw [announced_ofNat (by omega), if_neg (by omega), if_neg (by omega), if_pos (by omega)]
      · have hn : (n / 64 % 32 + 192) % 32 * 64 + n % 64 = n := by omega
        rw [List.cons_append, follow_continuation (by omega), follow, hn, List.nil_append]
    · next h₂ =>
      split
      · next h₃ =>
        obtain ⟨r, hr, hlow, hhigh⟩ := announced_of_three (by omega) h₃ (by omega)
        refine ⟨_, _, _, _, rfl, hr, fun rest => ?_⟩
        have hn : (n / 4096 * 64 + n / 64 % 64) * 64 + n % 64 = n := by omega
        rw [List.cons_append, List.cons_append, follow_ofNat (by omega) hlow hhigh,
          follow_continuation (by omega), follow, hn, List.nil_append]
      · next h₃ =>
        have hn : n < 0x110000 := by omega
        obtain ⟨r, hr, hlow, hhigh⟩ := announced_of_four (Nat.lt_of_not_le h₃) hn
        refine ⟨_, _, _, _, rfl, hr, fun rest => ?_⟩
        have hn : ((n / 262144 * 64 + n / 4096 % 64) * 64 + n / 64 % 64) * 64 + n % 64 = n := by
          omega
        rw [List.cons_append, List.cons_append, List.cons_append,
          follow_ofNat (by omega) hlow hhigh, follow_continuation (by omega),
          follow_continuation (by omega), follow, hn, List.nil_append]

theorem pieces_utf8EncodeChar (c : Char) (rest : Bytes) :
    pieces (String.utf8EncodeChar c ++ rest) = .scalar c :: pieces rest := by
  obtain ⟨b, bs, v, asked, hc, ha, hf⟩ := exists_announced c
  rw [hc, List.cons_append, pieces_of_follow ha (hf rest), Char.ofNat_toNat]

theorem pieces_encode (s : List Char) : pieces (encode s) = s.map .scalar := by
  induction s with
  | nil => rw [encode_nil, pieces, List.map_nil]
  | cons c s ih =>
    show pieces (String.utf8EncodeChar c ++ encode s) = _
    rw [pieces_utf8EncodeChar, ih, List.map_cons]

theorem decode?_encode (s : List Char) : decode? (encode s) = some s := by
  have hs : scalars (encode s) = s.map some := by
    rw [scalars, pieces_encode, List.map_map]
    rfl
  rw [decode?, hs, List.mapM_map]
  exact List.mapM_pure.trans (congrArg some (List.map_id s))

theorem le_of_follow {asked : List (UInt8 × UInt8)} {v n : Nat} {rest t : Bytes}
    (h : follow asked v rest = (some n, t)) : v * 64 ^ asked.length ≤ n := by
  induction asked generalizing v rest with
  | nil =>
    cases h
    simp
  | cons r rs ih =>
    cases rest with
    | nil => cases h
    | cons b rest =>
      rw [follow] at h
      split at h
      · have hle := ih h
        rw [List.length_cons, Nat.pow_succ']
        refine Nat.le_trans ?_ hle
        rw [← Nat.mul_assoc]
        exact Nat.mul_le_mul_right _ (Nat.le_add_right _ _)
      · cases h

/-- The first byte that follows adds at least what the start of its range adds. -/
theorem le_of_follow_cons {r : UInt8 × UInt8} {rs : List (UInt8 × UInt8)} {v n : Nat}
    {rest t : Bytes} (hlow : 0x80 ≤ r.1.toNat) (hhigh : r.2.toNat ≤ 0xbf)
    (h : follow (r :: rs) v rest = (some n, t)) :
    (v * 64 + (r.1.toNat - 0x80)) * 64 ^ rs.length ≤ n := by
  cases rest with
  | nil => cases h
  | cons b rest =>
    rw [follow] at h
    split at h
    · next hb =>
      simp only [Bool.and_eq_true, decide_eq_true_eq, UInt8.le_iff_toNat_le] at hb
      refine Nat.le_trans (Nat.mul_le_mul_right _ ?_) (le_of_follow h)
      omega
    · cases h

/-- A byte that asks for others does not stand for an ASCII character. -/
theorem toNat_of_follow {b : UInt8} {v n : Nat} {asked : List (UInt8 × UInt8)} {rest t : Bytes}
    (ha : announced b = some (v, asked)) (hf : follow asked v rest = (some n, t)) :
    n = b.toNat ∨ 0x80 ≤ n := by
  have hb := b.toNat_lt
  rw [← UInt8.ofNat_toNat (x := b), announced_ofNat hb] at ha
  split_ifs at ha
  · cases ha
    cases hf
    exact .inl rfl
  all_goals
    cases ha
    have hle := le_of_follow_cons (by decide) (by decide) hf
    simp [continuation] at hle
    omega

theorem eq_ofNat_of_follow {b : UInt8} {v n : Nat} {asked : List (UInt8 × UInt8)} {rest : Bytes}
    {c : Char} (hpos : 0 < c.toNat) (hc : c.toNat < 0x80) (ha : announced b = some (v, asked))
    (hn : (follow asked v rest).1 = some n) (h : c = Char.ofNat n) :
    b = UInt8.ofNat c.toNat := by
  have hv : n.isValidChar := by
    by_contra hv
    rw [h, Char.ofNat, dif_neg hv] at hpos
    exact absurd hpos (by decide)
  have htoNat : c.toNat = n := by
    rw [h, Char.ofNat, dif_pos hv]
    rfl
  have hb : n = b.toNat := (toNat_of_follow ha (Prod.ext hn rfl)).resolve_right (by omega)
  rw [htoNat, hb, UInt8.ofNat_toNat]

theorem follow_suffix (asked : List (UInt8 × UInt8)) (v : Nat) (rest : Bytes) :
    (follow asked v rest).2 <:+ rest := by
  induction asked generalizing v rest with
  | nil => exact List.suffix_rfl
  | cons r rs ih =>
    cases rest with
    | nil => exact List.suffix_rfl
    | cons b rest =>
      rw [follow]
      split
      · exact (ih _ rest).trans (List.suffix_cons b rest)
      · exact List.suffix_rfl

theorem mem_of_scalar_mem {c : Char} {bytes : Bytes} (hpos : 0 < c.toNat) (hc : c.toNat < 0x80)
    (h : Piece.scalar c ∈ pieces bytes) : UInt8.ofNat c.toNat ∈ bytes := by
  fun_induction pieces bytes with
  | case1 => cases h
  | case2 b rest ha ih =>
    have hrest := ih ((List.mem_cons.mp h).resolve_left (by simp))
    exact List.mem_cons_of_mem b hrest
  | case3 b rest v asked ha hle n hn ih =>
    rcases List.mem_cons.mp h with h | h
    · rw [← eq_ofNat_of_follow hpos hc ha hn (Piece.scalar.inj h)]
      exact List.mem_cons_self
    · exact List.mem_cons_of_mem b ((follow_suffix asked v rest).subset (ih h))
  | case4 b rest v asked ha hle hn ih =>
    have hrest := ih ((List.mem_cons.mp h).resolve_left (by simp))
    exact List.mem_cons_of_mem b ((follow_suffix asked v rest).subset hrest)

theorem mem_of_mem_decodeLossy {c : Char} {bytes : Bytes} (hpos : 0 < c.toNat)
    (hc : c.toNat < 0x80) (h : c ∈ decodeLossy bytes) : UInt8.ofNat c.toNat ∈ bytes := by
  obtain ⟨x, hx, hxc⟩ := List.mem_map.mp h
  obtain ⟨p, hp, rfl⟩ := List.mem_map.mp hx
  cases p with
  | scalar d =>
    obtain rfl : d = c := hxc
    exact mem_of_scalar_mem hpos hc hp
  | broken bs =>
    obtain rfl : '\ufffd' = c := hxc
    exact absurd hc (by decide)

theorem scalars_of_decode? {bytes : Bytes} {s : List Char} (h : decode? bytes = some s) :
    scalars bytes = s.map some := by
  unfold decode? at h
  generalize scalars bytes = xs at h
  induction xs generalizing s with
  | nil =>
    cases h
    rfl
  | cons x xs ih =>
    cases x with
    | none => simp at h
    | some c =>
      cases hm : xs.mapM id with
      | none => simp [hm] at h
      | some t =>
        obtain rfl : c :: t = s := by simpa [hm] using h
        rw [ih hm, List.map_cons]

/-- A text starts with an ASCII character exactly when its bytes start with the character's. -/
theorem head?_of_decode? {bytes : Bytes} {s : List Char} (h : decode? bytes = some s) {c : Char}
    (hpos : 0 < c.toNat) (hc : c.toNat < 0x80) :
    s.head? = some c ↔ bytes.head? = some (UInt8.ofNat c.toNat) := by
  have hs := scalars_of_decode? h
  cases bytes with
  | nil =>
    rw [scalars, pieces, List.map_nil, eq_comm, List.map_eq_nil_iff] at hs
    simp [hs]
  | cons b rest =>
    rw [scalars, pieces] at hs
    cases ha : announced b with
    | none =>
      rw [ha] at hs
      cases s <;> simp [Piece.char?] at hs
    | some va =>
      obtain ⟨v, asked⟩ := va
      rw [ha] at hs
      cases hn : (follow asked v rest).1 with
      | none =>
        simp only [hn] at hs
        cases s <;> simp [Piece.char?] at hs
      | some n =>
        simp only [hn] at hs
        cases s with
        | nil => simp at hs
        | cons d s =>
          obtain rfl : Char.ofNat n = d := by
            simpa [Piece.char?] using (List.cons.inj hs).1
          rw [List.head?_cons, List.head?_cons, Option.some.injEq, Option.some.injEq]
          constructor
          · rintro rfl
            exact eq_ofNat_of_follow hpos hc ha hn rfl
          · rintro rfl
            rw [announced_ofNat (by omega), if_pos hc] at ha
            cases ha
            cases hn
            exact Char.ofNat_toNat c

end IncludeMap.Text
