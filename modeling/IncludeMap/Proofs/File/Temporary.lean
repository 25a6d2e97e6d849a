import IncludeMap.File.Replace
import IncludeMap.Proofs.File.Path
import Mathlib.Data.List.Nodup

/-! # Temporary names

Temporary names are names of entries, and no two of them are the same. So among one more of them
than a folder has entries there is one that the folder does not use.
-/
namespace IncludeMap.File
open Text
namespace FileSystem

def temporaryText (i : Nat) : List Char :=
  ".tmp".toList ++ (List.replicate (6 - (Nat.toDigits 10 i).length) '0' ++ Nat.toDigits 10 i)

theorem temporaryName_eq (i : Nat) : temporaryName i = encode (temporaryText i) := by
  rw [temporaryText, ← List.append_assoc]
  rfl

theorem ascii_of_mem_temporaryText {i : Nat} {c : Char} (h : c ∈ temporaryText i) :
    c.val ≤ 127 ∧ c.val.toUInt8 ≠ slash := by
  rcases List.mem_append.mp h with h | h
  · have hchars : ".tmp".toList = ['.', 't', 'm', 'p'] := rfl
    simp only [hchars, List.mem_cons, List.not_mem_nil, or_false] at h
    rcases h with rfl | rfl | rfl | rfl
    all_goals exact ⟨by decide, by decide⟩
  · have hd : c.isDigit = true := by
      rcases List.mem_append.mp h with h | h
      · rw [List.eq_of_mem_replicate h]
        decide
      · exact Nat.isDigit_of_mem_toDigits (by decide) (by decide) h
    simp only [Char.isDigit, Bool.and_eq_true, decide_eq_true_eq] at hd
    have h₁ := UInt32.le_iff_toNat_le.mp hd.1
    have h₂ := UInt32.le_iff_toNat_le.mp hd.2
    refine ⟨UInt32.le_iff_toNat_le.mpr (Nat.le_trans h₂ (by decide)), fun hs => ?_⟩
    have ht := congrArg UInt8.toNat hs
    rw [UInt32.toNat_toUInt8] at ht
    simp [slash] at h₁ h₂ ht
    omega

theorem slash_not_mem_temporaryName (i : Nat) : slash ∉ temporaryName i := by
  intro h
  rw [temporaryName_eq] at h
  obtain ⟨c, hc, hs⟩ := List.mem_flatMap.mp h
  obtain ⟨hle, hne⟩ := ascii_of_mem_temporaryText hc
  rw [utf8EncodeChar_of_le hle, List.mem_singleton] at hs
  exact hne hs.symm

theorem isName_temporaryName (i : Nat) : isName (temporaryName i) = true := by
  have hfront : temporaryName i = [0x2e, 0x74, 0x6d, 0x70] ++
      encode (List.replicate (6 - (Nat.toDigits 10 i).length) '0' ++ Nat.toDigits 10 i) := by
    rw [temporaryName_eq, temporaryText, encode_append]
    rfl
  refine isName_iff.mpr ⟨?_, ?_, ?_, slash_not_mem_temporaryName i⟩
  · rw [hfront]
    exact List.cons_ne_nil _ _
  · rw [hfront]
    simp
  · rw [hfront]
    simp

theorem temporaryName_injective {i j : Nat} (h : temporaryName i = temporaryName j) : i = j := by
  rw [temporaryName_eq, temporaryName_eq] at h
  have hd := congrArg (fun ds => Nat.ofDigitChars 10 ds 0)
    (List.append_cancel_left (encode_injective h))
  simpa [Nat.ofDigitChars_append] using hd

/-- Names that are used leave one of the temporary names, when these are more. -/
theorem exists_temporaryName_not_mem (used : List Name) :
    ∃ i ≤ used.length, temporaryName i ∉ used := by
  by_contra h
  have hall : ∀ i ≤ used.length, temporaryName i ∈ used := by
    intro i hi
    by_contra hu
    exact h ⟨i, hi, hu⟩
  have hnodup : ((List.range (used.length + 1)).map temporaryName).Nodup :=
    List.Nodup.map (fun i j => temporaryName_injective) List.nodup_range
  have hsub : (List.range (used.length + 1)).map temporaryName ⊆ used := by
    intro n hn
    obtain ⟨i, hi, rfl⟩ := List.mem_map.mp hn
    exact hall i (Nat.le_of_lt_succ (List.mem_range.mp hi))
  have hle := List.Nodup.length_le_of_subset hnodup hsub
  rw [List.length_map, List.length_range] at hle
  exact Nat.not_succ_le_self _ hle

theorem exists_freshName_eq (fs : FileSystem) (folder : Location) (p : Path) :
    ∃ i, fs.freshName folder p = temporaryName i ∧
      temporaryName i ∉ p.fileName?.toList ++ fs.names folder := by
  let used := p.fileName?.toList ++ fs.names folder
  have hsome : (((List.range (used.length + 1)).map temporaryName).find? fun n =>
      !used.contains n).isSome = true := by
    obtain ⟨i, hi, hu⟩ := exists_temporaryName_not_mem used
    rw [List.find?_isSome]
    exact ⟨temporaryName i,
      List.mem_map_of_mem (List.mem_range.mpr (Nat.lt_succ_of_le hi)), by simpa using hu⟩
  obtain ⟨n, hn⟩ := Option.isSome_iff_exists.mp hsome
  obtain ⟨i, -, rfl⟩ := List.mem_map.mp (List.mem_of_find?_eq_some hn)
  have hu : temporaryName i ∉ used := by simpa only [Bool.not_eq_true', List.contains_eq_mem,
    decide_eq_false_iff_not] using List.find?_some hn
  refine ⟨i, ?_, hu⟩
  show Option.getD (List.find? _ _) _ = _
  rw [hn, Option.getD_some]

/-- A fresh name is the name of an entry that the folder does not have, and not the one of the
path. -/
theorem freshName_spec (fs : FileSystem) (folder : Location) (p : Path) :
    isName (fs.freshName folder p) = true ∧ p.fileName? ≠ some (fs.freshName folder p) ∧
      fs.node? (folder ++ [fs.freshName folder p]) = none := by
  obtain ⟨i, hi, hu⟩ := fs.exists_freshName_eq folder p
  rw [List.mem_append, not_or, mem_names_iff] at hu
  rw [hi]
  refine ⟨isName_temporaryName i, fun hp => hu.1 (by simp [hp]), ?_⟩
  cases hn : fs.node? (folder ++ [temporaryName i]) with
  | none => rfl
  | some node => exact absurd ⟨node, hn⟩ hu.2

end FileSystem

end IncludeMap.File
