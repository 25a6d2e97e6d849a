import IncludeMap.Document.Literal
import IncludeMap.Json.Literal
import Mathlib.Data.List.Basic
import Mathlib.Data.List.TakeWhile

/-! # Text literals, character by character

Cutting a text into runs does not show in its literal: each character contributes a text of its own.
That text consists of printable ASCII characters, and a reader of literals takes it for the
character.
-/
namespace IncludeMap.Document
open Text Json

/-- The text of a character in a literal. -/
def charText (c : Char) : List Char :=
  if isEscaped c then escape c else if isPlain c then [c] else (units c).flatMap unitEscape

/-- A run written character by character. -/
def spell (run : List Char) : List Char :=
  run.flatMap fun c => if isPlain c then [c] else (units c).flatMap unitEscape

theorem spell_eq_flatMap {run : List Char} (h : ∀ c ∈ run, isEscaped c = false) :
    spell run = run.flatMap charText :=
  List.flatMap_congr fun c hc => by
    have hc : ¬ isEscaped c = true := Bool.eq_false_iff.mp (h c hc)
    rw [charText, if_neg hc]

theorem spell_eq_self {run : List Char} (hplain : run.all isPlain = true) : spell run = run := by
  rw [List.all_eq_true] at hplain
  have hcopy : spell run = run.flatMap fun c => [c] :=
    List.flatMap_congr fun c hc => if_pos (hplain c hc)
  rw [hcopy, List.flatMap_singleton']

theorem writeRun_eq_flatMap {run : List Char} (h : ∀ c ∈ run, isEscaped c = false) :
    writeRun run = run.flatMap charText := by
  rw [← spell_eq_flatMap h, writeRun]
  split
  · next hplain => exact (spell_eq_self hplain).symm
  · rfl

theorem writeRuns_eq_flatMap (s : List Char) : writeRuns s = s.flatMap charText := by
  have hfront : ∀ c ∈ s.takeWhile (!isEscaped ·), isEscaped c = false := fun c hc => by
    simpa using List.mem_takeWhile_imp hc
  rw [writeRuns]
  split
  · next hd =>
    rw [writeRun_eq_flatMap hfront, List.takeWhile_eq_self_iff.mpr]
    exact List.dropWhile_eq_nil_iff.mp hd
  · next c rest hd =>
    have hc : isEscaped c = true := by
      have := List.head?_dropWhile_not (!isEscaped ·) s
      simpa [hd] using this
    have hcc : escape c = charText c := by rw [charText, if_pos hc]
    calc writeRun (s.takeWhile (!isEscaped ·)) ++ escape c ++ writeRuns rest
        = (s.takeWhile (!isEscaped ·) ++ c :: rest).flatMap charText := by
          rw [writeRun_eq_flatMap hfront, writeRuns_eq_flatMap rest, hcc, List.flatMap_append,
            List.flatMap_cons, List.append_assoc]
      _ = s.flatMap charText := by rw [← hd, List.takeWhile_append_dropWhile]
termination_by s.length
decreasing_by
  have := (List.dropWhile_sublist (l := s) (!isEscaped ·)).length_le
  rename_i hd _ _
  rw [hd, List.length_cons] at this
  omega

theorem literal_eq_flatMap (s : String) :
    literal s = '"' :: (s.toList.flatMap charText ++ ['"']) := by
  rw [literal, writeRuns_eq_flatMap, List.cons_append]

def isPrintable (c : Char) : Bool := 0x20 ≤ c.toNat && c.toNat < 0x7f

theorem isPrintable_digitChar {d : Nat} (h : d < 16) : isPrintable d.digitChar = true := by
  revert d
  decide

theorem isPrintable_of_mem_unitEscape {u : Nat} {x : Char} (h : x ∈ unitEscape u) :
    isPrintable x = true := by
  rcases List.mem_append.mp h with h | h
  · simp only [List.mem_cons, List.not_mem_nil, or_false] at h
    rcases h with rfl | rfl <;> decide
  · obtain ⟨d, hd, rfl⟩ := mem_paddedHex h
    exact isPrintable_digitChar hd

theorem isPrintable_of_mem_escape {c x : Char} (h : x ∈ escape c) : isPrintable x = true := by
  unfold escape at h
  split at h
  · next hc =>
    simp only [List.mem_cons, List.not_mem_nil, or_false] at h
    rcases h with rfl | rfl
    · decide
    · rcases hc with rfl | rfl <;> decide
  · iterate 5
      split at h
      · simp only [List.mem_cons, List.not_mem_nil, or_false] at h
        rcases h with rfl | rfl <;> decide
    exact isPrintable_of_mem_unitEscape h

theorem isPrintable_of_mem_charText {c x : Char} (h : x ∈ charText c) : isPrintable x = true := by
  unfold charText at h
  split at h
  · exact isPrintable_of_mem_escape h
  · next he =>
    split at h
    · next hp =>
      rw [List.mem_singleton.mp h]
      simp only [isEscaped, isPlain, isPrintable, Bool.or_eq_true, Bool.and_eq_true,
        decide_eq_true_eq] at he hp ⊢
      omega
    · obtain ⟨u, -, hu⟩ := List.mem_flatMap.mp h
      exact isPrintable_of_mem_unitEscape hu

theorem isPrintable_of_mem_literal {s : String} {x : Char} (h : x ∈ literal s) :
    isPrintable x = true := by
  rw [literal_eq_flatMap] at h
  simp only [List.mem_cons, List.mem_append, List.not_mem_nil, or_false] at h
  rcases h with rfl | h | rfl
  · decide
  · obtain ⟨c, -, hc⟩ := List.mem_flatMap.mp h
    exact isPrintable_of_mem_charText hc
  · decide

end IncludeMap.Document

namespace IncludeMap.Json
open Text Document

theorem length_le_weight (s : List Char) : s.length ≤ weight s := by
  induction s with
  | nil => exact Nat.le_refl 0
  | cons c cs ih =>
    have := c.utf8Size_pos
    rw [List.length_cons, weight]
    omega

theorem readUnit_paddedHex {u : Nat} (hu : u < 0x10000) (t : List Char) :
    readUnit (paddedHex 4 u ++ t) = .ok (u, t) := by
  have hdigits : (hexDigits u).length ≤ 4 :=
    (Nat.length_toDigits_le_iff (by decide) (by decide)).mpr hu
  have hl := length_paddedHex hdigits
  have ht : (paddedHex 4 u ++ t).take 4 = paddedHex 4 u := List.take_left' hl
  have hd : (paddedHex 4 u ++ t).drop 4 = t := List.drop_left' hl
  have hw := length_le_weight (paddedHex 4 u)
  rw [readUnit, ht, hd, if_neg (by omega), hexNumber?_paddedHex]
  simp only [hl, if_pos]

theorem readEscape_units (c : Char) (t : List Char) :
    ∃ s, (units c).flatMap unitEscape ++ t = '\\' :: s ∧ readEscape s = .ok (c, t) := by
  by_cases hc : c.toNat < 0x10000
  · refine ⟨'u' :: (paddedHex 4 c.toNat ++ t), by simp [units, hc, unitEscape], ?_⟩
    rw [readEscape, if_pos rfl, readUnits, readUnit_paddedHex hc]
    simp [not_isLowUnit_toNat, not_isHighUnit_toNat, Char.ofNat_toNat]
  · obtain ⟨high, low, hu, hh, hl, hp⟩ := units_of_le (Nat.not_lt.mp hc)
    have hhigh : high < 0x10000 := lt_of_mem_units (c := c) (by simp [hu])
    have hlow : low < 0x10000 := lt_of_mem_units (c := c) (by simp [hu])
    have hn : isLowUnit high = false := by
      simp only [isHighUnit, isLowUnit, Bool.and_eq_true, Bool.and_eq_false_iff,
        decide_eq_true_eq, decide_eq_false_iff_not] at hh ⊢
      omega
    refine ⟨'u' :: (paddedHex 4 high ++ '\\' :: 'u' :: (paddedHex 4 low ++ t)),
      by simp [hu, unitEscape], ?_⟩
    rw [readEscape, if_pos rfl, readUnits, readUnit_paddedHex hhigh]
    simp [hn, hh, readLowUnit, readUnit_paddedHex hlow, hl, hp]

theorem readBody_of_escape {s t xs rest : List Char} {c : Char} (he : readEscape s = .ok (c, t))
    (h : readBody t = .ok (xs, rest)) : readBody ('\\' :: s) = .ok (c :: xs, rest) := by
  rw [readBody, if_neg (by decide), if_pos rfl]
  split
  · next e he' =>
    rw [he] at he'
    cases he'
  · next x t' he' =>
    rw [he] at he'
    cases he'
    rw [h]

theorem readBody_of_plain {t xs rest : List Char} {c : Char} (hc : isEscaped c = false)
    (h : readBody t = .ok (xs, rest)) : readBody (c :: t) = .ok (c :: xs, rest) := by
  simp only [isEscaped, Bool.or_eq_false_iff, decide_eq_false_iff_not] at hc
  rw [readBody, if_neg hc.1.1, if_neg hc.1.2, if_neg hc.2, h]

theorem readEscape_escape {c : Char} (hc : isEscaped c = true) (t : List Char) :
    ∃ s, escape c ++ t = '\\' :: s ∧ readEscape s = .ok (c, t) := by
  unfold escape
  split
  · next h => rcases h with rfl | rfl <;> exact ⟨_, rfl, rfl⟩
  · iterate 5
      split
      · next h => subst h; exact ⟨_, rfl, rfl⟩
    have hu : (units c).flatMap unitEscape = unitEscape c.toNat := by
      have : c.toNat < 0x10000 := by
        simp only [isEscaped, Bool.or_eq_true, decide_eq_true_eq] at hc
        grind
      simp [units, this]
    rw [← hu]
    exact readEscape_units c t

theorem readBody_charText {c : Char} {t xs rest : List Char} (h : readBody t = .ok (xs, rest)) :
    readBody (charText c ++ t) = .ok (c :: xs, rest) := by
  unfold charText
  split
  · next hc =>
    obtain ⟨s, hs, he⟩ := readEscape_escape hc t
    rw [hs]
    exact readBody_of_escape he h
  · next hc =>
    split
    · exact readBody_of_plain (Bool.eq_false_iff.mpr hc) h
    · obtain ⟨s, hs, he⟩ := readEscape_units c t
      rw [hs]
      exact readBody_of_escape he h

/-- Reading a literal from behind its first quote on gives the text that it was written for. -/
theorem readBody_writeRuns (s t : List Char) :
    readBody (writeRuns s ++ '"' :: t) = .ok (s, t) := by
  rw [writeRuns_eq_flatMap]
  induction s with
  | nil => rw [List.flatMap_nil, List.nil_append, readBody, if_pos rfl]
  | cons c s ih =>
    rw [List.flatMap_cons, List.append_assoc]
    exact readBody_charText ih

end IncludeMap.Json
