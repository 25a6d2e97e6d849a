import IncludeMap.Proofs.Document.Reading

/-! # The written form of a character

A literal has one form, which can be told character by character. It does not show how its text was
cut into runs, nor which runs were copied as they are, and a reader gives the text back.
-/
namespace IncludeMap.Text

theorem hexDigits_of_lt {n : Nat} (hn : n < 16) : hexDigits n = [n.digitChar] := by
  rw [hexDigits, Nat.toDigits_eq_if (by decide), if_pos hn]

theorem paddedHex_one {n : Nat} (hn : n < 16) : paddedHex 1 n = [n.digitChar] := by
  rw [paddedHex, hexDigits_of_lt hn]
  rfl

theorem paddedHex_succ (width n : Nat) :
    paddedHex (width + 2) n = paddedHex (width + 1) (n / 16) ++ [(n % 16).digitChar] := by
  by_cases hn : n < 16
  · have hzero : n / 16 = 0 := by omega
    have hmod : n % 16 = n := by omega
    have hd₀ : hexDigits 0 = ['0'] := rfl
    have hwidth : width + 2 - 1 = width + 1 := rfl
    simp only [paddedHex, hexDigits_of_lt hn, hzero, hd₀, hmod, List.length_singleton,
      Nat.add_sub_cancel, hwidth, List.replicate_succ']
  · have hd : hexDigits n = hexDigits (n / 16) ++ [(n % 16).digitChar] := by
      rw [hexDigits, Nat.toDigits_eq_if (by decide), if_neg hn]
      rfl
    have hwidth : width + 2 - ((hexDigits (n / 16)).length + 1) =
        width + 1 - (hexDigits (n / 16)).length := by omega
    rw [paddedHex, hd, paddedHex, List.length_append, List.length_singleton, ← List.append_assoc,
      hwidth]

end IncludeMap.Text

namespace IncludeMap.Document
open Text Json

def unitText (u : Nat) : List Char :=
  ['\\', 'u', (u / 0x1000).digitChar, (u / 0x100 % 16).digitChar, (u / 0x10 % 16).digitChar,
    (u % 16).digitChar]

/-- What a character contributes to a literal. -/
def written (c : Char) : List Char :=
  if c = '"' then ['\\', '"']
  else if c = '\\' then ['\\', '\\']
  else if c = '\x08' then ['\\', 'b']
  else if c = '\t' then ['\\', 't']
  else if c = '\n' then ['\\', 'n']
  else if c = '\x0c' then ['\\', 'f']
  else if c = '\r' then ['\\', 'r']
  else if c.toNat < 0x20 then
    ['\\', 'u', '0', '0', (c.toNat / 16).digitChar, (c.toNat % 16).digitChar]
  else if c.toNat < 0x7f then [c]
  else if c.toNat < 0x10000 then unitText c.toNat
  else
    unitText (0xd800 + (c.toNat - 0x10000) / 0x400) ++
      unitText (0xdc00 + (c.toNat - 0x10000) % 0x400)

/-- The text is cut somehow into runs and characters with an escape of their own. A run can always
be spelled; one of printable ASCII characters can be copied, too. -/
inductive WrittenInParts : List Char → List Char → Prop where
  | nothing : WrittenInParts [] []
  | escape {c : Char} {s w : List Char} (hc : isEscaped c = true) (h : WrittenInParts s w) :
    WrittenInParts (c :: s) (escape c ++ w)
  | copy {run s w : List Char} (hrun : ∀ c ∈ run, isEscaped c = false)
    (hplain : run.all isPlain = true) (h : WrittenInParts s w) :
    WrittenInParts (run ++ s) (run ++ w)
  | spell {run s w : List Char} (hrun : ∀ c ∈ run, isEscaped c = false)
    (h : WrittenInParts s w) : WrittenInParts (run ++ s) (spell run ++ w)

section Character

theorem unitEscape_eq {u : Nat} (hu : u < 0x10000) : unitEscape u = unitText u := by
  have h₁ : u / 16 / 16 = u / 0x100 := by omega
  have h₂ : u / 16 / 16 / 16 = u / 0x1000 := by omega
  rw [unitEscape, paddedHex_succ, paddedHex_succ, paddedHex_succ, h₂, h₁,
    paddedHex_one (by omega)]
  rfl

theorem escape_eq_written {c : Char} (hc : isEscaped c = true) : escape c = written c := by
  unfold escape written
  split
  · next h => rcases h with rfl | rfl <;> rfl
  · next h =>
    rw [not_or] at h
    have hlow : c.toNat < 0x20 := by
      simpa [isEscaped, h.1, h.2] using hc
    have hhigh : c.toNat / 0x1000 = 0 ∧ c.toNat / 0x100 % 16 = 0 ∧
        c.toNat / 0x10 % 16 = c.toNat / 16 := by omega
    have hunit : unitEscape c.toNat =
        ['\\', 'u', '0', '0', (c.toNat / 16).digitChar, (c.toNat % 16).digitChar] := by
      rw [unitEscape_eq (by omega), unitText, hhigh.1, hhigh.2.1, hhigh.2.2]
      rfl
    rw [if_neg h.1, if_neg h.2, if_pos hlow, hunit]

theorem flatMap_unitEscape_units (c : Char) :
    (units c).flatMap unitEscape =
      if c.toNat < 0x10000 then unitText c.toNat
      else
        unitText (0xd800 + (c.toNat - 0x10000) / 0x400) ++
          unitText (0xdc00 + (c.toNat - 0x10000) % 0x400) := by
  have hr := toNat_range c
  rw [units]
  split
  · next h => rw [List.flatMap_singleton, unitEscape_eq h]
  · next h =>
    rw [List.flatMap_cons, List.flatMap_singleton, unitEscape_eq (by omega),
      unitEscape_eq (by omega)]

theorem written_of_not_isEscaped {c : Char} (hc : isEscaped c = false) :
    written c = if isPlain c then [c] else (units c).flatMap unitEscape := by
  simp only [isEscaped, Bool.or_eq_false_iff, decide_eq_false_iff_not] at hc
  have hne : ∀ d : Char, d.toNat < 0x20 → c ≠ d := by
    rintro d hd rfl
    exact hc.2 hd
  rw [written, if_neg hc.1.1, if_neg hc.1.2, if_neg (hne _ (by decide)), if_neg (hne _ (by decide)),
    if_neg (hne _ (by decide)), if_neg (hne _ (by decide)), if_neg (hne _ (by decide)), if_neg hc.2,
    flatMap_unitEscape_units]
  simp only [isPlain, decide_eq_true_eq]

theorem charText_eq_written : charText = written := by
  funext c
  rw [charText]
  split
  · next hc => exact escape_eq_written hc
  · next hc => exact (written_of_not_isEscaped (Bool.eq_false_iff.mpr hc)).symm

end Character

section Parts

theorem writtenInParts_flatMap (s : List Char) : WrittenInParts s (s.flatMap charText) := by
  induction s with
  | nil => exact .nothing
  | cons c s ih =>
    rw [List.flatMap_cons]
    cases hc : isEscaped c with
    | true =>
      rw [charText, if_pos hc]
      exact .escape hc ih
    | false =>
      have hrun : ∀ d ∈ [c], isEscaped d = false := by simp [hc]
      rw [← List.flatMap_singleton charText c, ← spell_eq_flatMap hrun]
      exact .spell hrun ih

theorem writtenInParts_iff {s w : List Char} : WrittenInParts s w ↔ w = s.flatMap charText := by
  constructor
  · intro h
    induction h with
    | nothing => rfl
    | escape hc _ ih => rw [List.flatMap_cons, charText, if_pos hc, ih]
    | copy hrun hplain _ ih =>
      rw [List.flatMap_append, ← spell_eq_flatMap hrun, spell_eq_self hplain, ih]
    | spell hrun _ ih => rw [List.flatMap_append, ← spell_eq_flatMap hrun, ih]
  · rintro rfl
    exact writtenInParts_flatMap s

end Parts

/-- A literal stands between quotes and has the written form of each of its characters, however the
text is cut into runs. It consists of printable ASCII characters and is read as the text. -/
theorem literal_written (s : String) :
    literal s = '"' :: (s.toList.flatMap written ++ ['"']) ∧
      (∀ w, WrittenInParts s.toList w ↔ literal s = '"' :: (w ++ ['"'])) ∧
      (∀ c ∈ literal s, 0x20 ≤ c.toNat ∧ c.toNat ≤ 0x7e) ∧
      ∀ rest, readText (literal s ++ rest) = .ok (s.toList, rest) := by
  refine ⟨charText_eq_written ▸ literal_eq_flatMap s, fun w => ?_, fun c hc => ?_,
    readText_literal s⟩
  · rw [writtenInParts_iff, literal_eq_flatMap, List.cons.injEq, List.append_left_inj, eq_comm]
    simp
  · have hp := isPrintable_of_mem_literal hc
    simp only [isPrintable, Bool.and_eq_true, decide_eq_true_eq] at hp
    omega

/-- On both sides of each border of the table. -/
example : ['\x1f', ' ', '~', '\x7f', '\uffff', Char.ofNat 0x10000].flatMap written =
    "\\u001f ~\\u007f\\uffff\\ud800\\udc00".toList := by decide

end IncludeMap.Document
