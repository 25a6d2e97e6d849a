import IncludeMap.Generate
import Mathlib

/-! # Which configurations are acceptable

The parts of a configuration are its two lists of exclusions and then its overrides, one by one. A
configuration is acceptable when no part holds a blank name, and otherwise the first part that does
is told, whatever follows it.
-/
namespace IncludeMap
open Text

namespace Config

/-- The name holds a character that is not blank. -/
def HoldsText (name : String) : Prop := ∃ c ∈ name.toList, isBlank c = false

/-- A part of a configuration: what it is called in a problem, and the names that it holds. -/
structure Part where
  field : String
  names : List String

/-- The parts in the order in which they are checked. -/
def parts (c : Config) : List Part :=
  ⟨"excluded_classes", c.excludedClasses⟩ :: ⟨"excluded_suffixes", c.excludedSuffixes⟩ ::
    (c.extraSymbols.mapIdx
        (fun i r => ⟨"extra_symbol_overrides[" ++ Nat.repr i ++ "]", [r.symbol, r.header]⟩) ++
      c.extraIncludes.mapIdx fun i r =>
        ⟨"extra_include_overrides[" ++ Nat.repr i ++ "]", [r.module, r.included, r.header]⟩)

namespace Part

def holdsBlank (p : Part) : Bool := p.names.any fun n => isBlankText n.toList

def problem (p : Part) : Problem :=
  .config (p.field ++ " must not contain empty names") (some p.field)

/-- What is told about a row of parts: the first one that holds a blank name. -/
def verdict (ps : List Part) : Except Problem Unit :=
  match ps.find? holdsBlank with
  | none => .ok ()
  | some p => .error p.problem

variable {p : Part} {ps qs before after : List Part} {e : Problem}

theorem isBlankText_eq_true_iff {name : String} :
    isBlankText name.toList = true ↔ ¬ HoldsText name := by
  rw [HoldsText, ← isBlankText_eq_false_iff, Bool.not_eq_false]

theorem holdsBlank_iff : p.holdsBlank = true ↔ ∃ n ∈ p.names, ¬ HoldsText n := by
  simp only [holdsBlank, List.any_eq_true, isBlankText_eq_true_iff]

theorem holdsBlank_eq_false_iff : p.holdsBlank = false ↔ ∀ n ∈ p.names, HoldsText n := by
  rw [← Bool.not_eq_true, holdsBlank_iff]
  push Not
  rfl

theorem verdict_eq_ok_iff : verdict ps = .ok () ↔ ∀ p ∈ ps, ∀ n ∈ p.names, HoldsText n := by
  simp only [← holdsBlank_eq_false_iff]
  rw [verdict]
  cases h : ps.find? holdsBlank with
  | none => simpa using h
  | some p =>
    have hp := List.find?_some h
    have hmem := List.mem_of_find?_eq_some h
    constructor
    · intro hv
      cases hv
    · intro hall
      cases hp.symm.trans (hall p hmem)

theorem verdict_eq_error_iff :
    verdict ps = .error e ↔
      ∃ before p after, ps = before ++ p :: after ∧ (∀ b ∈ before, ∀ n ∈ b.names, HoldsText n) ∧
        (∃ n ∈ p.names, ¬ HoldsText n) ∧ e = p.problem := by
  simp only [← holdsBlank_eq_false_iff, ← holdsBlank_iff]
  rw [verdict]
  constructor
  · intro h
    cases hf : ps.find? holdsBlank with
    | none =>
      rw [hf] at h
      cases h
    | some p =>
      rw [hf] at h
      cases h
      obtain ⟨hp, before, after, rfl, hbefore⟩ := List.find?_eq_some_iff_append.mp hf
      exact ⟨before, p, after, rfl, by simpa using hbefore, hp, rfl⟩
  · rintro ⟨before, p, after, rfl, hbefore, hp, rfl⟩
    have hf : (before ++ p :: after).find? holdsBlank = some p :=
      List.find?_eq_some_iff_append.mpr ⟨hp, before, after, rfl, by simpa using hbefore⟩
    rw [hf]

theorem verdict_append_cons (before : List Part) (hp : p.holdsBlank = true) (after : List Part) :
    verdict (before ++ p :: after) = verdict (before ++ [p]) := by
  rw [verdict, verdict, List.find?_append, List.find?_append, List.find?_cons_of_pos hp,
    List.find?_cons_of_pos hp]

theorem verdict_append (ps qs : List Part) :
    verdict (ps ++ qs) = verdict ps >>= fun _ => verdict qs := by
  rw [verdict, verdict, List.find?_append]
  cases ps.find? holdsBlank with
  | none => rfl
  | some p => rfl

theorem checkNames_eq_verdict (field : String) (names : List String) :
    checkNames field names = verdict [⟨field, names⟩] := by
  rw [checkNames, verdict, List.find?_singleton]
  show (if holdsBlank ⟨field, names⟩ = true then _ else _) = _
  cases holdsBlank ⟨field, names⟩ with
  | false => rfl
  | true => rfl

/-- The entries of a list are checked like parts that are numbered on from `i`. -/
theorem checkEntries_eq_verdict {α : Type} (field : String) (names : α → List String) (i : Nat)
    (xs : List α) :
    checkEntries field i (xs.map names) =
      verdict (xs.mapIdx fun k x => ⟨entryName field (i + k), names x⟩) := by
  induction xs generalizing i with
  | nil => rfl
  | cons x xs ih =>
    have hshift : (fun k x => Part.mk (entryName field (i + (k + 1))) (names x)) =
        fun k x => ⟨entryName field (i + 1 + k), names x⟩ := by
      funext k x
      rw [Nat.add_assoc, Nat.add_comm 1 k]
    rw [List.map_cons, checkEntries, ih, List.mapIdx_cons, hshift, ← List.singleton_append,
      verdict_append, Nat.add_zero, ← checkNames_eq_verdict]
    cases checkNames (entryName field i) (names x) with
    | ok u => rfl
    | error e => rfl

end Part

theorem entryName_zero_add (field : String) (k : Nat) :
    entryName field (0 + k) = field ++ "[" ++ Nat.repr k ++ "]" := by
  rw [Nat.zero_add, entryName]

theorem validate_eq_verdict (c : Config) : c.validate = Part.verdict c.parts := by
  have hsplit : ∀ (p q : Part) (ps : List Part), p :: q :: ps = [p] ++ ([q] ++ ps) :=
    fun p q ps => rfl
  rw [validate, parts, hsplit, Part.verdict_append, Part.verdict_append, Part.verdict_append,
    Part.checkNames_eq_verdict, Part.checkNames_eq_verdict, Part.checkEntries_eq_verdict,
    Part.checkEntries_eq_verdict]
  simp only [entryName_zero_add]
  rfl

theorem forall_mapIdx_iff {α : Type} {field : Nat → String} {names : α → List String}
    {xs : List α} :
    (∀ p ∈ xs.mapIdx fun i x => Part.mk (field i) (names x), ∀ n ∈ p.names, HoldsText n) ↔
      ∀ x ∈ xs, ∀ n ∈ names x, HoldsText n := by
  constructor
  · intro h x hx
    obtain ⟨i, hi, rfl⟩ := List.getElem_of_mem hx
    exact h _ (List.mem_mapIdx.mpr ⟨i, hi, rfl⟩)
  · intro h p hp
    obtain ⟨i, hi, rfl⟩ := List.mem_mapIdx.mp hp
    exact h _ (List.getElem_mem hi)

theorem forall_parts_iff {c : Config} :
    (∀ p ∈ c.parts, ∀ n ∈ p.names, HoldsText n) ↔
      (∀ n ∈ c.excludedClasses, HoldsText n) ∧ (∀ n ∈ c.excludedSuffixes, HoldsText n) ∧
        (∀ r ∈ c.extraSymbols, HoldsText r.symbol ∧ HoldsText r.header) ∧
        ∀ r ∈ c.extraIncludes,
          HoldsText r.module ∧ HoldsText r.included ∧ HoldsText r.header := by
  simp only [parts, List.forall_mem_cons, List.forall_mem_append, forall_mapIdx_iff,
    List.not_mem_nil, false_implies, implies_true, and_true]

/-- A configuration is acceptable exactly when each name in each of its fields holds more than
blanks. Otherwise the first part that holds another name is told, whatever follows it. A generator
takes the acceptable configurations, and refuses the others with the same problem. -/
theorem validate_first (c : Config) :
    (c.validate = .ok () ↔
      (∀ n ∈ c.excludedClasses, HoldsText n) ∧ (∀ n ∈ c.excludedSuffixes, HoldsText n) ∧
        (∀ r ∈ c.extraSymbols, HoldsText r.symbol ∧ HoldsText r.header) ∧
        ∀ r ∈ c.extraIncludes,
          HoldsText r.module ∧ HoldsText r.included ∧ HoldsText r.header) ∧
      (∀ e, c.validate = .error e ↔
        ∃ before p after, c.parts = before ++ p :: after ∧
          (∀ b ∈ before, ∀ n ∈ b.names, HoldsText n) ∧ (∃ n ∈ p.names, ¬ HoldsText n) ∧
          e = .config (p.field ++ " must not contain empty names") (some p.field)) ∧
      (∀ (d : Config) before p after after', c.parts = before ++ p :: after →
        d.parts = before ++ p :: after' → (∃ n ∈ p.names, ¬ HoldsText n) →
        d.validate = c.validate) ∧
      (c.validate = .ok () → ∃ g, Generator.ofConfig c = .ok g ∧ g.config = c) ∧
      ∀ e, Generator.ofConfig c = .error e ↔ c.validate = .error e := by
  refine ⟨?_, ?_, ?_, ?_, ?_⟩
  · rw [validate_eq_verdict, Part.verdict_eq_ok_iff, forall_parts_iff]
  · intro e
    rw [validate_eq_verdict, Part.verdict_eq_error_iff]
    rfl
  · intro d before p after after' hc hd hp
    have hp := Part.holdsBlank_iff.mpr hp
    rw [validate_eq_verdict, validate_eq_verdict, hc, hd,
      Part.verdict_append_cons before hp after, Part.verdict_append_cons before hp after']
  · intro h
    exact ⟨⟨c, h⟩, Generator.ofConfig_config ⟨c, h⟩, rfl⟩
  · intro e
    exact Generator.ofConfig_eq_error_iff

/-- The header of the second symbol override is a wide blank, and an include override holds no text
at all. -/
def blankHeader : Config :=
  ⟨["a b"], [".h"], [⟨"a", "\t a"⟩, ⟨"b", "\u3000 "⟩], [⟨"", "", ""⟩]⟩

/-- The second symbol override is told, with or without an include override behind it. -/
theorem validate_blankHeader :
    blankHeader.validate = .error (.config "extra_symbol_overrides[1] must not contain empty names"
        (some "extra_symbol_overrides[1]")) ∧
      { blankHeader with extraIncludes := [] }.validate = blankHeader.validate ∧
      ∃ g, Generator.ofConfig { blankHeader with extraSymbols := [], extraIncludes := [] } =
        .ok g := by
  have hblank : ¬ HoldsText "\u3000 " := by simp [HoldsText, isBlank, blankRanges]
  have hbefore : ∀ b ∈ [Part.mk "excluded_classes" ["a b"], ⟨"excluded_suffixes", [".h"]⟩,
      ⟨"extra_symbol_overrides[0]", ["a", "\t a"]⟩], ∀ n ∈ b.names, HoldsText n := by
    simp [HoldsText, isBlank, blankRanges]
  have hparts : blankHeader.parts = [⟨"excluded_classes", ["a b"]⟩, ⟨"excluded_suffixes", [".h"]⟩,
      ⟨"extra_symbol_overrides[0]", ["a", "\t a"]⟩] ++
      ⟨"extra_symbol_overrides[1]", ["b", "\u3000 "]⟩ ::
        [⟨"extra_include_overrides[0]", ["", "", ""]⟩] := by rfl
  obtain ⟨-, herror, hlater, -, -⟩ := validate_first blankHeader
  obtain ⟨hok, -, -, hgenerator, -⟩ :=
    validate_first { blankHeader with extraSymbols := [], extraIncludes := [] }
  refine ⟨?_, ?_, ?_⟩
  · apply (herror _).mpr
    exact ⟨_, _, _, hparts, hbefore, ⟨"\u3000 ", by simp, hblank⟩, rfl⟩
  · exact hlater _ _ _ _ [] hparts rfl ⟨"\u3000 ", by simp, hblank⟩
  · have hvalid := hok.mpr (by simp [HoldsText, isBlank, blankRanges, blankHeader])
    obtain ⟨g, hg, -⟩ := hgenerator hvalid
    exact ⟨g, hg⟩

end Config

end IncludeMap
