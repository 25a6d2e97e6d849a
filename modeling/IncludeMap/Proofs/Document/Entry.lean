import IncludeMap.Document.Entry
import IncludeMap.Proofs.Text.Separator

/-! # Entries and rules

The pattern of an entry names one module and one private header, with no end of a module inside the
module. So the entry of an include rule gives the rule back when its module holds no such end, and
else the rule whose module stops at the first one.
-/
namespace IncludeMap.Document
open Text

/-- The text holds the text that ends modules in patterns. -/
def HoldsModuleEnd (s : String) : Prop := moduleEnd.toList <:+: s.toList

theorem headerOf?_eq_some_iff {target header : String} :
    headerOf? target = some header ↔ target = angled header := by
  rw [headerOf?, Option.map_eq_some_iff]
  constructor
  · rintro ⟨h, hb, rfl⟩
    rw [between?_eq_some_iff] at hb
    rw [← String.toList_inj, hb]
    simp [angled]
  · rintro rfl
    refine ⟨header.toList, between?_eq_some_iff.mpr ?_, String.ofList_toList⟩
    simp [angled]

theorem splitOnce_moduleEnd {s before rest : List Char} :
    splitOnce moduleEnd.toList s = some (before, rest) ↔
      s = before ++ (moduleEnd.toList ++ rest) ∧ ¬ moduleEnd.toList <:+: before := by
  have hf : '/' ∉ [')', '?'] := by decide
  exact splitOnce_eq_some_iff hf

theorem toList_pattern (module included : String) :
    (pattern module included).toList =
      patternStart.toList ++ (module.toList ++ (moduleEnd.toList ++
        (included.toList ++ patternEnd.toList))) := by
  simp [pattern]

/-- A pattern is that of one module without an end of a module inside, and one private header. -/
theorem splitPattern?_eq_some_iff {subject module included : String} :
    splitPattern? subject = some (module, included) ↔
      subject = pattern module included ∧ ¬ HoldsModuleEnd module := by
  rw [← String.toList_inj, toList_pattern, splitPattern?]
  constructor
  · intro h
    split at h
    · cases h
    · next rest hstart =>
      split at h
      · cases h
      · next m r hsplit =>
        obtain ⟨i, hend, he⟩ := Option.map_eq_some_iff.mp h
        rw [List.isPrefixOf?_eq_some_iff_append_eq] at hstart
        rw [List.isSuffixOf?_eq_some_iff_append_eq] at hend
        obtain ⟨hrest, hm⟩ := splitOnce_moduleEnd.mp hsplit
        cases he
        rw [String.toList_ofList, String.toList_ofList, hend, ← hrest, hstart, HoldsModuleEnd,
          String.toList_ofList]
        exact ⟨rfl, hm⟩
  · rintro ⟨hs, hm⟩
    have hstart := List.isPrefixOf?_eq_some_iff_append_eq.mpr hs.symm
    have hend : patternEnd.toList.isSuffixOf? (included.toList ++ patternEnd.toList) =
        some included.toList := List.isSuffixOf?_eq_some_iff_append_eq.mpr rfl
    have hsplit : splitOnce moduleEnd.toList (module.toList ++ (moduleEnd.toList ++
        (included.toList ++ patternEnd.toList))) =
          some (module.toList, included.toList ++ patternEnd.toList) :=
      splitOnce_moduleEnd.mpr ⟨rfl, hm⟩
    simp only [hstart, hsplit, hend, Option.map_some, String.ofList_toList]

/-- The rule with the same pattern whose module stops at the first end of a module. -/
def settle (r : IncludeRule) : IncludeRule :=
  match splitOnce moduleEnd.toList r.module.toList with
  | none => r
  | some (module, rest) =>
    ⟨String.ofList module, String.ofList rest ++ moduleEnd ++ r.included, r.header⟩

theorem settle_of_holds {r : IncludeRule} (h : HoldsModuleEnd r.module) :
    ∃ module rest : String, r.module = module ++ moduleEnd ++ rest ∧ ¬ HoldsModuleEnd module ∧
      settle r = ⟨module, rest ++ moduleEnd ++ r.included, r.header⟩ := by
  cases hs : splitOnce moduleEnd.toList r.module.toList with
  | none => exact absurd h (splitOnce_eq_none_iff.mp hs)
  | some p =>
    obtain ⟨module, rest⟩ := p
    obtain ⟨hr, hm⟩ := splitOnce_moduleEnd.mp hs
    refine ⟨String.ofList module, String.ofList rest, ?_, ?_, by rw [settle, hs]⟩
    · rw [← String.toList_inj, hr]
      simp
    · rwa [HoldsModuleEnd, String.toList_ofList]

theorem settle_of_not_holds {r : IncludeRule} (h : ¬ HoldsModuleEnd r.module) : settle r = r := by
  rw [settle, splitOnce_eq_none_iff.mpr h]

theorem pattern_settle (r : IncludeRule) :
    pattern (settle r).module (settle r).included = pattern r.module r.included := by
  by_cases h : HoldsModuleEnd r.module
  · obtain ⟨module, rest, hr, -, hs⟩ := settle_of_holds h
    rw [hs, hr, ← String.toList_inj]
    simp [pattern]
  · rw [settle_of_not_holds h]

theorem not_holdsModuleEnd_settle (r : IncludeRule) : ¬ HoldsModuleEnd (settle r).module := by
  by_cases h : HoldsModuleEnd r.module
  · obtain ⟨module, rest, -, hm, hs⟩ := settle_of_holds h
    rwa [hs]
  · rwa [settle_of_not_holds h]

@[simp] theorem header_settle (r : IncludeRule) : (settle r).header = r.header := by
  unfold settle
  split <;> rfl

theorem settle_eq_self_iff {r : IncludeRule} : settle r = r ↔ ¬ HoldsModuleEnd r.module := by
  refine ⟨fun h => ?_, settle_of_not_holds⟩
  rw [← h]
  exact not_holdsModuleEnd_settle r

namespace Entry

theorem rule_ofSymbolRule (r : SymbolRule) : (ofSymbolRule r).rule = .ok ⟨[r], []⟩ := by
  rw [rule, if_neg (by simp [ofSymbolRule])]
  simp only [ofSymbolRule, headerOf?_eq_some_iff.mpr rfl]

/-- The entry of an include rule gives back the rule that it settles to. -/
theorem rule_ofIncludeRule (r : IncludeRule) :
    (ofIncludeRule r).rule = .ok ⟨[], [settle r]⟩ := by
  have hs : splitPattern? (pattern r.module r.included) =
      some ((settle r).module, (settle r).included) :=
    splitPattern?_eq_some_iff.mpr ⟨(pattern_settle r).symm, not_holdsModuleEnd_settle r⟩
  rw [rule, if_neg (by simp [ofIncludeRule])]
  simp only [ofIncludeRule, headerOf?_eq_some_iff.mpr rfl, hs]
  rw [← header_settle r]

end Entry

theorem rulesOf_append {es fs : List Entry} {r s : RuleSet} (hr : rulesOf es = .ok r)
    (hs : rulesOf fs = .ok s) : rulesOf (es ++ fs) = .ok (r ++ s) := by
  induction es generalizing r with
  | nil =>
    cases hr
    exact hs
  | cons e es ih =>
    rw [rulesOf] at hr
    split at hr
    · cases hr
    · next a ha =>
      split at hr
      · cases hr
      · next b hb =>
        cases hr
        rw [List.cons_append, rulesOf, ha, ih hb, RuleSet.append_assoc]

theorem rulesOf_symbols (rules : List SymbolRule) :
    rulesOf (rules.map Entry.ofSymbolRule) = .ok ⟨rules, []⟩ := by
  induction rules with
  | nil => rfl
  | cons r rules ih =>
    rw [List.map_cons, rulesOf, Entry.rule_ofSymbolRule, ih]
    rfl

theorem rulesOf_includes (rules : List IncludeRule) :
    rulesOf (rules.map Entry.ofIncludeRule) = .ok ⟨[], rules.map settle⟩ := by
  induction rules with
  | nil => rfl
  | cons r rules ih =>
    rw [List.map_cons, rulesOf, Entry.rule_ofIncludeRule, ih]
    rfl

/-- The entries of a rule set give back its rules, with the modules settled. -/
theorem rulesOf_entriesOf (r : RuleSet) :
    rulesOf (entriesOf r) = .ok ⟨r.symbols, r.includes.map settle⟩ := by
  rw [entriesOf, rulesOf_append (rulesOf_symbols r.symbols) (rulesOf_includes r.includes)]
  show Except.ok (RuleSet.append _ _) = _
  simp [RuleSet.append]

theorem map_settle_eq_self_iff {rules : List IncludeRule} :
    rules.map settle = rules ↔ ∀ r ∈ rules, ¬ HoldsModuleEnd r.module := by
  constructor
  · intro h r hr
    rw [← List.map_id rules, List.map_map] at h
    exact settle_eq_self_iff.mp (List.map_inj_left.mp h r hr)
  · intro h
    calc rules.map settle = rules.map id :=
          List.map_congr_left fun r hr => settle_of_not_holds (h r hr)
      _ = rules := List.map_id rules

theorem length_entriesOf (r : RuleSet) :
    (entriesOf r).length = r.symbols.length + r.includes.length := by
  rw [entriesOf, List.length_append, List.length_map, List.length_map]

theorem countP_symbol_entriesOf (r : RuleSet) :
    (entriesOf r).countP (fun e => e.kind = .symbol) = r.symbols.length := by
  rw [entriesOf, List.countP_append, List.countP_map, List.countP_map]
  simp [Function.comp_def, Entry.ofSymbolRule, Entry.ofIncludeRule]

theorem countP_include_entriesOf (r : RuleSet) :
    (entriesOf r).countP (fun e => e.kind = .include) = r.includes.length := by
  rw [entriesOf, List.countP_append, List.countP_map, List.countP_map]
  simp [Function.comp_def, Entry.ofSymbolRule, Entry.ofIncludeRule]

end IncludeMap.Document
