import IncludeMap.Proofs.Document.Grammar
import IncludeMap.Proofs.Document.RoundTrip

/-! # Documents in canonical form

The rule sets that some document gives are those without an end of a module inside a module, and two
rule sets have one document when they settle to the same rules. So a document that is read and
written again, or written, read and written, is in its canonical form from then on.
-/
namespace IncludeMap.Document
open Text Json

variable {r s : RuleSet} {d : String}

theorem exists_entries_of_parse (h : parse d = .ok r) : ∃ es, rulesOf es = .ok r := by
  cases hes : listOf entryReader (withoutComments d.toList) with
  | error f => cases (parse_of_listOf_error hes).symm.trans h
  | ok es => exact ⟨es, (parse_of_listOf hes).symm.trans h⟩

theorem parse_render_eq_ok_self_iff :
    parse (render r) = .ok r ↔ ∀ x ∈ r.includes, ¬ HoldsModuleEnd x.module := by
  rw [parse_render, ← map_settle_eq_self_iff, Except.ok.injEq]
  constructor
  · intro h
    exact congrArg RuleSet.includes h
  · intro h
    rw [h]

theorem exists_parse_eq_ok_iff :
    (∃ d, parse d = .ok r) ↔ ∀ x ∈ r.includes, ¬ HoldsModuleEnd x.module := by
  constructor
  · rintro ⟨d, h⟩
    obtain ⟨es, hes⟩ := exists_entries_of_parse h
    exact (rulesOf_eq_ok_iff.mp hes).2.2
  · intro h
    exact ⟨render r, parse_render_eq_ok_self_iff.mpr h⟩

theorem ofIncludeRule_settle (x : IncludeRule) :
    Entry.ofIncludeRule (settle x) = Entry.ofIncludeRule x := by
  rw [Entry.ofIncludeRule, pattern_settle, header_settle]
  rfl

theorem settle_settle (x : IncludeRule) : settle (settle x) = settle x :=
  settle_of_not_holds (not_holdsModuleEnd_settle x)

/-- The entries of a rule set do not tell its rules from those that they settle to. -/
theorem entriesOf_settled (r : RuleSet) :
    entriesOf ⟨r.symbols, r.includes.map settle⟩ = entriesOf r := by
  have hi : (r.includes.map settle).map Entry.ofIncludeRule =
      r.includes.map Entry.ofIncludeRule := by
    rw [List.map_map]
    exact List.map_congr_left fun x _ => ofIncludeRule_settle x
  rw [entriesOf, hi]
  rfl

theorem render_eq_render_iff :
    render r = render s ↔
      r.symbols = s.symbols ∧ r.includes.map settle = s.includes.map settle := by
  constructor
  · intro h
    have hparse := parse_render r
    rw [h, parse_render s] at hparse
    have heq := Except.ok.inj hparse
    exact ⟨(congrArg RuleSet.symbols heq).symm, (congrArg RuleSet.includes heq).symm⟩
  · rintro ⟨hs, hi⟩
    have hentries : entriesOf r = entriesOf s := by
      rw [← entriesOf_settled r, hs, hi, entriesOf_settled s]
    rw [render, hentries]
    rfl

/-- What a document gives is given back by its canonical form, and a rule set that is not given back
by its document still has the document of the rules that are. -/
theorem parse_render_canonical :
    (∀ d r, parse d = .ok r → parse (render r) = .ok r) ∧
      ∀ r, ∃ s, parse (render r) = .ok s ∧ render s = render r := by
  constructor
  · intro d r h
    exact parse_render_eq_ok_self_iff.mpr (exists_parse_eq_ok_iff.mp ⟨d, h⟩)
  · intro r
    refine ⟨_, parse_render r, render_eq_render_iff.mpr ⟨rfl, ?_⟩⟩
    rw [List.map_map]
    exact List.map_congr_left fun x _ => settle_settle x

/-- The canonical form of a document with comments and entries in another order. -/
theorem parse_render_mixed :
    parse mixedDocument = .ok ⟨[⟨"A", ">"⟩], [⟨"m", "a/)?b", "A"⟩]⟩ ∧
      parse (render ⟨[⟨"A", ">"⟩], [⟨"m", "a/)?b", "A"⟩]⟩) =
        .ok ⟨[⟨"A", ">"⟩], [⟨"m", "a/)?b", "A"⟩]⟩ := by
  have h : parse mixedDocument = .ok ⟨[⟨"A", ">"⟩], [⟨"m", "a/)?b", "A"⟩]⟩ := by decide +kernel
  exact ⟨h, parse_render_canonical.1 mixedDocument _ h⟩

end IncludeMap.Document
