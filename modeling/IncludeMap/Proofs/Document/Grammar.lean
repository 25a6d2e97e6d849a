import IncludeMap.Document.Read
import IncludeMap.Proofs.Document.Entry

/-! # Which entries are read

An entry that can be read is that of one rule, and of one rule only when the module holds no end of
a module. So the rules that are read are known from the entries of either kind, in their order, and
what is wrong is told by the first entry that is that of no rule.
-/
namespace IncludeMap.Document
open Text Json

theorem pattern_inj {m m' i i' : String} (hm : ¬ HoldsModuleEnd m) (hm' : ¬ HoldsModuleEnd m')
    (h : pattern m i = pattern m' i') : m = m' ∧ i = i' := by
  have hs : splitPattern? (pattern m i) = some (m, i) := splitPattern?_eq_some_iff.mpr ⟨rfl, hm⟩
  have hs' : splitPattern? (pattern m i) = some (m', i') := splitPattern?_eq_some_iff.mpr ⟨h, hm'⟩
  cases hs.symm.trans hs'
  exact ⟨rfl, rfl⟩

theorem exists_pattern_eq (m i : String) :
    ∃ m' i', pattern m i = pattern m' i' ∧ ¬ HoldsModuleEnd m' :=
  ⟨_, _, (pattern_settle ⟨m, i, ""⟩).symm, not_holdsModuleEnd_settle ⟨m, i, ""⟩⟩

theorem existsUnique_pattern (m i : String) :
    ∃! x : String × String, pattern m i = pattern x.1 x.2 ∧ ¬ HoldsModuleEnd x.1 := by
  obtain ⟨m', i', hp, hm⟩ := exists_pattern_eq m i
  refine ⟨(m', i'), ⟨hp, hm⟩, ?_⟩
  rintro ⟨a, b⟩ ⟨hab, ha⟩
  obtain ⟨rfl, rfl⟩ := pattern_inj ha hm (hab.symm.trans hp)
  rfl

theorem headerOf?_eq_none_iff {target : String} :
    headerOf? target = none ↔ ∀ header, target ≠ angled header := by
  constructor
  · intro h header ht
    rw [headerOf?_eq_some_iff.mpr ht] at h
    cases h
  · intro h
    cases hh : headerOf? target with
    | none => rfl
    | some header => exact absurd (headerOf?_eq_some_iff.mp hh) (h header)

theorem splitPattern?_eq_none_iff {subject : String} :
    splitPattern? subject = none ↔ ∀ m i, subject ≠ pattern m i := by
  constructor
  · rintro h m i rfl
    obtain ⟨m', i', hp, hm⟩ := exists_pattern_eq m i
    rw [splitPattern?_eq_some_iff.mpr ⟨hp, hm⟩] at h
    cases h
  · intro h
    cases hs : splitPattern? subject with
    | none => rfl
    | some x => exact absurd (splitPattern?_eq_some_iff.mp hs).1 (h x.1 x.2)

namespace Entry

/-- The entry has the shape of a rule's entry. -/
structure IsRule (e : Entry) : Prop where
  marked : e.subjectMark = "private" ∧ e.targetMark = "public"
  angled : ∃ header, e.target = angled header
  pattern : e.kind = .include → ∃ module included, e.subject = pattern module included

/-- What is wrong with an entry: its marks, else its target, else its subject. -/
inductive Refused (e : Entry) : Problem → Prop where
  | marks (hm : ¬ (e.subjectMark = "private" ∧ e.targetMark = "public")) :
    Refused e (.parse "Expected \"private\" and \"public\" markers"
      (some (e.subjectMark ++ " -> " ++ e.targetMark)))
  | target (hm : e.subjectMark = "private" ∧ e.targetMark = "public")
    (ht : ∀ header, e.target ≠ Document.angled header) :
    Refused e (.parse "Target header must be angle-bracketed" (some e.target))
  | subject (hm : e.subjectMark = "private" ∧ e.targetMark = "public")
    (ht : ∃ header, e.target = Document.angled header) (hk : e.kind = .include)
    (hs : ∀ module included, e.subject ≠ Document.pattern module included) :
    Refused e (.parse "Unrecognised include pattern" (some e.subject))

variable {e : Entry} {p : Problem}

theorem isRule_or_refused (e : Entry) : e.IsRule ∨ ∃ p, e.Refused p := by
  by_cases hm : e.subjectMark = "private" ∧ e.targetMark = "public"
  · by_cases ht : ∃ header, e.target = Document.angled header
    · by_cases hs : e.kind = .include → ∃ m i, e.subject = Document.pattern m i
      · exact .inl ⟨hm, ht, hs⟩
      · push Not at hs
        exact .inr ⟨_, .subject hm ht hs.1 hs.2⟩
    · push Not at ht
      exact .inr ⟨_, .target hm ht⟩
  · exact .inr ⟨_, .marks hm⟩

theorem rule_of_refused (h : e.Refused p) : e.rule = .error p := by
  have hmarked : e.subjectMark = "private" ∧ e.targetMark = "public" →
      ¬ (e.subjectMark ≠ privateMark ∨ e.targetMark ≠ publicMark) := fun hm h =>
    h.elim (fun h => h hm.1) (fun h => h hm.2)
  rw [rule]
  cases h with
  | marks hm =>
    have hor : e.subjectMark ≠ privateMark ∨ e.targetMark ≠ publicMark := not_and_or.mp hm
    rw [if_pos hor]
    rfl
  | target hm ht => rw [if_neg (hmarked hm), headerOf?_eq_none_iff.mpr ht]
  | subject hm ht hk hs =>
    obtain ⟨header, ht⟩ := ht
    rw [if_neg (hmarked hm), headerOf?_eq_some_iff.mpr ht]
    simp only [hk, splitPattern?_eq_none_iff.mpr hs]

theorem IsRule.eq_or (h : e.IsRule) :
    (∃ x, e = ofSymbolRule x ∧ e.rule = .ok ⟨[x], []⟩) ∨
      ∃ x, e = ofIncludeRule x ∧ ¬ HoldsModuleEnd x.module ∧ e.rule = .ok ⟨[], [x]⟩ := by
  obtain ⟨kind, subject, subjectMark, target, targetMark⟩ := e
  obtain ⟨⟨hm, hm'⟩, ⟨header, ht⟩, hs⟩ := h
  rcases kind with _ | _
  · left
    have he : (⟨.symbol, subject, subjectMark, target, targetMark⟩ : Entry) =
        ofSymbolRule ⟨subject, header⟩ := Entry.mk.injEq .. ▸ ⟨rfl, rfl, hm, ht, hm'⟩
    exact ⟨⟨subject, header⟩, he, he ▸ rule_ofSymbolRule _⟩
  · right
    obtain ⟨m, i, hs⟩ := hs rfl
    obtain ⟨m', i', hp, hx⟩ := exists_pattern_eq m i
    have he : (⟨.include, subject, subjectMark, target, targetMark⟩ : Entry) =
        ofIncludeRule ⟨m', i', header⟩ := Entry.mk.injEq .. ▸ ⟨rfl, hs.trans hp, hm, ht, hm'⟩
    have hr := rule_ofIncludeRule ⟨m', i', header⟩
    rw [settle_of_not_holds hx, ← he] at hr
    exact ⟨⟨m', i', header⟩, he, hx, hr⟩

theorem rule_eq_error_iff : e.rule = .error p ↔ e.Refused p := by
  refine ⟨fun h => ?_, rule_of_refused⟩
  rcases isRule_or_refused e with he | ⟨q, hq⟩
  · rcases he.eq_or with ⟨x, -, hx⟩ | ⟨x, -, -, hx⟩
    · cases hx.symm.trans h
    · cases hx.symm.trans h
  · cases (rule_of_refused hq).symm.trans h
    exact hq

theorem exists_rule_eq_ok_iff : (∃ r, e.rule = .ok r) ↔ e.IsRule := by
  constructor
  · rintro ⟨r, hr⟩
    refine (isRule_or_refused e).resolve_right ?_
    rintro ⟨p, hp⟩
    cases (rule_of_refused hp).symm.trans hr
  · intro he
    rcases he.eq_or with ⟨x, -, hx⟩ | ⟨x, -, -, hx⟩
    · exact ⟨_, hx⟩
    · exact ⟨_, hx⟩

end Entry

section Entries

variable {e : Entry} {es : List Entry} {r : RuleSet} {p : Problem}

theorem rulesOf_cons_eq_ok_iff :
    rulesOf (e :: es) = .ok r ↔ ∃ a b, e.rule = .ok a ∧ rulesOf es = .ok b ∧ r = a ++ b := by
  rw [rulesOf]
  cases e.rule with
  | error q => simp
  | ok a =>
    cases rulesOf es with
    | error q => simp
    | ok b => simp [eq_comm]

theorem rulesOf_cons_eq_error_iff :
    rulesOf (e :: es) = .error p ↔
      e.rule = .error p ∨ (∃ a, e.rule = .ok a) ∧ rulesOf es = .error p := by
  rw [rulesOf]
  cases e.rule with
  | error q => simp
  | ok a =>
    cases rulesOf es with
    | error q => simp
    | ok b => simp

theorem exists_rulesOf_eq_ok_iff : (∃ r, rulesOf es = .ok r) ↔ ∀ e ∈ es, e.IsRule := by
  induction es with
  | nil => simp [rulesOf]
  | cons e es ih =>
    rw [List.forall_mem_cons, ← ih, ← Entry.exists_rule_eq_ok_iff]
    simp only [rulesOf_cons_eq_ok_iff]
    constructor
    · rintro ⟨r, a, b, ha, hb, -⟩
      exact ⟨⟨a, ha⟩, ⟨b, hb⟩⟩
    · rintro ⟨⟨a, ha⟩, ⟨b, hb⟩⟩
      exact ⟨a ++ b, a, b, ha, hb, rfl⟩

theorem rulesOf_eq_error_iff :
    rulesOf es = .error p ↔
      ∃ before e after, es = before ++ e :: after ∧ (∀ b ∈ before, b.IsRule) ∧ e.Refused p := by
  induction es with
  | nil => simp [rulesOf]
  | cons e es ih =>
    rw [rulesOf_cons_eq_error_iff, Entry.exists_rule_eq_ok_iff, Entry.rule_eq_error_iff, ih]
    constructor
    · rintro (h | ⟨he, before, f, after, rfl, hb, hf⟩)
      · exact ⟨[], e, es, rfl, by simp, h⟩
      · exact ⟨e :: before, f, after, rfl, List.forall_mem_cons.mpr ⟨he, hb⟩, hf⟩
    · rintro ⟨before, f, after, heq, hb, hf⟩
      cases before with
      | nil =>
        cases heq
        exact .inl hf
      | cons b before =>
        cases heq
        obtain ⟨he, hb⟩ := List.forall_mem_cons.mp hb
        exact .inr ⟨he, before, f, after, rfl, hb, hf⟩

theorem rulesOf_eq_ok_iff :
    rulesOf es = .ok r ↔
      es.filter (·.kind = .symbol) = r.symbols.map Entry.ofSymbolRule ∧
        es.filter (·.kind = .include) = r.includes.map Entry.ofIncludeRule ∧
        ∀ x ∈ r.includes, ¬ HoldsModuleEnd x.module := by
  induction es generalizing r with
  | nil =>
    obtain ⟨ss, is⟩ := r
    simp +contextual [rulesOf, RuleSet.empty, eq_comm]
  | cons e es ih =>
    rw [rulesOf_cons_eq_ok_iff]
    constructor
    · rintro ⟨a, b, ha, hb, rfl⟩
      obtain ⟨hs, hi, hm⟩ := ih.mp hb
      rcases (Entry.exists_rule_eq_ok_iff.mp ⟨a, ha⟩).eq_or with ⟨x, rfl, hx⟩ | ⟨x, rfl, hxm, hx⟩
      · cases hx.symm.trans ha
        have hk : (Entry.ofSymbolRule x).kind = .symbol := rfl
        exact ⟨by simp [hk, hs], by simp [hk, hi], by simpa using hm⟩
      · cases hx.symm.trans ha
        have hk : (Entry.ofIncludeRule x).kind = .include := rfl
        exact ⟨by simp [hk, hs], by simp [hk, hi], by simpa [hxm] using hm⟩
    · rintro ⟨hs, hi, hm⟩
      obtain ⟨ss, is⟩ := r
      rcases hk : e.kind with _ | _
      · rw [List.filter_cons_of_pos (by simp [hk])] at hs
        rw [List.filter_cons_of_neg (by simp [hk])] at hi
        obtain ⟨x, ss, rfl, rfl, hrest⟩ := List.map_eq_cons_iff.mp hs.symm
        exact ⟨_, ⟨ss, is⟩, Entry.rule_ofSymbolRule x, ih.mpr ⟨hrest.symm, hi, hm⟩, rfl⟩
      · rw [List.filter_cons_of_neg (by simp [hk])] at hs
        rw [List.filter_cons_of_pos (by simp [hk])] at hi
        obtain ⟨x, is, rfl, rfl, hrest⟩ := List.map_eq_cons_iff.mp hi.symm
        obtain ⟨hx, hm⟩ := List.forall_mem_cons.mp hm
        have hr := Entry.rule_ofIncludeRule x
        rw [settle_of_not_holds hx] at hr
        exact ⟨_, ⟨ss, is⟩, hr, ih.mpr ⟨hs, hrest.symm, hm⟩, rfl⟩

end Entries

variable {document : String}

theorem parse_of_listOf {es : List Entry}
    (h : listOf entryReader (withoutComments document.toList) = .ok es) :
    parse document = rulesOf es := by
  simp only [parse, readEntries, h]

theorem parse_of_listOf_error {f : Failure}
    (h : listOf entryReader (withoutComments document.toList) = .error f) :
    parse document = .error (.ofJson (f.message (withoutComments document.toList))) := by
  simp only [parse, readEntries, h]

/-- A document is read exactly when each of its entries has the shape of a rule's entry, and gives
the rules whose entries these are. Else the first bad entry is told, but only if the whole list can
be read. -/
theorem parse_grammar (document : String) :
    (∀ f, listOf entryReader (withoutComments document.toList) = .error f →
      ∃ cause, cause = f.message (withoutComments document.toList) ∧
        parse document =
          .error (.serialization ("JSON serialization failed: " ++ cause) (some "JSON") cause)) ∧
    ∀ es, listOf entryReader (withoutComments document.toList) = .ok es →
      ((∃ r, parse document = .ok r) ↔ ∀ e ∈ es, e.IsRule) ∧
      (∀ r, parse document = .ok r ↔
        es.filter (·.kind = .symbol) = r.symbols.map Entry.ofSymbolRule ∧
          es.filter (·.kind = .include) = r.includes.map Entry.ofIncludeRule ∧
          ∀ x ∈ r.includes, ¬ HoldsModuleEnd x.module) ∧
      (∀ p, parse document = .error p ↔
        ∃ before e after, es = before ++ e :: after ∧ (∀ b ∈ before, b.IsRule) ∧ e.Refused p) ∧
      ∀ e ∈ es, e.IsRule → e.kind = .include →
        ∃! x : String × String, e.subject = pattern x.1 x.2 ∧ ¬ HoldsModuleEnd x.1 := by
  constructor
  · intro f hf
    exact ⟨_, rfl, parse_of_listOf_error hf⟩
  · intro es hes
    simp only [parse_of_listOf hes]
    refine ⟨exists_rulesOf_eq_ok_iff, fun r => rulesOf_eq_ok_iff, fun p => rulesOf_eq_error_iff, ?_⟩
    intro e _ he hk
    obtain ⟨m, i, hs⟩ := he.pattern hk
    rw [hs]
    exact existsUnique_pattern m i

/-- An include rule before a symbol rule, with comments, an escape and an end of a module in a
name. -/
def mixedDocument : String :=
  "# rules\n[\x7b\"include\": " ++
    "[\"@[\\\"<](m/)?a/)?b\\\\.h[\\\">]\", \"private\", \"<A>\", \"public\"]\x7d,\n" ++
    " # more\n \x7b\"symbol\":[\"\\u0041\",\"private\",\"<>>\",\"public\"]\x7d]"

/-- An entry with wrong marks before one without brackets. -/
def faultyDocument : String :=
  "[\x7b\"symbol\": [\"a\", \"public\", \"a\", \"private\"]\x7d," ++
    " \x7b\"symbol\": [\"b\", \"private\", \"b\", \"public\"]\x7d]"

/-- The rules are read whatever the order of their kinds, and the first bad entry is told. -/
theorem parse_mixed_and_faulty :
    parse mixedDocument = .ok ⟨[⟨"A", ">"⟩], [⟨"m", "a/)?b", "A"⟩]⟩ ∧
      parse faultyDocument = .error
        (.parse "Expected \"private\" and \"public\" markers" (some "public -> private")) := by
  have hmixed : listOf entryReader (withoutComments mixedDocument.toList) =
      .ok [.ofIncludeRule ⟨"m", "a/)?b", "A"⟩, .ofSymbolRule ⟨"A", ">"⟩] := by decide +kernel
  have hfaulty : listOf entryReader (withoutComments faultyDocument.toList) =
      .ok [⟨.symbol, "a", "public", "a", "private"⟩, ⟨.symbol, "b", "private", "b", "public"⟩] := by
    decide +kernel
  obtain ⟨-, hm, -⟩ := (parse_grammar mixedDocument).2 _ hmixed
  obtain ⟨-, -, hf, -⟩ := (parse_grammar faultyDocument).2 _ hfaulty
  constructor
  · refine (hm _).mpr ⟨rfl, rfl, ?_⟩
    intro x hx
    rw [List.mem_singleton.mp hx, HoldsModuleEnd]
    decide
  · have hmarks : "public -> private" = "public" ++ " -> " ++ "private" := by decide
    rw [hmarks]
    exact (hf _).mpr ⟨[], _, _, rfl, by simp, .marks (by decide)⟩

end IncludeMap.Document
