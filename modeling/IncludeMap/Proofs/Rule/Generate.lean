import IncludeMap.Proofs.Document.Canonical
import IncludeMap.Proofs.File.Rollback
import IncludeMap.Proofs.Rule.Build
import IncludeMap.Proofs.Text.Utf8

/-! # Generating a mapping

A generation either fails, and then the file system is as it was, or it writes the document of the
rules for the tree. The module of a scanned header is the name of a folder, which holds no slash and
so no end of a module, whatever bytes it consists of. So the rules of a scan are always read back,
and only the configuration can hold a rule that is not.
-/
namespace IncludeMap
open File Text Document

theorem File.Path.slash_not_mem_of_fileName? {p : Path} {n : Name} (h : p.fileName? = some n) :
    slash ∉ n := by
  have hmem : n ∈ p.backwards := by
    rw [Path.fileName?] at h
    split at h
    · cases h
    · next s _ hb =>
      split at h
      · cases h
      · rw [hb, ← Option.some.inj h]
        exact List.mem_cons_self
  obtain ⟨dropped, hd, -⟩ := Path.trimSegments_spec (segments p.bytes).reverse
  have hreverse : n ∈ (segments p.bytes).reverse := by
    rw [hd]
    exact List.mem_append_right dropped hmem
  exact not_mem_of_mem_segments (List.mem_reverse.mp hreverse)

namespace Header

theorem slash_not_mem_nameText {n : Name} (h : slash ∉ n) : '/' ∉ (nameText n).toList := by
  intro hc
  rw [nameText, String.toList_ofList] at hc
  exact h (mem_of_mem_decodeLossy (by decide) (by decide) hc)

theorem slash_not_mem_moduleName (h : Header) : '/' ∉ h.moduleName.toList := by
  rw [moduleName]
  split
  · next n hn =>
    obtain ⟨p, -, hp⟩ := Option.bind_eq_some_iff.mp hn
    exact slash_not_mem_nameText (Path.slash_not_mem_of_fileName? hp)
  · exact List.not_mem_nil

theorem not_holdsModuleEnd_moduleName (h : Header) : ¬ HoldsModuleEnd h.moduleName := by
  intro hm
  have hslash : '/' ∈ moduleEnd.toList := by decide
  exact h.slash_not_mem_moduleName (hm.subset hslash)

theorem not_holdsModuleEnd_of_mem_includeRules {fs : FileSystem} {h : Header} {i : IncludeRule}
    (hi : i ∈ h.includeRules fs) : ¬ HoldsModuleEnd i.module := by
  obtain ⟨included, -, rfl⟩ := List.mem_map.mp hi
  exact h.not_holdsModuleEnd_moduleName

end Header

namespace Generator

variable {g : Generator} {fs : FileSystem} {root output : Path} {c : Catalog} {r : RuleSet}
  {e : Problem}

def rulesGiven (g : Generator) (fs : FileSystem) (c : Catalog) : RuleSet :=
  g.config.overrides ++ ⟨c.inProcessingOrder.map Header.symbolRule,
    c.inProcessingOrder.flatMap (Header.includeRules fs)⟩

theorem value_rulesFor (hc : (Catalog.discover fs g.config root).value = .ok c) :
    (g.rulesFor fs c).value = .ok (g.rulesGiven fs c) := by
  rw [rulesFor, Report.value_bind, Catalog.value_derive (Catalog.isUnread_of_discover hc)]
  rfl

theorem value_buildRules_of_discover (hc : (Catalog.discover fs g.config root).value = .ok c) :
    (g.buildRules fs root).value = .ok (g.rulesGiven fs c) := by
  rw [buildRules, Report.value_bind, hc]
  exact value_rulesFor hc

theorem value_survey_eq_ok_iff :
    (g.survey fs root).value = .ok (c, r) ↔
      (Catalog.discover fs g.config root).value = .ok c ∧ r = g.rulesGiven fs c := by
  rw [survey]
  simp only [Report.value_bind, Report.value_say, Report.value_pure]
  cases hc : (Catalog.discover fs g.config root).value with
  | error e =>
    constructor
    · intro h
      cases h
    · rintro ⟨h, -⟩
      cases h
  | ok d =>
    show (g.rulesFor fs d).value >>= (fun r => Except.ok (d, r)) = _ ↔ _
    rw [value_rulesFor hc]
    show Except.ok (d, g.rulesGiven fs d) = _ ↔ _
    constructor
    · intro h
      cases h
      exact ⟨rfl, rfl⟩
    · rintro ⟨hd, rfl⟩
      cases hd
      rfl

theorem generate_of_survey_error (output : Path)
    (hs : (g.survey fs root).value = .error e) :
    (g.generate fs root output).report.value = .error e ∧
      (g.generate fs root output).states = [] := by
  rw [generate, Effect.before, hs]
  exact ⟨rfl, rfl⟩

/-- Behind a survey, all that happens is the replacement of the output. -/
theorem generate_of_survey (output : Path) (hs : (g.survey fs root).value = .ok (c, r)) :
    (g.generate fs root output).states =
        (fs.replaceFile output (encode (render r).toList)).states ∧
      (g.generate fs root output).report.value =
        (fs.replaceFile output (encode (render r).toList)).report.value.map
          fun _ => summarize c r output := by
  rw [generate, Effect.before, hs]
  refine ⟨rfl, ?_⟩
  show (Effect.report (Effect.after _ _)).value = _
  simp only [Effect.after, Document.write, Report.value_bind]
  cases (fs.replaceFile output (encode (render r).toList)).report.value with
  | error e => rfl
  | ok _ => rfl

theorem value_generate_eq_ok_iff {s : Summary} :
    (g.generate fs root output).report.value = .ok s ↔
      ∃ c r, (g.survey fs root).value = .ok (c, r) ∧
        (fs.replaceFile output (encode (render r).toList)).report.value = .ok () ∧
        s = summarize c r output := by
  cases hs : (g.survey fs root).value with
  | error e =>
    rw [(generate_of_survey_error output hs).1]
    constructor
    · intro h
      cases h
    · rintro ⟨_, _, h, -⟩
      cases h
  | ok x =>
    obtain ⟨c, r⟩ := x
    rw [(generate_of_survey output hs).2]
    cases hv : (fs.replaceFile output (encode (render r).toList)).report.value with
    | error e =>
      constructor
      · intro h
        cases h
      · rintro ⟨_, _, h, hok, -⟩
        cases h
        cases hv.symm.trans hok
    | ok _ =>
      constructor
      · intro h
        exact ⟨c, r, rfl, hv, (Except.ok.inj h).symm⟩
      · rintro ⟨_, _, h, -, rfl⟩
        cases h
        rfl

theorem exists_error_of_isFolderAt (g : Generator) (root : Path)
    (h : fs.isFolderAt output = true) :
    ∃ e, (g.generate fs root output).report.value = .error e := by
  cases hv : (g.generate fs root output).report.value with
  | error e => exact ⟨e, rfl⟩
  | ok s =>
    obtain ⟨c, r, -, hreplace, -⟩ := value_generate_eq_ok_iff.mp hv
    cases h.symm.trans (FileSystem.not_isFolderAt_of_replaceFile_ok hreplace)

/-- A generation fails before it changes anything, or it fails as the replacement of the output. -/
theorem states_generate_of_error (h : (g.generate fs root output).report.value = .error e) :
    (g.generate fs root output).states = [] ∨
      ∃ content f, (fs.replaceFile output content).report.value = .error f ∧
        (g.generate fs root output).states = (fs.replaceFile output content).states := by
  cases hs : (g.survey fs root).value with
  | error e =>
    left
    exact (generate_of_survey_error output hs).2
  | ok x =>
    obtain ⟨c, r⟩ := x
    obtain ⟨hstates, hvalue⟩ := generate_of_survey output hs
    right
    cases hv : (fs.replaceFile output (encode (render r).toList)).report.value with
    | error f => exact ⟨_, f, hv, hstates⟩
    | ok _ =>
      rw [hvalue, hv] at h
      cases h

theorem final_of_error (h : (g.generate fs root output).report.value = .error e) :
    (g.generate fs root output).final fs = fs := by
  rw [Effect.final]
  obtain hstates | ⟨content, f, hf, hstates⟩ := states_generate_of_error h
  · rw [hstates]
    rfl
  · rw [hstates]
    exact (FileSystem.replaceFile_error hf).1

theorem exists_beside_of_error (h : (g.generate fs root output).report.value = .error e) :
    ∃ temp, fs.node? temp = none ∧
      ∀ s ∈ (g.generate fs root output).states, fs.Beside s temp := by
  obtain hstates | ⟨content, f, hf, hstates⟩ := states_generate_of_error h
  · obtain ⟨temp, hfree⟩ := fs.exists_free
    refine ⟨temp, hfree, ?_⟩
    intro s hs
    rw [hstates] at hs
    cases hs
  · rw [hstates]
    exact (FileSystem.replaceFile_error hf).2

/-- A generation that fails gives the file system back as it was: whatever the output was, it is
still that, and nothing has been left behind. On the way there was at most one file more, where
nothing was. -/
theorem final_generate_of_error (h : (g.generate fs root output).report.value = .error e) :
    (g.generate fs root output).final fs = fs ∧
      ∃ temp, fs.node? temp = none ∧
        ∀ s ∈ (g.generate fs root output).states, fs.Beside s temp := by
  constructor
  · exact final_of_error h
  · exact exists_beside_of_error h

def plain : Generator := ⟨.default, by decide⟩

/-- A folder `d`, and a link `a` to that folder. -/
def linkedFolder : FileSystem :=
  ((FileSystem.empty []).put [encode ['d']] .folder).put [encode ['a']] (.link (.ofString "d"))

/-- Where the output is a link to a folder, a temporary file is made and taken away again. -/
theorem final_generate_linkedFolder :
    (plain.generate linkedFolder (.ofString "d") (.ofString "a")).states.length = 4 ∧
      ∃ e, (plain.generate linkedFolder (.ofString "d") (.ofString "a")).report.value =
          .error e ∧
        (plain.generate linkedFolder (.ofString "d") (.ofString "a")).final linkedFolder =
          linkedFolder := by
  have hc : (Catalog.discover linkedFolder plain.config (.ofString "d")).value =
      .ok ⟨[], []⟩ := by cbv
  have hs := value_survey_eq_ok_iff.mpr ⟨hc, rfl⟩
  have hstates : ∀ content,
      (linkedFolder.replaceFile (.ofString "a") content).states.length = 4 := by
    intro content
    cbv
  have hfolder : linkedFolder.isFolderAt (.ofString "a") = true := by cbv
  constructor
  · rw [(generate_of_survey _ hs).1]
    exact hstates _
  · obtain ⟨e, he⟩ := exists_error_of_isFolderAt plain (.ofString "d") hfolder
    exact ⟨e, he, (final_generate_of_error he).1⟩

/-- Only a rule of the configuration can hold an end of a module in a module. -/
theorem holdsModuleEnd_rulesGiven :
    (∀ i ∈ (g.rulesGiven fs c).includes, ¬ HoldsModuleEnd i.module) ↔
      ∀ i ∈ g.config.extraIncludes, ¬ HoldsModuleEnd i.module := by
  have hnamespace : ¬ HoldsModuleEnd namespaceOverride.module := by
    rw [HoldsModuleEnd]
    decide
  have hincludes : (g.rulesGiven fs c).includes =
      namespaceOverride :: g.config.extraIncludes ++
        c.inProcessingOrder.flatMap (Header.includeRules fs) := rfl
  rw [hincludes]
  constructor
  · intro h i hi
    exact h i (List.mem_append_left _ (List.mem_cons_of_mem _ hi))
  · intro h i hi
    rcases List.mem_append.mp hi with hi | hi
    · rcases List.mem_cons.mp hi with rfl | hi
      · exact hnamespace
      · exact h i hi
    · obtain ⟨x, -, hx⟩ := List.mem_flatMap.mp hi
      exact Header.not_holdsModuleEnd_of_mem_includeRules hx

theorem countP_umbrella (hc : (Catalog.discover fs g.config root).value = .ok c) :
    c.inProcessingOrder.countP (fun x => x.className = x.moduleName) = c.deferred.length := by
  obtain ⟨-, hregular, hdeferred, -⟩ := Catalog.headers_of_discover hc
  have hr : c.regular.countP (fun x => x.className = x.moduleName) = 0 :=
    List.countP_eq_zero.mpr fun x hx => by simpa using hregular x hx
  have hd : c.deferred.countP (fun x => x.className = x.moduleName) = c.deferred.length :=
    List.countP_eq_length.mpr fun x hx => by simpa using hdeferred x hx
  rw [Catalog.inProcessingOrder, List.countP_append, hr, hd, Nat.zero_add]

/-- A generation that succeeds writes the document of the rules for the tree, and counts its
entries. The document gives the rules back unless a rule of the configuration is in the way. -/
theorem generate_document {s : Summary} (h : (g.generate fs root output).report.value = .ok s) :
    ∃ c r target l,
      (Catalog.discover fs g.config root).value = .ok c ∧
      (g.buildRules fs root).value = .ok r ∧
      fs.pathBehind? FileSystem.maxHops output = some target ∧
      (fs.lookup .keep target).map Landing.location = .ok l ∧
      fs.Replaces ((g.generate fs root output).final fs) l (encode (render r).toList) ∧
      decode? (encode (render r).toList) = some (render r).toList ∧
      (parse (render r) = .ok r ↔
        ∀ i ∈ g.config.extraIncludes, ¬ moduleEnd.toList <:+: i.module.toList) ∧
      (∀ x ∈ c.inProcessingOrder, ∀ i ∈ x.includeRules fs,
        ¬ moduleEnd.toList <:+: i.module.toList) ∧
      (∃ es, readEntries (render r) = .ok es ∧
        s.symbolRules = es.countP (fun x => x.kind = .symbol) ∧
        s.includeRules = es.countP (fun x => x.kind = .include) ∧
        s.totalRules = es.length) ∧
      s.symbolRules = g.config.overrides.symbols.length + s.headersScanned ∧
      s.headersScanned = c.inProcessingOrder.length ∧
      s.umbrellaHeaders = c.inProcessingOrder.countP (fun x => x.className = x.moduleName) ∧
      s.output = output := by
  obtain ⟨c, r, hs, hreplace, rfl⟩ := value_generate_eq_ok_iff.mp h
  obtain ⟨hc, rfl⟩ := value_survey_eq_ok_iff.mp hs
  obtain ⟨target, d, n, htarget, hlies, hafter⟩ := FileSystem.replaceFile_ok hreplace
  refine ⟨c, g.rulesGiven fs c, target, d ++ [n], hc, value_buildRules_of_discover hc, htarget,
    hlies.lookup_keep, ?_, decode?_encode _, ?_,
    fun _ _ _ => Header.not_holdsModuleEnd_of_mem_includeRules,
    ⟨_, readEntries_render _, ?_, ?_, ?_⟩, ?_, (Catalog.length_inProcessingOrder c).symm,
    (countP_umbrella hc).symm, rfl⟩
  · rw [Effect.final, (generate_of_survey output hs).1]
    exact hafter
  · exact parse_render_eq_ok_self_iff.trans holdsModuleEnd_rulesGiven
  · exact (countP_symbol_entriesOf _).symm
  · exact (countP_include_entriesOf _).symm
  · exact (length_entriesOf _).symm
  · show (g.rulesGiven fs c).symbols.length = _ + c.size
    rw [rulesGiven, RuleSet.symbols_append, List.length_append, List.length_map,
      Catalog.length_inProcessingOrder]

/-- An umbrella header `r/m/m` that includes a private header with an end of a module in its
name. -/
def smallTree : FileSystem :=
  (((FileSystem.empty []).put [encode ['r']] .folder).put [encode ['r'], encode ['m']] .folder).put
    [encode ['r'], encode ['m'], encode ['m']]
    (.file 0o600 (encode "#include \"x/)?y.h\"\n".toList))

theorem generate_smallTree :
    ∃ s r, (plain.generate smallTree (.ofString "r") (.ofString "o")).report.value = .ok s ∧
      (plain.buildRules smallTree (.ofString "r")).value = .ok r ∧
      parse (render r) = .ok r ∧ s.headersScanned = 1 ∧ s.umbrellaHeaders = 1 := by
  have hc : (Catalog.discover smallTree plain.config (.ofString "r")).value =
      .ok ⟨[], [.ofPath (.ofString "r/m/m")]⟩ := by cbv
  have hreplace : ∀ content,
      (smallTree.replaceFile (.ofString "o") content).report.value = .ok () := by
    intro content
    cbv
  have h := value_generate_eq_ok_iff.mpr
    ⟨_, _, value_survey_eq_ok_iff.mpr ⟨hc, rfl⟩, hreplace _, rfl⟩
  obtain ⟨c, r, -, -, hc', hr, -, -, -, -, hparse, -, -, -, hheaders, -⟩ := generate_document h
  cases hc.symm.trans hc'
  exact ⟨_, r, h, hr, hparse.mpr (by simp [plain, Config.default]), hheaders, by decide⟩

end Generator

end IncludeMap
