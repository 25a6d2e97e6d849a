import IncludeMap.CommandLine.Answer
import IncludeMap.Proofs.Rule.Generate

/-! # Runs of the program

A run does what the generator does under the configuration that it takes: the program succeeds
exactly when that configuration is there and acceptable and the generation succeeds, and otherwise
the file system is as it was. The wish to hear much and the filter of the reported lines have no
part in this.
-/
namespace IncludeMap

theorem mapError_eq_ok_iff {ε ε' α : Type} {f : ε → ε'} {x : Except ε α} {a : α} :
    x.mapError f = .ok a ↔ x = .ok a := by
  cases x <;> simp [Except.mapError]

namespace CommandLine
open File Text

variable {fs : FileSystem} {r : Request} {c : Config} {g : Generator} {s : Generator.Summary}

namespace Request

/-- The configuration that a run takes: that of the file it names, or else of the first usual file
that is there, all links followed, or else the default one. -/
inductive Takes (r : Request) (fs : FileSystem) : Config → Prop where
  | named {p : Path} {c : Config} (hp : r.config = some p) (hc : Config.load fs p = .ok c) :
      Takes r fs c
  | usual {before after : List Path} {p : Path} {c : Config} (hnone : r.config = none)
      (hfiles : usualConfigs = before ++ p :: after)
      (hmissing : ∀ q ∈ before, fs.nodeAt? q = none) (hp : fs.nodeAt? p ≠ none)
      (hc : Config.load fs p = .ok c) : Takes r fs c
  | default (hnone : r.config = none) (hmissing : ∀ q ∈ usualConfigs, fs.nodeAt? q = none) :
      Takes r fs .default

def taken (r : Request) (fs : FileSystem) : Except Failure Config :=
  match r.configFile? fs with
  | none => .ok .default
  | some p =>
    (Config.load fs p).mapError fun e => ⟨s!"Failed to load configuration from {p.display}", e⟩

theorem exists?_eq_false_iff {p : Path} : fs.exists? p = false ↔ fs.nodeAt? p = none := by
  rw [FileSystem.exists?]
  cases fs.nodeAt? p <;> simp

theorem taken_of_file {p : Path} (h : r.configFile? fs = some p) :
    r.taken fs = .ok c ↔ Config.load fs p = .ok c := by
  rw [taken, h]
  exact mapError_eq_ok_iff

theorem takes_iff : r.Takes fs c ↔ r.taken fs = .ok c := by
  constructor
  · rintro (⟨hp, hc⟩ | ⟨hnone, hfiles, hmissing, hp, hc⟩ | ⟨hnone, hmissing⟩)
    · exact (taken_of_file (by rw [configFile?, hp, Option.some_or])).mpr hc
    · refine (taken_of_file ?_).mpr hc
      rw [configFile?, hnone, Option.none_or, hfiles, List.find?_eq_some_iff_append]
      refine ⟨Option.isSome_iff_ne_none.mpr hp, _, _, rfl, fun q hq => ?_⟩
      rw [Bool.not_eq_true', exists?_eq_false_iff]
      exact hmissing q hq
    · have hfile : r.configFile? fs = none := by
        rw [configFile?, hnone, Option.none_or, List.find?_eq_none]
        intro q hq
        rw [Bool.not_eq_true, exists?_eq_false_iff]
        exact hmissing q hq
      rw [taken, hfile]
  · intro h
    cases hp : r.config with
    | some p =>
      exact .named hp ((taken_of_file (by rw [configFile?, hp, Option.some_or])).mp h)
    | none =>
      have hfile : r.configFile? fs = usualConfigs.find? fs.exists? := by
        rw [configFile?, hp, Option.none_or]
      cases hf : usualConfigs.find? fs.exists? with
      | some p =>
        obtain ⟨hthere, before, after, hfiles, hbefore⟩ := List.find?_eq_some_iff_append.mp hf
        refine .usual hp hfiles (fun q hq => ?_) (Option.isSome_iff_ne_none.mp hthere)
          ((taken_of_file (hfile.trans hf)).mp h)
        rw [← exists?_eq_false_iff, ← Bool.not_eq_true']
        exact hbefore q hq
      | none =>
        rw [taken, hfile, hf] at h
        cases h
        refine .default hp fun q hq => ?_
        rw [← exists?_eq_false_iff, ← Bool.not_eq_true]
        exact List.find?_eq_none.mp hf q hq

/-- Apart from the lines that it reports, a run is one under the configuration that it takes. -/
theorem run_eq (r : Request) (fs : FileSystem) :
    (r.run fs).result = (r.taken fs).bind (fun c => (r.runUnder fs c).result) ∧
      (r.run fs).states =
        match r.taken fs with
        | .ok c => (r.runUnder fs c).states
        | .error _ => [] := by
  rw [run, taken]
  cases r.configFile? fs with
  | none => exact ⟨rfl, rfl⟩
  | some p =>
    dsimp only
    cases Config.load fs p with
    | error e => exact ⟨rfl, rfl⟩
    | ok c => exact ⟨rfl, rfl⟩

theorem result_runUnder_eq_ok_iff :
    (r.runUnder fs c).result = .ok s ↔
      ∃ g : Generator, g.config = c ∧ (g.generate fs r.root r.output).report.value = .ok s := by
  rw [runUnder]
  cases hg : Generator.ofConfig c with
  | error e =>
    constructor
    · intro h
      cases h
    · rintro ⟨g, rfl, -⟩
      cases hg.symm.trans g.ofConfig_config
  | ok g =>
    obtain rfl := Generator.config_ofConfig hg
    refine mapError_eq_ok_iff.trans ⟨fun h => ⟨g, rfl, h⟩, ?_⟩
    rintro ⟨g', hg', hv⟩
    cases g.ofConfig_config.symm.trans (hg' ▸ g'.ofConfig_config)
    exact hv

theorem result_run_eq_ok_iff :
    (r.run fs).result = .ok s ↔
      ∃ g : Generator, r.Takes fs g.config ∧
        (g.generate fs r.root r.output).report.value = .ok s := by
  rw [(run_eq r fs).1]
  cases ht : r.taken fs with
  | error e =>
    constructor
    · intro h
      cases h
    · rintro ⟨g, hg, -⟩
      cases ht.symm.trans (takes_iff.mp hg)
  | ok c =>
    show (r.runUnder fs c).result = .ok s ↔ _
    rw [result_runUnder_eq_ok_iff]
    constructor
    · rintro ⟨g, rfl, hv⟩
      exact ⟨g, takes_iff.mpr ht, hv⟩
    · rintro ⟨g, hg, hv⟩
      exact ⟨g, Except.ok.inj ((takes_iff.mp hg).symm.trans ht), hv⟩

end Request

variable {words : List Bytes}

theorem answer_of_request (h : Request.ofWords words = .ok r) (fs : FileSystem)
    (filter : Option String) :
    answer fs filter words = ((r.run fs).answer (.ofRun filter r.verbose), (r.run fs).states) := by
  rw [answer, h]

theorem output_answer_of_ok {o : Outcome} (h : o.result = .ok s) (f : Filter) :
    (o.answer f).output = summaryText s := by
  rw [Outcome.answer, h]

theorem summaryText_summarize (c : Catalog) (rules : RuleSet) (output : Path) :
    summaryText (Generator.summarize c rules output) =
      "Wrote " ++ rules.size.repr ++ " mappings (" ++ rules.symbols.length.repr ++ " symbol, " ++
        rules.includes.length.repr ++ " include) from " ++ c.inProcessingOrder.length.repr ++
        " headers to " ++ output.display ++ "\n" := by
  rw [Catalog.length_inProcessingOrder, summaryText]
  simp only [String.append_assoc]
  rfl

/-- A run that succeeds says how many rules of either kind it has written, for how many headers, and
where it has written them. -/
theorem output_of_generate (h : Request.ofWords words = .ok r) (filter : Option String)
    (hg : r.Takes fs g.config) (hs : (g.generate fs r.root r.output).report.value = .ok s) :
    ∃ c rules, (Catalog.discover fs g.config r.root).value = .ok c ∧
      (g.buildRules fs r.root).value = .ok rules ∧
      (answer fs filter words).1.output =
        "Wrote " ++ rules.size.repr ++ " mappings (" ++ rules.symbols.length.repr ++ " symbol, " ++
          rules.includes.length.repr ++ " include) from " ++ c.inProcessingOrder.length.repr ++
          " headers to " ++ r.output.display ++ "\n" := by
  have hrun := Request.result_run_eq_ok_iff.mpr ⟨g, hg, hs⟩
  obtain ⟨c, rules, hsurvey, -, rfl⟩ := Generator.value_generate_eq_ok_iff.mp hs
  obtain ⟨hc, rfl⟩ := Generator.value_survey_eq_ok_iff.mp hsurvey
  refine ⟨c, _, hc, Generator.value_buildRules_of_discover hc, ?_⟩
  rw [answer_of_request h, ← summaryText_summarize]
  exact output_answer_of_ok hrun _

end CommandLine

end IncludeMap
