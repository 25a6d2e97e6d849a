import IncludeMap.Proofs.Rule.Generate

/-! # Configurations that exclude more

Which files a walk meets, and where it is stuck, does not depend on the configuration: that only
filters the files. So where a configuration excludes more than another one, a scan fails as before,
and otherwise it finds the same headers in the same order without those that are now excluded. The
rules are then the same too, without the rules of these headers.
-/
namespace IncludeMap
open File Text

variable {fs : FileSystem} {root : Path} {config config' : Config} {c : Catalog}

/-- The configuration leaves a header out, for its class or for the ending of its file's name. -/
def Config.excludes (config : Config) (x : Header) : Bool :=
  config.isExcludedClass x.className ||
    x.path.fileName?.any fun n => config.hasExcludedSuffix (Header.nameText n)

/-- What one configuration excludes is excluded by the other. -/
structure Config.ExcludesMore (config config' : Config) : Prop where
  classes : config.excludedClasses ⊆ config'.excludedClasses
  suffixes : config.excludedSuffixes ⊆ config'.excludedSuffixes

namespace Config.ExcludesMore

theorem excludes (h : config.ExcludesMore config') {x : Header}
    (hx : config.excludes x = true) : config'.excludes x = true := by
  simp only [Config.excludes, isExcludedClass, hasExcludedSuffix, Bool.or_eq_true,
    List.contains_eq_mem, decide_eq_true_eq, Option.any_eq_true, List.any_eq_true] at hx ⊢
  rcases hx with hclass | ⟨n, hn, s, hs, hsuffix⟩
  · exact .inl (h.classes hclass)
  · exact .inr ⟨n, hn, s, h.suffixes hs, hsuffix⟩

end Config.ExcludesMore

namespace Catalog

def without (c : Catalog) (config : Config) : Catalog :=
  ⟨c.regular.filter (!config.excludes ·), c.deferred.filter (!config.excludes ·)⟩

theorem inProcessingOrder_without (c : Catalog) (config : Config) :
    (c.without config).inProcessingOrder = c.inProcessingOrder.filter (!config.excludes ·) :=
  (List.filter_append ..).symm

section Files

variable {files : List Found}

theorem isKept_eq (config : Config) (root : Path) {f : Found} (hn : isName f.name = true) :
    isKept config f =
      (!isHiddenName f.module && !isHiddenName f.name && !config.excludes (headerOf root f)) := by
  have hname : (headerOf root f).path.fileName? = some f.name :=
    Path.fileName?_child (root.child f.module) hn
  rw [isKept, isCandidate, Config.excludes, className_headerOf root hn, hname, Option.any_some,
    Bool.not_or, Bool.and_assoc, Bool.and_comm (!config.hasExcludedSuffix _)]

theorem map_filter_isKept (h : config.ExcludesMore config') (kind : Found → Bool)
    (hnames : ∀ f ∈ files, isName f.name = true) :
    (files.filter fun f => isKept config' f && kind f).map (headerOf root) =
      ((files.filter fun f => isKept config f && kind f).map (headerOf root)).filter
        (!config'.excludes ·) := by
  rw [List.filter_map, List.filter_filter]
  refine congrArg (List.map (headerOf root)) (List.filter_congr fun f hf => ?_)
  rw [isKept_eq config root (hnames f hf), isKept_eq config' root (hnames f hf)]
  show _ = (!config'.excludes (headerOf root f) && _)
  cases hx' : config'.excludes (headerOf root f) with
  | true => simp
  | false =>
    have hx : config.excludes (headerOf root f) = false := by
      rw [Bool.eq_false_iff]
      intro hx
      cases hx'.symm.trans (h.excludes hx)
    simp [hx]

end Files

/-- Whatever is excluded, a scan fails alike or sorts the same files. -/
theorem discover_cases (fs : FileSystem) (root : Path) :
    (∃ e, ∀ config, (discover fs config root).value = .error e) ∨
      ∃ files : List Found, (∀ f ∈ files, isName f.module = true ∧ isName f.name = true) ∧
        ∀ config, (discover fs config root).value =
          .ok ⟨(regularOf config files).map (headerOf root),
            (deferredOf config files).map (headerOf root)⟩ := by
  cases hroot : fs.locateFolder root with
  | error f => exact .inl ⟨_, fun config => discover_of_locateFolder_error config hroot⟩
  | ok l =>
    by_cases hstuck : ∃ v f, fs.StuckAt l root v f
    · obtain ⟨v, f, h⟩ := hstuck
      obtain ⟨w, g, -, -, hfirst, -⟩ := FileSystem.exists_firstStuck hroot h
      exact .inl ⟨_, fun config => discover_of_firstStuck config hroot hfirst⟩
    · obtain ⟨files, hwalk, -, hmem⟩ :=
        FileSystem.walkModules_of_not_stuckAt hroot fun v f h => hstuck ⟨v, f, h⟩
      have hnames : ∀ f ∈ files, isName f.module = true ∧ isName f.name = true := fun f hf =>
        isName_of_holdsFile ((hmem f).mp hf)
      refine .inr ⟨files, hnames, fun config => ?_⟩
      rw [value_discover config hroot, hwalk, collect_eq_ok empty hnames]
      rfl

theorem discover_eq_error_iff (config config' : Config) {e : Problem} :
    (discover fs config root).value = .error e ↔ (discover fs config' root).value = .error e := by
  rcases discover_cases fs root with ⟨e', h⟩ | ⟨files, -, h⟩
  · rw [h config, h config']
  · rw [h config, h config']
    constructor <;> (intro he; cases he)

theorem discover_without (h : config.ExcludesMore config')
    (hc : (discover fs config root).value = .ok c) :
    (discover fs config' root).value = .ok (c.without config') := by
  rcases discover_cases fs root with ⟨e, hfail⟩ | ⟨files, hnames, hvalue⟩
  · cases hc.symm.trans (hfail config)
  · cases hc.symm.trans (hvalue config)
    have hnames : ∀ f ∈ files, isName f.name = true := fun f hf => (hnames f hf).2
    rw [hvalue config', without, regularOf, deferredOf, map_filter_isKept h _ hnames,
      map_filter_isKept h _ hnames]
    rfl

theorem excludes_of_mem_discover (hc : (discover fs config root).value = .ok c) {x : Header}
    (hx : x ∈ c.inProcessingOrder) : config.excludes x = false := by
  have hsame : c.without config = c :=
    Except.ok.inj ((discover_without ⟨fun _ => id, fun _ => id⟩ hc).symm.trans hc)
  rw [← hsame, inProcessingOrder_without, List.mem_filter] at hx
  simpa using hx.2

end Catalog

namespace Generator

/-- Under more exclusions a scan fails as before, and otherwise the rules are the same without
those of the headers that are now excluded. -/
theorem buildRules_of_excludesMore (g g' : Generator) (fs : FileSystem) (root : Path)
    (h : g.config.ExcludesMore g'.config)
    (hsymbols : g'.config.extraSymbols = g.config.extraSymbols)
    (hincludes : g'.config.extraIncludes = g.config.extraIncludes) :
    (∀ e, (Catalog.discover fs g.config root).value = .error e ↔
      (Catalog.discover fs g'.config root).value = .error e) ∧
    ∀ r, (g.buildRules fs root).value = .ok r →
      ∃ c kept r', (Catalog.discover fs g.config root).value = .ok c ∧
        (Catalog.discover fs g'.config root).value = .ok (c.without g'.config) ∧
        (∀ x ∈ c.inProcessingOrder, g.config.excludes x = false) ∧
        kept = c.inProcessingOrder.filter (fun x => !g'.config.excludes x) ∧
        r = g.config.overrides ++ ⟨c.inProcessingOrder.map Header.symbolRule,
          c.inProcessingOrder.flatMap (Header.includeRules fs)⟩ ∧
        (g'.buildRules fs root).value = .ok r' ∧
        r' = g.config.overrides ++ ⟨kept.map Header.symbolRule,
          kept.flatMap (Header.includeRules fs)⟩ ∧
        r'.symbols.Sublist r.symbols ∧ r'.includes.Sublist r.includes := by
  refine ⟨fun e => Catalog.discover_eq_error_iff g.config g'.config, fun r hr => ?_⟩
  obtain ⟨c, hc⟩ : ∃ c, (Catalog.discover fs g.config root).value = .ok c := by
    cases hc : (Catalog.discover fs g.config root).value with
    | ok c => exact ⟨c, rfl⟩
    | error e =>
      rw [buildRules, Report.value_bind, hc] at hr
      cases hr
  have hc' := Catalog.discover_without h hc
  have hoverrides : g'.config.overrides = g.config.overrides := by
    rw [Config.overrides, hsymbols, hincludes, Config.overrides]
  obtain rfl := Except.ok.inj ((value_buildRules_of_discover hc).symm.trans hr)
  have hkept : (c.inProcessingOrder.filter fun x => !g'.config.excludes x).Sublist
      c.inProcessingOrder := List.filter_sublist
  refine ⟨c, _, _, hc, hc', fun x hx => Catalog.excludes_of_mem_discover hc hx, rfl, rfl,
    value_buildRules_of_discover hc', ?_, ?_, ?_⟩
  · rw [rulesGiven, hoverrides, Catalog.inProcessingOrder_without]
  · rw [rulesGiven, rulesGiven, hoverrides, Catalog.inProcessingOrder_without]
    exact (hkept.map Header.symbolRule).append_left _
  · rw [rulesGiven, rulesGiven, hoverrides, Catalog.inProcessingOrder_without]
    exact (hkept.flatMap (Header.includeRules fs)).append_left _

def strict : Generator :=
  ⟨{ Config.default with
    excludedClasses := ["a", "QInternal"]
    excludedSuffixes := [".h", ".inc"] }, by decide⟩

/-- A module `r/m` with the headers `a`, `b` and `c.inc`, and its umbrella header. -/
def severalHeaders : FileSystem :=
  ["a", "b", "c.inc", "m"].foldl
    (fun fs n => fs.put [encode ['r'], encode ['m'], encode n.toList]
      (.file 0o644 (encode "#include \"x.h\"\n".toList)))
    (((FileSystem.empty []).put [encode ['r']] .folder).put [encode ['r'], encode ['m']] .folder)

/-- Two of the four headers are left out by the strict generator, and their rules with them. -/
theorem buildRules_severalHeaders :
    plain.config.ExcludesMore strict.config ∧
      ∃ r r', (plain.buildRules severalHeaders (.ofString "r")).value = .ok r ∧
        (strict.buildRules severalHeaders (.ofString "r")).value = .ok r' ∧
        r'.symbols = builtinOverrides.symbols ++ [⟨"b", "b"⟩, ⟨"m", "m"⟩] ∧
        r'.symbols.Sublist r.symbols ∧ r'.includes.Sublist r.includes ∧
        r.symbols.length = r'.symbols.length + 2 := by
  have hmore : plain.config.ExcludesMore strict.config := ⟨by decide, by decide⟩
  have hc : (Catalog.discover severalHeaders plain.config (.ofString "r")).value =
      .ok ⟨["r/m/a", "r/m/b", "r/m/c.inc"].map fun p => .ofPath (.ofString p),
        [.ofPath (.ofString "r/m/m")]⟩ := by cbv
  obtain ⟨-, hrules⟩ :=
    buildRules_of_excludesMore plain strict severalHeaders (.ofString "r") hmore rfl rfl
  obtain ⟨c, kept, r', hc', -, -, hkept, hr, hr', rfl, hsymbols, hincludes⟩ :=
    hrules _ (value_buildRules_of_discover hc)
  cases hc.symm.trans hc'
  have hnames : kept.map Header.symbolRule = [⟨"b", "b"⟩, ⟨"m", "m"⟩] := by
    rw [hkept]
    cbv
  refine ⟨hmore, _, _, value_buildRules_of_discover hc, hr', ?_, hsymbols, hincludes, ?_⟩
  · rw [RuleSet.symbols_append, hnames]
    rfl
  · rw [RuleSet.symbols_append, hnames]
    rfl

end Generator

end IncludeMap
