import IncludeMap.Header.Catalog
import IncludeMap.Proofs.File.Walk

/-! # What a scan of a tree finds

A scan fails at the first entry at which its walk is stuck, whether or not the entry would count as
a header. Otherwise the catalog holds the class headers of the tree, each of them once and in the
order of the walk.
-/
namespace IncludeMap
open File Text
namespace Catalog

variable {fs : FileSystem} {config : Config} {root : Path} {l : Location}

/-- The file stands for its whole module. -/
def IsUmbrella (f : Found) : Prop := Header.nameText (stem f.name) = Header.nameText f.module

instance (f : Found) : Decidable (IsUmbrella f) := inferInstanceAs (Decidable (_ = _))

/-- The file of a module's folder is a class header. -/
structure IsClassHeader (fs : FileSystem) (config : Config) (l : Location) (root : Path)
    (f : Found) : Prop where
  holds : fs.HoldsFile l root f
  module_shown : ∀ s, decode? f.module ≠ some ('.' :: s)
  name_shown : ∀ s, decode? f.name ≠ some ('.' :: s)
  suffix : ∀ s ∈ config.excludedSuffixes, ¬ s.toList <:+ decodeLossy f.name
  included : Header.nameText (stem f.name) ∉ config.excludedClasses

/-- The file is not left out for its names. -/
def isKept (config : Config) (f : Found) : Bool :=
  isCandidate config f && !config.isExcludedClass (Header.nameText (stem f.name))

def regularOf (config : Config) (files : List Found) : List Found :=
  files.filter fun f => isKept config f && !decide (IsUmbrella f)

def deferredOf (config : Config) (files : List Found) : List Found :=
  files.filter fun f => isKept config f && decide (IsUmbrella f)

theorem isHiddenName_eq_false_iff {n : Name} :
    isHiddenName n = false ↔ ∀ s, decode? n ≠ some ('.' :: s) := by
  unfold isHiddenName
  cases decode? n with
  | none => simp
  | some s => cases s <;> simp

theorem hasExcludedSuffix_eq_false_iff {n : Name} :
    config.hasExcludedSuffix (Header.nameText n) = false ↔
      ∀ s ∈ config.excludedSuffixes, ¬ s.toList <:+ decodeLossy n := by
  simp [Config.hasExcludedSuffix, Header.nameText]

theorem isClassHeader_iff {f : Found} :
    IsClassHeader fs config l root f ↔ fs.HoldsFile l root f ∧ isKept config f = true := by
  simp only [isKept, isCandidate, Bool.and_eq_true, Bool.not_eq_true', isHiddenName_eq_false_iff,
    hasExcludedSuffix_eq_false_iff, Config.isExcludedClass, List.contains_eq_mem,
    decide_eq_false_iff_not]
  constructor
  · rintro ⟨h, hm, hn, hs, hc⟩
    exact ⟨h, ⟨⟨hm, hn⟩, hs⟩, hc⟩
  · rintro ⟨h, ⟨⟨hm, hn⟩, hs⟩, hc⟩
    exact ⟨h, hm, hn, hs, hc⟩

section Names

variable {f : Found}

theorem className_headerOf (root : Path) (hn : isName f.name = true) :
    (headerOf root f).className = Header.nameText (stem f.name) := by
  simp only [Header.className, headerOf, Header.ofPath, Path.fileName?_child _ hn]

theorem moduleName_headerOf (root : Path) (hm : isName f.module = true)
    (hn : isName f.name = true) : (headerOf root f).moduleName = Header.nameText f.module := by
  simp only [Header.moduleName, headerOf, Header.ofPath,
    Path.fileName?_parent_child_child root hm hn]

theorem isUmbrella_headerOf (root : Path) (hm : isName f.module = true)
    (hn : isName f.name = true) : (headerOf root f).isUmbrella = decide (IsUmbrella f) := by
  rw [Header.isUmbrella, className_headerOf root hn, moduleName_headerOf root hm hn]
  rfl

end Names

theorem value_collect_cons (c : Catalog) {f : Found} (hn : isName f.name = true)
    (rest : List (Except Problem Found)) :
    (collect config root c (.ok f :: rest)).value =
      (collect config root
        (if isKept config f then c.push (headerOf root f) else c) rest).value := by
  rw [collect, isKept, className_headerOf root hn]
  cases isCandidate config f with
  | false => rfl
  | true =>
    cases config.isExcludedClass (Header.nameText (stem f.name)) with
    | false => rfl
    | true => rfl

theorem collect_eq_error (c : Catalog) {before after : List (Except Problem Found)} {e : Problem}
    (h : ∀ x ∈ before, ∃ f, x = .ok f) :
    (collect config root c (before ++ .error e :: after)).value = .error e := by
  induction before generalizing c with
  | nil => rfl
  | cons x before ih =>
    obtain ⟨f, rfl⟩ := h x List.mem_cons_self
    have ih := fun c => ih c fun y hy => h y (List.mem_cons_of_mem _ hy)
    rw [List.cons_append, collect]
    split
    · exact ih c
    · split
      · rw [Report.value_bind, Report.value_say]
        exact ih c
      · exact ih _

theorem collect_eq_ok (c : Catalog) {files : List Found}
    (h : ∀ f ∈ files, isName f.module = true ∧ isName f.name = true) :
    (collect config root c (files.map .ok)).value =
      .ok ⟨c.regular ++ (regularOf config files).map (headerOf root),
        c.deferred ++ (deferredOf config files).map (headerOf root)⟩ := by
  induction files generalizing c with
  | nil => simp [collect, regularOf, deferredOf]
  | cons f files ih =>
    obtain ⟨hm, hn⟩ := h f List.mem_cons_self
    rw [List.map_cons, value_collect_cons c hn, ih _ fun g hg => h g (List.mem_cons_of_mem _ hg)]
    cases hkept : isKept config f with
    | false => simp [hkept, regularOf, deferredOf]
    | true =>
      have hu := isUmbrella_headerOf root hm hn
      by_cases h : IsUmbrella f <;> simp [hkept, h, hu, push, regularOf, deferredOf]

theorem isName_of_holdsFile {f : Found} (h : fs.HoldsFile l root f) :
    isName f.module = true ∧ isName f.name = true := by
  obtain ⟨⟨_, _, hv⟩, -⟩ := h
  cases hv with
  | file hm _ hn => exact ⟨FileSystem.isName_of_entry hm, FileSystem.isName_of_entry hn⟩

theorem value_discover (config : Config) (h : fs.locateFolder root = .ok l) :
    (discover fs config root).value =
      (collect config root empty (fs.walkModules l root)).value := by
  obtain ⟨hl, hfolder⟩ := FileSystem.locateFolder_eq_ok_iff_locate.mp h
  rw [discover, hl]
  simp only [hfolder, Bool.true_eq_false, if_false, Report.value_bind]
  cases (collect config root empty (fs.walkModules l root)).value <;> rfl

theorem discover_of_locateFolder_error (config : Config) {f : Fault}
    (h : fs.locateFolder root = .error f) :
    (discover fs config root).value =
      .error (.path (if fs.exists? root then "Include root is not a directory"
        else "Include root does not exist") root) := by
  rw [discover, FileSystem.exists?, FileSystem.nodeAt?]
  cases hl : fs.locate root with
  | error g => rfl
  | ok k =>
    obtain ⟨node, hnode, -⟩ := FileSystem.holds_of_lookup (FileSystem.locate_eq_ok_iff.mp hl)
    cases hk : fs.isFolder k with
    | true => cases h.symm.trans (FileSystem.locateFolder_eq_ok_iff_locate.mpr ⟨hl, hk⟩)
    | false => simp [hnode, hk]

theorem discover_of_firstStuck (config : Config) (hroot : fs.locateFolder root = .ok l)
    {v : List Name} {f : Fault} (h : fs.FirstStuck l root v f) :
    (discover fs config root).value =
      .error (.io s!"Failed to walk {(FileSystem.pathOf root v).display}" f) := by
  obtain ⟨w, g, before, after, hg, hwalk, hbefore⟩ := FileSystem.exists_firstStuck hroot h.1
  obtain ⟨rfl, rfl⟩ := h.unique hg
  rw [value_discover config hroot, hwalk, collect_eq_error empty hbefore]

theorem discover_of_not_stuckAt (config : Config) (hroot : fs.locateFolder root = .ok l)
    (h : ∀ v f, ¬ fs.StuckAt l root v f) :
    ∃ regular deferred : List Found,
      (discover fs config root).value =
        .ok ⟨regular.map (headerOf root), deferred.map (headerOf root)⟩ ∧
      regular.Pairwise Found.Before ∧ deferred.Pairwise Found.Before ∧
      (∀ f, f ∈ regular ↔ IsClassHeader fs config l root f ∧ ¬ IsUmbrella f) ∧
      ∀ f, f ∈ deferred ↔ IsClassHeader fs config l root f ∧ IsUmbrella f := by
  obtain ⟨files, hwalk, hsorted, hmem⟩ := FileSystem.walkModules_of_not_stuckAt hroot h
  have hnames : ∀ f ∈ files, isName f.module = true ∧ isName f.name = true := fun f hf =>
    isName_of_holdsFile ((hmem f).mp hf)
  refine ⟨regularOf config files, deferredOf config files, ?_, hsorted.filter _, hsorted.filter _,
    fun f => ?_, fun f => ?_⟩
  · rw [value_discover config hroot, hwalk, collect_eq_ok empty hnames]
    rfl
  · rw [regularOf, List.mem_filter, hmem, isClassHeader_iff, and_assoc]
    simp
  · rw [deferredOf, List.mem_filter, hmem, isClassHeader_iff, and_assoc]
    simp

theorem nodup_of_before {files : List Found} (h : files.Pairwise Found.Before) : files.Nodup := by
  refine h.imp ?_
  rintro f _ hf rfl
  exact List.lt_irrefl _ hf

/-- Files in the order of a walk are determined by which they are. -/
theorem eq_of_before {as bs : List Found} (ha : as.Pairwise Found.Before)
    (hb : bs.Pairwise Found.Before) (h : ∀ f, f ∈ as ↔ f ∈ bs) : as = bs := by
  have hperm := (List.perm_ext_iff_of_nodup (nodup_of_before ha) (nodup_of_before hb)).mpr h
  refine List.Perm.eq_of_pairwise ?_ ha hb hperm
  intro f g _ _ hfg hgf
  exact absurd (List.lt_trans hfg hgf) (List.lt_irrefl _)

theorem readBytes_of_holdsFile {f : Found} (h : fs.HoldsFile l root f) :
    ∃ bytes, fs.readBytes (headerOf root f).path = .ok bytes := by
  obtain ⟨-, k, hk, hfile⟩ := h
  have hlookup := FileSystem.locate_eq_ok_iff.mp hk
  obtain ⟨node, hnode, hlink⟩ := FileSystem.holds_of_lookup hlookup
  rw [headerOf, Header.ofPath, FileSystem.readBytes_of_lookup hlookup, Landing.location, hnode]
  cases node with
  | folder =>
    rw [FileSystem.isFolder, hnode] at hfile
    cases hfile
  | file mode content => exact ⟨content, rfl⟩
  | link target => cases hlink target rfl

theorem headerOf_injective {f g : Found} (hf : fs.HoldsFile l root f) (hg : fs.HoldsFile l root g)
    (h : headerOf root f = headerOf root g) : f = g := by
  obtain ⟨hfm, hfn⟩ := isName_of_holdsFile hf
  obtain ⟨hgm, hgn⟩ := isName_of_holdsFile hg
  have hpath : (root.child f.module).child f.name = (root.child g.module).child g.name :=
    congrArg Header.path h
  have hn := Path.fileName?_child (root.child f.module) hfn
  have hm := Path.fileName?_parent_child_child root hfm hfn
  rw [hpath, Path.fileName?_child _ hgn] at hn
  rw [hpath, Path.fileName?_parent_child_child root hgm hgn] at hm
  obtain ⟨_, _⟩ := f
  cases hn
  cases hm
  rfl

theorem exists_of_discover_eq_ok {c : Catalog} (h : (discover fs config root).value = .ok c) :
    ∃ l, fs.locateFolder root = .ok l ∧ ∀ v f, ¬ fs.StuckAt l root v f := by
  cases hroot : fs.locateFolder root with
  | error f =>
    rw [discover_of_locateFolder_error config hroot] at h
    cases h
  | ok l =>
    refine ⟨l, rfl, fun v f hstuck => ?_⟩
    obtain ⟨w, g, -, -, hfirst, -⟩ := FileSystem.exists_firstStuck hroot hstuck
    rw [discover_of_firstStuck config hroot hfirst] at h
    cases h

/-- The headers of a catalog are found once each; none has been read, none is of an excluded class,
and each of them can be read. -/
theorem headers_of_discover {c : Catalog} (h : (discover fs config root).value = .ok c) :
    c.inProcessingOrder.Nodup ∧
      (∀ x ∈ c.regular, x.className ≠ x.moduleName) ∧
      (∀ x ∈ c.deferred, x.className = x.moduleName) ∧
      ∀ x ∈ c.inProcessingOrder, x.known = none ∧ x.className ∉ config.excludedClasses ∧
        ∃ bytes, fs.readBytes x.path = .ok bytes := by
  obtain ⟨l, hroot, hfree⟩ := exists_of_discover_eq_ok h
  obtain ⟨regular, deferred, hvalue, hr, hd, hmemr, hmemd⟩ :=
    discover_of_not_stuckAt config hroot hfree
  cases h.symm.trans hvalue
  have hnames : ∀ f, IsClassHeader fs config l root f →
      isName f.module = true ∧ isName f.name = true := fun f hf => isName_of_holdsFile hf.holds
  have hmem : ∀ f ∈ regular ++ deferred, IsClassHeader fs config l root f := by
    intro f hf
    rcases List.mem_append.mp hf with hf | hf
    · exact ((hmemr f).mp hf).1
    · exact ((hmemd f).mp hf).1
  have hnodup : (regular ++ deferred).Nodup := by
    refine List.nodup_append.mpr ⟨nodup_of_before hr, nodup_of_before hd, ?_⟩
    rintro f hf _ hg rfl
    exact ((hmemr f).mp hf).2 ((hmemd f).mp hg).2
  refine ⟨?_, ?_, ?_, ?_⟩
  · rw [inProcessingOrder, ← List.map_append]
    refine hnodup.map_on fun f hf g hg hfg => ?_
    exact headerOf_injective (hmem f hf).holds (hmem g hg).holds hfg
  · intro x hx
    obtain ⟨f, hf, rfl⟩ := List.mem_map.mp hx
    obtain ⟨hf, hu⟩ := (hmemr f).mp hf
    obtain ⟨hm, hn⟩ := hnames f hf
    rwa [className_headerOf root hn, moduleName_headerOf root hm hn]
  · intro x hx
    obtain ⟨f, hf, rfl⟩ := List.mem_map.mp hx
    obtain ⟨hf, hu⟩ := (hmemd f).mp hf
    obtain ⟨hm, hn⟩ := hnames f hf
    rwa [className_headerOf root hn, moduleName_headerOf root hm hn]
  · intro x hx
    rw [inProcessingOrder, ← List.map_append] at hx
    obtain ⟨f, hf, rfl⟩ := List.mem_map.mp hx
    have hf := hmem f hf
    refine ⟨rfl, ?_, readBytes_of_holdsFile hf.holds⟩
    rw [className_headerOf root (hnames f hf).2]
    exact hf.included

/-- A scan refuses a root that leads to no folder. It fails where its walk is stuck first, hidden
and excluded entries included, and otherwise finds the class headers of the tree. -/
theorem discover_value (fs : FileSystem) (config : Config) (root : Path) :
    match fs.locateFolder root with
    | .error _ =>
      (discover fs config root).value =
        .error (.path (if fs.exists? root then "Include root is not a directory"
          else "Include root does not exist") root)
    | .ok l =>
      (∀ e, (discover fs config root).value = .error e ↔
        ∃ v f, fs.FirstStuck l root v f ∧
          e = .io s!"Failed to walk {(FileSystem.pathOf root v).display}" f) ∧
      ∀ c, (discover fs config root).value = .ok c ↔
        (∀ v f, ¬ fs.StuckAt l root v f) ∧ ∃ regular deferred : List Found,
          c = ⟨regular.map (headerOf root), deferred.map (headerOf root)⟩ ∧
          regular.Pairwise Found.Before ∧ deferred.Pairwise Found.Before ∧
          (∀ f, f ∈ regular ↔ IsClassHeader fs config l root f ∧ ¬ IsUmbrella f) ∧
          ∀ f, f ∈ deferred ↔ IsClassHeader fs config l root f ∧ IsUmbrella f := by
  cases hroot : fs.locateFolder root with
  | error f => exact discover_of_locateFolder_error config hroot
  | ok l =>
    by_cases hstuck : ∃ v f, fs.StuckAt l root v f
    · obtain ⟨v, f, h⟩ := hstuck
      obtain ⟨w, g, -, -, hfirst, -⟩ := FileSystem.exists_firstStuck hroot h
      have hvalue := discover_of_firstStuck config hroot hfirst
      constructor
      · intro e
        rw [hvalue, Except.error.injEq]
        constructor
        · rintro rfl
          exact ⟨w, g, hfirst, rfl⟩
        · rintro ⟨w', g', hfirst', rfl⟩
          obtain ⟨rfl, rfl⟩ := hfirst.unique hfirst'
          rfl
      · intro c
        rw [hvalue]
        constructor
        · intro hc
          cases hc
        · rintro ⟨hfree, -⟩
          exact absurd h (hfree v f)
    · have hfree : ∀ v f, ¬ fs.StuckAt l root v f := fun v f h => hstuck ⟨v, f, h⟩
      obtain ⟨regular, deferred, hvalue, hr, hd, hmemr, hmemd⟩ :=
        discover_of_not_stuckAt config hroot hfree
      constructor
      · intro e
        rw [hvalue]
        constructor
        · intro he
          cases he
        · rintro ⟨v, f, hfirst, -⟩
          exact absurd hfirst.1 (hfree v f)
      · intro c
        rw [hvalue, Except.ok.injEq]
        constructor
        · rintro rfl
          exact ⟨hfree, regular, deferred, rfl, hr, hd, hmemr, hmemd⟩
        · rintro ⟨-, regular', deferred', rfl, hr', hd', hmemr', hmemd'⟩
          have hregular := eq_of_before hr hr' fun f => (hmemr f).trans (hmemr' f).symm
          have hdeferred := eq_of_before hd hd' fun f => (hmemd f).trans (hmemd' f).symm
          rw [hregular, hdeferred]

end Catalog

end IncludeMap
