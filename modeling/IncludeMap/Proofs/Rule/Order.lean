import IncludeMap.Proofs.Header.Discover
import IncludeMap.Proofs.Rule.Derive

/-! # The order of headers

A catalog keeps its umbrella headers apart from the others, each part in the order of arrival. Its
rules are those of its headers, added one by one in the order of processing, so it does not matter
how headers of the two parts arrive between each other.
-/
namespace IncludeMap
open File Text

variable {fs : FileSystem} {hs ks : List Header}

theorem exists_mapM_eq_ok_iff {α β : Type} {f : α → Except Problem β} {xs : List α} :
    (∃ bs, xs.mapM f = .ok bs) ↔ ∀ x ∈ xs, ∃ b, f x = .ok b := by
  induction xs with
  | nil => exact ⟨fun _ => by simp, fun _ => ⟨[], rfl⟩⟩
  | cons x xs ih =>
    rw [List.forall_mem_cons, ← ih]
    cases hx : f x with
    | error e =>
      rw [mapM_cons_of_error hx]
      simp
    | ok b =>
      rw [mapM_cons_of_ok hx]
      cases xs.mapM f with
      | error e => simp [Except.map]
      | ok bs => simp [Except.map]

namespace Header

/-- The names of the header are not known, and its file cannot be read. -/
def Fails (fs : FileSystem) (h : Header) (e : Problem) : Prop :=
  h.known = none ∧ ∃ f, fs.readBytes h.path = .error f ∧
    e = .io s!"Failed to read file: {h.path.display}" f

theorem contribution_eq_error_iff {h : Header} {e : Problem} :
    h.contribution fs = .error e ↔ h.Fails fs e := by
  rw [contribution, Fails]
  cases hk : h.known with
  | some names =>
    rw [privateHeaders_of_known hk]
    constructor
    · intro hc
      cases hc
    · rintro ⟨hc, -⟩
      cases hc
  | none =>
    rw [privateHeaders, hk]
    simp only [Report.value_bind, FileSystem.value_readLossy]
    cases fs.readBytes h.path with
    | ok bytes =>
      constructor
      · intro hc
        cases hc
      · rintro ⟨-, f, hf, -⟩
        cases hf
    | error f =>
      constructor
      · intro hc
        cases hc
        exact ⟨trivial, f, rfl, rfl⟩
      · rintro ⟨-, g, hg, rfl⟩
        cases hg
        rfl

theorem exists_contribution_iff {h : Header} :
    (∃ r, h.contribution fs = .ok r) ↔ ∀ e, ¬ h.Fails fs e := by
  simp only [← contribution_eq_error_iff]
  cases h.contribution fs with
  | ok r => simp
  | error e => simp

end Header

theorem RuleSet.value_addHeaders_eq_foldlM (r : RuleSet) (hs : List Header) :
    (r.addHeaders fs hs).value =
      hs.foldlM (fun r h => (r.addHeader fs h).value) r := by
  induction hs generalizing r with
  | nil => rfl
  | cons h hs ih =>
    rw [addHeaders, Report.value_bind, List.foldlM_cons]
    simp only [ih]

namespace Catalog

variable {c : Catalog} {e : Problem}

def pushAll (c : Catalog) (hs : List Header) : Catalog := hs.foldl push c

theorem regular_pushAll (c : Catalog) (hs : List Header) :
    (c.pushAll hs).regular = c.regular ++ hs.filter fun h => !h.isUmbrella := by
  induction hs generalizing c with
  | nil => simp [pushAll]
  | cons h hs ih =>
    refine (ih (c.push h)).trans ?_
    cases hu : h.isUmbrella with
    | true => simp [push, hu]
    | false => simp [push, hu]

theorem deferred_pushAll (c : Catalog) (hs : List Header) :
    (c.pushAll hs).deferred = c.deferred ++ hs.filter fun h => h.isUmbrella := by
  induction hs generalizing c with
  | nil => simp [pushAll]
  | cons h hs ih =>
    refine (ih (c.push h)).trans ?_
    cases hu : h.isUmbrella with
    | true => simp [push, hu]
    | false => simp [push, hu]

theorem size_pushAll (c : Catalog) (hs : List Header) :
    (c.pushAll hs).size = c.size + hs.length := by
  induction hs generalizing c with
  | nil => rfl
  | cons h hs ih =>
    refine (ih (c.push h)).trans ?_
    rw [size_push, List.length_cons]
    omega

theorem pushAll_empty (hs : List Header) :
    empty.pushAll hs = ⟨hs.filter fun h => !h.isUmbrella, hs.filter fun h => h.isUmbrella⟩ := by
  have hr := regular_pushAll empty hs
  have hd := deferred_pushAll empty hs
  rw [empty, List.nil_append] at hr hd
  rw [← hr, ← hd]
  rfl

theorem mem_inProcessingOrder_pushAll {h : Header} :
    h ∈ (empty.pushAll hs).inProcessingOrder ↔ h ∈ hs := by
  rw [pushAll_empty, inProcessingOrder, List.mem_append, List.mem_filter, List.mem_filter]
  cases h.isUmbrella <;> simp

theorem value_derive_eq_foldlM (c : Catalog) :
    (c.derive fs).value =
      c.inProcessingOrder.foldlM (fun r h => (r.addHeader fs h).value) RuleSet.empty := by
  rw [← RuleSet.value_addHeaders_eq_foldlM, RuleSet.value_addHeaders_eq, value_derive_eq]
  simp only [RuleSet.empty_append]

theorem value_derive_eq_error_iff :
    (c.derive fs).value = .error e ↔
      ∃ before h rest, c.inProcessingOrder = before ++ h :: rest ∧
        (∀ g ∈ before, ∀ e', ¬ g.Fails fs e') ∧ h.Fails fs e := by
  simp only [← Header.exists_contribution_iff]
  simp only [← Header.contribution_eq_error_iff]
  rw [← mapM_eq_error_iff, value_derive_eq]
  cases c.inProcessingOrder.mapM (Header.contribution fs) with
  | ok rs => simp [Except.map]
  | error e' => simp [Except.map]

theorem exists_value_derive_iff :
    (∃ r, (c.derive fs).value = .ok r) ↔ ∀ h ∈ c.inProcessingOrder, ∀ e, ¬ h.Fails fs e := by
  simp only [← Header.exists_contribution_iff]
  rw [← exists_mapM_eq_ok_iff, value_derive_eq]
  cases c.inProcessingOrder.mapM (Header.contribution fs) with
  | ok rs => simp [Except.map]
  | error e => simp [Except.map]

section Scan

variable {config : Config} {root : Path} {files : List Found}

/-- What a scan pushes: the headers of the files that it comes to and that are not left out. -/
def headersFound (fs : FileSystem) (config : Config) (root : Path) : List Header :=
  match fs.locateFolder root with
  | .ok l =>
    (((fs.walkModules l root).filterMap Except.toOption).filter (isKept config)).map (headerOf root)
  | .error _ => []

theorem headersFound_of_walkModules {l : Location} (hroot : fs.locateFolder root = .ok l)
    (hwalk : fs.walkModules l root = files.map .ok) :
    headersFound fs config root = (files.filter (isKept config)).map (headerOf root) := by
  have hfiles : (files.map Except.ok).filterMap (@Except.toOption Problem Found) = files := by
    rw [List.filterMap_map]
    exact List.filterMap_some
  rw [headersFound, hroot]
  simp only [hwalk, hfiles]

theorem value_collect_eq_pushAll (c : Catalog) (h : ∀ f ∈ files, isName f.name = true) :
    (collect config root c (files.map .ok)).value =
      .ok (c.pushAll ((files.filter (isKept config)).map (headerOf root))) := by
  induction files generalizing c with
  | nil => rfl
  | cons f files ih =>
    rw [List.forall_mem_cons] at h
    rw [List.map_cons, value_collect_cons c h.1, ih _ h.2]
    cases hkept : isKept config f with
    | false => simp [hkept]
    | true => simp [hkept, pushAll]

theorem exists_walk_of_discover (h : (discover fs config root).value = .ok c) :
    ∃ l, ∃ files : List Found, fs.locateFolder root = .ok l ∧
      fs.walkModules l root = files.map .ok ∧ files.Pairwise Found.Before ∧
      ∀ f, f ∈ files ↔ fs.HoldsFile l root f := by
  obtain ⟨l, hroot, hfree⟩ := exists_of_discover_eq_ok h
  obtain ⟨files, hwalk⟩ := FileSystem.walkModules_of_not_stuckAt hroot hfree
  exact ⟨l, files, hroot, hwalk⟩

theorem eq_pushAll_of_discover (h : (discover fs config root).value = .ok c) :
    c = empty.pushAll (headersFound fs config root) := by
  obtain ⟨l, files, hroot, hwalk, -, hmem⟩ := exists_walk_of_discover h
  have hnames : ∀ f ∈ files, isName f.name = true := by
    intro f hf
    exact (isName_of_holdsFile ((hmem f).mp hf)).2
  rw [value_discover config hroot, hwalk, value_collect_eq_pushAll empty hnames] at h
  rw [headersFound_of_walkModules hroot hwalk]
  exact (Except.ok.inj h).symm

/-- A scan that has a catalog finds the class headers of its tree, in the order of a walk. -/
theorem headersFound_of_discover (h : (discover fs config root).value = .ok c) :
    ∃ l, ∃ files : List Found, fs.locateFolder root = .ok l ∧ files.Pairwise Found.Before ∧
      (∀ f, f ∈ files ↔ IsClassHeader fs config l root f) ∧
      headersFound fs config root = files.map (headerOf root) := by
  obtain ⟨l, files, hroot, hwalk, hsorted, hmem⟩ := exists_walk_of_discover h
  refine ⟨l, files.filter (isKept config), hroot, hsorted.filter _, ?_, ?_⟩
  · intro f
    rw [List.mem_filter, hmem, isClassHeader_iff]
  · exact headersFound_of_walkModules hroot hwalk

end Scan

/-- The headers that a catalog has been given, one after the other: by hand, or by a scan. -/
inductive Given : Catalog → List Header → Prop where
  | pushed (hs : List Header) : Given (empty.pushAll hs) hs
  | discovered {tree : FileSystem} {config : Config} {root : Path} {c : Catalog}
    (h : (discover tree config root).value = .ok c) : Given c (headersFound tree config root)

theorem Given.eq_pushAll (h : c.Given hs) : c = empty.pushAll hs := by
  cases h with
  | pushed hs => rfl
  | discovered h => exact eq_pushAll_of_discover h

/-- The headers that a catalog has been given stay in their order within each of its parts. Its
rules are those of the headers, added one by one in the order of processing to no rules, and the
first header there that cannot be read is told. So only the orders within the parts count. -/
theorem derive_of_given (fs : FileSystem) (hc : c.Given hs) :
    (c.regular = hs.filter (fun h => !h.isUmbrella) ∧ c.deferred = hs.filter (·.isUmbrella) ∧
      c.inProcessingOrder = c.regular ++ c.deferred ∧ c.size = hs.length) ∧
    (c.derive fs).value =
      c.inProcessingOrder.foldlM (fun r h => (r.addHeader fs h).value) RuleSet.empty ∧
    ((∃ r, (c.derive fs).value = .ok r) ↔ ∀ h ∈ hs, ∀ e, ¬ h.Fails fs e) ∧
    (∀ e, (c.derive fs).value = .error e ↔
      ∃ before h rest, c.inProcessingOrder = before ++ h :: rest ∧
        (∀ g ∈ before, ∀ e', ¬ g.Fails fs e') ∧ h.Fails fs e) ∧
    ∀ (d : Catalog) (ks : List Header), d.Given ks →
      ks.filter (fun h => !h.isUmbrella) = hs.filter (fun h => !h.isUmbrella) →
      ks.filter (·.isUmbrella) = hs.filter (·.isUmbrella) →
      d.derive fs = c.derive fs := by
  obtain rfl := hc.eq_pushAll
  have hparts := pushAll_empty hs
  have hsize : (empty.pushAll hs).size = hs.length := by
    apply (size_pushAll empty hs).trans
    exact Nat.zero_add hs.length
  refine ⟨⟨by rw [hparts], by rw [hparts], rfl, hsize⟩, value_derive_eq_foldlM _, ?_, ?_, ?_⟩
  · rw [exists_value_derive_iff]
    constructor
    · intro hall h hh
      apply hall h
      exact mem_inProcessingOrder_pushAll.mpr hh
    · intro hall h hh
      apply hall h
      exact mem_inProcessingOrder_pushAll.mp hh
  · intro e
    exact value_derive_eq_error_iff
  · intro d ks hd hregular hdeferred
    rw [hd.eq_pushAll, hparts, pushAll_empty, hregular, hdeferred]

/-- A module `r/m` with the header `a` and its umbrella header. -/
def oneOfEach : FileSystem :=
  ["a", "m"].foldl
    (fun fs n => fs.put [encode ['r'], encode ['m'], encode n.toList]
      (.file 0o644 (encode "#include \"x.h\"\n".toList)))
    (((FileSystem.empty []).put [encode ['r']] .folder).put [encode ['r'], encode ['m']] .folder)

def classHeader : Header := .ofPath (.ofString "r/m/a")

def moduleHeader : Header := .ofPath (.ofString "r/m/m")

/-- The umbrella header may arrive first, a scan may find them, and where no file is left the other
header is told. -/
theorem derive_oneOfEach :
    (discover oneOfEach .default (.ofString "r")).value = .ok ⟨[classHeader], [moduleHeader]⟩ ∧
      (empty.pushAll [moduleHeader, classHeader]).derive oneOfEach =
        (⟨[classHeader], [moduleHeader]⟩ : Catalog).derive oneOfEach ∧
      (∃ r, ((empty.pushAll [moduleHeader, classHeader]).derive oneOfEach).value = .ok r) ∧
      ((empty.pushAll [moduleHeader, classHeader]).derive (FileSystem.empty [])).value =
        .error (.io "Failed to read file: r/m/a" .notFound) := by
  have hd : (discover oneOfEach .default (.ofString "r")).value =
      .ok ⟨[classHeader], [moduleHeader]⟩ := by cbv
  have hclass : classHeader.isUmbrella = false := by cbv
  have hmodule : moduleHeader.isUmbrella = true := by cbv
  obtain ⟨⟨hregular, hdeferred, -⟩, -⟩ := derive_of_given oneOfEach (.discovered hd)
  obtain ⟨-, -, hread, -, horders⟩ :=
    derive_of_given oneOfEach (.pushed [moduleHeader, classHeader])
  obtain ⟨-, -, -, herror, -⟩ :=
    derive_of_given (FileSystem.empty []) (.pushed [moduleHeader, classHeader])
  have horder : (empty.pushAll [moduleHeader, classHeader]).inProcessingOrder =
      [classHeader, moduleHeader] := by
    simp [pushAll_empty, inProcessingOrder, hclass, hmodule]
  refine ⟨hd, (horders _ _ (.discovered hd) ?_ ?_).symm, ?_, ?_⟩
  · simp [← hregular, hclass, hmodule]
  · simp [← hdeferred, hclass, hmodule]
  · have hbytes : ∀ h ∈ [moduleHeader, classHeader], oneOfEach.readBytes h.path =
        .ok (encode "#include \"x.h\"\n".toList) := by
      rw [List.forall_mem_cons, List.forall_mem_singleton]
      exact ⟨by cbv, by cbv⟩
    apply hread.mpr
    rintro h hh e ⟨-, f, hf, -⟩
    cases (hbytes h hh).symm.trans hf
  · apply (herror _).mpr
    exact ⟨[], classHeader, [moduleHeader], horder, by simp, rfl, .notFound, by cbv, by cbv⟩

end Catalog

end IncludeMap
