import IncludeMap.Proofs.Header.Discover
import IncludeMap.Proofs.Text.Utf8
import Mathlib

/-! # Hidden entries

An entry is hidden when its name is a text that starts with a dot. A name that is no text is never
hidden, whatever its first byte is, so a scan also finds headers below such names.
-/
namespace IncludeMap
open File Text
namespace Catalog

variable {fs : FileSystem} {config : Config} {root : Path} {c : Catalog}

theorem shown_iff {n : Name} :
    (∀ s, decode? n ≠ some ('.' :: s)) ↔ (n.head? = some dot → decode? n = none) := by
  have hfirst {s : List Char} (hs : decode? n = some s) :
      s.head? = some '.' ↔ n.head? = some dot := head?_of_decode? hs (by decide) (by decide)
  constructor
  · intro h hdot
    cases hs : decode? n with
    | none => rfl
    | some s =>
      obtain ⟨t, rfl⟩ := List.head?_eq_some_iff.mp ((hfirst hs).mpr hdot)
      exact absurd hs (h t)
  · intro h s hs
    cases hs.symm.trans (h ((hfirst hs).mp rfl))

/-- The headers of a catalog are those of the files that are not left out. A name that starts with a
dot leaves a file out exactly when it is a text. -/
theorem mem_discover_iff (h : (discover fs config root).value = .ok c) (x : Header) :
    x ∈ c.inProcessingOrder ↔
      ∃ l f, fs.locateFolder root = .ok l ∧ fs.HoldsFile l root f ∧ x = headerOf root f ∧
        (∀ n ∈ [f.module, f.name], n.head? = some dot → decode? n = none) ∧
        (∀ s ∈ config.excludedSuffixes, ¬ s.toList <:+ decodeLossy f.name) ∧
        Header.nameText (stem f.name) ∉ config.excludedClasses := by
  obtain ⟨l, hroot, hfree⟩ := exists_of_discover_eq_ok h
  obtain ⟨regular, deferred, hvalue, -, -, hregular, hdeferred⟩ :=
    discover_of_not_stuckAt config hroot hfree
  cases h.symm.trans hvalue
  have hmem : ∀ f, f ∈ regular ++ deferred ↔ IsClassHeader fs config l root f := by
    intro f
    rw [List.mem_append, hregular, hdeferred, ← and_or_left]
    exact and_iff_left (Decidable.em (IsUmbrella f)).symm
  rw [inProcessingOrder, ← List.map_append, List.mem_map]
  constructor
  · rintro ⟨f, hf, rfl⟩
    obtain ⟨hholds, hm, hn, hs, hc⟩ := (hmem f).mp hf
    refine ⟨l, f, hroot, hholds, rfl, ?_, hs, hc⟩
    intro n hn'
    rcases List.mem_pair.mp hn' with rfl | rfl
    · exact shown_iff.mp hm
    · exact shown_iff.mp hn
  · rintro ⟨l', f, hl', hholds, rfl, hdot, hs, hc⟩
    cases hroot.symm.trans hl'
    refine ⟨f, (hmem f).mpr ⟨hholds, shown_iff.mpr ?_, shown_iff.mpr ?_, hs, hc⟩, rfl⟩
    · exact hdot f.module List.mem_cons_self
    · exact hdot f.name (List.mem_cons_of_mem _ List.mem_cons_self)

/-- A module `m` with a header `x`, a hidden file, and one whose name has no text behind its dot. -/
def dottedTree : FileSystem :=
  let folder : Location := [encode ['r'], encode ['m']]
  (((((FileSystem.empty []).put [encode ['r']] .folder).put folder .folder).put
    (folder ++ [encode ['x']]) (.file 0o644 [])).put
    (folder ++ [encode ['.', 'x']]) (.file 0o644 [])).put
    (folder ++ [[dot, 0xff]]) (.file 0o644 [])

def dottedCatalog : Catalog :=
  ⟨[headerOf (.ofString "r") ⟨encode ['m'], [dot, 0xff]⟩,
    headerOf (.ofString "r") ⟨encode ['m'], encode ['x']⟩], []⟩

theorem discover_dottedTree :
    (discover dottedTree .default (.ofString "r")).value = .ok dottedCatalog := by cbv

theorem mem_dottedCatalog :
    (discover dottedTree .default (.ofString "r")).value = .ok dottedCatalog ∧
      ∀ x ∈ dottedCatalog.inProcessingOrder, ∃ f, x = headerOf (.ofString "r") f ∧
        ∀ n ∈ [f.module, f.name], n.head? = some dot → decode? n = none := by
  refine ⟨discover_dottedTree, fun x hx => ?_⟩
  obtain ⟨_, f, -, -, hx, hdot, -⟩ := (mem_discover_iff discover_dottedTree x).mp hx
  exact ⟨f, hx, hdot⟩

/-- A scan finds a header whose name starts with a dot. -/
theorem exists_dot_in_dottedCatalog :
    (discover dottedTree .default (.ofString "r")).value = .ok dottedCatalog ∧
      ∃ x ∈ dottedCatalog.inProcessingOrder, ∃ n, x.path.fileName? = some n ∧
        n.head? = some dot := by
  have hname : isName [dot, 0xff] = true := by decide
  have hpath := ((Path.ofString "r").child (encode ['m'])).fileName?_child hname
  exact ⟨discover_dottedTree, _, List.mem_cons_self, _, hpath, rfl⟩

end Catalog

end IncludeMap
