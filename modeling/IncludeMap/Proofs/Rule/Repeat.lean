import IncludeMap.Proofs.File.Repeat
import IncludeMap.Proofs.Rule.Generate

/-! # A generation that is repeated

The document that a generation writes may lie in the tree that it scans. As long as no header leads
to the document, the next scan finds the same headers with the same contents, so the next generation
writes the same document again.
-/
namespace IncludeMap
open File Text Document

variable {fs gs : FileSystem} {config : Config} {root output : Path} {l x : Location}
  {content : Bytes} {c : Catalog}

namespace Catalog

theorem isClassHeader_iff_of_replaces (h : fs.Replaces gs x content)
    (hroot : fs.locateFolder root = .ok l) {f : Found}
    (hout : IsClassHeader gs config l root f → gs.locate (headerOf root f).path ≠ .ok x) :
    IsClassHeader gs config l root f ↔ IsClassHeader fs config l root f := by
  have hagree := h.agreeBut
  constructor
  · intro hf
    have hx := hout hf
    obtain ⟨hholds, hkept⟩ := isClassHeader_iff.mp hf
    refine isClassHeader_iff.mpr
      ⟨hagree.symm.holdsFile (hagree.locateFolder hroot) hholds fun k hk => ?_, hkept⟩
    have hne : k ≠ x := by
      rintro rfl
      exact hx hk
    rw [← h.elsewhere k hne]
    exact FileSystem.exists_node_of_locate hk
  · intro hf
    obtain ⟨hholds, hkept⟩ := isClassHeader_iff.mp hf
    exact isClassHeader_iff.mpr
      ⟨hagree.holdsFile hroot hholds fun k hk =>
        h.exists_node (FileSystem.exists_node_of_locate hk), hkept⟩

theorem discover_of_replaces (h : fs.Replaces gs x content)
    (hc : (discover fs config root).value = .ok c)
    (hout : ∀ d, (discover gs config root).value = .ok d →
      ∀ y ∈ d.inProcessingOrder, gs.locate y.path ≠ .ok x) :
    (discover gs config root).value = .ok c := by
  have hagree := h.agreeBut
  obtain ⟨l, hroot, hfree⟩ := exists_of_discover_eq_ok hc
  have hroot' := hagree.locateFolder hroot
  have hfree' := hagree.not_stuckAt hroot (fun _ => h.exists_node) hfree
  obtain ⟨regular, deferred, hvalue, hr, hd, hmemr, hmemd⟩ :=
    discover_of_not_stuckAt config hroot hfree
  obtain ⟨regular', deferred', hvalue', hr', hd', hmemr', hmemd'⟩ :=
    discover_of_not_stuckAt config hroot' hfree'
  have hsame : ∀ f, IsClassHeader gs config l root f ↔ IsClassHeader fs config l root f := by
    intro f
    refine isClassHeader_iff_of_replaces h hroot fun hf => hout _ hvalue' _ ?_
    rw [inProcessingOrder, ← List.map_append]
    refine List.mem_map_of_mem (List.mem_append.mpr ?_)
    by_cases hu : IsUmbrella f
    · exact .inr ((hmemd' f).mpr ⟨hf, hu⟩)
    · exact .inl ((hmemr' f).mpr ⟨hf, hu⟩)
  have hregular : regular' = regular :=
    eq_of_before hr' hr fun f => by rw [hmemr', hmemr, hsame]
  have hdeferred : deferred' = deferred :=
    eq_of_before hd' hd fun f => by rw [hmemd', hmemd, hsame]
  rw [hvalue', hregular, hdeferred, ← hvalue, hc]

end Catalog

namespace Generator

variable {g : Generator}

theorem rulesGiven_of_replaces (h : fs.Replaces gs x content)
    (hc : (Catalog.discover fs g.config root).value = .ok c)
    (hout : ∀ y ∈ c.inProcessingOrder, gs.locate y.path ≠ .ok x) :
    g.rulesGiven gs c = g.rulesGiven fs c := by
  obtain ⟨-, -, -, hall⟩ := Catalog.headers_of_discover hc
  have hrules : ∀ y ∈ c.inProcessingOrder, y.includeRules gs = y.includeRules fs := by
    intro y hy
    obtain ⟨-, -, bytes, hread⟩ := hall y hy
    obtain ⟨k, hk⟩ := FileSystem.exists_locate_of_readBytes hread
    have hne : k ≠ x := fun hx => hout y hy (hx ▸ h.locate hk)
    have hsame := h.agreeBut.readBytes_eq ⟨_, FileSystem.locate_eq_ok_iff.mp hk, rfl⟩ hne
    simp only [Header.includeRules, Header.content, hsame]
  rw [rulesGiven, rulesGiven, List.flatMap_congr hrules]

/-- A generation that has succeeded succeeds again with the same summary and leaves the file system
as it is, provided that no header of the tree leads to what it has written. -/
theorem generate_again {s : Summary} (h : (g.generate fs root output).report.value = .ok s)
    (hgs : (g.generate fs root output).final fs = gs) (hx : fs.Writes output x)
    (hout : ∀ c, (Catalog.discover gs g.config root).value = .ok c →
      ∀ y ∈ c.inProcessingOrder, gs.locate y.path ≠ .ok x) :
    (g.generate gs root output).report.value = .ok s ∧
      (g.generate gs root output).final gs = gs := by
  obtain ⟨c, r, hs, hreplace, rfl⟩ := value_generate_eq_ok_iff.mp h
  obtain ⟨hc, rfl⟩ := value_survey_eq_ok_iff.mp hs
  have hfinal : (fs.replaceFile output
      (encode (render (g.rulesGiven fs c)).toList)).final fs = gs := by
    rw [← hgs, Effect.final, Effect.final, (generate_of_survey output hs).1]
  obtain ⟨target, d, n, htarget, hlies, hreplaces⟩ := FileSystem.replaceFile_ok hreplace
  obtain rfl : d ++ [n] = x :=
    FileSystem.Writes.unique ⟨target, htarget, hlies.lookup_keep⟩ hx
  rw [hfinal] at hreplaces
  have hc' := Catalog.discover_of_replaces hreplaces hc hout
  have hs' : (g.survey gs root).value = .ok (c, g.rulesGiven fs c) :=
    value_survey_eq_ok_iff.mpr ⟨hc', (rulesGiven_of_replaces hreplaces hc (hout c hc')).symm⟩
  obtain ⟨hagain, hkept⟩ := FileSystem.replaceFile_again hreplace hfinal
  refine ⟨value_generate_eq_ok_iff.mpr ⟨c, _, hs', hagain, rfl⟩, ?_⟩
  rw [Effect.final, (generate_of_survey output hs').1]
  exact hkept

/-- The document may lie beside the header of the small tree, where its ending leaves it out of the
next scan. -/
theorem generate_again_smallTree :
    ∃ s gs, (plain.generate smallTree (.ofString "r") (.ofString "r/m/o.h")).report.value = .ok s ∧
      (plain.generate smallTree (.ofString "r") (.ofString "r/m/o.h")).final smallTree = gs ∧
      gs.exists? (.ofString "r/m/o.h") = true ∧
      (plain.generate gs (.ofString "r") (.ofString "r/m/o.h")).report.value = .ok s ∧
      (plain.generate gs (.ofString "r") (.ofString "r/m/o.h")).final gs = gs := by
  have hscan : (Catalog.discover smallTree plain.config (.ofString "r")).value =
      .ok ⟨[], [.ofPath (.ofString "r/m/m")]⟩ := by cbv
  have htarget : smallTree.pathBehind? FileSystem.maxHops (.ofString "r/m/o.h") =
      some (.ofString "r/m/o.h") := by cbv
  have hlies : smallTree.LiesIn (.ofString "r/m/o.h") [encode ['r'], encode ['m']]
      (encode ['o', '.', 'h']) :=
    ⟨[.down (encode ['r']), .down (encode ['m'])], by cbv, by cbv⟩
  have hnew : smallTree.node? ([encode ['r'], encode ['m']] ++ [encode ['o', '.', 'h']]) =
      none := by cbv
  have hreplace := FileSystem.replaceFile_eq htarget hlies (by rw [FileSystem.isFolder, hnew]; rfl)
  have hafter : ∀ content,
      let gs := smallTree.put ([encode ['r'], encode ['m']] ++ [encode ['o', '.', 'h']])
        (.file defaultMode content)
      (Catalog.discover gs plain.config (.ofString "r")).value =
          .ok ⟨[], [.ofPath (.ofString "r/m/m")]⟩ ∧
        gs.locate (.ofString "r/m/m") = .ok [encode ['r'], encode ['m'], encode ['m']] ∧
        gs.exists? (.ofString "r/m/o.h") = true :=
    fun content => ⟨by cbv, by cbv, by cbv⟩
  rw [hnew] at hreplace
  have hs := value_survey_eq_ok_iff.mpr ⟨hscan, rfl⟩
  generalize plain.rulesGiven smallTree ⟨[], [.ofPath (.ofString "r/m/m")]⟩ = r at hs
  obtain ⟨hvalue, hgs⟩ := hreplace (encode (render r).toList)
  obtain ⟨hscan', hlocate, hexists⟩ := hafter (encode (render r).toList)
  have h := value_generate_eq_ok_iff.mpr ⟨_, _, hs, hvalue, rfl⟩
  rw [Effect.final, ← (generate_of_survey _ hs).1] at hgs
  refine ⟨_, _, h, hgs, hexists, generate_again h hgs ⟨_, htarget, hlies.lookup_keep⟩ ?_⟩
  intro c hc y hy hx
  cases hscan'.symm.trans hc
  cases List.mem_singleton.mp hy
  exact absurd (Except.ok.inj (hlocate.symm.trans hx)) (by decide)

end Generator

end IncludeMap
