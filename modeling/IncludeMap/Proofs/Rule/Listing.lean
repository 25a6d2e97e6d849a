import IncludeMap.Proofs.File.Listing
import IncludeMap.Proofs.Rule.Generate

/-! # A mapping does not depend on the order of listings

Where two file systems differ only in the order in which folders list their entries, a scan reports
the same headers or the same failure, the rules are the same, and a generation goes through the same
states, up to that order again.
-/
namespace IncludeMap
open File Text

variable {fs gs : FileSystem}

section Scan

variable (h : fs.Relisted gs)

include h

theorem Catalog.discover_relisted (config : Config) (root : Path) :
    discover gs config root = discover fs config root := by
  simp only [discover, h.locate, h.isFolder, h.walkModules]

theorem Header.privateHeaders_relisted (x : Header) :
    x.privateHeaders gs = x.privateHeaders fs := by
  simp only [privateHeaders, h.readLossy]

theorem RuleSet.addHeader_relisted (r : RuleSet) (x : Header) :
    r.addHeader gs x = r.addHeader fs x := by
  simp only [addHeader, Header.privateHeaders_relisted h]

theorem RuleSet.addHeaders_relisted (r : RuleSet) (xs : List Header) :
    r.addHeaders gs xs = r.addHeaders fs xs := by
  induction xs generalizing r with
  | nil => rfl
  | cons x xs ih => simp only [addHeaders, addHeader_relisted h, ih]

theorem Catalog.derive_relisted (c : Catalog) : c.derive gs = c.derive fs := by
  simp only [derive, RuleSet.addHeaders_relisted h]

end Scan

namespace Generator

theorem rulesFor_relisted (h : fs.Relisted gs) (g : Generator) (c : Catalog) :
    g.rulesFor gs c = g.rulesFor fs c := by
  rw [rulesFor, rulesFor, Catalog.derive_relisted h]

theorem buildRules_relisted (h : fs.Relisted gs) (g : Generator) (root : Path) :
    g.buildRules gs root = g.buildRules fs root := by
  simp only [buildRules, Catalog.discover_relisted h, rulesFor_relisted h]

theorem survey_relisted (h : fs.Relisted gs) (g : Generator) (root : Path) :
    g.survey gs root = g.survey fs root := by
  simp only [survey, Catalog.discover_relisted h, rulesFor_relisted h]

theorem generate_relisted (h : fs.Relisted gs) (g : Generator) (root output : Path) :
    (g.generate fs root output).Relisted (g.generate gs root output) := by
  rw [generate, generate, survey_relisted h]
  refine Effect.relisted_before _ fun x => ?_
  exact ((h.replaceFile output _).after _).after _

/-- Where the same entries are listed in other orders, a scan has the same catalog or the same
failure, the rules are the same, and a generation reports the same and leaves the same files. -/
theorem same_of_relisted (h : fs.Relisted gs) (g : Generator) (root output : Path) :
    (∀ config, Catalog.discover gs config root = Catalog.discover fs config root) ∧
      g.buildRules gs root = g.buildRules fs root ∧
      (g.generate gs root output).report = (g.generate fs root output).report ∧
      List.Forall₂ FileSystem.Relisted (g.generate fs root output).states
        (g.generate gs root output).states ∧
      ((g.generate fs root output).final fs).Relisted ((g.generate gs root output).final gs) ∧
      ∀ p, ((g.generate gs root output).final gs).readBytes p =
        ((g.generate fs root output).final fs).readBytes p := by
  have hgenerate := generate_relisted h g root output
  have hfinal := hgenerate.final h
  exact ⟨fun config => Catalog.discover_relisted h config root, buildRules_relisted h g root,
    hgenerate.report, hgenerate.states, hfinal, hfinal.readBytes⟩

/-- A module `r/m` that lists these names, each of them a link that leads nowhere. -/
def brokenLinks (names : List Name) : FileSystem :=
  names.foldl (fun fs n => fs.put [encode ['r'], encode ['m'], n] (.link (.ofString "x")))
    (((FileSystem.empty []).put [encode ['r']] .folder).put [encode ['r'], encode ['m']] .folder)

/-- Of two broken links a scan reports the first by name, whichever is listed first. -/
theorem discover_brokenLinks :
    (brokenLinks [encode ['b'], encode ['a']]).names [encode ['r'], encode ['m']] ≠
        (brokenLinks [encode ['a'], encode ['b']]).names [encode ['r'], encode ['m']] ∧
      ∀ names ∈ [[encode ['a'], encode ['b']], [encode ['b'], encode ['a']]],
        (Catalog.discover (brokenLinks names) plain.config (.ofString "r")).value =
          .error (.io "Failed to walk r/m/a" .notFound) := by
  have h : (brokenLinks [encode ['a'], encode ['b']]).Relisted
      (brokenLinks [encode ['b'], encode ['a']]) :=
    FileSystem.relisted_iff_perm.mpr ⟨rfl, by decide⟩
  have hsame := (same_of_relisted h plain (.ofString "r") (.ofString "o")).1 plain.config
  have hfirst : (Catalog.discover (brokenLinks [encode ['a'], encode ['b']]) plain.config
      (.ofString "r")).value = .error (.io "Failed to walk r/m/a" .notFound) := by cbv
  refine ⟨by decide, ?_⟩
  simp only [List.forall_mem_cons, List.not_mem_nil, false_implies, implies_true, and_true]
  exact ⟨hfirst, hsame ▸ hfirst⟩

end Generator

end IncludeMap
