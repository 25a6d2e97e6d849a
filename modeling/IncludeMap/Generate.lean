import IncludeMap.Document.Write
import IncludeMap.Rule.Derive
import IncludeMap.Rule.Override

/-! # Generating a mapping

A generator scans an include tree under an acceptable configuration. The overrides come first, then
the rules of regular headers, then those of umbrella headers. Nothing is written unless the whole
tree can be scanned and every header can be read.
-/
namespace IncludeMap
open File

structure Generator where
  config : Config
  valid : config.validate = .ok ()

namespace Generator

def ofConfig (c : Config) : Except Problem Generator :=
  match h : c.validate with
  | .ok () => .ok ⟨c, h⟩
  | .error p => .error p

theorem config_ofConfig {c : Config} {g : Generator} (h : ofConfig c = .ok g) : g.config = c := by
  unfold ofConfig at h
  split at h
  · cases h
    rfl
  · simp at h

theorem ofConfig_config (g : Generator) : ofConfig g.config = .ok g := by
  unfold ofConfig
  split
  · rfl
  · next h =>
    rw [g.valid] at h
    cases h

theorem ofConfig_eq_error_iff {c : Config} {p : Problem} :
    ofConfig c = .error p ↔ c.validate = .error p := by
  unfold ofConfig
  split
  · next h => simp [h]
  · next h => simp [h]

/-- The rules for a catalog, with the overrides before them. -/
def rulesFor (g : Generator) (fs : FileSystem) (c : Catalog) : Report RuleSet := do
  let derived ← c.derive fs
  pure (g.config.overrides ++ derived)

def buildRules (g : Generator) (fs : FileSystem) (root : Path) : Report RuleSet := do
  let c ← Catalog.discover fs g.config root
  g.rulesFor fs c

structure Summary where
  headersScanned : Nat
  umbrellaHeaders : Nat
  symbolRules : Nat
  includeRules : Nat
  output : Path
  deriving DecidableEq

def Summary.totalRules (s : Summary) : Nat := s.symbolRules + s.includeRules

def summarize (c : Catalog) (r : RuleSet) (output : Path) : Summary :=
  ⟨c.size, c.deferred.length, r.symbols.length, r.includes.length, output⟩

def survey (g : Generator) (fs : FileSystem) (root : Path) : Report (Catalog × RuleSet) := do
  Report.say .info s!"Generating Qt mappings from {root.display}"
  let c ← Catalog.discover fs g.config root
  let r ← g.rulesFor fs c
  pure (c, r)

def generate (g : Generator) (fs : FileSystem) (root output : Path) : Effect Summary :=
  Effect.before (g.survey fs root) fun (c, r) =>
    (Document.write fs output r).after fun _ => pure (summarize c r output)

end Generator

end IncludeMap
