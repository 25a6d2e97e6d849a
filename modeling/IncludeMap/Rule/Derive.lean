import IncludeMap.Header.Catalog

/-! # Rules of a scan

A header contributes a symbol rule for its class, and an include rule for each private header that
it includes. The rules of umbrella headers follow all others.
-/
namespace IncludeMap
open File

/-- The rules that a header contributes when it includes these private headers. -/
def Header.rules (h : Header) (names : List String) : RuleSet :=
  ⟨[⟨h.className, h.className⟩], names.map (⟨h.moduleName, ·, h.className⟩)⟩

def RuleSet.addHeader (fs : FileSystem) (r : RuleSet) (h : Header) : Report RuleSet := do
  let names ← h.privateHeaders fs
  Report.say .debug
    s!"{h.moduleName}/{h.className}: 1 symbol rule, {names.length} include rule(s)"
  pure (r ++ h.rules names)

def RuleSet.addHeaders (fs : FileSystem) : RuleSet → List Header → Report RuleSet
  | r, [] => pure r
  | r, h :: hs => do
    let r ← r.addHeader fs h
    addHeaders fs r hs

namespace Catalog

def derive (fs : FileSystem) (c : Catalog) : Report RuleSet := do
  let regular ← RuleSet.empty.addHeaders fs c.regular
  let deferred ← RuleSet.empty.addHeaders fs c.deferred
  pure (regular ++ deferred)

/-- Headers after an attempt to read them one after the other: it ends at the first that cannot be
read. -/
def afterReading (fs : FileSystem) : List Header → List Header
  | [] => []
  | h :: hs =>
    if h.isReadable fs then h.afterReading fs :: afterReading fs hs else h :: hs

def afterDeriving (fs : FileSystem) (c : Catalog) : Catalog :=
  ⟨afterReading fs c.regular,
    if c.regular.all (·.isReadable fs) then afterReading fs c.deferred else c.deferred⟩

end Catalog

end IncludeMap
