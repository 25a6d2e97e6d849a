import IncludeMap.Generate
import IncludeMap.Proofs.Header.Discover

/-! # The rules for a tree

The rules for a tree are the overrides, and after them those of the catalog in the order in which
its headers are processed. A scan that has a catalog has rules: each of its headers can be read.
-/
namespace IncludeMap
open File Text

namespace Header

def content (fs : FileSystem) (h : Header) : Bytes :=
  match fs.readBytes h.path with
  | .ok bytes => bytes
  | .error _ => []

def symbolRule (h : Header) : SymbolRule := ⟨h.className, h.className⟩

def includeRules (fs : FileSystem) (h : Header) : List IncludeRule :=
  (localIncludes (String.ofList (decodeLossy (h.content fs)))).map
    fun included => ⟨h.moduleName, included, h.className⟩

/-- The file has not been read, and can be. -/
def IsUnread (fs : FileSystem) (h : Header) : Prop :=
  h.known = none ∧ ∃ bytes, fs.readBytes h.path = .ok bytes

theorem readBytes_of_isUnread {fs : FileSystem} {h : Header} (hu : h.IsUnread fs) :
    fs.readBytes h.path = .ok (h.content fs) := by
  obtain ⟨-, bytes, hb⟩ := hu
  rw [content, hb]

theorem value_privateHeaders {fs : FileSystem} {h : Header} (hu : h.IsUnread fs) :
    (h.privateHeaders fs).value =
      .ok (localIncludes (String.ofList (decodeLossy (h.content fs)))) := by
  rw [privateHeaders, hu.1]
  simp only [Report.value_bind, FileSystem.value_readLossy, readBytes_of_isUnread hu]
  rfl

end Header

variable {fs : FileSystem}

theorem RuleSet.value_addHeader (r : RuleSet) {h : Header} (hu : h.IsUnread fs) :
    (r.addHeader fs h).value =
      .ok ⟨r.symbols ++ [h.symbolRule], r.includes ++ h.includeRules fs⟩ := by
  rw [addHeader]
  simp only [Report.value_bind, Header.value_privateHeaders hu]
  rfl

theorem RuleSet.value_addHeaders (r : RuleSet) {hs : List Header}
    (hu : ∀ h ∈ hs, h.IsUnread fs) :
    (r.addHeaders fs hs).value =
      .ok ⟨r.symbols ++ hs.map Header.symbolRule,
        r.includes ++ hs.flatMap (Header.includeRules fs)⟩ := by
  induction hs generalizing r with
  | nil => simp [addHeaders]
  | cons h hs ih =>
    have ih := fun r => ih r fun g hg => hu g (List.mem_cons_of_mem h hg)
    rw [addHeaders, Report.value_bind, value_addHeader r (hu h List.mem_cons_self)]
    refine (ih _).trans ?_
    simp [List.append_assoc]

theorem Catalog.value_derive {c : Catalog} (hu : ∀ h ∈ c.inProcessingOrder, h.IsUnread fs) :
    (c.derive fs).value =
      .ok ⟨c.inProcessingOrder.map Header.symbolRule,
        c.inProcessingOrder.flatMap (Header.includeRules fs)⟩ := by
  have hr := RuleSet.empty.value_addHeaders fun h hh => hu h (List.mem_append_left c.deferred hh)
  have hd := RuleSet.empty.value_addHeaders fun h hh => hu h (List.mem_append_right c.regular hh)
  rw [derive]
  simp only [Report.value_bind, hr, hd]
  simp [inProcessingOrder, RuleSet.empty]
  rfl

/-- A scan reads no header, but it finds only headers that can be read. -/
theorem Catalog.isUnread_of_discover {config : Config} {root : Path} {c : Catalog}
    (hc : (discover fs config root).value = .ok c) : ∀ h ∈ c.inProcessingOrder, h.IsUnread fs := by
  obtain ⟨-, -, -, hall⟩ := headers_of_discover hc
  intro h hh
  exact ⟨(hall h hh).1, (hall h hh).2.2⟩

/-- There are rules for a tree exactly when it has a catalog: the overrides first, then those of the
regular headers and at last those of the umbrella headers, none of them of an excluded class. -/
theorem Generator.value_buildRules (g : Generator) (fs : FileSystem) (root : Path) :
    match (Catalog.discover fs g.config root).value with
    | .error e => (g.buildRules fs root).value = .error e
    | .ok c =>
      (g.buildRules fs root).value =
        .ok ⟨builtinOverrides.symbols ++ g.config.extraSymbols ++
            c.regular.map Header.symbolRule ++ c.deferred.map Header.symbolRule,
          namespaceOverride :: g.config.extraIncludes ++
            c.regular.flatMap (Header.includeRules fs) ++
            c.deferred.flatMap (Header.includeRules fs)⟩ ∧
      (∀ h ∈ c.regular, h.className ≠ h.moduleName) ∧
      (∀ h ∈ c.deferred, h.className = h.moduleName) ∧
      (c.regular ++ c.deferred).Nodup ∧
      ∀ h ∈ c.regular ++ c.deferred,
        fs.readBytes h.path = .ok (h.content fs) ∧ h.className ∉ g.config.excludedClasses := by
  cases hc : (Catalog.discover fs g.config root).value with
  | error e =>
    simp only [buildRules, Report.value_bind, hc]
    rfl
  | ok c =>
    obtain ⟨hnodup, hregular, hdeferred, hall⟩ := Catalog.headers_of_discover hc
    have hunread := Catalog.isUnread_of_discover hc
    refine ⟨?_, hregular, hdeferred, hnodup, fun h hh => ?_⟩
    · have hrules : (g.buildRules fs root).value = (g.rulesFor fs c).value := by
        rw [buildRules, Report.value_bind, hc]
        rfl
      rw [hrules, rulesFor, Report.value_bind, Catalog.value_derive hunread]
      refine congrArg Except.ok (RuleSet.ext ?_ ?_)
      · simp [Config.overrides, Catalog.inProcessingOrder]
      · simp [Config.overrides, Catalog.inProcessingOrder, builtinOverrides]
    · exact ⟨Header.readBytes_of_isUnread (hunread h hh), (hall h hh).2.1⟩

end IncludeMap
