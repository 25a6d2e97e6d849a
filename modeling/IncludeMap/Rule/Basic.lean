/-! # Rules

A symbol rule says which public header a symbol of user code asks for. An include rule says which
public header stands for a private one. The reader of a mapping takes the first rule that fits, so
the order of the rules counts.
-/
namespace IncludeMap

structure SymbolRule where
  symbol : String
  header : String
  deriving DecidableEq, Inhabited

structure IncludeRule where
  /-- The folder that the private header may be named with. -/
  module : String
  /-- The name of the private header, without its ending. -/
  included : String
  header : String
  deriving DecidableEq, Inhabited

@[ext] structure RuleSet where
  symbols : List SymbolRule
  includes : List IncludeRule
  deriving DecidableEq, Inhabited

namespace RuleSet

def empty : RuleSet := ⟨[], []⟩

def append (r s : RuleSet) : RuleSet :=
  ⟨r.symbols ++ s.symbols, r.includes ++ s.includes⟩

instance : Append RuleSet := ⟨append⟩

def size (r : RuleSet) : Nat := r.symbols.length + r.includes.length

def isEmpty (r : RuleSet) : Bool := r.symbols.isEmpty && r.includes.isEmpty

@[simp] theorem symbols_append (r s : RuleSet) : (r ++ s).symbols = r.symbols ++ s.symbols := rfl

@[simp] theorem includes_append (r s : RuleSet) :
    (r ++ s).includes = r.includes ++ s.includes := rfl

@[simp] theorem empty_append (r : RuleSet) : empty ++ r = r := rfl

@[simp] theorem append_empty (r : RuleSet) : r ++ empty = r := by
  show append r empty = r
  simp [append, empty]

theorem append_assoc (r s t : RuleSet) : r ++ s ++ t = r ++ (s ++ t) := by
  show append (append r s) t = append r (append s t)
  simp [append]

theorem isEmpty_iff {r : RuleSet} : r.isEmpty = true ↔ r = empty := by
  rcases r with ⟨ss, is⟩
  simp [isEmpty, empty]

end RuleSet

end IncludeMap
