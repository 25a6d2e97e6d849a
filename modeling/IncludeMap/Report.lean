import IncludeMap.Problem

/-! # Reports

An operation answers with a value or a problem, and reports what it does on the way in lines that
have a level. The lines never influence the answer: `value_bind` says that the answers of two
operations in sequence depend on their answers alone.
-/
namespace IncludeMap

inductive Level where
  | error
  | warn
  | info
  | debug
  | trace
  deriving DecidableEq

/-- The levels from the most urgent one on. -/
def Level.rank : Level → Nat
  | .error => 1
  | .warn => 2
  | .info => 3
  | .debug => 4
  | .trace => 5

structure Line where
  level : Level
  text : String
  deriving DecidableEq

structure Report (α : Type) where
  value : Except Problem α
  lines : List Line

namespace Report

def fail {α : Type} (p : Problem) : Report α := ⟨.error p, []⟩

def say (level : Level) (text : String) : Report Unit := ⟨.ok (), [⟨level, text⟩]⟩

def andThen {α β : Type} (x : Report α) (f : α → Report β) : Report β :=
  match x.value with
  | .ok a => ⟨(f a).value, x.lines ++ (f a).lines⟩
  | .error p => ⟨.error p, x.lines⟩

instance : Monad Report where
  pure a := ⟨.ok a, []⟩
  bind := andThen

@[simp] theorem value_fail {α : Type} (p : Problem) : (fail p : Report α).value = .error p := rfl

@[simp] theorem value_say (level : Level) (text : String) : (say level text).value = .ok () := rfl

@[simp] theorem value_pure {α : Type} (a : α) : (pure a : Report α).value = .ok a := rfl

@[simp] theorem value_bind {α β : Type} (x : Report α) (f : α → Report β) :
    (x >>= f).value = x.value >>= fun a => (f a).value := by
  show (andThen x f).value = _
  unfold andThen
  cases h : x.value <;> rfl

@[simp] theorem value_map {α β : Type} (g : α → β) (x : Report α) :
    (g <$> x).value = g <$> x.value := by
  show (andThen x (fun a => ⟨.ok (g a), []⟩)).value = _
  unfold andThen
  cases h : x.value <;> rfl

end Report

end IncludeMap
