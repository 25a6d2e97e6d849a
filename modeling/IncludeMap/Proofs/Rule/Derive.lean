import IncludeMap.Rule.Derive
import Mathlib

/-! # Rules header by header

What a row of headers contributes is put together from what each of them contributes, in their
order. The first header that has no list of names ends the row with its problem. For a catalog that
is the order of processing, although its two parts are treated one after the other.
-/
namespace IncludeMap
open File

section First

variable {α β : Type} {f : α → Except Problem β} {x : α} {xs : List α} {e : Problem}

theorem mapM_cons_of_error (hx : f x = .error e) : (x :: xs).mapM f = .error e := by
  rw [List.mapM_cons, hx]
  rfl

theorem mapM_cons_of_ok {b : β} (hx : f x = .ok b) :
    (x :: xs).mapM f = (xs.mapM f).map (b :: ·) := by
  rw [List.mapM_cons, hx]
  cases xs.mapM f <;> rfl

theorem mapM_eq_error_iff :
    xs.mapM f = .error e ↔
      ∃ before x rest, xs = before ++ x :: rest ∧ (∀ y ∈ before, ∃ b, f y = .ok b) ∧
        f x = .error e := by
  constructor
  · intro h
    induction xs with
    | nil => cases h
    | cons x xs ih =>
      cases hx : f x with
      | error e' =>
        rw [mapM_cons_of_error hx] at h
        cases h
        exact ⟨[], x, xs, rfl, by simp, hx⟩
      | ok b =>
        have hrest : xs.mapM f = .error e := by
          rw [mapM_cons_of_ok hx] at h
          cases hxs : xs.mapM f with
          | ok bs => rw [hxs] at h; cases h
          | error e' => rw [hxs] at h; exact h
        obtain ⟨before, y, rest, rfl, hbefore, hy⟩ := ih hrest
        refine ⟨x :: before, y, rest, rfl, fun z hz => ?_, hy⟩
        rcases List.mem_cons.mp hz with rfl | hz
        · exact ⟨b, hx⟩
        · exact hbefore z hz
  · rintro ⟨before, x, rest, rfl, hbefore, hx⟩
    induction before with
    | nil => exact mapM_cons_of_error hx
    | cons y before ih =>
      obtain ⟨b, hb⟩ := hbefore y List.mem_cons_self
      rw [List.cons_append, mapM_cons_of_ok hb,
        ih fun z hz => hbefore z (List.mem_cons_of_mem _ hz)]
      rfl

end First

namespace RuleSet

/-- Rule sets one behind the other. -/
def concat (rs : List RuleSet) : RuleSet := rs.foldl (· ++ ·) empty

theorem foldl_append (r : RuleSet) (rs : List RuleSet) : rs.foldl (· ++ ·) r = r ++ concat rs := by
  induction rs generalizing r with
  | nil => exact (append_empty r).symm
  | cons s rs ih =>
    rw [concat, List.foldl_cons, List.foldl_cons, ih, ih (empty ++ s), empty_append, append_assoc]

theorem concat_cons (r : RuleSet) (rs : List RuleSet) : concat (r :: rs) = r ++ concat rs := by
  rw [concat, List.foldl_cons, empty_append, foldl_append]

theorem concat_append (rs ss : List RuleSet) : concat (rs ++ ss) = concat rs ++ concat ss := by
  rw [concat, List.foldl_append, foldl_append]
  rfl

end RuleSet

variable {fs : FileSystem}

/-- What a header contributes, if it has a list of names. -/
def Header.contribution (fs : FileSystem) (h : Header) : Except Problem RuleSet :=
  (h.privateHeaders fs).value.map h.rules

theorem RuleSet.value_addHeader_eq (r : RuleSet) (h : Header) :
    (r.addHeader fs h).value = (h.contribution fs).map (r ++ ·) := by
  rw [addHeader, Header.contribution]
  simp only [Report.value_bind, Report.value_say, Report.value_pure]
  cases (h.privateHeaders fs).value <;> rfl

theorem RuleSet.value_addHeaders_eq (r : RuleSet) (hs : List Header) :
    (r.addHeaders fs hs).value =
      (hs.mapM (Header.contribution fs)).map fun rs => r ++ concat rs := by
  induction hs generalizing r with
  | nil => exact congrArg Except.ok (append_empty r).symm
  | cons h hs ih =>
    rw [addHeaders, Report.value_bind, value_addHeader_eq]
    simp only [ih]
    cases hh : h.contribution fs with
    | error e =>
      rw [mapM_cons_of_error hh]
      rfl
    | ok s =>
      rw [mapM_cons_of_ok hh]
      show (hs.mapM (Header.contribution fs)).map (fun rs => r ++ s ++ concat rs) = _
      cases hs.mapM (Header.contribution fs) with
      | error e => rfl
      | ok rs =>
        show Except.ok (r ++ s ++ concat rs) = Except.ok (r ++ concat (s :: rs))
        rw [concat_cons, append_assoc]

/-- A catalog gives what its headers contribute in the order of processing. -/
theorem Catalog.value_derive_eq (c : Catalog) :
    (c.derive fs).value =
      (c.inProcessingOrder.mapM (Header.contribution fs)).map RuleSet.concat := by
  rw [derive, inProcessingOrder, List.mapM_append]
  simp only [Report.value_bind, Report.value_pure, RuleSet.value_addHeaders_eq]
  cases c.regular.mapM (Header.contribution fs) with
  | error e => rfl
  | ok rs =>
    cases c.deferred.mapM (Header.contribution fs) with
    | error e => rfl
    | ok ss => exact congrArg Except.ok (RuleSet.concat_append rs ss).symm

end IncludeMap
