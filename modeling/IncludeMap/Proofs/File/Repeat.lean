import IncludeMap.Proofs.File.Overwrite
import IncludeMap.Proofs.File.Walk

/-! # A replacement that is repeated

A file that is written changes neither the links nor the folders, so a walk visits what it visited
before, but for an entry that is new. Replacing the file by the same content once more leaves the
file system as it is, down to the order in which folders list their entries.
-/
namespace IncludeMap.File
open Text
namespace FileSystem

variable {fs gs : FileSystem} {x k d root : Location} {p : Path} {content : Bytes}

theorem putEntry_of_lookup {l : Location} {n : Node} {es : List (Location × Node)}
    (h : es.lookup l = some n) : putEntry l n es = es := by
  induction es with
  | nil => cases h
  | cons e es ih =>
    obtain ⟨m, node⟩ := e
    by_cases hm : m = l
    · subst hm
      rw [List.lookup_cons_self, Option.some.injEq] at h
      rw [putEntry, if_pos rfl, h]
    · rw [List.lookup_cons, beq_eq_false_iff_ne.mpr (Ne.symm hm)] at h
      rw [putEntry, if_neg hm, ih h]

theorem put_of_node? {n : Node} (h : fs.node? x = some n) : fs.put x n = fs := by
  by_cases ha : fs.accepts x n = true
  · have hx : x ≠ [] := by
      rintro rfl
      cases ha
    rw [put, dif_pos ha]
    rw [node?, if_neg hx] at h
    exact eq_of_entries rfl (putEntry_of_lookup h)
  · rw [put, dif_neg ha]

/-- A replacement of the path writes at the location. -/
def Writes (fs : FileSystem) (p : Path) (l : Location) : Prop :=
  ∃ target, fs.pathBehind? maxHops p = some target ∧
    (fs.lookup .keep target).map Landing.location = .ok l

theorem Writes.unique {l m : Location} (hl : fs.Writes p l) (hm : fs.Writes p m) : l = m := by
  obtain ⟨target, ht, hl⟩ := hl
  obtain ⟨target', ht', hm⟩ := hm
  cases ht.symm.trans ht'
  exact Except.ok.inj (hl.symm.trans hm)

namespace AgreeBut

variable (h : fs.AgreeBut gs x)

include h

theorem locate (hp : fs.locate p = .ok k) (hk : ∃ node, gs.node? k = some node) :
    gs.locate p = .ok k := by
  obtain ⟨b, hb, hl⟩ := h.lookup_of_ok (locate_eq_ok_iff.mp hp)
  obtain ⟨node, hnode⟩ := hk
  cases b with
  | existing l =>
    cases hl
    exact locate_eq_ok_iff.mpr hb
  | absent folder name =>
    have hnone := (holds_of_lookup hb).2
    rw [show folder ++ [name] = k from hl, hnode] at hnone
    cases hnone

theorem locateFolder (hd : fs.locateFolder p = .ok d) : gs.locateFolder p = .ok d := by
  rw [locateFolder_eq_ok_iff] at hd ⊢
  rw [h.workplace]
  exact ⟨hd.1, h.walkFolder hd.2⟩

theorem linkAt?_eq (p : Path) : gs.linkAt? p = fs.linkAt? p :=
  Option.ext fun _ => ⟨h.symm.linkAt?, h.linkAt?⟩

theorem pathBehind?_eq (hops : Nat) (p : Path) : gs.pathBehind? hops p = fs.pathBehind? hops p := by
  induction hops generalizing p with
  | zero => rfl
  | succ hops ih => simp only [pathBehind?, h.linkAt?_eq, ih]

theorem ne_of_locateFolder_child {n : Name} {node : Node} (hp : fs.locateFolder p = .ok root)
    (hn : fs.node? (root ++ [n]) = some node) (hd : fs.locateFolder (p.child n) = .ok d) :
    root ++ [n] ≠ x := by
  rintro rfl
  obtain ⟨mode, content, rfl⟩ := h.left node hn
  obtain ⟨hl, hfolder⟩ := locateFolder_eq_ok_iff_locate.mp hd
  cases hl.symm.trans (locate_child hp hn (by simp))
  rw [FileSystem.isFolder, hn] at hfolder
  cases hfolder

theorem visits {v : List Name} {above : List Location} (hroot : fs.locateFolder p = .ok root)
    (hv : fs.Visits root p v k above) (hk : ∃ node, gs.node? k = some node) :
    gs.Visits root p v k above := by
  cases hv with
  | module _ =>
    obtain ⟨_, hm⟩ := hk
    exact .module hm
  | file hm hd hn =>
    obtain ⟨_, hn'⟩ := hk
    have hne := h.ne_of_locateFolder_child hroot hm hd
    exact .file ((h.node _ hne).trans hm) (h.locateFolder hd) hn'

theorem not_stuckAt (hroot : fs.locateFolder p = .ok root)
    (hkeep : ∀ k, (∃ node, fs.node? k = some node) → ∃ node, gs.node? k = some node)
    (hfree : ∀ v f, ¬ fs.StuckAt root p v f) (v : List Name) (f : Fault) :
    ¬ gs.StuckAt root p v f := by
  rintro ⟨k, above, hv, target, hk, hstuck⟩
  have hlink := h.symm.node_of_link hk
  have hvisits := h.symm.visits (h.locateFolder hroot) hv ⟨_, hlink⟩
  rcases hstuck with hf | ⟨rfl, a, ha, hloc⟩
  · cases hl : fs.locate (pathOf p v) with
    | error e => exact hfree v e ⟨k, above, hvisits, target, hlink, .inl hl⟩
    | ok l =>
      cases hf.symm.trans (h.locate hl (hkeep l (exists_node_of_locate hl)))
  · exact hfree v .cycle
      ⟨k, above, hvisits, target, hlink, .inr ⟨rfl, a, ha, h.symm.locateFolder hloc⟩⟩

theorem holdsFile {f : Found} (hroot : fs.locateFolder p = .ok root)
    (hf : fs.HoldsFile root p f)
    (hk : ∀ k, fs.locate ((p.child f.module).child f.name) = .ok k →
      ∃ node, gs.node? k = some node) : gs.HoldsFile root p f := by
  obtain ⟨⟨l, above, hv⟩, k, hl, hfile⟩ := hf
  refine ⟨⟨l, above, h.visits hroot hv ?_⟩, k, h.locate hl (hk k hl), by rw [h.isFolder, hfile]⟩
  obtain ⟨q, e, n, node, rfl, hq, he, hn⟩ := hv.entry hroot
  by_cases hx : e ++ [n] = x
  · obtain ⟨mode, content, rfl⟩ := h.left node (hx ▸ hn)
    refine hk _ ?_
    rw [show (p.child f.module).child f.name = q.child n from hq]
    exact locate_child he hn (by simp)
  · exact ⟨node, (h.node _ hx).trans hn⟩

end AgreeBut

namespace Replaces

theorem exists_node (h : fs.Replaces gs x content) (hk : ∃ node, fs.node? k = some node) :
    ∃ node, gs.node? k = some node := by
  by_cases hx : k = x
  · obtain ⟨mode, hn, -⟩ := h.written
    exact ⟨_, hx ▸ hn⟩
  · obtain ⟨node, hn⟩ := hk
    exact ⟨node, (h.elsewhere k hx).trans hn⟩

theorem locate (h : fs.Replaces gs x content) (hp : fs.locate p = .ok k) :
    gs.locate p = .ok k :=
  h.agreeBut.locate hp (h.exists_node (exists_node_of_locate hp))

end Replaces

/-- A replacement that succeeds does so again, and then it changes nothing. -/
theorem replaceFile_again (h : (fs.replaceFile p content).report.value = .ok ())
    (hgs : (fs.replaceFile p content).final fs = gs) :
    (gs.replaceFile p content).report.value = .ok () ∧
      (gs.replaceFile p content).final gs = gs := by
  obtain ⟨target, d, n, htarget, hlies, hreplaces⟩ := replaceFile_ok h
  rw [hgs] at hreplaces
  have hagree := hreplaces.agreeBut
  obtain ⟨mode, hwritten, -⟩ := hreplaces.written
  have hf : gs.isFolder (d ++ [n]) = false := isFolder_eq_false_iff.mpr (by simp [hwritten])
  obtain ⟨hvalue, hfinal⟩ := replaceFile_eq ((hagree.pathBehind?_eq maxHops p).trans htarget)
    (hlies.of_agreeBut hagree) hf content
  refine ⟨hvalue, hfinal.trans ?_⟩
  rw [hwritten, keptMode, put_of_node? hwritten]

end FileSystem

end IncludeMap.File
