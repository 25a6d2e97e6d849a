import IncludeMap.File.Reading
import IncludeMap.File.Replace
import IncludeMap.Proofs.File.Walk

/-! # File systems that list their folders in other orders

Two file systems with the same nodes differ at most in the order in which a folder lists its
entries. No operation tells them apart: questions have the same answers, and changes lead to file
systems that have the same nodes again.
-/
namespace IncludeMap.File
open Text
namespace FileSystem

/-- The second file system has the nodes of the first, listed in any order. -/
structure Relisted (fs gs : FileSystem) : Prop where
  workplace : gs.workplace = fs.workplace
  node : ∀ l, gs.node? l = fs.node? l

theorem relisted_iff_perm {fs gs : FileSystem} :
    fs.Relisted gs ↔ gs.workplace = fs.workplace ∧ gs.entries.Perm fs.entries := by
  constructor
  · rintro ⟨hw, hnode⟩
    refine ⟨hw, (List.perm_ext_iff_of_nodup gs.nodup.of_map fs.nodup.of_map).mpr ?_⟩
    rintro ⟨l, n⟩
    rw [mem_entries_iff, mem_entries_iff, hnode]
  · rintro ⟨hw, hperm⟩
    refine ⟨hw, fun l => ?_⟩
    by_cases hl : l = []
    · rw [hl, node?_nil, node?_nil]
    · refine Option.ext fun n => ?_
      have hiff : (l, n) ∈ gs.entries ↔ (l, n) ∈ fs.entries := hperm.mem_iff
      simpa [mem_entries_iff, hl] using hiff

namespace Relisted

variable {fs gs : FileSystem}

theorem isFolder (h : fs.Relisted gs) (l : Location) : gs.isFolder l = fs.isFolder l := by
  rw [FileSystem.isFolder, FileSystem.isFolder, h.node]

theorem names (h : fs.Relisted gs) (l : Location) : (gs.names l).Perm (fs.names l) := by
  refine (List.perm_ext_iff_of_nodup (gs.nodup_names l) (fs.nodup_names l)).mpr fun n => ?_
  rw [mem_names_iff, mem_names_iff, h.node]

theorem sortedNames (h : fs.Relisted gs) (l : Location) : gs.sortedNames l = fs.sortedNames l := by
  have hperm : (gs.sortedNames l).Perm (fs.sortedNames l) :=
    (List.mergeSort_perm _ nameLe).trans ((h.names l).trans (List.mergeSort_perm _ nameLe).symm)
  refine hperm.eq_of_pairwise ?_ (gs.pairwise_sortedNames l) (fs.pairwise_sortedNames l)
  intro a b _ _ hab hba
  exact absurd (List.lt_trans hab hba) (List.lt_irrefl a)

theorem walk (h : fs.Relisted gs) (last : Last) (links : Nat) (l : Location) (steps : List Step) :
    gs.walk last links l steps = fs.walk last links l steps := by
  fun_induction FileSystem.walk fs last links l steps with
  | case1 => rw [FileSystem.walk]
  | case2 links l s rest hl =>
    rw [FileSystem.walk.eq_def]
    simp [h.isFolder, hl]
  | case3 _ _ _ hl ih | case4 _ _ _ hl ih | case5 _ _ _ hl ih =>
    rw [FileSystem.walk, h.isFolder, if_neg hl, ih]
  | case6 links l rest hl n hc => rw [FileSystem.walk, h.isFolder, if_neg hl, if_pos hc]
  | case7 links l hl n hn hc =>
    rw [FileSystem.walk, h.isFolder, if_neg hl, if_neg hc, h.node, hn]
    rfl
  | case8 links l rest hl n hc hn hr =>
    rw [FileSystem.walk, h.isFolder, if_neg hl, if_neg hc, h.node, hn]
    exact if_neg hr
  | case9 links l rest hl n hc target hn hk =>
    rw [FileSystem.walk, h.isFolder, if_neg hl, if_neg hc, h.node, hn]
    exact if_pos hk
  | case10 l rest hl n hc target hn hk =>
    rw [FileSystem.walk, h.isFolder, if_neg hl, if_neg hc, h.node, hn]
    exact if_neg hk
  | case11 l rest hl n hc target hn hk links ih =>
    rw [walk_down_of_link (h.isFolder l ▸ hl) hc ((h.node _).trans hn) hk, ih]
  | case12 links l rest hl n hc node hnode hn ih =>
    rw [walk_down_of_node (h.isFolder l ▸ hl) hc ((h.node _).trans hn) hnode, ih]

section Questions

variable (h : fs.Relisted gs)

include h

theorem lookup (last : Last) (p : Path) : gs.lookup last p = fs.lookup last p := by
  rw [FileSystem.lookup, FileSystem.lookup, h.workplace, h.walk]

theorem locate (p : Path) : gs.locate p = fs.locate p := by
  rw [FileSystem.locate, FileSystem.locate, h.lookup]

theorem locateFolder (p : Path) : gs.locateFolder p = fs.locateFolder p := by
  simp only [FileSystem.locateFolder, h.locate, h.isFolder]

theorem nodeAt? (p : Path) : gs.nodeAt? p = fs.nodeAt? p := by
  simp only [FileSystem.nodeAt?, h.locate, h.node]

theorem linkAt? (p : Path) : gs.linkAt? p = fs.linkAt? p := by
  simp only [FileSystem.linkAt?, ownNode?, h.lookup, h.node]

theorem readBytes (p : Path) : gs.readBytes p = fs.readBytes p := by
  simp only [FileSystem.readBytes, h.locate, h.node]

theorem readLossy (p : Path) : gs.readLossy p = fs.readLossy p := by
  rw [FileSystem.readLossy, FileSystem.readLossy, h.readBytes]

theorem visit (above : List Location) (l : Location) (p : Path) :
    gs.visit above l p = fs.visit above l p := by
  simp only [FileSystem.visit, h.node, h.locate, h.isFolder]

theorem walkModules (root : Location) (p : Path) :
    gs.walkModules root p = fs.walkModules root p := by
  simp only [FileSystem.walkModules, filesIn, h.sortedNames, h.visit]

theorem pathBehind? (hops : Nat) (p : Path) : gs.pathBehind? hops p = fs.pathBehind? hops p := by
  induction hops generalizing p with
  | zero => rfl
  | succ hops ih => simp only [FileSystem.pathBehind?, h.linkAt?, ih]

theorem freshName (folder : Location) (p : Path) :
    gs.freshName folder p = fs.freshName folder p := by
  have hused := List.Perm.append_left p.fileName?.toList (h.names folder)
  simp only [FileSystem.freshName, hused.length_eq, List.contains_eq_mem, hused.mem_iff]

theorem renamed (p : Path) : gs.renamed p = fs.renamed p := by
  simp only [FileSystem.renamed, walkFolder, h.workplace, h.walk, h.isFolder]

theorem modeAt? (p : Path) : gs.modeAt? p = fs.modeAt? p := by
  simp only [FileSystem.modeAt?, h.nodeAt?]

theorem accepts (l : Location) (n : Node) : gs.accepts l n = fs.accepts l n := by
  simp only [FileSystem.accepts, h.isFolder]

end Questions

theorem put (h : fs.Relisted gs) (l : Location) (n : Node) :
    (fs.put l n).Relisted (gs.put l n) := by
  have haccepts := h.accepts l n
  cases ha : fs.accepts l n with
  | false =>
    rw [FileSystem.put, dif_neg (by simp [ha]), FileSystem.put, dif_neg (by simp [haccepts, ha])]
    exact h
  | true =>
    refine ⟨by rw [workplace_put, workplace_put, h.workplace], fun k => ?_⟩
    rw [node?_put ha, node?_put (haccepts.trans ha), h.node]

theorem erase (h : fs.Relisted gs) {l : Location} (hl : l ≠ []) :
    (fs.erase l).Relisted (gs.erase l) := by
  refine ⟨h.workplace, fun k => ?_⟩
  rw [node?_erase hl, node?_erase hl, h.node]

/-- A rename is refused in both file systems for the same reason, or it succeeds in both. -/
theorem rename (h : fs.Relisted gs) {source : Location} (hs : source ≠ []) (p : Path) :
    (∃ f, fs.rename source p = .error f ∧ gs.rename source p = .error f) ∨
      ∃ a b, fs.rename source p = .ok a ∧ gs.rename source p = .ok b ∧ a.Relisted b := by
  rw [FileSystem.rename, FileSystem.rename, h.renamed, h.node]
  split
  · next l n _ _ =>
    rw [h.isFolder]
    split
    · exact .inl ⟨_, rfl, rfl⟩
    · exact .inr ⟨_, _, rfl, rfl, (h.erase hs).put l n⟩
  · exact .inl ⟨_, rfl, rfl⟩
  · exact .inl ⟨_, rfl, rfl⟩

end Relisted

end FileSystem

namespace Effect

open FileSystem

variable {α β : Type} {fs gs : FileSystem}

/-- The effects have the same report, and the states of the one are those of the other, listed in
any order. -/
structure Relisted (e d : Effect α) : Prop where
  report : d.report = e.report
  states : List.Forall₂ FileSystem.Relisted e.states d.states

theorem Relisted.after {e d : Effect α} (h : e.Relisted d) (g : α → Report β) :
    (e.after g).Relisted (d.after g) :=
  ⟨congrArg (· >>= g) h.report, h.states⟩

theorem relisted_before (x : Report α) {f g : α → Effect β} (h : ∀ a, (f a).Relisted (g a)) :
    (before x f).Relisted (before x g) := by
  unfold before
  cases x.value with
  | error p => exact ⟨rfl, .nil⟩
  | ok a => exact ⟨by simp only [(h a).report], (h a).states⟩

theorem Relisted.final {e d : Effect α} (h : e.Relisted d) (hfs : fs.Relisted gs) :
    (e.final fs).Relisted (d.final gs) := by
  obtain ⟨-, hstates⟩ := h
  unfold Effect.final
  generalize e.states = ss at hstates
  generalize d.states = ts at hstates
  induction hstates generalizing fs gs with
  | nil => exact hfs
  | cons hab _ ih =>
    rw [List.getLast?_cons, List.getLast?_cons]
    exact ih hab

end Effect

namespace FileSystem.Relisted

variable {fs gs : FileSystem}

theorem replaceThrough (h : fs.Relisted gs) (target : Path) {temp : Location} (ht : temp ≠ [])
    (content : Bytes) :
    (fs.replaceThrough target temp content).Relisted (gs.replaceThrough target temp content) := by
  have hcreated := h.put temp (.file defaultMode [])
  unfold FileSystem.replaceThrough
  simp only [hcreated.modeAt? target]
  have hpermitted := hcreated.put temp
    (.file (((fs.put temp (.file defaultMode [])).modeAt? target).getD defaultMode) [])
  have hwritten := hpermitted.put temp
    (.file (((fs.put temp (.file defaultMode [])).modeAt? target).getD defaultMode) content)
  rcases hwritten.rename ht target with ⟨f, hfs, hgs⟩ | ⟨a, b, hfs, hgs, hmoved⟩
  · rw [hfs, hgs]
    exact ⟨rfl, .cons hcreated (.cons hpermitted (.cons hwritten (.cons (hwritten.erase ht) .nil)))⟩
  · rw [hfs, hgs]
    exact ⟨rfl, .cons hcreated (.cons hpermitted (.cons hwritten (.cons hmoved .nil)))⟩

/-- A replacement does the same in both file systems. -/
theorem replaceFile (h : fs.Relisted gs) (p : Path) (content : Bytes) :
    (fs.replaceFile p content).Relisted (gs.replaceFile p content) := by
  unfold FileSystem.replaceFile
  rw [h.pathBehind?]
  split
  · exact ⟨rfl, .nil⟩
  · next target _ =>
    simp only [h.locateFolder]
    split
    · rw [workplacePath, workplacePath, h.workplace]
      exact ⟨rfl, .nil⟩
    · next folder _ =>
      rw [h.freshName]
      exact h.replaceThrough target (List.append_ne_nil_of_right_ne_nil _ (List.cons_ne_nil _ _))
        content

end FileSystem.Relisted

end IncludeMap.File
