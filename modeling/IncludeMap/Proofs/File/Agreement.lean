import IncludeMap.Proofs.File.Chain

/-! # File systems that agree but at one location

Where neither of two file systems has more than a file at one location and they agree everywhere
else, every lookup that ends somewhere in one of them ends at the same location in the other.
-/
namespace IncludeMap.File
open Text
namespace FileSystem

/-- The file systems agree but at one location, and there neither has more than a file. -/
structure AgreeBut (fs gs : FileSystem) (x : Location) : Prop where
  workplace : gs.workplace = fs.workplace
  node : ∀ k, k ≠ x → gs.node? k = fs.node? k
  left : ∀ n, fs.node? x = some n → ∃ mode content, n = .file mode content
  right : ∀ n, gs.node? x = some n → ∃ mode content, n = .file mode content

namespace AgreeBut

variable {fs gs : FileSystem} {x : Location}

theorem symm (h : fs.AgreeBut gs x) : gs.AgreeBut fs x :=
  ⟨h.workplace.symm, fun k hk => (h.node k hk).symm, h.right, h.left⟩

theorem isFolder (h : fs.AgreeBut gs x) (k : Location) : gs.isFolder k = fs.isFolder k := by
  by_cases hk : k = x
  · have hfs : fs.isFolder x = false := isFolder_eq_false_iff.mpr fun hx => by
      obtain ⟨_, _, hn⟩ := h.left _ hx
      cases hn
    have hgs : gs.isFolder x = false := isFolder_eq_false_iff.mpr fun hx => by
      obtain ⟨_, _, hn⟩ := h.right _ hx
      cases hn
    rw [hk, hfs, hgs]
  · rw [FileSystem.isFolder, FileSystem.isFolder, h.node k hk]

theorem node_of_link (h : fs.AgreeBut gs x) {k : Location} {target : Path}
    (hk : fs.node? k = some (.link target)) : gs.node? k = some (.link target) := by
  rw [h.node, hk]
  rintro rfl
  obtain ⟨_, _, hn⟩ := h.left _ hk
  cases hn

/-- A lookup that ends somewhere or runs out of links does the same in both. -/
theorem map_walk (h : fs.AgreeBut gs x) {last : Last} {links : Nat} {l : Location}
    {steps : List Step} (hf : ∀ f, fs.walk last links l steps = .error f → f = .linkLoop) :
    (gs.walk last links l steps).map Landing.location =
      (fs.walk last links l steps).map Landing.location := by
  have hl' : ∀ {l}, ¬ fs.isFolder l = false → ¬ gs.isFolder l = false := fun hl => h.isFolder _ ▸ hl
  fun_induction walk fs last links l steps with
  | case1 links l => rw [walk]
  | case2 => exact absurd (hf _ rfl) (by decide)
  | case3 _ _ _ hl ih | case4 _ _ _ hl ih | case5 _ _ _ hl ih =>
    rw [walk, if_neg (hl' hl)]
    exact ih hf
  | case6 => exact absurd (hf _ rfl) (by decide)
  | case7 links l hl n hn hc =>
    rw [walk, if_neg (hl' hl), if_neg hc]
    by_cases hx : l ++ [n] = x
    · cases hg : gs.node? (l ++ [n]) with
      | none => rfl
      | some node =>
        obtain ⟨mode, content, rfl⟩ := h.right node (hx ▸ hg)
        simp only [walk]
        rfl
    · rw [h.node _ hx, hn]
      rfl
  | case8 => exact absurd (hf _ rfl) (by decide)
  | case9 links l rest hl n hc target hn hk =>
    rw [walk, if_neg (hl' hl), if_neg hc, h.node_of_link hn]
    simp only [hk, and_self, if_true]
  | case10 l rest hl n hc target hn hk =>
    rw [walk, if_neg (hl' hl), if_neg hc, h.node_of_link hn]
    simp only [hk, if_false]
  | case11 l rest hl n hc target hn hk links ih =>
    rw [walk_down_of_link (hl' hl) hc (h.node_of_link hn) hk]
    exact ih hf
  | case12 links l rest hl n hc node hnode hn ih =>
    by_cases hx : l ++ [n] = x
    · rw [walk, if_neg (hl' hl), if_neg hc]
      obtain ⟨mode, content, rfl⟩ := h.left node (hx ▸ hn)
      have hr : rest = [] := by
        by_contra hr
        have hfolder : fs.isFolder (l ++ [n]) = false := isFolder_eq_false_iff.mpr (by simp [hn])
        have hloop := hf _ (walk_of_not_folder last links hr hfolder)
        exact absurd hloop (by decide)
      subst hr
      cases hg : gs.node? (l ++ [n]) with
      | none =>
        simp [walk]
        rfl
      | some node =>
        obtain ⟨mode, content, rfl⟩ := h.right node (hx ▸ hg)
        exact ih hf
    · rw [walk_down_of_node (hl' hl) hc ((h.node _ hx).trans hn) hnode]
      exact ih hf

theorem map_lookup (h : fs.AgreeBut gs x) {last : Last} {p : Path}
    (hf : ∀ f, fs.lookup last p = .error f → f = .linkLoop) :
    (gs.lookup last p).map Landing.location = (fs.lookup last p).map Landing.location := by
  unfold lookup at hf ⊢
  rw [h.workplace]
  split
  · rfl
  · next hp =>
    rw [if_neg hp] at hf
    exact h.map_walk hf

theorem lookup_of_ok (h : fs.AgreeBut gs x) {last : Last} {p : Path} {a : Landing}
    (ha : fs.lookup last p = .ok a) :
    ∃ b, gs.lookup last p = .ok b ∧ b.location = a.location := by
  have hf : ∀ f, fs.lookup last p = .error f → f = .linkLoop := fun f hf => by
    rw [ha] at hf
    cases hf
  have hm := h.map_lookup hf
  rw [ha] at hm
  cases hb : gs.lookup last p with
  | error f =>
    rw [hb] at hm
    cases hm
  | ok b =>
    rw [hb] at hm
    exact ⟨b, rfl, Except.ok.inj hm⟩

theorem walkFolder (h : fs.AgreeBut gs x) {l d : Location} {steps : List Step}
    (hd : fs.walkFolder l steps = .ok d) : gs.walkFolder l steps = .ok d := by
  rw [walkFolder_eq_ok_iff, ← walk_follow_eq_existing_iff] at hd ⊢
  obtain ⟨hw, hd⟩ := hd
  rw [← h.isFolder] at hd
  refine ⟨?_, hd⟩
  have hf : ∀ f, fs.walk .follow maxLinks l steps = .error f → f = .linkLoop := fun f hf => by
    rw [hw] at hf
    cases hf
  have hm := h.map_walk hf
  rw [hw] at hm
  cases hb : gs.walk .follow maxLinks l steps with
  | error f =>
    rw [hb] at hm
    cases hm
  | ok b =>
    rw [hb] at hm
    have hloc : b.location = d := Except.ok.inj hm
    cases b with
    | existing e => rw [← hloc]; rfl
    | absent e n =>
      have hnone := node?_of_walk_absent hb
      rw [isFolder_iff, ← hloc] at hd
      exact absurd (hd.symm.trans hnone) (by simp)

/-- A file that is put where the two may differ leaves them agreeing. -/
theorem put (h : fs.AgreeBut gs x) (mode : Nat) (content : Bytes) :
    fs.AgreeBut (gs.put x (.file mode content)) x := by
  cases ha : gs.accepts x (.file mode content) with
  | false =>
    rw [FileSystem.put, dif_neg (by simp [ha])]
    exact h
  | true =>
    refine ⟨(workplace_put gs x _).trans h.workplace, fun k hk => ?_, h.left, fun n hn => ?_⟩
    · rw [node?_put ha, if_neg hk, h.node k hk]
    · rw [node?_put ha, if_pos rfl] at hn
      exact ⟨mode, content, (Option.some.inj hn).symm⟩

theorem readBytes (h : fs.AgreeBut gs x) {p : Path} {a : Landing}
    (ha : fs.lookup .follow p = .ok a) : gs.readBytes p = contentOf (gs.node? a.location) := by
  obtain ⟨b, hb, hl⟩ := h.lookup_of_ok ha
  rw [readBytes_of_lookup hb, hl]

end AgreeBut

theorem AgreeBut.linkAt? {fs gs : FileSystem} {x : Location} (h : fs.AgreeBut gs x)
    {p target : Path} (hp : fs.linkAt? p = some target) : gs.linkAt? p = some target := by
  obtain ⟨l, hl, hn⟩ := linkAt?_eq_some_iff.mp hp
  obtain ⟨b, hb, hloc⟩ := h.lookup_of_ok hl
  have hn' := h.node_of_link hn
  cases b with
  | existing k =>
    cases hloc
    exact linkAt?_eq_some_iff.mpr ⟨_, hb, hn'⟩
  | absent folder name =>
    have hnone := (holds_of_lookup hb).2
    rw [show folder ++ [name] = l from hloc, hn'] at hnone
    cases hnone

end FileSystem

end IncludeMap.File
