import IncludeMap.File.Replace
import IncludeMap.Proofs.File.Lookup

/-! # Chains of links

Following the links at the end of a path one by one, as paths, leads to the same place as one lookup
of the path, unless that lookup runs out of links. The steps in front of a link lead to the folder
that the steps of its target start in, and they are those of the parent.
-/
namespace IncludeMap.File
open Text
namespace FileSystem

variable {fs : FileSystem} {p target : Path} {before : List Step} {n : Name}

theorem lookup_of_endsIn (h : p.EndsIn before n) {last : Last} (hlast : last ≠ .create) :
    fs.lookup last p =
      (fs.advance maxLinks (startOf p fs.workplace) before).bind fun s =>
        fs.walk last s.1 s.2 [.down n] := by
  rw [lookup_of_bytes_ne_nil fs last (Path.bytes_ne_nil_of_endsIn h), h]
  exact fs.walk_append hlast _ _ _ (List.cons_ne_nil _ _)

theorem exists_name_of_walk {last : Last} (hlast : last ≠ .create) {links : Nat} {l : Location}
    {steps : List Step} {a : Landing} (hl : fs.isFolder l = true)
    (h : fs.walk last links l steps = .ok a) (ha : fs.isFolder a.location = false) :
    ∃ before n k d, steps = before ++ [.down n] ∧ fs.advance links l before = .ok (k, d) ∧
      fs.isFolder d = true ∧ fs.walk last k d [.down n] = .ok a := by
  have hnot : ∀ {d}, fs.isFolder d = true → a ≠ .existing d := by
    rintro d hd rfl
    cases hd.symm.trans ha
  rcases List.eq_nil_or_concat steps with rfl | ⟨before, s, rfl⟩
  · rw [walk, Except.ok.injEq] at h
    exact absurd h.symm (hnot hl)
  · rw [List.concat_eq_append] at h ⊢
    rw [walk_append fs hlast _ _ _ (List.cons_ne_nil s [])] at h
    cases hb : fs.advance links l before with
    | error f =>
      rw [hb] at h
      cases h
    | ok kd =>
      obtain ⟨k, d⟩ := kd
      rw [hb] at h
      replace h : fs.walk last k d [s] = .ok a := h
      have hd := isFolder_of_walk (List.cons_ne_nil s []) h
      have hd' : ¬ fs.isFolder d = false := by simp [hd]
      cases s with
      | stay =>
        rw [walk, if_neg hd', walk, Except.ok.injEq] at h
        exact absurd h.symm (hnot hd)
      | closing =>
        rw [walk, if_neg hd', walk, Except.ok.injEq] at h
        exact absurd h.symm (hnot hd)
      | up =>
        rw [walk, if_neg hd', walk, Except.ok.injEq] at h
        exact absurd h.symm (hnot (isFolder_dropLast_of_isFolder hd))
      | down n => exact ⟨before, n, k, d, rfl, hb, hd, h⟩

theorem endsIn_of_linkAt? (h : fs.linkAt? p = some target) :
    ∃ before n k d, p.EndsIn before n ∧
      fs.advance maxLinks (startOf p fs.workplace) before = .ok (k, d) ∧ fs.isFolder d = true ∧
      fs.node? (d ++ [n]) = some (.link target) := by
  obtain ⟨l, hl, hn⟩ := linkAt?_eq_some_iff.mp h
  have hplain : fs.isFolder l = false := isFolder_eq_false_iff.mpr (by simp [hn])
  have hstart := isFolder_of_lookup hl
  rw [lookup_of_bytes_ne_nil fs _ (bytes_ne_nil_of_lookup hl)] at hl
  obtain ⟨before, n, k, d, hs, ha, hd, hlast⟩ :=
    exists_name_of_walk (by decide) hstart hl hplain
  refine ⟨before, n, k, d, hs, ha, hd, ?_⟩
  rw [walk_keep_down hd, Except.ok.injEq] at hlast
  split at hlast
  · cases hlast
    exact hn
  · cases hlast

theorem bytes_ne_nil_of_behindLink (hp : p.EndsIn before n) {after : List Step} {m : Name}
    (he : (behindLink p target).EndsIn after m) : target.bytes ≠ [] := by
  obtain ⟨parent, _, hparent, -⟩ := Path.hasParent_of_endsIn hp
  rw [behindLink, hparent] at he
  cases ht : target.isAbsolute with
  | true =>
    simp only [ht, if_true] at he
    exact Path.bytes_ne_nil_of_endsIn he
  | false =>
    simp only [ht, Bool.false_eq_true, if_false] at he
    exact Path.bytes_ne_nil_of_endsIn_join ht he

/-- Following a link by its path starts where following it in a lookup does, with no more links
followed. -/
theorem walk_behindLink (hp : p.EndsIn before n) (ht : target.bytes ≠ []) {links k : Nat}
    {d : Location} (ha : fs.advance links (startOf p fs.workplace) before = .ok (k, d)) :
    ∃ m, k ≤ m ∧
      fs.walk .follow links (startOf (behindLink p target) fs.workplace)
          (behindLink p target).steps =
        fs.walk .follow m (startOf target d) target.steps := by
  obtain ⟨parent, _, hparent, habs, -, hbefore, -⟩ := Path.hasParent_of_endsIn hp
  have hb : behindLink p target = if target.isAbsolute then target else parent.join target := by
    rw [behindLink, hparent]
  rw [hb]
  cases habsolute : target.isAbsolute with
  | true =>
    refine ⟨links, le_of_advance ha, ?_⟩
    simp only [startOf, habsolute, if_true]
  | false =>
    have hts : target.steps ≠ [] := by
      rw [Path.steps_eq]
      exact List.append_ne_nil_of_left_ne_nil (Path.plainSteps_ne_nil habsolute ht) _
    have hstart : startOf (parent.join target) fs.workplace = startOf p fs.workplace := by
      rw [startOf, startOf, Path.isAbsolute_join habsolute, habs]
    refine ⟨k, Nat.le_refl k, ?_⟩
    rw [if_neg Bool.false_ne_true, hstart, Path.steps_join habsolute ht,
      walk_append fs (by decide) _ _ _ hts,
      advance_of_append_idle (fun _ => idle_of_mem_replicate) (hbefore ▸ ha)]
    simp only [startOf, habsolute, Bool.false_eq_true, if_false]
    rfl

theorem lookup_behindLink (h : fs.linkAt? p = some target) {after : List Step} {m : Name}
    (he : (behindLink p target).EndsIn after m) :
    fs.lookup .follow p = .error .linkLoop ∨
      fs.lookup .follow p = fs.lookup .follow (behindLink p target) := by
  obtain ⟨before, n, k, d, hp, ha, hd, hn⟩ := endsIn_of_linkAt? h
  obtain ⟨links, hk, hbehind⟩ := walk_behindLink hp (bytes_ne_nil_of_behindLink hp he) ha
  have hlookup : fs.lookup .follow p = fs.walk .follow k d [.down n] := by
    rw [lookup_of_endsIn hp (by decide), ha]
    rfl
  rw [hlookup, lookup_of_bytes_ne_nil fs _ (Path.bytes_ne_nil_of_endsIn he), hbehind,
    walk_follow_link hd hn]
  cases k with
  | zero => exact .inl rfl
  | succ k =>
    rcases fs.walk_of_le .follow k (startOf target d) target.steps with hloop | hmore
    · exact .inl hloop
    · exact .inr (hmore links (Nat.le_of_succ_le hk)).symm

/-- Following the links at the end of a path one by one leads where its lookup leads. -/
theorem lookup_pathBehind? {hops : Nat} (h : fs.pathBehind? hops p = some target)
    (he : target.EndsIn before n) :
    (∃ before n, p.EndsIn before n) ∧
      (fs.lookup .follow p = .error .linkLoop ∨
        fs.lookup .follow p = fs.lookup .follow target) := by
  induction hops generalizing p with
  | zero => cases h
  | succ hops ih =>
    rw [pathBehind?] at h
    cases hl : fs.linkAt? p with
    | none =>
      rw [hl] at h
      cases h
      exact ⟨⟨before, n, he⟩, .inr rfl⟩
    | some t =>
      rw [hl] at h
      obtain ⟨⟨after, m, hb⟩, ih⟩ := ih h
      obtain ⟨before, n, _, _, hp, -⟩ := endsIn_of_linkAt? hl
      refine ⟨⟨before, n, hp⟩, ?_⟩
      rcases lookup_behindLink hl hb with hloop | heq
      · exact .inl hloop
      · rw [heq]
        exact ih

theorem walkFolder_eq_ok_iff {l d : Location} {steps : List Step} :
    fs.walkFolder l steps = .ok d ↔
      (∃ k, fs.advance maxLinks l steps = .ok (k, d)) ∧ fs.isFolder d = true := by
  rw [← walk_follow_eq_existing_iff]
  unfold walkFolder
  constructor
  · intro h
    split at h
    · next l' hl' =>
      split at h
      · next hd =>
        cases h
        exact ⟨hl', hd⟩
      · cases h
    · cases h
    · cases h
  · rintro ⟨hl, hd⟩
    rw [hl]
    exact if_pos hd

theorem locateFolder_eq_ok_iff {d : Location} :
    fs.locateFolder p = .ok d ↔
      p.bytes ≠ [] ∧ fs.walkFolder (startOf p fs.workplace) p.steps = .ok d := by
  rw [walkFolder_eq_ok_iff, ← walk_follow_eq_existing_iff]
  unfold locateFolder
  constructor
  · intro h
    split at h
    · next l hl =>
      split at h
      · next hd =>
        cases h
        have hlookup := locate_eq_ok_iff.mp hl
        have hp := bytes_ne_nil_of_lookup hlookup
        rw [lookup_of_bytes_ne_nil fs _ hp] at hlookup
        exact ⟨hp, hlookup, hd⟩
      · cases h
    · cases h
  · rintro ⟨hp, hl, hd⟩
    rw [← lookup_of_bytes_ne_nil fs _ hp, ← locate_eq_ok_iff] at hl
    rw [hl]
    exact if_pos hd

theorem lookup_child {d : Location} (h : fs.locateFolder p = .ok d) (hn : isName n = true) :
    ∃ links, fs.lookup .follow (p.child n) = fs.walk .follow links d [.down n] := by
  obtain ⟨-, hw⟩ := locateFolder_eq_ok_iff.mp h
  obtain ⟨⟨k, hk⟩, hd⟩ := walkFolder_eq_ok_iff.mp hw
  have hplain : fs.advance maxLinks (startOf p fs.workplace) p.plainSteps = .ok (k, d) := by
    rcases p.steps_eq_plainSteps_or with hs | hs
    · rwa [hs] at hk
    · rw [hs] at hk
      exact advance_of_append_idle (fun t ht => .inr (List.mem_singleton.mp ht)) hk
  refine ⟨k, ?_⟩
  have hstart : startOf (p.child n) fs.workplace = startOf p fs.workplace := by
    rw [startOf, startOf, p.isAbsolute_child hn]
  rw [lookup_of_endsIn (p.endsIn_child hn) (by decide), hstart, hplain]
  rfl

theorem locateFolder_folderOf (h : p.EndsIn before n) {d : Location}
    (hd : fs.walkFolder (startOf p fs.workplace) before = .ok d) :
    fs.locateFolder (folderOf p) = .ok d := by
  obtain ⟨parent, _, hparent, habs, hsteps, hbefore, hempty⟩ := Path.hasParent_of_endsIn h
  obtain ⟨⟨k, hk⟩, hfolder⟩ := walkFolder_eq_ok_iff.mp hd
  have hfolderOf : folderOf p = if parent.bytes = [] then ⟨[dot]⟩ else parent := by
    rw [folderOf, hparent]
  rw [locateFolder_eq_ok_iff, walkFolder_eq_ok_iff, hfolderOf]
  by_cases hb : parent.bytes = []
  · have ha : p.isAbsolute = false := by rw [← habs, Path.isAbsolute, hb]; rfl
    rw [hempty hb, advance, startOf, ha] at hk
    cases hk
    replace hfolder : fs.isFolder fs.workplace = true := hfolder
    have hstay : fs.advance maxLinks fs.workplace [.stay] = .ok (maxLinks, fs.workplace) := by
      rw [advance, if_neg (by simp [hfolder]), advance]
    rw [if_pos hb]
    exact ⟨List.cons_ne_nil dot [], ⟨maxLinks, hstay⟩, hfolder⟩
  · have hs : startOf parent fs.workplace = startOf p fs.workplace := by
      rw [startOf, startOf, habs]
    rw [if_neg hb, hs, hsteps]
    exact ⟨hb, ⟨k, advance_of_append_idle (fun _ => idle_of_mem_replicate) (hbefore ▸ hk)⟩,
      hfolder⟩

theorem endsIn_of_renamed {l : Location} (h : fs.renamed p = .ok l) :
    ∃ before n d, p.EndsIn before n ∧
      fs.walkFolder (startOf p fs.workplace) before = .ok d ∧ l = d ++ [n] := by
  have hbind : ∀ {x : Except Fault Location} {f : Fault},
      x.bind (fun _ => (.error f : Except Fault Location)) ≠ .ok l := by
    intro x f hx
    cases x <;> cases hx
  unfold renamed at h
  simp only at h
  split at h
  · cases h
  · split at h
    · exact absurd h hbind
    · exact absurd h hbind
    · next n before hs =>
      rw [List.reverse_eq_iff, List.reverse_cons] at hs
      cases hw : fs.walkFolder (startOf p fs.workplace) before.reverse with
      | error f =>
        rw [hw] at h
        cases h
      | ok d =>
        rw [hw] at h
        exact ⟨before.reverse, n, d, hs, hw, (Except.ok.inj h).symm⟩
    · exact absurd h hbind
    · cases h

end FileSystem

end IncludeMap.File
