import IncludeMap.Proofs.File.Replace

/-! # A replacement that fails

A replacement fails before it has created anything, or where the temporary file cannot be renamed.
Up to then the temporary file is all that has been added, so taking it away gives back the file
system as it was, down to the order in which folders list their entries.
-/
namespace IncludeMap.File
open Text
namespace FileSystem

variable {fs gs : FileSystem} {x : Location} {content : Bytes} {p : Path} {e : Problem}

theorem putEntry_of_not_mem {l : Location} {n : Node} {es : List (Location × Node)}
    (h : l ∉ es.map Prod.fst) : putEntry l n es = es ++ [(l, n)] := by
  induction es with
  | nil => rfl
  | cons e es ih =>
    rw [List.map_cons, List.mem_cons, not_or] at h
    rw [putEntry, if_neg (Ne.symm h.1), ih h.2, List.cons_append]

theorem putEntry_concat {l : Location} {m n : Node} {es : List (Location × Node)}
    (h : l ∉ es.map Prod.fst) : putEntry l n (es ++ [(l, m)]) = es ++ [(l, n)] := by
  induction es with
  | nil => rw [List.nil_append, putEntry, if_pos rfl, List.nil_append]
  | cons e es ih =>
    rw [List.map_cons, List.mem_cons, not_or] at h
    rw [List.cons_append, putEntry, if_neg (Ne.symm h.1), ih h.2, List.cons_append]

theorem eq_of_entries (hw : gs.workplace = fs.workplace) (he : gs.entries = fs.entries) :
    gs = fs := by
  cases fs
  cases gs
  cases hw
  cases he
  rfl

theorem exists_free (fs : FileSystem) : ∃ x, fs.node? x = none :=
  ⟨_, (fs.freshName_spec [] ⟨[]⟩).2.2⟩

theorem not_mem_of_node?_eq_none (h : fs.node? x = none) : x ∉ fs.entries.map Prod.fst := by
  intro hx
  obtain ⟨⟨l, n⟩, hl, rfl⟩ := List.mem_map.mp hx
  cases h.symm.trans (mem_entries_iff.mp hl).2

theorem not_prefix_of_node?_eq_none (h : fs.node? x = none) {l : Location} {n : Node}
    (hl : (l, n) ∈ fs.entries) : ¬ x <+: l := by
  rintro ⟨m, rfl⟩
  have hnode := (mem_entries_iff.mp hl).2
  by_cases hm : m = []
  · rw [hm, List.append_nil, h] at hnode
    cases hnode
  · have hx := isFolder_iff.mp (isFolder_above hnode hm)
    cases h.symm.trans hx

/-- `gs` is `fs`, or `fs` with one more file, listed last. -/
inductive Beside (fs gs : FileSystem) (x : Location) : Prop where
  | same (h : gs = fs)
  | added (mode : Nat) (content : Bytes) (workplace : gs.workplace = fs.workplace)
      (entries : gs.entries = fs.entries ++ [(x, .file mode content)])

namespace Beside

theorem put (h : fs.Beside gs x) (hfree : fs.node? x = none) (mode : Nat) (content : Bytes) :
    fs.Beside (gs.put x (.file mode content)) x := by
  by_cases ha : gs.accepts x (.file mode content) = true
  · have hx := not_mem_of_node?_eq_none hfree
    refine .added mode content ?_ ?_
    · rw [workplace_put]
      rcases h with rfl | ⟨_, _, hw, -⟩
      · rfl
      · exact hw
    · rw [FileSystem.put, dif_pos ha]
      show putEntry x _ gs.entries = _
      rcases h with rfl | ⟨_, _, -, he⟩
      · exact putEntry_of_not_mem hx
      · rw [he, putEntry_concat hx]
  · rwa [FileSystem.put, dif_neg ha]

theorem erase (h : fs.Beside gs x) (hfree : fs.node? x = none) : gs.erase x = fs := by
  have hkeep : fs.entries.filter (fun e => !x.isPrefixOf e.1) = fs.entries := by
    refine List.filter_eq_self.mpr fun e he => ?_
    rw [Bool.not_eq_true', Bool.eq_false_iff, ne_eq, List.isPrefixOf_iff_prefix]
    exact not_prefix_of_node?_eq_none hfree he
  have hdrop (n : Node) : [(x, n)].filter (fun e => !x.isPrefixOf e.1) = [] := by
    simp
  rcases h with rfl | ⟨mode, content, hw, he⟩
  · exact eq_of_entries rfl hkeep
  · refine eq_of_entries hw ?_
    show gs.entries.filter (fun e => !x.isPrefixOf e.1) = _
    rw [he, List.filter_append, hkeep, hdrop, List.append_nil]

end Beside

/-- The states of a replacement that fails: all but the last hold the temporary file. -/
theorem states_of_replaceThrough_error
    (h : (fs.replaceThrough p x content).report.value = .error e) :
    ∃ created permitted written mode,
      created = fs.put x (.file defaultMode []) ∧
      permitted = created.put x (.file mode []) ∧
      written = permitted.put x (.file mode content) ∧
      (fs.replaceThrough p x content).states = [created, permitted, written, written.erase x] := by
  unfold replaceThrough at h ⊢
  simp only at h ⊢
  split at h
  · cases h
  · exact ⟨_, _, _, _, rfl, rfl, rfl, rfl⟩

theorem replaceThrough_error (hfree : fs.node? x = none)
    (h : (fs.replaceThrough p x content).report.value = .error e) :
    (fs.replaceThrough p x content).final fs = fs ∧
      ∀ s ∈ (fs.replaceThrough p x content).states, fs.Beside s x := by
  obtain ⟨created, permitted, written, mode, hcreated, hpermitted, hwritten, hstates⟩ :=
    states_of_replaceThrough_error h
  have hc : fs.Beside created x := hcreated ▸ (Beside.same rfl).put hfree defaultMode []
  have hp : fs.Beside permitted x := hpermitted ▸ hc.put hfree mode []
  have hw : fs.Beside written x := hwritten ▸ hp.put hfree mode content
  have hback : written.erase x = fs := hw.erase hfree
  constructor
  · rw [Effect.final, hstates]
    exact hback
  · intro s hs
    rw [hstates] at hs
    simp only [List.mem_cons, List.not_mem_nil, or_false] at hs
    rcases hs with rfl | rfl | rfl | rfl
    · exact hc
    · exact hp
    · exact hw
    · exact .same hback

/-- A replacement is refused before anything is created, or it goes through a fresh name of the
folder that the path behind the links lies in. -/
theorem replaceFile_cases (fs : FileSystem) (p : Path) (content : Bytes) :
    (∃ e lines, fs.replaceFile p content = ⟨⟨.error e, lines⟩, []⟩) ∨
      ∃ target d, fs.pathBehind? maxHops p = some target ∧
        fs.locateFolder (folderOf target) = .ok d ∧
        fs.replaceFile p content =
          fs.replaceThrough target (d ++ [fs.freshName d target]) content := by
  unfold replaceFile
  cases htarget : fs.pathBehind? maxHops p with
  | none => exact .inl ⟨_, _, rfl⟩
  | some target =>
    cases hd : fs.locateFolder (folderOf target) with
    | error f => exact .inl ⟨_, _, by simp only [hd]; rfl⟩
    | ok d => exact .inr ⟨target, d, rfl, hd, by simp only [hd]⟩

/-- A replacement that fails gives the file system back as it was. On the way it adds at most one
file, where nothing was. -/
theorem replaceFile_error (h : (fs.replaceFile p content).report.value = .error e) :
    (fs.replaceFile p content).final fs = fs ∧
      ∃ temp, fs.node? temp = none ∧
        ∀ s ∈ (fs.replaceFile p content).states, fs.Beside s temp := by
  rcases replaceFile_cases fs p content with ⟨_, _, hr⟩ | ⟨target, d, -, -, hr⟩
  · obtain ⟨temp, hfree⟩ := fs.exists_free
    refine ⟨by rw [hr]; rfl, temp, hfree, ?_⟩
    intro s hs
    rw [hr] at hs
    cases hs
  · have hfree := (fs.freshName_spec d target).2.2
    rw [hr] at h ⊢
    obtain ⟨hfinal, hstates⟩ := replaceThrough_error hfree h
    exact ⟨hfinal, _, hfree, hstates⟩

theorem replaceFile_ok (h : (fs.replaceFile p content).report.value = .ok ()) :
    ∃ target d n, fs.pathBehind? maxHops p = some target ∧ fs.LiesIn target d n ∧
      fs.Replaces ((fs.replaceFile p content).final fs) (d ++ [n]) content := by
  rcases replaceFile_cases fs p content with ⟨_, _, hr⟩ | ⟨target, d, htarget, hd, hr⟩
  · rw [hr] at h
    cases h
  · obtain ⟨hm, hname, hfree⟩ := fs.freshName_spec d target
    rw [hr] at h ⊢
    obtain ⟨n, mid, after, hlies, -, hstates, -, hafter⟩ :=
      replaceThrough_ok hfree hm hd hname (linkAt?_of_pathBehind? htarget) h
    refine ⟨target, d, n, htarget, hlies, ?_⟩
    rw [Effect.final, hstates, List.getLast?_concat, Option.getD_some]
    exact hafter

theorem not_isFolderAt_of_replaceFile_ok (h : (fs.replaceFile p content).report.value = .ok ()) :
    fs.isFolderAt p = false := by
  obtain ⟨target, d, n, htarget, hlies, hafter⟩ := replaceFile_ok h
  obtain ⟨before, he, -⟩ := id hlies
  have hat : fs.nodeAt? p = none ∨ fs.nodeAt? p = fs.node? (d ++ [n]) := by
    rcases (lookup_pathBehind? htarget he).2 with hloop | hp
    · left
      rw [nodeAt?, locate, hloop]
    · right
      obtain ⟨a, ha, hl⟩ := hlies.leads (hlies.node?_ne_link (linkAt?_of_pathBehind? htarget))
      rw [nodeAt?_of_lookup (hp.trans ha), hl]
  obtain ⟨mode, -, hfile⟩ := hafter.written
  rcases hat with hat | hat
  · rw [isFolderAt, hat]
    rfl
  · rcases hfile with ⟨hnone, -⟩ | ⟨old, hold⟩
    · rw [isFolderAt, hat, hnone]
      rfl
    · rw [isFolderAt, hat, hold]
      rfl

end FileSystem

end IncludeMap.File
