import IncludeMap.Proofs.File.Path
import IncludeMap.File.Access

/-! # Lookups step by step

A lookup advances through all steps but the last one to a folder, whatever it does with the last
name. With more links to follow it ends at the same place, or it would have run out of them before.
-/
namespace IncludeMap.File
open Text
namespace FileSystem

/-- The place that steps lead to, all links followed, and how many links may still be followed. -/
def advance (fs : FileSystem) (links : Nat) (l : Location) :
    List Step → Except Fault (Nat × Location)
  | [] => .ok (links, l)
  | s :: rest =>
    if fs.isFolder l = false then .error .notADirectory
    else
      match s with
      | .stay => fs.advance links l rest
      | .closing => fs.advance links l rest
      | .up => fs.advance links l.dropLast rest
      | .down n =>
        match fs.node? (l ++ [n]) with
        | none => .error .notFound
        | some (.link target) =>
          match links with
          | 0 => .error .linkLoop
          | links + 1 => fs.advance links (startOf target l) (target.steps ++ rest)
        | some _ => fs.advance links (l ++ [n]) rest
termination_by steps => (links, steps.length)

variable {fs : FileSystem} {last : Last} {links : Nat} {l d : Location} {steps rest : List Step}
  {n : Name} {node : Node} {target : Path}

theorem advance_down_of_node (hl : ¬ fs.isFolder l = false) (hn : fs.node? (l ++ [n]) = some node)
    (hnode : ∀ target, node ≠ .link target) :
    fs.advance links l (.down n :: rest) = fs.advance links (l ++ [n]) rest := by
  rw [advance, if_neg hl, hn]
  cases node with
  | link target => exact absurd rfl (hnode target)
  | folder => rfl
  | file mode content => rfl

/-- A name that is no link is entered, unless it is to be created in front of a closing slash. -/
theorem walk_down_of_node (hl : ¬ fs.isFolder l = false)
    (hc : ¬ (last = .create ∧ rest = [.closing])) (hn : fs.node? (l ++ [n]) = some node)
    (hnode : ∀ target, node ≠ .link target) :
    fs.walk last links l (.down n :: rest) = fs.walk last links (l ++ [n]) rest := by
  rw [walk, if_neg hl, if_neg hc, hn]
  cases node with
  | link target => exact absurd rfl (hnode target)
  | folder => rfl
  | file mode content => rfl

theorem walk_down_of_link (hl : ¬ fs.isFolder l = false)
    (hc : ¬ (last = .create ∧ rest = [.closing])) (hn : fs.node? (l ++ [n]) = some (.link target))
    (hk : ¬ (rest = [] ∧ last = .keep)) :
    fs.walk last (links + 1) l (.down n :: rest) =
      fs.walk last links (startOf target l) (target.steps ++ rest) := by
  rw [walk, if_neg hl, if_neg hc, hn]
  exact if_neg hk

theorem isFolder_startOf (h : fs.isFolder l = true) (p : Path) :
    fs.isFolder (startOf p l) = true := by
  unfold startOf
  split
  · rfl
  · exact h

theorem advance_append (fs : FileSystem) (links : Nat) (l : Location) (steps more : List Step) :
    fs.advance links l (steps ++ more) =
      (fs.advance links l steps).bind fun s => fs.advance s.1 s.2 more := by
  fun_induction advance fs links l steps with
  | case1 => rfl
  | case2 links l s rest hl =>
    rw [List.cons_append, advance.eq_def]
    simp only [hl, if_true]
    rfl
  | case3 _ _ _ hl ih | case4 _ _ _ hl ih | case5 _ _ _ hl ih =>
    rw [List.cons_append, advance, if_neg hl]
    exact ih
  | case6 links l rest hl n hn =>
    rw [List.cons_append, advance, if_neg hl, hn]
    rfl
  | case7 l rest hl n target hn =>
    rw [List.cons_append, advance, if_neg hl, hn]
    rfl
  | case8 l rest hl n target hn links ih =>
    rw [List.cons_append, advance, if_neg hl, hn, ← ih, List.append_assoc]
  | case9 links l rest hl n node hnode hn ih =>
    rw [List.cons_append, advance_down_of_node hl hn hnode, ih]

theorem le_of_advance {k : Nat} (h : fs.advance links l steps = .ok (k, d)) : k ≤ links := by
  fun_induction advance fs links l steps with
  | case1 =>
    cases h
    exact Nat.le_refl _
  | case2 => cases h
  | case3 _ _ _ _ ih | case4 _ _ _ _ ih | case5 _ _ _ _ ih => exact ih h
  | case6 => cases h
  | case7 => cases h
  | case8 l rest hl n target hn links ih => exact Nat.le_succ_of_le (ih h)
  | case9 links l rest hl n node hnode hn ih => exact ih h

theorem advance_spare {k : Nat} (h : fs.advance links l steps = .ok (k, d)) :
    ∃ used, links = used + k ∧ ∀ spare, fs.advance (used + spare) l steps = .ok (spare, d) := by
  fun_induction advance fs links l steps with
  | case1 links l =>
    cases h
    refine ⟨0, (Nat.zero_add _).symm, fun spare => ?_⟩
    rw [advance, Nat.zero_add]
  | case2 => cases h
  | case3 _ _ _ hl ih | case4 _ _ _ hl ih | case5 _ _ _ hl ih =>
    obtain ⟨used, hused, hspare⟩ := ih h
    refine ⟨used, hused, fun spare => ?_⟩
    rw [advance, if_neg hl, hspare]
  | case6 => cases h
  | case7 => cases h
  | case8 l rest hl n target hn links ih =>
    obtain ⟨used, hused, hspare⟩ := ih h
    refine ⟨used + 1, by omega, fun spare => ?_⟩
    rw [Nat.add_right_comm used 1 spare, advance, if_neg hl, hn, ← hspare spare]
  | case9 links l rest hl n node hnode hn ih =>
    obtain ⟨used, hused, hspare⟩ := ih h
    refine ⟨used, hused, fun spare => ?_⟩
    rw [advance_down_of_node hl hn hnode, hspare]

theorem eq_of_advance_idle {idle : List Step} {s : Nat × Location}
    (hidle : ∀ t ∈ idle, t = .stay ∨ t = .closing)
    (h : fs.advance links l idle = .ok s) : s = (links, l) := by
  induction idle with
  | nil =>
    rw [advance] at h
    exact (Except.ok.inj h).symm
  | cons t idle ih =>
    have ih := ih fun u hu => hidle u (List.mem_cons_of_mem t hu)
    rcases hidle t List.mem_cons_self with rfl | rfl
    · rw [advance] at h
      split at h
      · cases h
      · exact ih h
    · rw [advance] at h
      split at h
      · cases h
      · exact ih h

theorem advance_of_append_idle {idle : List Step} {s : Nat × Location}
    (hidle : ∀ t ∈ idle, t = .stay ∨ t = .closing)
    (h : fs.advance links l (steps ++ idle) = .ok s) : fs.advance links l steps = .ok s := by
  rw [advance_append] at h
  cases ha : fs.advance links l steps with
  | error f =>
    rw [ha] at h
    cases h
  | ok t =>
    rw [ha] at h
    rw [eq_of_advance_idle hidle h]

theorem idle_of_mem_replicate {m : Nat} {t : Step} (h : t ∈ List.replicate m Step.stay) :
    t = .stay ∨ t = .closing :=
  .inl (List.eq_of_mem_replicate h)

/-- In front of another step a name is followed, whatever is to be done with the last one. -/
theorem walk_append (fs : FileSystem) (hlast : last ≠ .create) (links : Nat)
    (l : Location) (steps : List Step) {more : List Step} (hmore : more ≠ []) :
    fs.walk last links l (steps ++ more) =
      (fs.advance links l steps).bind fun s => fs.walk last s.1 s.2 more := by
  have hrest : ∀ rest : List Step, rest ++ more ≠ [] := fun rest h =>
    hmore (List.append_eq_nil_iff.mp h).2
  fun_induction advance fs links l steps with
  | case1 => rfl
  | case2 links l s rest hl =>
    rw [List.cons_append, walk.eq_def]
    simp only [hl, if_true]
    rfl
  | case3 _ _ _ hl ih | case4 _ _ _ hl ih | case5 _ _ _ hl ih =>
    rw [List.cons_append, walk, if_neg hl]
    exact ih
  | case6 links l rest hl n hn =>
    rw [List.cons_append, walk, if_neg hl]
    simp only [hlast, hn, hrest, false_and, if_false]
    rfl
  | case7 l rest hl n target hn =>
    rw [List.cons_append, walk, if_neg hl]
    simp only [hlast, hn, hrest, false_and, if_false]
    rfl
  | case8 l rest hl n target hn links ih =>
    rw [List.cons_append, walk_down_of_link hl (fun h => hlast h.1) hn (fun h => hrest rest h.1),
      ← ih, List.append_assoc]
  | case9 links l rest hl n node hnode hn ih =>
    rw [List.cons_append, walk_down_of_node hl (fun h => hlast h.1) hn hnode, ih]

theorem walk_follow_eq_existing_iff (fs : FileSystem) (links : Nat) (l d : Location)
    (steps : List Step) :
    fs.walk .follow links l steps = .ok (.existing d) ↔
      ∃ k, fs.advance links l steps = .ok (k, d) := by
  fun_induction advance fs links l steps with
  | case1 links l => simp [walk]
  | case2 links l s rest hl =>
    rw [walk.eq_def]
    simp [hl]
  | case3 _ _ _ hl ih | case4 _ _ _ hl ih | case5 _ _ _ hl ih => rwa [walk, if_neg hl]
  | case6 links l rest hl n hn =>
    rw [walk, if_neg hl, if_neg (by simp), hn]
    by_cases hr : rest = [] <;> simp [hr]
  | case7 l rest hl n target hn =>
    rw [walk, if_neg hl, if_neg (by simp), hn]
    simp
  | case8 l rest hl n target hn links ih =>
    rwa [walk_down_of_link hl (by simp) hn (by simp)]
  | case9 links l rest hl n node hnode hn ih =>
    rwa [walk_down_of_node hl (by simp) hn hnode]

/-- A lookup that does not run out of links ends in the same way with more of them. -/
theorem walk_of_le (fs : FileSystem) (last : Last) (links : Nat) (l : Location)
    (steps : List Step) :
    fs.walk last links l steps = .error .linkLoop ∨
      ∀ more, links ≤ more → fs.walk last more l steps = fs.walk last links l steps := by
  fun_induction walk fs last links l steps with
  | case1 links l =>
    right
    intro more _
    rw [walk]
  | case2 links l s rest hl =>
    right
    intro more _
    rw [walk.eq_def]
    simp [hl]
  | case3 _ _ _ hl ih | case4 _ _ _ hl ih | case5 _ _ _ hl ih =>
    refine ih.imp_right fun ih more hm => ?_
    rw [walk, if_neg hl, ih more hm]
  | case6 links l rest hl n hc =>
    right
    intro more _
    rw [walk, if_neg hl, if_pos hc]
  | case7 links l hl n hn hc =>
    right
    intro more _
    rw [walk, if_neg hl, if_neg hc, hn]
    rfl
  | case8 links l rest hl n hc hn hr =>
    right
    intro more _
    rw [walk, if_neg hl, if_neg hc, hn]
    exact if_neg hr
  | case9 links l rest hl n hc target hn hk =>
    right
    intro more _
    rw [walk, if_neg hl, if_neg hc, hn]
    exact if_pos hk
  | case10 => exact .inl rfl
  | case11 l rest hl n hc target hn hk links ih =>
    refine ih.imp_right fun ih more hm => ?_
    obtain ⟨more, rfl⟩ := Nat.exists_eq_add_of_le' hm
    rw [← ih (more + links) (Nat.le_add_left links more)]
    exact walk_down_of_link hl hc hn hk
  | case12 links l rest hl n hc node hnode hn ih =>
    refine ih.imp_right fun ih more hm => ?_
    rw [walk_down_of_node hl hc hn hnode, ih more hm]

end FileSystem

/-- The location that a lookup ends at, whether something is there or not. -/
def Landing.location : Landing → Location
  | .existing l => l
  | .absent folder name => folder ++ [name]

/-- The lookup ends at something that is there, and that is a link only if links are to be kept, or
at a name that a folder does not have. -/
def Landing.Holds (fs : FileSystem) (last : Last) : Landing → Prop
  | .existing l => ∃ node, fs.node? l = some node ∧ ∀ target, node = .link target → last = .keep
  | .absent folder name => fs.isFolder folder = true ∧ fs.node? (folder ++ [name]) = none

namespace FileSystem

variable {fs : FileSystem} {last : Last} {links : Nat} {l d : Location} {steps : List Step}
  {p : Path} {a : Landing}

theorem holds_existing_of_isFolder (h : fs.isFolder l = true)
    (last : Last) : Landing.Holds fs last (.existing l) :=
  ⟨.folder, isFolder_iff.mp h, fun _ h => Node.noConfusion h⟩

theorem isFolder_dropLast_of_isFolder (h : fs.isFolder l = true) :
    fs.isFolder l.dropLast = true :=
  isFolder_dropLast (isFolder_iff.mp h)

theorem holds_of_walk (hl : Landing.Holds fs last (.existing l))
    (h : fs.walk last links l steps = .ok a) : a.Holds fs last := by
  fun_induction walk fs last links l steps with
  | case1 links l =>
    cases h
    exact hl
  | case2 => cases h
  | case3 _ _ _ _ ih | case4 _ _ _ _ ih => exact ih hl h
  | case5 links l rest hl' ih =>
    rw [Bool.not_eq_false] at hl'
    exact ih (holds_existing_of_isFolder (isFolder_dropLast_of_isFolder hl') last) h
  | case6 => cases h
  | case7 links l hl' n hn hc =>
    cases h
    exact ⟨Bool.not_eq_false _ ▸ hl', hn⟩
  | case8 => cases h
  | case9 links l rest hl' n hc target hn hk =>
    cases h
    exact ⟨_, hn, fun _ _ => hk.2⟩
  | case10 => cases h
  | case11 l rest hl' n hc target hn hk links ih =>
    rw [Bool.not_eq_false] at hl'
    exact ih (holds_existing_of_isFolder (isFolder_startOf hl' target) last) h
  | case12 links l rest hl' n hc node hnode hn ih =>
    exact ih ⟨node, hn, fun target ht => absurd ht (hnode target)⟩ h

theorem walk_of_not_folder (last : Last) (links : Nat) (hs : steps ≠ [])
    (hl : fs.isFolder l = false) :
    fs.walk last links l steps = .error .notADirectory := by
  obtain ⟨s, rest, rfl⟩ := List.exists_cons_of_ne_nil hs
  rw [walk.eq_def]
  simp [hl]

theorem isFolder_of_walk (hs : steps ≠ []) (h : fs.walk last links l steps = .ok a) :
    fs.isFolder l = true := by
  cases hl : fs.isFolder l with
  | true => rfl
  | false =>
    rw [walk_of_not_folder last links hs hl] at h
    cases h

theorem node?_of_walk_absent {n : Name}
    (h : fs.walk last links l steps = .ok (.absent d n)) :
    fs.node? (d ++ [n]) = none := by
  have hs : steps ≠ [] := by
    rintro rfl
    rw [walk] at h
    cases h
  exact (holds_of_walk (holds_existing_of_isFolder (isFolder_of_walk hs h) last) h).2

theorem isFolder_of_lookup (h : fs.lookup last p = .ok a) :
    fs.isFolder (startOf p fs.workplace) = true := by
  rw [lookup] at h
  split at h
  · cases h
  · next hp =>
    by_cases hs : p.steps = []
    · cases ha : p.isAbsolute with
      | true => simp [startOf, ha, isFolder]
      | false =>
        rw [Path.steps_eq, List.append_eq_nil_iff] at hs
        exact absurd hs.1 (Path.plainSteps_ne_nil ha hp)
    · exact isFolder_of_walk hs h

theorem lookup_of_bytes_ne_nil (fs : FileSystem) (last : Last) (hp : p.bytes ≠ []) :
    fs.lookup last p = fs.walk last maxLinks (startOf p fs.workplace) p.steps := by
  rw [lookup, if_neg hp]

theorem bytes_ne_nil_of_lookup (h : fs.lookup last p = .ok a) : p.bytes ≠ [] := by
  intro hp
  rw [lookup, if_pos hp] at h
  cases h

theorem holds_of_lookup (h : fs.lookup last p = .ok a) : a.Holds fs last := by
  have hstart := holds_existing_of_isFolder (isFolder_of_lookup h) last
  rw [lookup_of_bytes_ne_nil fs last (bytes_ne_nil_of_lookup h)] at h
  exact holds_of_walk hstart h

theorem walk_keep_down (hd : fs.isFolder d = true) (links : Nat) (n : Name) :
    fs.walk .keep links d [.down n] =
      .ok (if (fs.node? (d ++ [n])).isSome then .existing (d ++ [n]) else .absent d n) := by
  rw [walk, if_neg (by simp [hd]), if_neg (by simp)]
  cases fs.node? (d ++ [n]) with
  | none => rfl
  | some node =>
    cases node with
    | folder => simp [walk]
    | file mode content => simp [walk]
    | link target => simp

theorem walk_follow_down (hd : fs.isFolder d = true) (links : Nat) (n : Name)
    (h : ∀ target, fs.node? (d ++ [n]) ≠ some (.link target)) :
    fs.walk .follow links d [.down n] =
      .ok (if (fs.node? (d ++ [n])).isSome then .existing (d ++ [n]) else .absent d n) := by
  rw [walk, if_neg (by simp [hd]), if_neg (by simp)]
  cases hn : fs.node? (d ++ [n]) with
  | none => rfl
  | some node =>
    cases node with
    | folder => simp [walk]
    | file mode content => simp [walk]
    | link target => exact absurd hn (h target)

theorem walk_follow_link (hd : fs.isFolder d = true) {n : Name} {target : Path}
    (h : fs.node? (d ++ [n]) = some (.link target)) (links : Nat) :
    fs.walk .follow links d [.down n] =
      match links with
      | 0 => .error .linkLoop
      | links + 1 => fs.walk .follow links (startOf target d) target.steps := by
  rw [walk, if_neg (by simp [hd]), if_neg (by simp), h]
  cases links <;> simp

theorem locate_eq_ok_iff : fs.locate p = .ok l ↔ fs.lookup .follow p = .ok (.existing l) := by
  unfold locate
  split <;> simp_all

theorem nodeAt?_of_lookup (h : fs.lookup .follow p = .ok a) :
    fs.nodeAt? p = fs.node? a.location := by
  cases a with
  | existing l =>
    rw [nodeAt?, locate_eq_ok_iff.mpr h]
    rfl
  | absent folder name =>
    rw [nodeAt?, locate, h]
    exact (holds_of_lookup h).2.symm

theorem exists_node_of_locate (h : fs.locate p = .ok l) : ∃ node, fs.node? l = some node := by
  obtain ⟨node, hnode, -⟩ := holds_of_lookup (locate_eq_ok_iff.mp h)
  exact ⟨node, hnode⟩

theorem exists_locate_of_readBytes {bytes : Bytes} (h : fs.readBytes p = .ok bytes) :
    ∃ l, fs.locate p = .ok l := by
  cases hl : fs.locate p with
  | ok l => exact ⟨l, rfl⟩
  | error f =>
    rw [readBytes, hl] at h
    cases h

/-- What a file system answers to a reader that reached a node. -/
def contentOf : Option Node → Except Fault Bytes
  | some (.file _ content) => .ok content
  | some .folder => .error .isADirectory
  | _ => .error .notFound

theorem readBytes_of_lookup (h : fs.lookup .follow p = .ok a) :
    fs.readBytes p = contentOf (fs.node? a.location) := by
  cases a with
  | existing l =>
    rw [readBytes, locate_eq_ok_iff.mpr h]
    rfl
  | absent folder name =>
    rw [readBytes, locate, h, Landing.location, (holds_of_lookup h).2]
    rfl

theorem linkAt?_eq_some_iff {target : Path} :
    fs.linkAt? p = some target ↔
      ∃ l, fs.lookup .keep p = .ok (.existing l) ∧ fs.node? l = some (.link target) := by
  unfold linkAt? ownNode?
  constructor
  · intro h
    split at h
    · next hn =>
      cases h
      split at hn
      · next l hl => exact ⟨l, hl, hn⟩
      · cases hn
    · cases h
  · rintro ⟨l, hl, hn⟩
    rw [hl]
    simp only [hn]

end FileSystem

end IncludeMap.File
