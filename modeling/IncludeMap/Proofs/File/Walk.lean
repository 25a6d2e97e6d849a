import IncludeMap.File.Walk
import IncludeMap.Proofs.File.Chain
import Mathlib.Data.List.Nodup

/-! # The entries of a walk in the order of their visits

The walk visits the entries of the root in the order of their names, and right after each one that
leads to a folder the entries of that folder. As lists of names from the root the entries are in
lexicographic order, so the first entry at which the walk is stuck is the least one.
-/
namespace IncludeMap.File
open Text

def Found.Before (f g : Found) : Prop := [f.module, f.name] < [g.module, g.name]

namespace FileSystem

variable {fs : FileSystem} {root l d : Location} {p q : Path} {m n : Name}

theorem nodup_names (fs : FileSystem) (l : Location) : (fs.names l).Nodup := by
  have hnames : fs.names l = (fs.entries.map Prod.fst).filterMap fun k =>
      if k.dropLast = l then k.getLast? else none := by
    rw [List.filterMap_map]
    rfl
  have hconcat : ∀ {k : Location} {n : Name},
      n ∈ (if k.dropLast = l then k.getLast? else none) → k = l ++ [n] := by
    intro k n hn
    split at hn
    · next hd =>
      obtain ⟨m, rfl⟩ := List.getLast?_eq_some_iff.mp hn
      rw [List.dropLast_concat] at hd
      rw [hd]
    · cases hn
  rw [hnames]
  exact fs.nodup.filterMap fun a b n ha hb => (hconcat ha).trans (hconcat hb).symm

theorem pairwise_sortedNames (fs : FileSystem) (l : Location) :
    (fs.sortedNames l).Pairwise (· < ·) := by
  have hsorted : (fs.sortedNames l).Pairwise fun a b => nameLe a b = true := by
    refine List.pairwise_mergeSort ?_ ?_ (fs.names l)
    · intro a b c hab hbc
      simp only [nameLe, Bool.not_eq_true', decide_eq_false_iff_not, List.not_lt] at hab hbc ⊢
      exact List.le_trans hab hbc
    · intro a b
      simp only [nameLe, Bool.or_eq_true, Bool.not_eq_true', decide_eq_false_iff_not, List.not_lt]
      exact List.le_total a b
  have hnodup : (fs.sortedNames l).Nodup :=
    (List.mergeSort_perm (fs.names l) nameLe).nodup_iff.mpr (fs.nodup_names l)
  refine (hsorted.and hnodup).imp ?_
  rintro a b ⟨hle, hne⟩
  simp only [nameLe, Bool.not_eq_true', decide_eq_false_iff_not] at hle
  rcases Std.lt_trichotomy a b with h | h | h
  · exact h
  · exact absurd h hne
  · exact absurd h hle

theorem mem_sortedNames_iff : n ∈ fs.sortedNames l ↔ ∃ node, fs.node? (l ++ [n]) = some node := by
  rw [sortedNames, List.mem_mergeSort, mem_names_iff]

theorem isName_of_entry {node : Node} (h : fs.node? (l ++ [n]) = some node) : isName n = true :=
  isName_of_node? h (List.mem_append_right l List.mem_cons_self)

theorem locate_child (h : fs.locateFolder p = .ok d) {node : Node}
    (hn : fs.node? (d ++ [n]) = some node) (hnode : ∀ target, node ≠ .link target) :
    fs.locate (p.child n) = .ok (d ++ [n]) := by
  obtain ⟨links, hl⟩ := lookup_child h (isName_of_entry hn)
  obtain ⟨-, hw⟩ := locateFolder_eq_ok_iff.mp h
  have hd := (walkFolder_eq_ok_iff.mp hw).2
  have hlink : ∀ target, fs.node? (d ++ [n]) ≠ some (.link target) := by
    intro target ht
    rw [hn] at ht
    exact hnode target (Option.some.inj ht)
  rw [walk_follow_down hd links n hlink, hn] at hl
  exact locate_eq_ok_iff.mpr hl

theorem locateFolder_eq_ok_iff_locate :
    fs.locateFolder p = .ok d ↔ fs.locate p = .ok d ∧ fs.isFolder d = true := by
  unfold locateFolder
  cases fs.locate p with
  | error f => simp
  | ok l =>
    simp only
    split
    · next hl =>
      constructor
      · intro h
        cases h
        exact ⟨rfl, hl⟩
      · rintro ⟨h, -⟩
        exact h
    · next hl =>
      constructor
      · intro h
        cases h
      · rintro ⟨h, hd⟩
        cases h
        exact absurd hd hl

/-- The walk is stuck at an entry: a link that leads nowhere, or to a folder that the walk is in. -/
def Stuck (fs : FileSystem) (above : List Location) (l : Location) (q : Path) (f : Fault) : Prop :=
  ∃ target, fs.node? l = some (.link target) ∧
    (fs.locate q = .error f ∨ f = .cycle ∧ ∃ a ∈ above, fs.locateFolder q = .ok a)

theorem Stuck.unique {above : List Location} {f g : Fault} (hf : fs.Stuck above l q f)
    (hg : fs.Stuck above l q g) : f = g := by
  obtain ⟨_, -, hf⟩ := hf
  obtain ⟨_, -, hg⟩ := hg
  rcases hf with hf | ⟨rfl, a, -, ha⟩
  · rcases hg with hg | ⟨-, a, -, ha⟩
    · exact Except.error.inj (hf.symm.trans hg)
    · cases hf.symm.trans (locateFolder_eq_ok_iff_locate.mp ha).1
  · rcases hg with hg | ⟨rfl, -⟩
    · cases hg.symm.trans (locateFolder_eq_ok_iff_locate.mp ha).1
    · rfl

theorem visit_spec (h : fs.locateFolder p = .ok d) {node : Node}
    (hn : fs.node? (d ++ [n]) = some node) (above : List Location) :
    (∃ f, fs.Stuck above (d ++ [n]) (p.child n) f ∧
        fs.visit above (d ++ [n]) (p.child n) =
          .error (.io s!"Failed to walk {(p.child n).display}" f)) ∨
      (∀ f, ¬ fs.Stuck above (d ++ [n]) (p.child n) f) ∧
        ((∃ k, fs.locate (p.child n) = .ok k ∧ fs.isFolder k = false ∧
            fs.visit above (d ++ [n]) (p.child n) = .ok none) ∨
          ∃ k, fs.locateFolder (p.child n) = .ok k ∧
            fs.visit above (d ++ [n]) (p.child n) = .ok (some k)) := by
  have hplain : (∀ target, node ≠ .link target) →
      ∀ f, ¬ fs.Stuck above (d ++ [n]) (p.child n) f := by
    rintro hnode f ⟨target, ht, -⟩
    exact hnode target (Option.some.inj (hn.symm.trans ht))
  rw [visit, hn]
  cases node with
  | folder =>
    have hat := locate_child h hn (by simp)
    refine .inr ⟨hplain (by simp), .inr ⟨d ++ [n], ?_, rfl⟩⟩
    exact locateFolder_eq_ok_iff_locate.mpr ⟨hat, isFolder_iff.mpr hn⟩
  | file mode content =>
    have hat := locate_child h hn (by simp)
    exact .inr ⟨hplain (by simp),
      .inl ⟨d ++ [n], hat, isFolder_eq_false_iff.mpr (by simp [hn]), rfl⟩⟩
  | link target =>
    cases hq : fs.locate (p.child n) with
    | error f => exact .inl ⟨f, ⟨target, hn, .inl hq⟩, rfl⟩
    | ok k =>
      have hnot : (∀ a ∈ above, fs.locateFolder (p.child n) ≠ .ok a) →
          ∀ f, ¬ fs.Stuck above (d ++ [n]) (p.child n) f := by
        rintro ha f ⟨_, -, hf | ⟨-, a, hmem, hloc⟩⟩
        · cases hq.symm.trans hf
        · exact ha a hmem hloc
      cases hk : fs.isFolder k with
      | false =>
        refine .inr ⟨hnot fun a _ ha => ?_, .inl ⟨k, rfl, hk, by simp [hk]⟩⟩
        obtain ⟨ha, hfolder⟩ := locateFolder_eq_ok_iff_locate.mp ha
        cases hq.symm.trans ha
        rw [hk] at hfolder
        cases hfolder
      | true =>
        have hfolder : fs.locateFolder (p.child n) = .ok k :=
          locateFolder_eq_ok_iff_locate.mpr ⟨hq, hk⟩
        by_cases hmem : k ∈ above
        · exact .inl ⟨.cycle, ⟨target, hn, .inr ⟨rfl, k, hmem, hfolder⟩⟩, by simp [hk, hmem]⟩
        · refine .inr ⟨hnot fun a ha hloc => ?_, .inr ⟨k, hfolder, by simp [hk, hmem]⟩⟩
          cases hfolder.symm.trans hloc
          exact hmem ha

/-- The walk visits the entry at these names, which is at the location, from these folders. -/
inductive Visits (fs : FileSystem) (root : Location) (p : Path) :
    List Name → Location → List Location → Prop where
  | module {m : Name} {node : Node} (hm : fs.node? (root ++ [m]) = some node) :
    Visits fs root p [m] (root ++ [m]) [root]
  | file {m n : Name} {d : Location} {node entry : Node} (hm : fs.node? (root ++ [m]) = some node)
    (hd : fs.locateFolder (p.child m) = .ok d) (hn : fs.node? (d ++ [n]) = some entry) :
    Visits fs root p [m, n] (d ++ [n]) [d, root]

def pathOf (p : Path) (v : List Name) : Path := v.foldl Path.child p

/-- The walk is stuck at the entry at these names. -/
def StuckAt (fs : FileSystem) (root : Location) (p : Path) (v : List Name) (f : Fault) : Prop :=
  ∃ l above, fs.Visits root p v l above ∧ fs.Stuck above l (pathOf p v) f

/-- What the visits of the entry of a module and of the entries of its folder answer. -/
def moduleTrace (fs : FileSystem) (root : Location) (p : Path) (m : Name) :
    List (List Name × Except Problem (Option Location)) :=
  ([m], fs.visit [root] (root ++ [m]) (p.child m)) ::
    match fs.visit [root] (root ++ [m]) (p.child m) with
    | .ok (some d) => (fs.sortedNames d).map fun n =>
      ([m, n], fs.visit [d, root] (d ++ [n]) ((p.child m).child n))
    | _ => []

/-- What all visits answer, one after the other. -/
def trace (fs : FileSystem) (root : Location) (p : Path) :
    List (List Name × Except Problem (Option Location)) :=
  (fs.sortedNames root).flatMap (fs.moduleTrace root p)

def fileAt : List Name × Except Problem (Option Location) → Option Found
  | ([m, n], .ok none) => some ⟨m, n⟩
  | _ => none

def foundAt (x : List Name × Except Problem (Option Location)) : Option (Except Problem Found) :=
  match x.2 with
  | .error e => some (.error e)
  | .ok _ => (fileAt x).map .ok

theorem fileAt_eq_some_iff {x : List Name × Except Problem (Option Location)} {f : Found} :
    fileAt x = some f ↔ x = ([f.module, f.name], .ok none) := by
  constructor
  · intro h
    unfold fileAt at h
    split at h
    · cases h
      rfl
    · cases h
  · rintro rfl
    rfl

theorem walkModules_eq (fs : FileSystem) (root : Location) (p : Path) :
    fs.walkModules root p = (fs.trace root p).filterMap foundAt := by
  rw [walkModules, trace, List.filterMap_flatMap]
  congr 1
  funext m
  rw [moduleTrace, List.filterMap_cons]
  cases hv : fs.visit [root] (root ++ [m]) (p.child m) with
  | error e => rfl
  | ok o =>
    cases o with
    | none => rfl
    | some d =>
      simp only [foundAt, fileAt, filesIn, List.map_filterMap, List.filterMap_map]
      congr 1
      funext n
      simp only [Function.comp_apply]
      cases fs.visit [d, root] (d ++ [n]) ((p.child m).child n) with
      | error e => rfl
      | ok o => cases o <;> rfl

theorem names_of_mem_moduleTrace {x : List Name × Except Problem (Option Location)}
    (h : x ∈ fs.moduleTrace root p m) : x.1 = [m] ∨ ∃ n, x.1 = [m, n] := by
  rcases List.mem_cons.mp h with rfl | h
  · exact .inl rfl
  · split at h
    · obtain ⟨n, -, rfl⟩ := List.mem_map.mp h
      exact .inr ⟨n, rfl⟩
    · cases h

theorem module_lt_file (m n : Name) : [m] < [m, n] :=
  List.cons_lt_cons_iff.mpr (.inr ⟨rfl, List.nil_lt_cons n []⟩)

theorem pairwise_trace (fs : FileSystem) (root : Location) (p : Path) :
    (fs.trace root p).Pairwise fun x y => x.1 < y.1 := by
  refine List.pairwise_flatMap.mpr ⟨fun m _ => ?_, (fs.pairwise_sortedNames root).imp ?_⟩
  · rw [moduleTrace, List.pairwise_cons]
    constructor
    · intro y hy
      split at hy
      · obtain ⟨n, -, rfl⟩ := List.mem_map.mp hy
        exact module_lt_file m n
      · cases hy
    · split
      · next d _ =>
        rw [List.pairwise_map]
        refine (fs.pairwise_sortedNames d).imp fun hab => ?_
        exact List.cons_lt_cons_iff.mpr
          (.inr ⟨rfl, List.cons_lt_cons_iff.mpr (.inl hab)⟩)
      · exact List.Pairwise.nil
  · intro m m' hm x hx y hy
    rcases names_of_mem_moduleTrace hx with hx | ⟨n, hx⟩ <;>
      rcases names_of_mem_moduleTrace hy with hy | ⟨n', hy⟩ <;> rw [hx, hy] <;>
      exact List.cons_lt_cons_iff.mpr (.inl hm)

theorem Visits.entry {v : List Name} {above : List Location} (hroot : fs.locateFolder p = .ok root)
    (h : fs.Visits root p v l above) :
    ∃ q d n node, l = d ++ [n] ∧ pathOf p v = q.child n ∧ fs.locateFolder q = .ok d ∧
      fs.node? (d ++ [n]) = some node := by
  cases h with
  | module hm => exact ⟨p, root, _, _, rfl, rfl, hroot, hm⟩
  | file hm hd hn => exact ⟨_, _, _, _, rfl, rfl, hd, hn⟩

theorem Visits.unique {v : List Name} {l' : Location} {above above' : List Location}
    (h : fs.Visits root p v l above) (h' : fs.Visits root p v l' above') :
    l = l' ∧ above = above' := by
  cases h with
  | module hm =>
    cases h' with
    | module hm' => exact ⟨rfl, rfl⟩
  | file hm hd hn =>
    cases h' with
    | file hm' hd' hn' =>
      cases hd.symm.trans hd'
      exact ⟨rfl, rfl⟩

theorem visits_of_mem_trace {v : List Name} {x : Except Problem (Option Location)}
    (hroot : fs.locateFolder p = .ok root) (h : (v, x) ∈ fs.trace root p) :
    ∃ l above, fs.Visits root p v l above ∧ x = fs.visit above l (pathOf p v) := by
  obtain ⟨m, hm, h⟩ := List.mem_flatMap.mp h
  obtain ⟨node, hm⟩ := mem_sortedNames_iff.mp hm
  rcases List.mem_cons.mp h with h | h
  · cases h
    exact ⟨_, _, .module hm, rfl⟩
  · split at h
    · next d hd =>
      obtain ⟨n, hn, h⟩ := List.mem_map.mp h
      cases h
      obtain ⟨entry, hn⟩ := mem_sortedNames_iff.mp hn
      refine ⟨_, _, .file hm ?_ hn, rfl⟩
      rcases visit_spec hroot hm [root] with ⟨f, -, hv⟩ | ⟨-, ⟨k, -, -, hv⟩ | ⟨k, hk, hv⟩⟩
      · cases hd.symm.trans hv
      · cases hd.symm.trans hv
      · cases hd.symm.trans hv
        exact hk
    · cases h

theorem mem_trace_of_visits {v : List Name} {above : List Location}
    (hroot : fs.locateFolder p = .ok root) (h : fs.Visits root p v l above)
    (hfree : ∀ m n f, v = [m, n] → ¬ fs.StuckAt root p [m] f) :
    (v, fs.visit above l (pathOf p v)) ∈ fs.trace root p := by
  cases h with
  | module hm =>
    exact List.mem_flatMap.mpr ⟨_, mem_sortedNames_iff.mpr ⟨_, hm⟩, List.mem_cons_self⟩
  | @file m n d _ _ hm hd hn =>
    refine List.mem_flatMap.mpr ⟨_, mem_sortedNames_iff.mpr ⟨_, hm⟩, List.mem_cons_of_mem _ ?_⟩
    rcases visit_spec hroot hm [root] with ⟨f, hf, -⟩ | ⟨-, ⟨k, hk, hplain, -⟩ | ⟨k, hk, hv⟩⟩
    · exact absurd ⟨_, _, .module hm, hf⟩ (hfree m n f rfl)
    · obtain ⟨hloc, hfolder⟩ := locateFolder_eq_ok_iff_locate.mp hd
      cases hk.symm.trans hloc
      rw [hplain] at hfolder
      cases hfolder
    · cases hk.symm.trans hd
      rw [hv]
      exact List.mem_map.mpr ⟨n, mem_sortedNames_iff.mpr ⟨_, hn⟩, rfl⟩

/-- The entry is the first one at which the walk is stuck. -/
def FirstStuck (fs : FileSystem) (root : Location) (p : Path) (v : List Name) (f : Fault) : Prop :=
  fs.StuckAt root p v f ∧ ∀ w g, w < v → ¬ fs.StuckAt root p w g

theorem FirstStuck.unique {v w : List Name} {f g : Fault} (hf : fs.FirstStuck root p v f)
    (hg : fs.FirstStuck root p w g) : v = w ∧ f = g := by
  have hvw : v = w := by
    rcases Std.lt_trichotomy v w with h | h | h
    · exact absurd hf.1 (hg.2 v f h)
    · exact h
    · exact absurd hg.1 (hf.2 w g h)
  subst hvw
  obtain ⟨l, above, hv, hf⟩ := hf.1
  obtain ⟨l', above', hv', hg⟩ := hg.1
  obtain ⟨rfl, rfl⟩ := hv.unique hv'
  exact ⟨rfl, hf.unique hg⟩

theorem stuckAt_of_mem_trace {v : List Name} {e : Problem} (hroot : fs.locateFolder p = .ok root)
    (h : (v, .error e) ∈ fs.trace root p) :
    ∃ f, fs.StuckAt root p v f ∧ e = .io s!"Failed to walk {(pathOf p v).display}" f := by
  obtain ⟨l, above, hv, he⟩ := visits_of_mem_trace hroot h
  obtain ⟨q, d, n, node, rfl, hq, hd, hn⟩ := hv.entry hroot
  rw [hq] at he ⊢
  rcases visit_spec hd hn above with ⟨f, hf, he'⟩ | ⟨-, ⟨k, -, -, he'⟩ | ⟨k, -, he'⟩⟩
  · cases he.trans he'
    exact ⟨f, ⟨_, above, hv, hq ▸ hf⟩, rfl⟩
  · cases he.trans he'
  · cases he.trans he'

theorem mem_trace_of_stuckAt {v : List Name} {f : Fault} (hroot : fs.locateFolder p = .ok root)
    (h : fs.StuckAt root p v f) (hfree : ∀ m n g, v = [m, n] → ¬ fs.StuckAt root p [m] g) :
    ∃ e, (v, .error e) ∈ fs.trace root p := by
  obtain ⟨l, above, hv, hf⟩ := h
  have hmem := mem_trace_of_visits hroot hv hfree
  obtain ⟨q, d, n, node, rfl, hq, hd, hn⟩ := hv.entry hroot
  rw [hq] at hf hmem
  rcases visit_spec hd hn above with ⟨f, -, he⟩ | ⟨hnot, -⟩
  · rw [he] at hmem
    exact ⟨_, hmem⟩
  · exact absurd hf (hnot f)

/-- Where the walk is stuck, or else at the module before, a visit fails. -/
theorem exists_mem_trace_of_stuckAt {v : List Name} {f : Fault}
    (hroot : fs.locateFolder p = .ok root) (h : fs.StuckAt root p v f) :
    ∃ w e, (w, .error e) ∈ fs.trace root p ∧ (w = v ∨ w < v) := by
  by_cases hmodule : ∃ m n g, v = [m, n] ∧ fs.StuckAt root p [m] g
  · obtain ⟨m, n, g, rfl, hg⟩ := hmodule
    obtain ⟨e, he⟩ := mem_trace_of_stuckAt hroot hg fun _ _ _ hv => by simp at hv
    exact ⟨[m], e, he, .inr (module_lt_file m n)⟩
  · obtain ⟨e, he⟩ := mem_trace_of_stuckAt hroot h fun m n g hv hg => hmodule ⟨m, n, g, hv, hg⟩
    exact ⟨v, e, he, .inl rfl⟩

/-- The visits before the first one that fails find files and folders, and it fails at the first
entry at which the walk is stuck. -/
theorem firstStuck_of_trace_eq {v : List Name} {e : Problem}
    {before after : List (List Name × Except Problem (Option Location))}
    (hroot : fs.locateFolder p = .ok root) (h : fs.trace root p = before ++ (v, .error e) :: after)
    (hbefore : ∀ x ∈ before, ∀ e', x.2 ≠ .error e') :
    ∃ f, fs.FirstStuck root p v f ∧ e = .io s!"Failed to walk {(pathOf p v).display}" f := by
  have hmem : (v, .error e) ∈ fs.trace root p := by simp [h]
  obtain ⟨f, hf, he⟩ := stuckAt_of_mem_trace hroot hmem
  refine ⟨f, ⟨hf, fun w g hw hg => ?_⟩, he⟩
  obtain ⟨w', e', hw', hle⟩ := exists_mem_trace_of_stuckAt hroot hg
  have hlt : w' < v := by
    rcases hle with rfl | hle
    · exact hw
    · exact List.lt_trans hle hw
  have hsorted := fs.pairwise_trace root p
  rw [h, List.pairwise_append, List.pairwise_cons] at hsorted
  rw [h] at hw'
  rcases List.mem_append.mp hw' with hw' | hw'
  · exact hbefore _ hw' e' rfl
  · rcases List.mem_cons.mp hw' with hw' | hw'
    · cases hw'
      exact List.lt_irrefl _ hlt
    · exact List.lt_irrefl _ (List.lt_trans hlt (hsorted.2.1.1 _ hw'))

theorem exists_firstStuck {v : List Name} {f : Fault} (hroot : fs.locateFolder p = .ok root)
    (h : fs.StuckAt root p v f) :
    ∃ w g before after, fs.FirstStuck root p w g ∧
      fs.walkModules root p = before ++
        .error (.io s!"Failed to walk {(pathOf p w).display}" g) :: after ∧
      ∀ x ∈ before, ∃ a, x = .ok a := by
  obtain ⟨w, e, hmem, -⟩ := exists_mem_trace_of_stuckAt hroot h
  have hsome : ((fs.trace root p).find? fun x => !x.2.isOk).isSome = true :=
    List.find?_isSome.mpr ⟨_, hmem, rfl⟩
  obtain ⟨⟨w, x⟩, hx⟩ := Option.isSome_iff_exists.mp hsome
  obtain ⟨hx, before, after, htrace, hbefore⟩ := List.find?_eq_some_iff_append.mp hx
  cases x with
  | ok o => cases hx
  | error e =>
    have hok : ∀ y ∈ before, ∀ e', y.2 ≠ .error e' := by
      intro y hy e' he'
      have := hbefore y hy
      rw [he'] at this
      cases this
    obtain ⟨g, hg, rfl⟩ := firstStuck_of_trace_eq hroot htrace hok
    refine ⟨w, g, before.filterMap foundAt, after.filterMap foundAt, hg, ?_, fun y hy => ?_⟩
    · rw [walkModules_eq, htrace, List.filterMap_append, List.filterMap_cons]
      rfl
    · obtain ⟨z, hz, hy⟩ := List.mem_filterMap.mp hy
      unfold foundAt at hy
      split at hy
      · next e' he' => exact absurd he' (hok z hz e')
      · obtain ⟨f, -, rfl⟩ := Option.map_eq_some_iff.mp hy
        exact ⟨f, rfl⟩

/-- The file is an entry of the folder of a module, and leads to no folder. -/
def HoldsFile (fs : FileSystem) (root : Location) (p : Path) (f : Found) : Prop :=
  (∃ l above, fs.Visits root p [f.module, f.name] l above) ∧
    ∃ k, fs.locate ((p.child f.module).child f.name) = .ok k ∧ fs.isFolder k = false

theorem walkModules_of_not_stuckAt (hroot : fs.locateFolder p = .ok root)
    (h : ∀ v f, ¬ fs.StuckAt root p v f) :
    ∃ files : List Found, fs.walkModules root p = files.map .ok ∧ files.Pairwise Found.Before ∧
      ∀ f, f ∈ files ↔ fs.HoldsFile root p f := by
  refine ⟨(fs.trace root p).filterMap fileAt, ?_, ?_, fun f => ?_⟩
  · rw [walkModules_eq, List.map_filterMap]
    refine List.filterMap_congr fun x hx => ?_
    obtain ⟨v, x⟩ := x
    cases x with
    | ok o => rfl
    | error e =>
      obtain ⟨f, hf, -⟩ := stuckAt_of_mem_trace hroot hx
      exact absurd hf (h v f)
  · refine List.pairwise_filterMap.mpr ((fs.pairwise_trace root p).imp ?_)
    intro x y hlt f hf g hg
    rw [fileAt_eq_some_iff] at hf hg
    rw [hf, hg] at hlt
    exact hlt
  · have hmem : f ∈ (fs.trace root p).filterMap fileAt ↔
        ([f.module, f.name], .ok none) ∈ fs.trace root p := by
      simp only [List.mem_filterMap, fileAt_eq_some_iff, exists_eq_right]
    rw [hmem]
    constructor
    · intro hf
      obtain ⟨l, above, hv, he⟩ := visits_of_mem_trace hroot hf
      refine ⟨⟨l, above, hv⟩, ?_⟩
      obtain ⟨q, d, n, node, rfl, hq, hd, hn⟩ := hv.entry hroot
      rw [hq] at he
      rw [show (p.child f.module).child f.name = q.child n from hq]
      rcases visit_spec hd hn above with ⟨f, -, he'⟩ | ⟨-, ⟨k, hk, hfile, -⟩ | ⟨k, -, he'⟩⟩
      · cases he.trans he'
      · exact ⟨k, hk, hfile⟩
      · cases he.trans he'
    · rintro ⟨⟨l, above, hv⟩, k, hk, hfile⟩
      have hf := mem_trace_of_visits hroot hv fun m _ g _ => h [m] g
      obtain ⟨q, d, n, node, rfl, hq, hd, hn⟩ := hv.entry hroot
      rw [show (p.child f.module).child f.name = q.child n from hq] at hk
      rw [hq] at hf
      rcases visit_spec hd hn above with ⟨g, hg, -⟩ | ⟨-, ⟨k, -, -, he⟩ | ⟨k', hk', -⟩⟩
      · exact absurd ⟨_, above, hv, hq ▸ hg⟩ (h _ g)
      · rwa [he] at hf
      · obtain ⟨hk', hfolder⟩ := locateFolder_eq_ok_iff_locate.mp hk'
        cases hk.symm.trans hk'
        rw [hfile] at hfolder
        cases hfolder

end FileSystem

end IncludeMap.File
