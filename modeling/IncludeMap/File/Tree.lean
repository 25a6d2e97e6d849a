import IncludeMap.File.Path

/-! # The file system

A finite map from locations to nodes. The location of a node is the list of names that leads to it
from the root, which is always a folder. The order in which a folder lists its entries is the order
of the map, so it is part of the data and no operation that answers a question should depend on it.
-/
namespace IncludeMap.File
open Text

abbrev Location := List Name

inductive Node where
  | folder
  | file (mode : Nat) (content : Bytes)
  | link (target : Path)
  deriving DecidableEq

def isName (n : Name) : Bool :=
  n ≠ [] && n ≠ [dot] && n ≠ [dot, dot] && !n.contains slash

def isLocation (l : Location) : Bool :=
  l ≠ [] && l.all isName

structure FileSystem where
  entries : List (Location × Node)
  /-- Where relative paths start. -/
  workplace : Location
  nodup : (entries.map Prod.fst).Nodup
  named : ∀ l ∈ entries.map Prod.fst, isLocation l = true
  /-- What an entry lies in is a folder. -/
  rooted : ∀ l ∈ entries.map Prod.fst, l.dropLast ≠ [] → entries.lookup l.dropLast = some .folder

namespace FileSystem

/-- Nothing but the root. -/
def empty (workplace : Location) : FileSystem :=
  ⟨[], workplace, by simp, by simp, by simp⟩

def node? (fs : FileSystem) (l : Location) : Option Node :=
  if l = [] then some .folder else fs.entries.lookup l

def isFolder (fs : FileSystem) (l : Location) : Bool :=
  fs.node? l == some .folder

/-- The names of a folder's entries in the order in which the system lists them. -/
def names (fs : FileSystem) (l : Location) : List Name :=
  fs.entries.filterMap fun e => if e.1.dropLast = l then e.1.getLast? else none

@[simp] theorem node?_nil (fs : FileSystem) : fs.node? [] = some .folder := rfl

theorem isFolder_iff {fs : FileSystem} {l : Location} :
    fs.isFolder l = true ↔ fs.node? l = some .folder := by
  simp [isFolder]

theorem isFolder_eq_false_iff {fs : FileSystem} {l : Location} :
    fs.isFolder l = false ↔ fs.node? l ≠ some .folder := by
  rw [Bool.eq_false_iff, ne_eq, isFolder_iff]

theorem mem_of_lookup {l : Location} {n : Node} {es : List (Location × Node)}
    (h : es.lookup l = some n) : l ∈ es.map Prod.fst := by
  obtain ⟨before, after, he, -⟩ := List.lookup_eq_some_iff.mp h
  simp [he]

theorem mem_of_node? {fs : FileSystem} {l : Location} {n : Node} (h : fs.node? l = some n)
    (hl : l ≠ []) : l ∈ fs.entries.map Prod.fst := by
  rw [node?, if_neg hl] at h
  exact mem_of_lookup h

theorem lookup_eq_some_iff_mem {es : List (Location × Node)} (h : (es.map Prod.fst).Nodup)
    {l : Location} {n : Node} : es.lookup l = some n ↔ (l, n) ∈ es := by
  induction es with
  | nil => simp
  | cons e es ih =>
    obtain ⟨k, m⟩ := e
    rw [List.map_cons, List.nodup_cons] at h
    by_cases hk : l = k
    · have hnot : (k, n) ∉ es := fun hn => h.1 (List.mem_map.mpr ⟨(k, n), hn, rfl⟩)
      simp [hk, hnot, eq_comm]
    · simp [List.lookup_cons, beq_eq_false_iff_ne.mpr hk, hk, ih h.2]

theorem mem_entries_iff {fs : FileSystem} {l : Location} {n : Node} :
    (l, n) ∈ fs.entries ↔ l ≠ [] ∧ fs.node? l = some n := by
  rw [← lookup_eq_some_iff_mem fs.nodup]
  constructor
  · intro h
    have hl : l ≠ [] := by
      rintro rfl
      cases fs.named [] (mem_of_lookup h)
    exact ⟨hl, by rw [node?, if_neg hl, h]⟩
  · rintro ⟨hl, h⟩
    rwa [node?, if_neg hl] at h

theorem mem_names_iff {fs : FileSystem} {l : Location} {n : Name} :
    n ∈ fs.names l ↔ ∃ node, fs.node? (l ++ [n]) = some node := by
  have hne : l ++ [n] ≠ [] := List.append_ne_nil_of_right_ne_nil l (List.cons_ne_nil n [])
  constructor
  · intro h
    obtain ⟨e, he, hn⟩ := List.mem_filterMap.mp h
    split at hn
    · next hd =>
      obtain ⟨m, hm⟩ := List.getLast?_eq_some_iff.mp hn
      have hl : l ++ [n] = e.1 := by rw [← hd, hm, List.dropLast_concat]
      have hmem : l ++ [n] ∈ fs.entries.map Prod.fst := hl ▸ List.mem_map_of_mem he
      rw [node?, if_neg hne]
      cases h : fs.entries.lookup (l ++ [n]) with
      | some node => exact ⟨node, rfl⟩
      | none =>
        have := List.lookup_eq_none_iff.mp h e he
        simp [hl] at this
    · cases hn
  · rintro ⟨node, hn⟩
    obtain ⟨e, he, hl⟩ := List.mem_map.mp (mem_of_node? hn hne)
    exact List.mem_filterMap.mpr ⟨e, he, by simp [hl]⟩

theorem isName_of_node? {fs : FileSystem} {l : Location} {n : Node} {m : Name}
    (h : fs.node? l = some n) (hm : m ∈ l) : isName m = true := by
  have hl : isLocation l = true := fs.named l (mem_of_node? h (List.ne_nil_of_mem hm))
  simp only [isLocation, Bool.and_eq_true, List.all_eq_true] at hl
  exact hl.2 m hm

/-- An entry lies in a folder. -/
theorem isFolder_dropLast {fs : FileSystem} {l : Location} {n : Node} (h : fs.node? l = some n) :
    fs.isFolder l.dropLast = true := by
  rw [isFolder_iff]
  by_cases hd : l.dropLast = []
  · rw [hd, node?_nil]
  · have hl : l ≠ [] := fun hl => hd (by simp [hl])
    rw [node?, if_neg hd]
    exact fs.rooted l (mem_of_node? h hl) hd

theorem isFolder_above {fs : FileSystem} {l m : Location} {n : Node}
    (h : fs.node? (l ++ m) = some n) (hm : m ≠ []) : fs.isFolder l = true := by
  have hd := isFolder_dropLast h
  rw [List.dropLast_append_of_ne_nil hm] at hd
  by_cases hm' : m.dropLast = []
  · rwa [hm', List.append_nil] at hd
  · exact isFolder_above (isFolder_iff.mp hd) hm'
termination_by m.length
decreasing_by
  have := List.length_pos_iff.mpr hm
  rw [List.length_dropLast]
  omega

/-- Replace the node of a location that is there, or else add the location at the end. -/
def putEntry (l : Location) (n : Node) : List (Location × Node) → List (Location × Node)
  | [] => [(l, n)]
  | e :: es => if e.1 = l then (l, n) :: es else e :: putEntry l n es

theorem mem_fst_putEntry {l k : Location} {n : Node} {es : List (Location × Node)} :
    k ∈ (putEntry l n es).map Prod.fst ↔ k = l ∨ k ∈ es.map Prod.fst := by
  induction es with
  | nil => simp [putEntry]
  | cons e es ih =>
    by_cases he : e.1 = l
    · rw [putEntry, if_pos he]
      simp [he]
    · rw [putEntry, if_neg he, List.map_cons, List.mem_cons, ih, List.map_cons, List.mem_cons]
      constructor
      · rintro (h | h | h)
        · exact .inr (.inl h)
        · exact .inl h
        · exact .inr (.inr h)
      · rintro (h | h | h)
        · exact .inr (.inl h)
        · exact .inl h
        · exact .inr (.inr h)

theorem nodup_putEntry {l : Location} {n : Node} {es : List (Location × Node)}
    (h : (es.map Prod.fst).Nodup) : ((putEntry l n es).map Prod.fst).Nodup := by
  induction es with
  | nil => simp [putEntry]
  | cons e es ih =>
    rw [List.map_cons, List.nodup_cons] at h
    by_cases he : e.1 = l
    · rw [putEntry, if_pos he, List.map_cons, List.nodup_cons]
      exact ⟨he ▸ h.1, h.2⟩
    · rw [putEntry, if_neg he, List.map_cons, List.nodup_cons]
      refine ⟨fun hm => ?_, ih h.2⟩
      rcases mem_fst_putEntry.mp hm with h' | h'
      · exact he h'
      · exact h.1 h'

theorem lookup_putEntry (l k : Location) (n : Node) (es : List (Location × Node)) :
    (putEntry l n es).lookup k = if k = l then some n else es.lookup k := by
  induction es with
  | nil =>
    by_cases hk : k = l
    · simp [putEntry, hk]
    · simp [putEntry, List.lookup_cons, hk, beq_eq_false_iff_ne.mpr hk]
  | cons e es ih =>
    obtain ⟨m, x⟩ := e
    by_cases he : m = l
    · rw [putEntry, if_pos he]
      by_cases hk : k = l
      · simp [hk]
      · have hm : k ≠ m := fun h => hk (h.trans he)
        simp [List.lookup_cons, hk, beq_eq_false_iff_ne.mpr hk, beq_eq_false_iff_ne.mpr hm]
    · rw [putEntry, if_neg he]
      by_cases hm : k = m
      · have hk : k ≠ l := fun h => he (hm.symm.trans h)
        simp [hm, hm ▸ hk]
      · simp [List.lookup_cons, beq_eq_false_iff_ne.mpr hm, ih]

/-- The node can be stored there: the location lies in a folder, and a folder stays a folder. -/
def accepts (fs : FileSystem) (l : Location) (n : Node) : Bool :=
  isLocation l && fs.isFolder l.dropLast && (n == .folder || !fs.isFolder l)

theorem rooted_putEntry {fs : FileSystem} {l : Location} {n : Node} (h : fs.accepts l n = true)
    {k : Location} (hk : k ∈ (putEntry l n fs.entries).map Prod.fst) (hd : k.dropLast ≠ []) :
    (putEntry l n fs.entries).lookup k.dropLast = some .folder := by
  simp only [accepts, Bool.and_eq_true, Bool.or_eq_true, beq_iff_eq, Bool.not_eq_true'] at h
  have hfolder : fs.isFolder k.dropLast = true := by
    rcases mem_fst_putEntry.mp hk with rfl | hk
    · exact h.1.2
    · rw [isFolder_iff, node?, if_neg hd]
      exact fs.rooted k hk hd
  rw [lookup_putEntry]
  by_cases hl : k.dropLast = l
  · rcases h.2 with hn | hn
    · rw [if_pos hl, hn]
    · rw [hl, hn] at hfolder
      exact absurd hfolder (by decide)
  · rw [if_neg hl]
    rwa [isFolder_iff, node?, if_neg hd] at hfolder

/-- Store a node. A node that cannot be there is left out. -/
def put (fs : FileSystem) (l : Location) (n : Node) : FileSystem :=
  if h : fs.accepts l n = true then
    { fs with
      entries := putEntry l n fs.entries
      nodup := nodup_putEntry fs.nodup
      named := fun k hk => by
        rcases mem_fst_putEntry.mp hk with rfl | hk
        · simp only [accepts, Bool.and_eq_true] at h
          exact h.1.1
        · exact fs.named k hk
      rooted := fun _ => rooted_putEntry h }
  else fs

theorem lookup_filter_fst (p : Location → Bool) (k : Location) (es : List (Location × Node)) :
    (es.filter fun e => p e.1).lookup k = if p k then es.lookup k else none := by
  induction es with
  | nil => simp
  | cons e es ih =>
    obtain ⟨m, x⟩ := e
    by_cases hk : k = m
    · subst hk
      cases hp : p k with
      | true => simp [hp]
      | false => simp [hp, ih]
    · cases hp : p m with
      | true => simp [hp, List.lookup_cons, beq_eq_false_iff_ne.mpr hk, ih]
      | false => simp [hp, List.lookup_cons, beq_eq_false_iff_ne.mpr hk, ih]

/-- Take away a location and all that lies below it. -/
def erase (fs : FileSystem) (l : Location) : FileSystem :=
  { fs with
    entries := fs.entries.filter fun e => !l.isPrefixOf e.1
    nodup := List.Nodup.sublist (List.Sublist.map _ List.filter_sublist) fs.nodup
    named := fun k hk => fs.named k ((List.Sublist.map _ List.filter_sublist).subset hk)
    rooted := fun k hk hd => by
      obtain ⟨e, he, rfl⟩ := List.mem_map.mp hk
      obtain ⟨hm, hp⟩ := List.mem_filter.mp he
      rw [lookup_filter_fst (fun k => !l.isPrefixOf k), if_pos]
      · exact fs.rooted e.1 (List.mem_map_of_mem hm) hd
      · simp only [Bool.not_eq_true', Bool.eq_false_iff, ne_eq, List.isPrefixOf_iff_prefix] at hp ⊢
        exact fun hd => hp (hd.trans (List.dropLast_prefix e.1)) }

@[simp] theorem workplace_put (fs : FileSystem) (l : Location) (n : Node) :
    (fs.put l n).workplace = fs.workplace := by
  unfold put
  split <;> rfl

@[simp] theorem workplace_erase (fs : FileSystem) (l : Location) :
    (fs.erase l).workplace = fs.workplace := rfl

/-- What is stored is found, and nothing else has changed. -/
theorem node?_put {fs : FileSystem} {l : Location} {n : Node} (h : fs.accepts l n = true)
    (k : Location) : (fs.put l n).node? k = if k = l then some n else fs.node? k := by
  have hne : l ≠ [] := by
    simp only [accepts, isLocation, Bool.and_eq_true, decide_eq_true_eq] at h
    exact h.1.1.1
  rw [put, dif_pos h, node?, node?]
  by_cases hk : k = []
  · rw [if_pos hk, if_pos hk, if_neg fun hkl => hne (hkl.symm.trans hk)]
  · rw [if_neg hk, if_neg hk, lookup_putEntry]

/-- What lies at or below the location is gone, and nothing else has changed. -/
theorem node?_erase {fs : FileSystem} {l : Location} (hl : l ≠ []) (k : Location) :
    (fs.erase l).node? k = if l.isPrefixOf k then none else fs.node? k := by
  by_cases hk : k = []
  · have hp : l.isPrefixOf k = false := by
      rw [Bool.eq_false_iff, ne_eq, List.isPrefixOf_iff_prefix, hk, List.prefix_nil]
      exact hl
    rw [hp, hk]
    rfl
  · rw [node?, node?, if_neg hk, if_neg hk]
    show (fs.entries.filter fun e => !l.isPrefixOf e.1).lookup k = _
    rw [lookup_filter_fst fun k => !l.isPrefixOf k]
    cases l.isPrefixOf k <;> rfl

theorem node?_erase_of_not_folder {fs : FileSystem} {l : Location} (hl : fs.isFolder l = false)
    (k : Location) : (fs.erase l).node? k = if k = l then none else fs.node? k := by
  have hne : l ≠ [] := by
    rintro rfl
    exact absurd hl (by simp [isFolder])
  rw [node?_erase hne]
  by_cases hk : k = l
  · simp [hk]
  · rw [if_neg hk]
    cases hp : l.isPrefixOf k with
    | false => rfl
    | true =>
      obtain ⟨m, rfl⟩ := List.isPrefixOf_iff_prefix.mp hp
      cases hn : fs.node? (l ++ m) with
      | none => rfl
      | some n =>
        have hm : m ≠ [] := fun hm => hk (by simp [hm])
        rw [isFolder_above hn hm] at hl
        exact absurd hl (by decide)

end FileSystem

end IncludeMap.File
