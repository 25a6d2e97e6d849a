import IncludeMap.Proofs.File.Agreement
import IncludeMap.Proofs.File.Temporary
import Mathlib

/-! # Replacing a file through a temporary one

A replacement that succeeds changes the one location that the path leads to, and on the way it adds
a temporary file beside it and nothing else. So a reader of any path sees what was there before or
the whole new content.
-/
namespace IncludeMap.File
open Text
namespace FileSystem

/-- The path leads to the location, whether something is there or not. -/
def Leads (fs : FileSystem) (p : Path) (l : Location) : Prop :=
  ∃ a, fs.lookup .follow p = .ok a ∧ a.location = l

/-- The path ends in the name `n`, and the steps in front of it lead to the folder `d`. -/
def LiesIn (fs : FileSystem) (p : Path) (d : Location) (n : Name) : Prop :=
  ∃ before, p.EndsIn before n ∧ fs.walkFolder (startOf p fs.workplace) before = .ok d

namespace LiesIn

variable {fs gs : FileSystem} {p : Path} {d x : Location} {n : Name}

theorem isFolder (h : fs.LiesIn p d n) : fs.isFolder d = true := by
  obtain ⟨before, -, hw⟩ := h
  exact (walkFolder_eq_ok_iff.mp hw).2

theorem lookup (h : fs.LiesIn p d n) (last : Last) (hlast : last ≠ .create) :
    ∃ links, fs.lookup last p = fs.walk last links d [.down n] := by
  obtain ⟨before, he, hw⟩ := h
  obtain ⟨⟨k, hk⟩, -⟩ := walkFolder_eq_ok_iff.mp hw
  refine ⟨k, ?_⟩
  rw [lookup_of_endsIn he hlast, hk]
  rfl

theorem of_agreeBut (h : fs.LiesIn p d n) (hg : fs.AgreeBut gs x) : gs.LiesIn p d n := by
  obtain ⟨before, he, hw⟩ := h
  refine ⟨before, he, ?_⟩
  rw [hg.workplace]
  exact hg.walkFolder hw

theorem lookup_keep (h : fs.LiesIn p d n) :
    (fs.lookup .keep p).map Landing.location = .ok (d ++ [n]) := by
  obtain ⟨links, hl⟩ := h.lookup .keep (by decide)
  rw [hl, walk_keep_down h.isFolder]
  split <;> rfl

theorem node?_ne_link (h : fs.LiesIn p d n) (hp : fs.linkAt? p = none) (target : Path) :
    fs.node? (d ++ [n]) ≠ some (.link target) := by
  intro hn
  obtain ⟨links, hl⟩ := h.lookup .keep (by decide)
  rw [walk_keep_down h.isFolder, hn] at hl
  rw [linkAt?_eq_some_iff.mpr ⟨d ++ [n], hl, hn⟩] at hp
  cases hp

theorem leads (h : fs.LiesIn p d n)
    (hn : ∀ target, fs.node? (d ++ [n]) ≠ some (.link target)) : fs.Leads p (d ++ [n]) := by
  obtain ⟨links, hl⟩ := h.lookup .follow (by decide)
  rw [walk_follow_down h.isFolder links n hn] at hl
  refine ⟨_, hl, ?_⟩
  split <;> rfl

theorem nodeAt? (h : fs.LiesIn p d n)
    (hn : ∀ target, fs.node? (d ++ [n]) ≠ some (.link target)) :
    fs.nodeAt? p = fs.node? (d ++ [n]) := by
  obtain ⟨a, ha, hl⟩ := h.leads hn
  rw [nodeAt?_of_lookup ha, hl]

theorem unique {e : Location} {m : Name} (h : fs.LiesIn p d n) (he : fs.LiesIn p e m) :
    d = e ∧ n = m := by
  obtain ⟨before, hs, hd⟩ := h
  obtain ⟨before', hs', he⟩ := he
  obtain ⟨rfl, hn⟩ := List.append_inj' (hs.symm.trans hs') rfl
  rw [hd] at he
  cases he
  cases hn
  exact ⟨rfl, rfl⟩

theorem fileName? (h : fs.LiesIn p d n) : p.fileName? = some n := by
  obtain ⟨before, hs, -⟩ := h
  exact Path.fileName?_of_endsIn hs

theorem isName (h : fs.LiesIn p d n) : isName n = true := by
  obtain ⟨before, hs, -⟩ := h
  obtain ⟨_, -, hn, -⟩ := Path.exists_segments_of_endsIn hs
  exact hn

theorem locateFolder (h : fs.LiesIn p d n) : fs.locateFolder (folderOf p) = .ok d := by
  obtain ⟨before, hs, hd⟩ := h
  exact locateFolder_folderOf hs hd

end LiesIn

theorem rename_eq_ok {fs moved : FileSystem} {source : Location} {p : Path}
    (h : fs.rename source p = .ok moved) :
    ∃ d n node, fs.LiesIn p d n ∧ fs.node? source = some node ∧ fs.isFolder (d ++ [n]) = false ∧
      moved = (fs.erase source).put (d ++ [n]) node := by
  unfold rename at h
  split at h
  · next l node hl hn =>
    obtain ⟨before, n, d, hs, hd, rfl⟩ := endsIn_of_renamed hl
    split at h
    · cases h
    · next hf =>
      refine ⟨d, n, node, ⟨before, hs, hd⟩, hn, Bool.eq_false_iff.mpr hf, ?_⟩
      exact (Except.ok.inj h).symm
  · cases h
  · cases h

theorem accepts_file {fs : FileSystem} {d : Location} {n : Name} (hd : fs.isFolder d = true)
    (hn : isName n = true) (hf : fs.isFolder (d ++ [n]) = false) (mode : Nat) (content : Bytes) :
    fs.accepts (d ++ [n]) (.file mode content) = true := by
  have hall : ∀ m ∈ d ++ [n], isName m = true := by
    intro m hm
    rcases List.mem_append.mp hm with hm | hm
    · exact isName_of_node? (isFolder_iff.mp hd) hm
    · rwa [List.mem_singleton.mp hm]
  simp only [accepts, isLocation, Bool.and_eq_true, List.all_eq_true, List.dropLast_concat, hf]
  simpa [hd] using hall

theorem AgreeBut.node?_put {fs gs : FileSystem} {d : Location} {m : Name}
    (h : fs.AgreeBut gs (d ++ [m])) (hfree : fs.node? (d ++ [m]) = none)
    (hd : fs.isFolder d = true) (hm : isName m = true) (mode : Nat) (content : Bytes) :
    (gs.put (d ++ [m]) (.file mode content)).node? (d ++ [m]) = some (.file mode content) := by
  have hplain : gs.isFolder (d ++ [m]) = false := by
    rw [h.isFolder]
    exact isFolder_eq_false_iff.mpr (by simp [hfree])
  rw [FileSystem.node?_put (accepts_file ((h.isFolder d).trans hd) hm hplain mode content),
    if_pos rfl]

theorem node?_of_rename {fs moved : FileSystem} {temp d : Location} {p : Path} {mode : Nat}
    {content : Bytes} {n : Name} (hfile : fs.node? temp = some (.file mode content))
    (hlies : fs.LiesIn p d n) (hne : temp ≠ d ++ [n]) (h : fs.rename temp p = .ok moved) :
    moved.workplace = fs.workplace ∧ fs.isFolder (d ++ [n]) = false ∧
      ∀ k, moved.node? k =
        if k = d ++ [n] then some (.file mode content)
        else if k = temp then none else fs.node? k := by
  obtain ⟨e, m, node, hlies', hnode, hf, rfl⟩ := rename_eq_ok h
  obtain ⟨rfl, rfl⟩ := hlies'.unique hlies
  cases hfile.symm.trans hnode
  have hplain : fs.isFolder temp = false := isFolder_eq_false_iff.mpr (by simp [hfile])
  have herase := node?_erase_of_not_folder hplain
  have hd : (fs.erase temp).isFolder e = true := by
    rw [isFolder_iff, herase, if_neg, ← isFolder_iff]
    · exact hlies.isFolder
    · rintro rfl
      rw [hlies.isFolder] at hplain
      cases hplain
  have hf' : (fs.erase temp).isFolder (e ++ [m]) = false := by
    rw [FileSystem.isFolder, herase, if_neg (Ne.symm hne)]
    exact hf
  have hput := node?_put (accepts_file hd hlies.isName hf' mode content)
  refine ⟨workplace_put _ _ _, hf, fun k => ?_⟩
  rw [hput, herase]

theorem states_of_replaceThrough {fs : FileSystem} {p : Path} {temp : Location} {content : Bytes}
    (h : (fs.replaceThrough p temp content).report.value = .ok ()) :
    ∃ created permitted written moved mode,
      created = fs.put temp (.file defaultMode []) ∧
      mode = (created.modeAt? p).getD defaultMode ∧
      permitted = created.put temp (.file mode []) ∧
      written = permitted.put temp (.file mode content) ∧
      written.rename temp p = .ok moved ∧
      (fs.replaceThrough p temp content).states = [created, permitted, written, moved] := by
  unfold replaceThrough at h ⊢
  simp only at h ⊢
  split at h
  · next moved hmoved =>
    exact ⟨_, _, _, moved, _, rfl, rfl, rfl, rfl, hmoved, rfl⟩
  · cases h

/-- The file system `after` is `fs` with a file written at `l`: a new one has the default mode, an
old one keeps its mode. -/
structure Replaces (fs after : FileSystem) (l : Location) (content : Bytes) : Prop where
  workplace : after.workplace = fs.workplace
  elsewhere : ∀ k, k ≠ l → after.node? k = fs.node? k
  written : ∃ mode, after.node? l = some (.file mode content) ∧
    (fs.node? l = none ∧ mode = defaultMode ∨ ∃ old, fs.node? l = some (.file mode old))

theorem Replaces.agreeBut {fs after : FileSystem} {l : Location} {content : Bytes}
    (h : fs.Replaces after l content) : fs.AgreeBut after l := by
  obtain ⟨mode, hafter, hfs⟩ := h.written
  refine ⟨h.workplace, h.elsewhere, fun n hn => ?_, fun n hn => ?_⟩
  · rcases hfs with ⟨hnone, -⟩ | ⟨old, hold⟩
    · rw [hnone] at hn
      cases hn
    · exact ⟨mode, old, Option.some.inj (hn.symm.trans hold)⟩
  · exact ⟨mode, content, Option.some.inj (hn.symm.trans hafter)⟩

theorem AgreeBut.refl {fs : FileSystem} {x : Location} (h : fs.node? x = none) :
    fs.AgreeBut fs x := by
  have hx : ∀ n, fs.node? x = some n → ∃ mode content, n = .file mode content := by
    intro n hn
    rw [h] at hn
    cases hn
  exact ⟨rfl, fun _ _ => rfl, hx, hx⟩

theorem concat_ne_concat {d : Location} {m n : Name} (h : m ≠ n) : d ++ [m] ≠ d ++ [n] :=
  fun he => h (List.singleton_inj.mp (List.append_cancel_left he))

section Through

variable {fs : FileSystem} {p : Path} {content : Bytes} {d : Location} {n m : Name}

theorem modeAt?_of_liesIn {gs : FileSystem} (hlies : fs.LiesIn p d n) (hp : fs.linkAt? p = none)
    (hg : fs.AgreeBut gs (d ++ [m])) (hne : m ≠ n) (hf : fs.isFolder (d ++ [n]) = false) :
    fs.node? (d ++ [n]) = none ∧ gs.modeAt? p = none ∨
      ∃ mode old, fs.node? (d ++ [n]) = some (.file mode old) ∧ gs.modeAt? p = some mode := by
  have hat : gs.node? (d ++ [n]) = fs.node? (d ++ [n]) :=
    hg.node _ (concat_ne_concat (Ne.symm hne))
  have hlink := hlies.node?_ne_link hp
  have hnode := (hlies.of_agreeBut hg).nodeAt? (hat ▸ hlink)
  rw [hat] at hnode
  rw [modeAt?, hnode]
  cases hn : fs.node? (d ++ [n]) with
  | none => exact .inl ⟨rfl, rfl⟩
  | some node =>
    cases node with
    | folder =>
      rw [← isFolder_iff, hf] at hn
      cases hn
    | file mode old => exact .inr ⟨mode, old, rfl, rfl⟩
    | link target => exact absurd hn (hlink target)

/-- A replacement that succeeds through a free location of the folder that the path lies in. -/
theorem replaceThrough_ok (hfree : fs.node? (d ++ [m]) = none) (hm : isName m = true)
    (hd : fs.locateFolder (folderOf p) = .ok d) (hname : p.fileName? ≠ some m)
    (hp : fs.linkAt? p = none)
    (h : (fs.replaceThrough p (d ++ [m]) content).report.value = .ok ()) :
    ∃ n mid after, fs.LiesIn p d n ∧ m ≠ n ∧
      (fs.replaceThrough p (d ++ [m]) content).states = mid ++ [after] ∧
      (∀ s ∈ mid, fs.AgreeBut s (d ++ [m])) ∧ fs.Replaces after (d ++ [n]) content := by
  obtain ⟨created, permitted, written, moved, mode, hcreated, hmode, hpermitted, hwritten, hmoved,
    hstates⟩ := states_of_replaceThrough h
  have hc : fs.AgreeBut created (d ++ [m]) := hcreated ▸ (AgreeBut.refl hfree).put defaultMode []
  have hp' : fs.AgreeBut permitted (d ++ [m]) := hpermitted ▸ hc.put mode []
  have hw : fs.AgreeBut written (d ++ [m]) := hwritten ▸ hp'.put mode content
  obtain ⟨e, n, -, hmovedLies, -⟩ := rename_eq_ok hmoved
  have hlies := hmovedLies.of_agreeBut hw.symm
  obtain rfl : d = e := Except.ok.inj (hd.symm.trans hlies.locateFolder)
  have hne : m ≠ n := fun h => hname (h ▸ hlies.fileName?)
  have hne' : d ++ [m] ≠ d ++ [n] := concat_ne_concat hne
  have hfile : written.node? (d ++ [m]) = some (.file mode content) :=
    hwritten ▸ hp'.node?_put hfree hlies.isFolder hm mode content
  obtain ⟨hwp, hf, hnode⟩ := node?_of_rename hfile hmovedLies hne' hmoved
  refine ⟨n, [created, permitted, written], moved, hlies, hne, hstates, ?_, ?_⟩
  · intro s hs
    simp only [List.mem_cons, List.not_mem_nil, or_false] at hs
    rcases hs with rfl | rfl | rfl
    · exact hc
    · exact hp'
    · exact hw
  · refine ⟨hwp.trans hw.workplace, fun k hk => ?_, mode, by rw [hnode, if_pos rfl], ?_⟩
    · rw [hnode, if_neg hk]
      split
      · next hk => rw [hk, hfree]
      · next hk => exact hw.node k hk
    · rw [hw.isFolder] at hf
      rcases modeAt?_of_liesIn hlies hp hc hne hf with ⟨hn, hat⟩ | ⟨kept, old, hn, hat⟩
      · exact .inl ⟨hn, by rw [hmode, hat, Option.getD_none]⟩
      · exact .inr ⟨old, by rw [hmode, hat, Option.getD_some, hn]⟩

end Through

theorem linkAt?_of_pathBehind? {fs : FileSystem} {hops : Nat} {p target : Path}
    (h : fs.pathBehind? hops p = some target) : fs.linkAt? target = none := by
  induction hops generalizing p with
  | zero => cases h
  | succ hops ih =>
    rw [pathBehind?] at h
    cases hl : fs.linkAt? p with
    | none =>
      rw [hl] at h
      cases h
      exact hl
    | some t =>
      rw [hl] at h
      exact ih h

theorem Replaces.readBytes {fs after : FileSystem} {l k : Location} {content : Bytes} {p : Path}
    (h : fs.Replaces after l content) (hk : fs.Leads p k) :
    after.readBytes p = if k = l then .ok content else fs.readBytes p := by
  obtain ⟨a, ha, rfl⟩ := hk
  rw [h.agreeBut.readBytes ha, readBytes_of_lookup ha]
  split
  · next hl =>
    obtain ⟨mode, hn, -⟩ := h.written
    rw [hl, hn]
    rfl
  · next hl => rw [h.elsewhere _ hl]

theorem AgreeBut.readBytes_eq {fs gs : FileSystem} {x k : Location} {p : Path}
    (h : fs.AgreeBut gs x) (hk : fs.Leads p k) (hx : k ≠ x) :
    gs.readBytes p = fs.readBytes p := by
  obtain ⟨a, ha, rfl⟩ := hk
  rw [h.readBytes ha, readBytes_of_lookup ha, h.node _ hx]

/-- A folder `d` with a private file `b`, and a link `a` to that file. -/
def linkedFile : FileSystem :=
  (((empty []).put [encode ['d']] .folder).put [encode ['d'], encode ['b']]
    (.file 0o600 (encode ['o', 'l', 'd']))).put [encode ['a']] (.link (.ofString "d/b"))

end FileSystem

end IncludeMap.File
