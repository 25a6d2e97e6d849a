import IncludeMap.Proofs.File.Rollback

/-! # A replacement is a plain overwrite

Where a path can be opened to be created or truncated, a replacement leaves what a plain overwrite
leaves. There is one exception: of the forty links that a lookup may follow a replacement follows
only the first thirty-nine at the end of a path, so it refuses a path with forty of them there.
-/
namespace IncludeMap.File
open Text
namespace FileSystem

variable {fs gs : FileSystem} {p q target : Path} {a : Landing} {l d : Location} {n m : Name}
  {links : Nat} {steps : List Step} {content : Bytes}

/-- So many links, each of them at the path behind the one before, lead from the first path to the
second, which is no link. -/
inductive LinksTo (fs : FileSystem) : Nat → Path → Path → Prop where
  | done {p : Path} (h : fs.linkAt? p = none) : LinksTo fs 0 p p
  | link {k : Nat} {p target q : Path} (h : fs.linkAt? p = some target)
    (rest : LinksTo fs k (behindLink p target) q) : LinksTo fs (k + 1) p q

theorem LinksTo.pathBehind?_eq {k : Nat} (h : fs.LinksTo k p q) (hops : Nat) :
    fs.pathBehind? hops p = if k < hops then some q else none := by
  induction h generalizing hops with
  | done h =>
    cases hops with
    | zero => rfl
    | succ hops => simp [pathBehind?, h]
  | link h _ ih =>
    cases hops with
    | zero => rfl
    | succ hops => simp [pathBehind?, h, ih]

theorem exists_liesIn_of_walk (hlinks : links ≤ maxLinks)
    (hstart : fs.isFolder (startOf p fs.workplace) = true)
    (h : fs.walk .follow links (startOf p fs.workplace) p.steps = .ok a)
    (ha : fs.isFolder a.location = false) (hp : fs.linkAt? p = none) :
    ∃ d n, fs.LiesIn p d n ∧ a.location = d ++ [n] := by
  obtain ⟨before, n, k, d, hs, hadvance, hd, hlast⟩ := exists_name_of_walk (by decide) hstart h ha
  obtain ⟨used, hused, hspare⟩ := advance_spare hadvance
  have hmax : used + (maxLinks - used) = maxLinks := by omega
  have hlies : fs.LiesIn p d n :=
    ⟨before, hs, walkFolder_eq_ok_iff.mpr ⟨⟨_, hmax ▸ hspare (maxLinks - used)⟩, hd⟩⟩
  refine ⟨d, n, hlies, ?_⟩
  rw [walk_follow_down hd k n (hlies.node?_ne_link hp), Except.ok.injEq] at hlast
  rw [← hlast]
  split <;> rfl

theorem isFolder_startOf_behindLink {before : List Step} (hp : p.EndsIn before n)
    (hstart : fs.isFolder (startOf p fs.workplace) = true) (target : Path) :
    fs.isFolder (startOf (behindLink p target) fs.workplace) = true := by
  obtain ⟨parent, _, hparent, habs, -⟩ := Path.hasParent_of_endsIn hp
  rw [behindLink, hparent]
  cases ht : target.isAbsolute with
  | true => simp [startOf, ht, isFolder]
  | false => simpa [startOf, Path.isAbsolute_join ht, habs] using hstart

theorem exists_walk_behindLink (hstart : fs.isFolder (startOf p fs.workplace) = true)
    (h : fs.walk .follow links (startOf p fs.workplace) p.steps = .ok a)
    (ha : fs.isFolder a.location = false) (hp : fs.linkAt? p = some target) :
    ∃ fewer, links = fewer + 1 ∧
      fs.isFolder (startOf (behindLink p target) fs.workplace) = true ∧
      fs.walk .follow fewer (startOf (behindLink p target) fs.workplace)
        (behindLink p target).steps = .ok a := by
  obtain ⟨before, n, _, d, he, hmost, hd, hn⟩ := endsIn_of_linkAt? hp
  obtain ⟨before', n', k, d', hs, hadvance, -, hlast⟩ :=
    exists_name_of_walk (by decide) hstart h ha
  obtain ⟨rfl, hname⟩ := List.append_inj' (he.symm.trans hs) rfl
  cases hname
  obtain ⟨used, rfl, hspare⟩ := advance_spare hadvance
  obtain rfl : d = d' := by
    obtain ⟨used', -, hspare'⟩ := advance_spare hmost
    have hused := hspare used'
    rw [Nat.add_comm used used', hspare' used] at hused
    cases hused
    rfl
  rw [walk_follow_link hd hn] at hlast
  cases k with
  | zero => cases hlast
  | succ k =>
    have hne : target.bytes ≠ [] := by
      intro hempty
      have hstay : startOf target d = d ∧ target.steps = [] := by
        simp [startOf, Path.isAbsolute, Path.steps, hempty, segments]
      simp only [hstay, walk] at hlast
      cases hlast
      cases hd.symm.trans ha
    obtain ⟨m, hm, hbehind⟩ := walk_behindLink he hne (hspare k)
    refine ⟨used + k, rfl, isFolder_startOf_behindLink he hstart target, ?_⟩
    rcases fs.walk_of_le .follow k (startOf target d) target.steps with hloop | hmore
    · cases hlast.symm.trans hloop
    · rw [hbehind, hmore m hm]
      exact hlast

theorem exists_linksTo_of_walk (hlinks : links ≤ maxLinks)
    (hstart : fs.isFolder (startOf p fs.workplace) = true)
    (h : fs.walk .follow links (startOf p fs.workplace) p.steps = .ok a)
    (ha : fs.isFolder a.location = false) :
    ∃ k q d n, k ≤ links ∧ fs.LinksTo k p q ∧ fs.LiesIn q d n ∧ a.location = d ++ [n] := by
  induction links generalizing p with
  | zero =>
    cases hp : fs.linkAt? p with
    | none =>
      obtain ⟨d, n, hlies, hl⟩ := exists_liesIn_of_walk hlinks hstart h ha hp
      exact ⟨0, p, d, n, Nat.le_refl 0, .done hp, hlies, hl⟩
    | some target =>
      obtain ⟨fewer, hfewer, -⟩ := exists_walk_behindLink hstart h ha hp
      cases hfewer
  | succ links ih =>
    cases hp : fs.linkAt? p with
    | none =>
      obtain ⟨d, n, hlies, hl⟩ := exists_liesIn_of_walk hlinks hstart h ha hp
      exact ⟨0, p, d, n, Nat.zero_le _, .done hp, hlies, hl⟩
    | some target =>
      obtain ⟨fewer, hfewer, hstart', h'⟩ := exists_walk_behindLink hstart h ha hp
      cases hfewer
      obtain ⟨k, q, d, n, hk, hto, hlies, hl⟩ := ih (Nat.le_of_succ_le hlinks) hstart' h'
      exact ⟨k + 1, q, d, n, Nat.succ_le_succ hk, .link hp hto, hlies, hl⟩

theorem isFolder_of_walk_closing
    (h : fs.walk .follow links l (steps ++ [.closing]) = .ok a) :
    fs.isFolder a.location = true := by
  rw [walk_append fs (by decide) links l steps (List.cons_ne_nil _ [])] at h
  cases ha : fs.advance links l steps with
  | error f =>
    rw [ha] at h
    cases h
  | ok kd =>
    rw [ha] at h
    replace h : fs.walk .follow kd.1 kd.2 [.closing] = .ok a := h
    have hd := isFolder_of_walk (List.cons_ne_nil _ []) h
    rw [walk, if_neg (by simp [hd]), walk] at h
    cases h
    exact hd

theorem walk_follow_of_create (h : fs.walk .create links l steps = .ok a) :
    fs.walk .follow links l steps = .ok a := by
  fun_induction walk fs .create links l steps with
  | case1 =>
    rw [walk]
    exact h
  | case2 => cases h
  | case3 _ _ _ hl ih | case4 _ _ _ hl ih | case5 _ _ _ hl ih =>
    rw [walk, if_neg hl]
    exact ih h
  | case6 => cases h
  | case7 links l hl n hn hc =>
    rw [walk, if_neg hl, if_neg (by simp), hn]
    exact h
  | case8 => cases h
  | case9 links l rest hl n hc target hn hk => cases hk.2
  | case10 => cases h
  | case11 l rest hl n hc target hn hk links ih =>
    rw [walk_down_of_link hl (by simp) hn (by simp), ih h]
  | case12 links l rest hl n hc node hnode hn ih =>
    rw [walk_down_of_node hl (by simp) hn hnode, ih h]

theorem walk_create_of_follow (h : fs.walk .follow links l steps = .ok a)
    (ha : fs.isFolder a.location = false) : fs.walk .create links l steps = .ok a := by
  have hclosing : ∀ {links l} steps, fs.walk .follow links l (steps ++ [.closing]) ≠ .ok a := by
    intro links l steps hw
    cases (isFolder_of_walk_closing hw).symm.trans ha
  fun_induction walk fs .follow links l steps with
  | case1 =>
    rw [walk]
    exact h
  | case2 => cases h
  | case3 _ _ _ hl ih | case4 _ _ _ hl ih | case5 _ _ _ hl ih =>
    rw [walk, if_neg hl]
    exact ih h
  | case6 _ _ _ _ _ hc => cases hc.1
  | case7 links l hl n hn hc =>
    rw [walk, if_neg hl, if_neg (by simp), hn]
    exact h
  | case8 => cases h
  | case9 links l rest hl n hc target hn hk => cases hk.2
  | case10 => cases h
  | case11 l rest hl n hc target hn hk links ih =>
    have hrest : rest ≠ [.closing] := by
      rintro rfl
      exact hclosing _ h
    rw [walk_down_of_link hl (fun h => hrest h.2) hn (by simp), ih h]
  | case12 links l rest hl n hc node hnode hn ih =>
    have hrest : rest ≠ [.closing] := by
      rintro rfl
      exact hclosing [] h
    rw [walk_down_of_node hl (fun h => hrest h.2) hn hnode, ih h]

theorem lookup_create_eq_ok_iff (ha : fs.isFolder a.location = false) :
    fs.lookup .create p = .ok a ↔ fs.lookup .follow p = .ok a := by
  constructor
  · intro h
    have hp := bytes_ne_nil_of_lookup h
    rw [lookup_of_bytes_ne_nil fs _ hp] at h ⊢
    exact walk_follow_of_create h
  · intro h
    have hp := bytes_ne_nil_of_lookup h
    rw [lookup_of_bytes_ne_nil fs _ hp] at h ⊢
    exact walk_create_of_follow h ha

/-- The mode of a file that is written where this was. -/
def keptMode : Option Node → Nat
  | some (.file mode _) => mode
  | _ => defaultMode

theorem overwrite_eq_ok_iff :
    fs.overwrite p content = .ok gs ↔
      ∃ a, fs.lookup .follow p = .ok a ∧ fs.isFolder a.location = false ∧
        gs = fs.put a.location (.file (keptMode (fs.node? a.location)) content) := by
  constructor
  · intro h
    unfold overwrite at h
    split at h
    · cases h
    · next l n ha =>
      have hnone := (holds_of_lookup ha).2
      have hf : fs.isFolder (l ++ [n]) = false := isFolder_eq_false_iff.mpr (by simp [hnone])
      refine ⟨.absent l n, (lookup_create_eq_ok_iff hf).mp ha, hf, ?_⟩
      rw [Landing.location, hnone]
      exact (Except.ok.inj h).symm
    · next l ha =>
      split at h
      · next mode old hn =>
        have hf : fs.isFolder l = false := isFolder_eq_false_iff.mpr (by simp [hn])
        refine ⟨.existing l, (lookup_create_eq_ok_iff hf).mp ha, hf, ?_⟩
        rw [Landing.location, hn]
        exact (Except.ok.inj h).symm
      · cases h
  · rintro ⟨a, ha, hf, rfl⟩
    have hholds := holds_of_lookup ha
    rw [overwrite, (lookup_create_eq_ok_iff hf).mpr ha]
    cases a with
    | absent l n =>
      rw [Landing.location, hholds.2]
      rfl
    | existing l =>
      obtain ⟨node, hn, hlink⟩ := hholds
      rw [Landing.location, hn]
      cases node with
      | folder =>
        rw [Landing.location, isFolder, hn] at hf
        cases hf
      | link target => cases hlink target rfl
      | file mode old => simp only [hn, keptMode]

theorem exists_replaces_of_overwrite (h : fs.overwrite p content = .ok gs) :
    ∃ l, fs.Leads p l ∧ fs.Replaces gs l content := by
  obtain ⟨a, ha, hf, rfl⟩ := overwrite_eq_ok_iff.mp h
  have hholds := holds_of_lookup ha
  have hold : fs.node? a.location = none ∧ keptMode (fs.node? a.location) = defaultMode ∨
      ∃ old, fs.node? a.location = some (.file (keptMode (fs.node? a.location)) old) := by
    cases a with
    | absent l n => exact .inl ⟨hholds.2, by rw [Landing.location, hholds.2]; rfl⟩
    | existing l =>
      obtain ⟨node, hn, hlink⟩ := hholds
      rw [Landing.location, hn]
      cases node with
      | folder =>
        rw [Landing.location, isFolder, hn] at hf
        cases hf
      | link target => cases hlink target rfl
      | file mode old => exact .inr ⟨old, rfl⟩
  have haccepts :
      fs.accepts a.location (.file (keptMode (fs.node? a.location)) content) = true := by
    have hstart := isFolder_of_lookup ha
    have hwalk := ha
    rw [lookup_of_bytes_ne_nil fs _ (bytes_ne_nil_of_lookup ha)] at hwalk
    obtain ⟨k, target, d, n, -, -, hlies, hl⟩ :=
      exists_linksTo_of_walk (Nat.le_refl maxLinks) hstart hwalk hf
    rw [hl] at hf ⊢
    exact accepts_file hlies.isFolder hlies.isName hf _ content
  refine ⟨a.location, ⟨a, ha, rfl⟩, workplace_put fs _ _, fun k hk => ?_, _, ?_, hold⟩
  · rw [node?_put haccepts, if_neg hk]
  · rw [node?_put haccepts, if_pos rfl]

theorem readBytes_of_overwrite (h : fs.overwrite p content = .ok gs) :
    gs.readBytes p = .ok content := by
  obtain ⟨l, hl, hreplaces⟩ := exists_replaces_of_overwrite h
  rw [hreplaces.readBytes hl, if_pos rfl]

theorem rename_of_liesIn {source : Location} {node : Node} (hlies : fs.LiesIn p d n)
    (hsource : fs.node? source = some node) (hf : fs.isFolder (d ++ [n]) = false) :
    fs.rename source p = .ok ((fs.erase source).put (d ++ [n]) node) := by
  obtain ⟨before, he, hd⟩ := hlies
  have hrenamed : fs.renamed p = .ok (d ++ [n]) := by
    have hs : p.steps.reverse = .down n :: before.reverse := by rw [he, List.reverse_concat]
    rw [renamed, if_neg (Path.bytes_ne_nil_of_endsIn he), hs]
    simp only [List.reverse_reverse, hd]
    rfl
  rw [rename, hrenamed, hsource]
  exact if_neg (by simp [hf])

/-- Through a free location of its folder a path that is no link, and names no folder, is replaced
as by one operation. -/
theorem replaceThrough_eq (hlies : fs.LiesIn p d n) (hp : fs.linkAt? p = none)
    (hf : fs.isFolder (d ++ [n]) = false) (hm : isName m = true) (hne : m ≠ n)
    (hfree : fs.node? (d ++ [m]) = none) :
    (fs.replaceThrough p (d ++ [m]) content).report.value = .ok () ∧
      (fs.replaceThrough p (d ++ [m]) content).final fs =
        fs.put (d ++ [n]) (.file (keptMode (fs.node? (d ++ [n]))) content) := by
  let created := fs.put (d ++ [m]) (.file defaultMode [])
  let mode := (created.modeAt? p).getD defaultMode
  let permitted := created.put (d ++ [m]) (.file mode [])
  let written := permitted.put (d ++ [m]) (.file mode content)
  have hc : fs.AgreeBut created (d ++ [m]) := (AgreeBut.refl hfree).put defaultMode []
  have hp' : fs.AgreeBut permitted (d ++ [m]) := hc.put mode []
  have hw : fs.AgreeBut written (d ++ [m]) := hp'.put mode content
  have hmode : mode = keptMode (fs.node? (d ++ [n])) := by
    rcases modeAt?_of_liesIn hlies hp hc hne hf with ⟨hn, hat⟩ | ⟨kept, old, hn, hat⟩
    · rw [show mode = (created.modeAt? p).getD defaultMode from rfl, hat, hn]
      rfl
    · rw [show mode = (created.modeAt? p).getD defaultMode from rfl, hat, hn]
      rfl
  have hfile : written.node? (d ++ [m]) = some (.file mode content) :=
    hp'.node?_put hfree hlies.isFolder hm mode content
  have herase : written.erase (d ++ [m]) = fs :=
    ((((Beside.same rfl).put hfree defaultMode []).put hfree mode []).put hfree mode content).erase
      hfree
  have hrename := rename_of_liesIn (hlies.of_agreeBut hw) hfile ((hw.isFolder _).trans hf)
  rw [herase, hmode] at hrename
  unfold replaceThrough
  simp only
  split
  · next moved hmoved =>
    cases hmoved.symm.trans hrename
    exact ⟨rfl, rfl⟩
  · next f hmoved => cases hmoved.symm.trans hrename

theorem replaceFile_eq (htarget : fs.pathBehind? maxHops p = some target)
    (hlies : fs.LiesIn target d n) (hf : fs.isFolder (d ++ [n]) = false) (content : Bytes) :
    (fs.replaceFile p content).report.value = .ok () ∧
      (fs.replaceFile p content).final fs =
        fs.put (d ++ [n]) (.file (keptMode (fs.node? (d ++ [n]))) content) := by
  obtain ⟨hm, hname, hfree⟩ := fs.freshName_spec d target
  have hne : fs.freshName d target ≠ n := fun h => hname (h ▸ hlies.fileName?)
  have hreplace : fs.replaceFile p content =
      fs.replaceThrough target (d ++ [fs.freshName d target]) content := by
    rw [replaceFile, htarget]
    simp only [hlies.locateFolder]
  rw [hreplace]
  exact replaceThrough_eq hlies (linkAt?_of_pathBehind? htarget) hf hm hne hfree

/-- Where a path can be overwritten, some number of links is at its end. With fewer than forty of
them a replacement leaves what the overwrite leaves; a path with just forty of them is refused. -/
theorem replaceFile_of_overwrite (h : fs.overwrite p content = .ok gs) :
    ∃ k target, fs.LinksTo k p target ∧ k ≤ maxLinks ∧
      (k < maxLinks →
        (fs.replaceFile p content).report.value = .ok () ∧
          (fs.replaceFile p content).final fs = gs) ∧
      (k = maxLinks →
        (fs.replaceFile p content).report.value =
            .error (.path "Too many levels of symbolic links" p) ∧
          (fs.replaceFile p content).states = []) := by
  obtain ⟨a, ha, hf, rfl⟩ := overwrite_eq_ok_iff.mp h
  have hstart := isFolder_of_lookup ha
  rw [lookup_of_bytes_ne_nil fs _ (bytes_ne_nil_of_lookup ha)] at ha
  obtain ⟨k, target, d, n, hk, hto, hlies, hl⟩ :=
    exists_linksTo_of_walk (Nat.le_refl maxLinks) hstart ha hf
  rw [hl] at hf ⊢
  refine ⟨k, target, hto, hk, fun hlt => ?_, fun heq => ?_⟩
  · exact replaceFile_eq ((hto.pathBehind?_eq maxHops).trans (if_pos hlt)) hlies hf content
  · have hnone : fs.pathBehind? maxHops p = none :=
      (hto.pathBehind?_eq maxHops).trans (if_neg (Nat.not_lt.mpr (Nat.le_of_eq heq.symm)))
    rw [replaceFile, hnone]
    exact ⟨rfl, rfl⟩

theorem replaceFile_of_overwrite_linkedFile :
    ∃ gs, linkedFile.overwrite (.ofString "a") (encode ['n', 'e', 'w']) = .ok gs ∧
      (linkedFile.replaceFile (.ofString "a") (encode ['n', 'e', 'w'])).report.value = .ok () ∧
      (linkedFile.replaceFile (.ofString "a") (encode ['n', 'e', 'w'])).final linkedFile = gs := by
  have hp : linkedFile.lookup .follow (.ofString "a") =
      .ok (.existing [encode ['d'], encode ['b']]) := by cbv
  have hf : linkedFile.isFolder [encode ['d'], encode ['b']] = false := by cbv
  have hshort : (linkedFile.pathBehind? maxHops (.ofString "a")).isSome = true := by cbv
  have h : linkedFile.overwrite (.ofString "a") (encode ['n', 'e', 'w']) = .ok _ :=
    overwrite_eq_ok_iff.mpr ⟨_, hp, hf, rfl⟩
  obtain ⟨k, target, hto, -, hreplaced, -⟩ := replaceFile_of_overwrite h
  have hk : k < maxLinks := by
    by_contra hk
    rw [hto.pathBehind?_eq, if_neg (show ¬ k < maxHops from hk)] at hshort
    cases hshort
  exact ⟨_, h, hreplaced hk⟩

/-- So many links in a row, each to the next, and a file behind the last one. -/
def rowOfLinks (k : Nat) : FileSystem :=
  let name (i : Nat) : Name := [UInt8.ofNat (0x41 + i)]
  (List.range k).foldl (fun fs i => fs.put [name i] (.link ⟨name (i + 1)⟩))
    ((empty []).put [name k] (.file 0o600 (encode ['o', 'l', 'd'])))

/-- The file behind forty links can be overwritten through them, but not be replaced. -/
theorem not_replaceFile_rowOfLinks :
    (∃ gs, (rowOfLinks 40).overwrite (.ofString "A") (encode ['n', 'e', 'w']) = .ok gs) ∧
      ((rowOfLinks 40).replaceFile (.ofString "A") (encode ['n', 'e', 'w'])).report.value =
        .error (.path "Too many levels of symbolic links" (.ofString "A")) := by
  have hrow : (rowOfLinks 40).lookup .follow (.ofString "A") = .ok (.existing [encode ['i']]) ∧
      (rowOfLinks 40).isFolder [encode ['i']] = false ∧
      (rowOfLinks 40).pathBehind? maxHops (.ofString "A") = none := by cbv
  obtain ⟨hp, hf, hnone⟩ := hrow
  refine ⟨⟨_, overwrite_eq_ok_iff.mpr ⟨_, hp, hf, rfl⟩⟩, ?_⟩
  rw [replaceFile, hnone]
  rfl

end FileSystem

end IncludeMap.File
