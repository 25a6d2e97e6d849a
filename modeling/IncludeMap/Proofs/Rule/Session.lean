import IncludeMap.Proofs.Rule.Derive

/-! # Sessions

Headers live on through calls that use them in any order, and between two calls anything may happen
to the file system. A header keeps the names that the first call found in its file, and from then on
the file does not count. A call that fails on a header leaves nothing behind in it.
-/
namespace IncludeMap
open File Text

/-- The headers of a catalog by their numbers. No header is in a catalog twice. -/
structure Shelf where
  regular : List Nat
  deferred : List Nat
  nodup : (regular ++ deferred).Nodup

def Shelf.numbers (c : Shelf) : List Nat := c.regular ++ c.deferred

inductive Call where
  /-- Whatever else happens to the file system. -/
  | change (fs : FileSystem)
  | read (n : Nat)
  | addRules (r : RuleSet) (n : Nat)
  | derive (c : Shelf)

inductive Reply where
  | done
  | names (l : List String)
  | rules (r : RuleSet)

structure Session where
  fs : FileSystem
  headers : Nat → Header

namespace Session

def start (fs : FileSystem) (paths : Nat → Path) : Session := ⟨fs, fun n => .ofPath (paths n)⟩

def catalog (s : Session) (c : Shelf) : Catalog :=
  ⟨c.regular.map s.headers, c.deferred.map s.headers⟩

/-- Put headers back under their numbers. -/
def store (s : Session) (ns : List Nat) (hs : List Header) : Session :=
  { s with headers := fun n => ((ns.zip hs).lookup n).getD (s.headers n) }

def after (s : Session) : Call → Session
  | .change fs => { s with fs }
  | .read n => s.store [n] [(s.headers n).afterReading s.fs]
  | .addRules _ n => s.store [n] [(s.headers n).afterReading s.fs]
  | .derive c => s.store c.numbers ((s.catalog c).afterDeriving s.fs).inProcessingOrder

def answer (s : Session) : Call → Except Problem Reply
  | .change _ => .ok .done
  | .read n => ((s.headers n).privateHeaders s.fs).value.map .names
  | .addRules r n => (r.addHeader s.fs (s.headers n)).value.map .rules
  | .derive c => ((s.catalog c).derive s.fs).value.map .rules

def run (s : Session) (cs : List Call) : Session := cs.foldl after s

/-! ## What a call uses -/

def listed (s : Session) (n : Nat) : Except Problem (List String) :=
  ((s.headers n).privateHeaders s.fs).value

/-- The names that are in the header's file at the moment. -/
def written (s : Session) (n : Nat) : Except Problem (List String) :=
  match s.fs.readBytes (s.headers n).path with
  | .ok bytes => .ok (Header.localIncludes (String.ofList (decodeLossy bytes)))
  | .error f => .error (.io s!"Failed to read file: {(s.headers n).path.display}" f)

/-- The call comes to the header: it is about this one, or about a catalog in which no header before
it fails. -/
def Reaches (s : Session) : Call → Nat → Prop
  | .change _, _ => False
  | .read m, n => n = m
  | .addRules _ m, n => n = m
  | .derive c, n => ∃ before rest, c.numbers = before ++ n :: rest ∧
      ∀ k ∈ before, ∃ names, s.listed k = .ok names

/-- What a call answers where the headers at these paths have these lists. -/
def answerFrom (paths : Nat → Path) (lists : Nat → Except Problem (List String)) :
    Call → Except Problem Reply
  | .change _ => .ok .done
  | .read n => (lists n).map .names
  | .addRules r n => (lists n).map fun names => .rules (r ++ (Header.ofPath (paths n)).rules names)
  | .derive c =>
    (c.numbers.mapM fun n => (lists n).map (Header.ofPath (paths n)).rules).map fun rs =>
      .rules (RuleSet.concat rs)

/-- The names that the first call which came to the header and could read its file has found. -/
def FirstRead (s : Session) (cs : List Call) (n : Nat) (names : List String) : Prop :=
  ∃ before c rest, cs = before ++ c :: rest ∧ (s.run before).Reaches c n ∧
    (s.run before).written n = .ok names ∧
    ∀ earlier d later, before = earlier ++ d :: later → (s.run earlier).Reaches d n →
      ∃ e, (s.run earlier).written n = .error e

/-! ## One call -/

section Step

variable {s : Session} {c : Call} {n : Nat} {names : List String}

theorem listed_of_known (h : (s.headers n).known = some names) : s.listed n = .ok names := by
  rw [listed, Header.privateHeaders_of_known h]
  rfl

theorem listed_of_unread (h : (s.headers n).known = none) : s.listed n = s.written n := by
  rw [listed, written, Header.privateHeaders, h]
  simp only [Report.value_bind, FileSystem.value_readLossy]
  cases s.fs.readBytes (s.headers n).path <;> rfl

theorem known_afterReading (s : Session) (n : Nat) :
    ((s.headers n).afterReading s.fs).known = some names ↔ s.listed n = .ok names := by
  rw [Header.afterReading, listed]
  cases h : ((s.headers n).privateHeaders s.fs).value with
  | ok l => exact ⟨fun h => congrArg Except.ok (Option.some.inj h), fun h => congrArg some
      (Except.ok.inj h)⟩
  | error e =>
    constructor
    · intro hk
      rw [Header.privateHeaders_of_known hk] at h
      cases h
    · intro he
      cases he

theorem afterReading_of_error {e : Problem} (h : s.listed n = .error e) :
    (s.headers n).afterReading s.fs = s.headers n := by
  rw [listed] at h
  rw [Header.afterReading, h]

theorem path_afterReading (fs : FileSystem) (h : Header) : (h.afterReading fs).path = h.path := by
  unfold Header.afterReading
  split <;> rfl

theorem isReadable_iff :
    (s.headers n).isReadable s.fs = true ↔ ∃ names, s.listed n = .ok names := by
  rw [Header.isReadable, listed]
  cases ((s.headers n).privateHeaders s.fs).value <;> simp

theorem headers_store_map (s : Session) (ns : List Nat) (f : Nat → Header) (n : Nat) :
    (s.store ns (ns.map f)).headers n = if n ∈ ns then f n else s.headers n := by
  show ((ns.zip (ns.map f)).lookup n).getD (s.headers n) = _
  induction ns with
  | nil => rfl
  | cons m ns ih =>
    rw [List.map_cons, List.zip_cons_cons, List.lookup_cons]
    by_cases hm : n = m
    · simp [hm]
    · simp [hm, beq_eq_false_iff_ne.mpr hm, ih]

/-- The headers of a row up to the first that cannot be read have been read, the others have not. -/
theorem afterReading_map (s : Session) {ns : List Nat} (h : ns.Nodup) :
    Catalog.afterReading s.fs (ns.map s.headers) =
      ns.map fun n =>
        if n ∈ ns.takeWhile (fun k => (s.headers k).isReadable s.fs) then
          (s.headers n).afterReading s.fs
        else s.headers n := by
  induction ns with
  | nil => rfl
  | cons m ns ih =>
    obtain ⟨hm, hns⟩ := List.nodup_cons.mp h
    rw [List.map_cons, Catalog.afterReading, List.takeWhile_cons]
    cases (s.headers m).isReadable s.fs with
    | false => simp
    | true =>
      rw [if_pos rfl, if_pos rfl, List.map_cons, if_pos List.mem_cons_self, ih hns]
      refine congrArg _ (List.map_congr_left fun n hn => ?_)
      have hne : n ≠ m := fun hnm => hm (hnm ▸ hn)
      simp [hne]

theorem inProcessingOrder_afterDeriving (fs : FileSystem) (c : Catalog) :
    (c.afterDeriving fs).inProcessingOrder = Catalog.afterReading fs c.inProcessingOrder := by
  have happend (xs ys : List Header) : Catalog.afterReading fs (xs ++ ys) =
      Catalog.afterReading fs xs ++
        if xs.all (·.isReadable fs) then Catalog.afterReading fs ys else ys := by
    induction xs with
    | nil => rfl
    | cons x xs ih =>
      rw [List.cons_append, Catalog.afterReading, Catalog.afterReading, List.all_cons]
      cases x.isReadable fs with
      | false => rfl
      | true => rw [if_pos rfl, if_pos rfl, ih, Bool.true_and, List.cons_append]
  rw [Catalog.inProcessingOrder, Catalog.inProcessingOrder, happend]
  rfl

theorem inProcessingOrder_catalog (s : Session) (c : Shelf) :
    (s.catalog c).inProcessingOrder = c.numbers.map s.headers :=
  List.map_append.symm

theorem headers_after_derive (s : Session) (c : Shelf) (n : Nat) :
    (s.after (.derive c)).headers n =
      if n ∈ c.numbers.takeWhile (fun k => (s.headers k).isReadable s.fs) then
        (s.headers n).afterReading s.fs
      else s.headers n := by
  rw [after, inProcessingOrder_afterDeriving, inProcessingOrder_catalog,
    afterReading_map s (show c.numbers.Nodup from c.nodup), headers_store_map]
  by_cases hn : n ∈ c.numbers
  · rw [if_pos hn]
  · rw [if_neg hn, if_neg fun h => hn (List.takeWhile_subset _ h)]

theorem mem_takeWhile_isReadable_iff (c : Shelf) :
    n ∈ c.numbers.takeWhile (fun k => (s.headers k).isReadable s.fs) ↔
      s.Reaches (.derive c) n ∧ ∃ names, s.listed n = .ok names := by
  rw [Reaches]
  generalize c.numbers = ns
  induction ns with
  | nil => simp
  | cons m ns ih =>
    rw [List.takeWhile_cons]
    cases hm : (s.headers m).isReadable s.fs with
    | false =>
      have hfail : ¬ ∃ names, s.listed m = .ok names := fun h => by
        rw [isReadable_iff.mpr h] at hm
        cases hm
      simp only [Bool.false_eq_true, if_false, List.not_mem_nil, false_iff]
      rintro ⟨⟨before, rest, hns, hbefore⟩, hok⟩
      cases before with
      | nil =>
        cases hns
        exact hfail hok
      | cons k before =>
        cases hns
        exact hfail (hbefore m List.mem_cons_self)
    | true =>
      have hok := isReadable_iff.mp hm
      rw [if_pos rfl, List.mem_cons, ih]
      constructor
      · rintro (rfl | ⟨⟨before, rest, rfl, hbefore⟩, hn⟩)
        · exact ⟨⟨[], ns, rfl, by simp⟩, hok⟩
        · refine ⟨⟨m :: before, rest, rfl, ?_⟩, hn⟩
          simp only [List.forall_mem_cons]
          exact ⟨hok, hbefore⟩
      · rintro ⟨⟨before, rest, hns, hbefore⟩, hn⟩
        cases before with
        | nil =>
          cases hns
          exact .inl rfl
        | cons k before =>
          cases hns
          exact .inr ⟨⟨before, rest, rfl, fun i hi => hbefore i (List.mem_cons_of_mem _ hi)⟩, hn⟩

theorem headers_store_one (s : Session) (m : Nat) (h : Header) (n : Nat) :
    (s.store [m] [h]).headers n = if n = m then h else s.headers n := by
  have hstore := headers_store_map s [m] (fun _ => h) n
  simpa using hstore

theorem headers_after_of_reaches (h : s.Reaches c n) :
    (s.after c).headers n = (s.headers n).afterReading s.fs := by
  cases c with
  | change fs => exact h.elim
  | read m =>
    rw [Reaches] at h
    rw [after, headers_store_one, if_pos h, h]
  | addRules r m =>
    rw [Reaches] at h
    rw [after, headers_store_one, if_pos h, h]
  | derive c =>
    rw [headers_after_derive]
    split
    · rfl
    · next hn =>
      cases hl : s.listed n with
      | ok names => exact absurd (mem_takeWhile_isReadable_iff c |>.mpr ⟨h, names, hl⟩) hn
      | error e => exact (afterReading_of_error hl).symm

theorem headers_after_of_not_reaches (h : ¬ s.Reaches c n) :
    (s.after c).headers n = s.headers n := by
  cases c with
  | change fs => rfl
  | read m => exact (headers_store_one ..).trans (if_neg h)
  | addRules r m => exact (headers_store_one ..).trans (if_neg h)
  | derive c =>
    rw [headers_after_derive, if_neg]
    exact fun hn => h ((mem_takeWhile_isReadable_iff c).mp hn).1

theorem known_after_iff :
    ((s.after c).headers n).known = some names ↔
      (s.headers n).known = some names ∨ s.Reaches c n ∧ s.listed n = .ok names := by
  by_cases h : s.Reaches c n
  · rw [headers_after_of_reaches h, known_afterReading]
    constructor
    · intro hl
      exact .inr ⟨h, hl⟩
    · rintro (hk | ⟨-, hl⟩)
      · exact listed_of_known hk
      · exact hl
  · simp [headers_after_of_not_reaches h, h]

theorem path_after (s : Session) (c : Call) (n : Nat) :
    ((s.after c).headers n).path = (s.headers n).path := by
  by_cases h : s.Reaches c n
  · rw [headers_after_of_reaches h, path_afterReading]
  · rw [headers_after_of_not_reaches h]

/-- What a call answers depends on the headers only through their paths and their lists. -/
theorem answer_eq (s : Session) (c : Call) :
    s.answer c = answerFrom (fun n => (s.headers n).path) s.listed c := by
  cases c with
  | change fs => rfl
  | read n => rfl
  | addRules r n =>
    rw [answer, RuleSet.value_addHeader_eq, answerFrom, Header.contribution, listed]
    cases ((s.headers n).privateHeaders s.fs).value <;> rfl
  | derive c =>
    rw [answer, Catalog.value_derive_eq, inProcessingOrder_catalog, List.mapM_map, answerFrom]
    have hsame : (Header.contribution s.fs ∘ s.headers) = fun n =>
        (s.listed n).map (Header.ofPath (s.headers n).path).rules := rfl
    rw [hsame]
    cases c.numbers.mapM fun n => (s.listed n).map (Header.ofPath (s.headers n).path).rules <;> rfl

theorem answerFrom_of_reaches {paths : Nat → Path} {e : Problem} (hc : s.Reaches c n)
    (he : s.listed n = .error e) : answerFrom paths s.listed c = .error e := by
  cases c with
  | change fs => exact hc.elim
  | read m =>
    obtain rfl : n = m := hc
    rw [answerFrom, he]
    rfl
  | addRules r m =>
    obtain rfl : n = m := hc
    rw [answerFrom, he]
    rfl
  | derive c =>
    obtain ⟨before, rest, hns, hbefore⟩ := hc
    have hrow : (c.numbers.mapM fun k => (s.listed k).map (Header.ofPath (paths k)).rules) =
        .error e := by
      refine mapM_eq_error_iff.mpr ⟨before, n, rest, hns, fun k hk => ?_, by rw [he]; rfl⟩
      obtain ⟨names, hl⟩ := hbefore k hk
      exact ⟨_, by rw [hl]; rfl⟩
    rw [answerFrom, hrow]
    rfl

end Step

/-! ## Runs -/

section Run

variable {s : Session} {cs ds : List Call} {n : Nat} {names : List String}

theorem run_append (s : Session) (cs ds : List Call) : s.run (cs ++ ds) = (s.run cs).run ds :=
  List.foldl_append

theorem run_concat (s : Session) (cs : List Call) (c : Call) :
    s.run (cs ++ [c]) = (s.run cs).after c :=
  run_append s cs [c]

theorem path_run (s : Session) (cs : List Call) (n : Nat) :
    ((s.run cs).headers n).path = (s.headers n).path := by
  induction cs generalizing s with
  | nil => rfl
  | cons c cs ih => exact (ih (s.after c)).trans (path_after s c n)

theorem known_run_of_known (h : (s.headers n).known = some names) :
    ((s.run cs).headers n).known = some names := by
  induction cs generalizing s with
  | nil => exact h
  | cons c cs ih => exact ih (known_after_iff.mpr (.inl h))

theorem known_run_of_written {c : Call} {rest : List Call} {names : List String}
    (hunread : ((s.run cs).headers n).known = none) (hc : (s.run cs).Reaches c n)
    (hw : (s.run cs).written n = .ok names) :
    ((s.run (cs ++ c :: rest)).headers n).known = some names := by
  rw [List.append_cons, run_append, run_concat]
  exact known_run_of_known (known_after_iff.mpr (.inr ⟨hc, (listed_of_unread hunread).trans hw⟩))

theorem firstRead_of_known (hn : (s.headers n).known = none)
    (h : ((s.run cs).headers n).known = some names) : s.FirstRead cs n names := by
  induction cs using List.reverseRecOn with
  | nil => cases hn.symm.trans h
  | append_singleton cs c ih =>
    rw [run_concat] at h
    cases hk : ((s.run cs).headers n).known with
    | some l =>
      obtain rfl : l = names := Option.some.inj ((known_after_iff.mpr (.inl hk)).symm.trans h)
      obtain ⟨before, d, rest, rfl, hread⟩ := ih hk
      exact ⟨before, d, rest ++ [c], by simp, hread⟩
    | none =>
      rcases known_after_iff.mp h with hk' | ⟨hc, hl⟩
      · cases hk.symm.trans hk'
      · refine ⟨cs, c, [], rfl, hc, (listed_of_unread hk).symm.trans hl, ?_⟩
        rintro earlier d later rfl hd
        have hearly : ((s.run earlier).headers n).known = none := by
          cases hk' : ((s.run earlier).headers n).known with
          | none => rfl
          | some l =>
            rw [run_append, known_run_of_known hk'] at hk
            cases hk
        cases hw : (s.run earlier).written n with
        | error e => exact ⟨e, rfl⟩
        | ok l =>
          rw [known_run_of_written hearly hd hw] at hk
          cases hk

theorem known_run_iff (hn : (s.headers n).known = none) :
    ((s.run cs).headers n).known = some names ↔ s.FirstRead cs n names := by
  refine ⟨firstRead_of_known hn, ?_⟩
  rintro ⟨before, c, rest, rfl, hc, hw, hfail⟩
  cases hk : ((s.run before).headers n).known with
  | none => exact known_run_of_written hk hc hw
  | some l =>
    obtain ⟨earlier, d, later, hbefore, hd, hl, -⟩ := firstRead_of_known hn hk
    obtain ⟨e, he⟩ := hfail earlier d later hbefore hd
    cases hl.symm.trans he

/-- A call for a catalog that fails does so at the first header that has no list, and the headers
before that one are then read. -/
theorem derive_error {c : Shelf} {e : Problem} (h : s.answer (.derive c) = .error e) :
    ∃ before m rest, c.numbers = before ++ m :: rest ∧ s.listed m = .error e ∧
      (∀ k ∈ before, ∃ names, s.listed k = .ok names) ∧
      ∀ k names, ((s.after (.derive c)).headers k).known = some names ↔
        (s.headers k).known = some names ∨ k ∈ before ∧ s.listed k = .ok names := by
  have hrow : (c.numbers.mapM fun n =>
      (s.listed n).map (Header.ofPath (s.headers n).path).rules) = .error e := by
    rw [answer_eq, answerFrom] at h
    cases hm : (c.numbers.mapM fun n =>
        (s.listed n).map (Header.ofPath (s.headers n).path).rules) with
    | ok rs => rw [hm] at h; cases h
    | error e' => rw [hm] at h; cases h; rfl
  obtain ⟨before, m, rest, hns, hbefore, hm⟩ := mapM_eq_error_iff.mp hrow
  have hlisted : ∀ k ∈ before, ∃ names, s.listed k = .ok names := by
    intro k hk
    obtain ⟨r, hr⟩ := hbefore k hk
    cases hl : s.listed k with
    | ok names => exact ⟨names, rfl⟩
    | error e' => rw [hl] at hr; cases hr
  have hfail : s.listed m = .error e := by
    cases hl : s.listed m with
    | ok names => rw [hl] at hm; cases hm
    | error e' => rw [hl] at hm; cases hm; rfl
  refine ⟨before, m, rest, hns, hfail, hlisted, fun k names => ?_⟩
  rw [known_after_iff]
  constructor
  · rintro (hk | ⟨⟨b, r, hsplit, hb⟩, hl⟩)
    · exact .inl hk
    · refine .inr ⟨?_, hl⟩
      rcases List.append_eq_append_iff.mp (hns.symm.trans hsplit) with
        ⟨mid, rfl, hmid⟩ | ⟨mid, rfl, hmid⟩
      · cases mid with
        | nil =>
          cases hmid
          cases hfail.symm.trans hl
        | cons x mid =>
          cases hmid
          obtain ⟨l, hl⟩ := hb m (by simp)
          cases hfail.symm.trans hl
      · cases mid with
        | nil =>
          cases hmid
          cases hfail.symm.trans hl
        | cons x mid =>
          cases hmid
          simp
  · rintro (hk | ⟨hk, hl⟩)
    · exact .inl hk
    · obtain ⟨b, r, rfl⟩ := List.append_of_mem hk
      refine .inr ⟨⟨b, r ++ m :: rest, by rw [hns]; simp, fun i hi => ?_⟩, hl⟩
      exact hlisted i (List.mem_append_left _ hi)

end Run

/-- In a session of new headers each one has the list that the first call found which could read its
file, and before that only what the file holds at the moment. Each call answers from these lists; on
a header that fails it fails and leaves nothing behind, and a call for a catalog keeps the lists of
just the headers before the one at which it fails. -/
theorem lists_of_run (fs : FileSystem) (paths : Nat → Path) (cs : List Call) :
    let s := (start fs paths).run cs
    (∀ n names, (s.headers n).known = some names ↔ (start fs paths).FirstRead cs n names) ∧
    (∀ n names, (start fs paths).FirstRead cs n names → ∀ ds, (s.run ds).listed n = .ok names) ∧
    (∀ n, (∀ names, ¬ (start fs paths).FirstRead cs n names) →
      s.listed n = match s.fs.readBytes (paths n) with
        | .ok bytes => .ok (Header.localIncludes (String.ofList (decodeLossy bytes)))
        | .error f => .error (.io s!"Failed to read file: {(paths n).display}" f)) ∧
    (∀ c, s.answer c = answerFrom paths s.listed c) ∧
    (∀ c n, ¬ s.Reaches c n → (s.after c).headers n = s.headers n) ∧
    (∀ c n e, s.Reaches c n → s.listed n = .error e →
      s.answer c = .error e ∧ (s.after c).headers n = s.headers n) ∧
    ∀ c e, s.answer (.derive c) = .error e →
      ∃ before m rest, c.numbers = before ++ m :: rest ∧ s.listed m = .error e ∧
        (∀ k ∈ before, ∃ names, s.listed k = .ok names) ∧
        ∀ k names, ((s.after (.derive c)).headers k).known = some names ↔
          (s.headers k).known = some names ∨ k ∈ before ∧ s.listed k = .ok names := by
  intro s
  have hnew : ∀ n, ((start fs paths).headers n).known = none := fun n => rfl
  have hpath : ∀ n, (s.headers n).path = paths n := path_run (start fs paths) cs
  have hanswer : ∀ c, s.answer c = answerFrom paths s.listed c := by
    intro c
    rw [answer_eq, funext hpath]
  refine ⟨fun n names => known_run_iff (hnew n), fun n names h ds => ?_, fun n h => ?_, hanswer,
    fun c n => headers_after_of_not_reaches, fun c n e hc he => ⟨?_, ?_⟩, fun c e => derive_error⟩
  · exact listed_of_known (known_run_of_known ((known_run_iff (hnew n)).mpr h))
  · have hunread : (s.headers n).known = none := by
      cases hk : (s.headers n).known with
      | none => rfl
      | some names => exact absurd ((known_run_iff (hnew n)).mp hk) (h names)
    rw [listed_of_unread hunread, written, hpath]
  · rw [hanswer]
    exact answerFrom_of_reaches hc he
  · rw [headers_after_of_reaches hc, afterReading_of_error he]

end Session

end IncludeMap
