import IncludeMap.Proofs.Rule.Session

/-! # Rule sets that grow

A rule set is put together step by step, from headers that live on in a session and from other rule
sets. Each step that succeeds puts its whole contribution behind the rules that are there, and one
that fails puts nothing there.
-/
namespace IncludeMap
open File Text

/-- Add the rules of a header in place: the header is read first, then its symbol rule goes in, and
then its include rules. A problem leaves the set as it is at that point. -/
def RuleSet.insertHeader (fs : FileSystem) (h : Header) :
    ExceptT Problem (StateM RuleSet) Unit := do
  let names ← ExceptT.mk (pure (h.privateHeaders fs).value)
  modify fun r => ⟨r.symbols ++ [⟨h.className, h.className⟩], r.includes⟩
  modify fun r => ⟨r.symbols, r.includes ++ names.map (⟨h.moduleName, ·, h.className⟩)⟩

theorem RuleSet.run_insertHeader (fs : FileSystem) (h : Header) (r : RuleSet) :
    (insertHeader fs h).run.run r =
      match (h.privateHeaders fs).value with
      | .ok names => (.ok (), r ++ h.rules names)
      | .error e => (.error e, r) := by
  unfold insertHeader
  cases (h.privateHeaders fs).value with
  | ok names => rfl
  | error e => rfl

/-- A rule set and the session in which it is put together. -/
structure Assembly where
  session : Session
  rules : RuleSet

theorem Session.listed_eq_ok_iff {s : Session} {n : Nat} {names : List String} :
    s.listed n = .ok names ↔
      (s.headers n).known = some names ∨ (s.headers n).known = none ∧ ∃ bytes,
        s.fs.readBytes (s.headers n).path = .ok bytes ∧
        names = Header.localIncludes (String.ofList (decodeLossy bytes)) := by
  cases hk : (s.headers n).known with
  | some l =>
    rw [listed_of_known hk]
    simp
  | none =>
    rw [listed_of_unread hk, written]
    cases s.fs.readBytes (s.headers n).path with
    | error f => simp
    | ok bytes => simp [eq_comm]

namespace Assembly

inductive Step where
  /-- A change of the file system, or a call that is not about the rule set. -/
  | other (c : Call)
  | addHeader (n : Nat)
  | extend (r : RuleSet)

def perform (a : Assembly) : Step → Except Problem Unit × Assembly
  | .other c => ((a.session.answer c).map fun _ => (), ⟨a.session.after c, a.rules⟩)
  | .addHeader n =>
    let (x, r) := (RuleSet.insertHeader a.session.fs (a.session.headers n)).run.run a.rules
    (x, ⟨a.session.after (.addRules a.rules n), r⟩)
  | .extend r => (.ok (), ⟨a.session, a.rules ++ r⟩)

def after (a : Assembly) (s : Step) : Assembly := (a.perform s).2

def run (a : Assembly) (ss : List Step) : Assembly := ss.foldl after a

/-- What a step has to put into the rule set: nothing if it fails. -/
def contribution (a : Assembly) : Step → RuleSet
  | .other _ => .empty
  | .addHeader n =>
    match a.session.listed n with
    | .ok names => (a.session.headers n).rules names
    | .error _ => .empty
  | .extend r => r

def contributions : Assembly → List Step → List RuleSet
  | _, [] => []
  | a, s :: ss => a.contribution s :: contributions (a.after s) ss

section Step

variable {a : Assembly} {n : Nat} {names : List String} {e : Problem}

theorem perform_addHeader_of_ok (h : a.session.listed n = .ok names) :
    a.perform (.addHeader n) = (.ok (), ⟨a.session.after (.addRules a.rules n),
      a.rules ++ (a.session.headers n).rules names⟩) := by
  rw [Session.listed] at h
  rw [perform, RuleSet.run_insertHeader, h]

theorem perform_addHeader_of_error (h : a.session.listed n = .error e) :
    a.perform (.addHeader n) = (.error e, a) := by
  have hsession : a.session.after (.addRules a.rules n) = a.session := by
    have hheaders : (a.session.after (.addRules a.rules n)).headers = a.session.headers := by
      funext m
      by_cases hm : m = n
      · subst hm
        have hreaches : a.session.Reaches (.addRules a.rules m) m := rfl
        rw [Session.headers_after_of_reaches hreaches, Session.afterReading_of_error h]
      · exact Session.headers_after_of_not_reaches hm
    exact congrArg (Session.mk a.session.fs) hheaders
  rw [Session.listed] at h
  rw [perform, RuleSet.run_insertHeader, h]
  simp only [hsession]

theorem rules_after_addHeader (h : a.session.listed n = .ok names) :
    (a.after (.addHeader n)).rules = a.rules ++ (a.session.headers n).rules names := by
  rw [after, perform_addHeader_of_ok h]

theorem after_addHeader_of_error (h : a.session.listed n = .error e) :
    a.after (.addHeader n) = a := by
  rw [after, perform_addHeader_of_error h]

theorem perform_addHeader_eq_error_iff :
    (a.perform (.addHeader n)).1 = .error e ↔ a.session.listed n = .error e := by
  cases h : a.session.listed n with
  | ok names =>
    rw [perform_addHeader_of_ok h]
    simp
  | error e' => rw [perform_addHeader_of_error h, Except.error.injEq, Except.error.injEq]

/-- To add a header in place is to replace the rule set by the one with the header added. -/
theorem perform_addHeader_eq (a : Assembly) (n : Nat) :
    (a.perform (.addHeader n)).1.map (fun _ => (a.after (.addHeader n)).rules) =
      (a.rules.addHeader a.session.fs (a.session.headers n)).value := by
  rw [RuleSet.value_addHeader_eq, Header.contribution, after]
  cases h : a.session.listed n with
  | ok names =>
    rw [perform_addHeader_of_ok h]
    rw [Session.listed] at h
    rw [h]
    rfl
  | error e =>
    rw [perform_addHeader_of_error h]
    rw [Session.listed] at h
    rw [h]
    rfl

theorem rules_after (a : Assembly) (s : Step) :
    (a.after s).rules = a.rules ++ a.contribution s := by
  cases s with
  | other c => exact (RuleSet.append_empty a.rules).symm
  | extend r => rfl
  | addHeader n =>
    rw [contribution]
    cases h : a.session.listed n with
    | ok names => rw [rules_after_addHeader h]
    | error e =>
      rw [after_addHeader_of_error h]
      exact (RuleSet.append_empty a.rules).symm

end Step

section Run

variable {a : Assembly} {ss : List Step}

theorem run_append (a : Assembly) (ss ts : List Step) : a.run (ss ++ ts) = (a.run ss).run ts :=
  List.foldl_append

theorem rules_run (a : Assembly) (ss : List Step) :
    (a.run ss).rules = a.rules ++ RuleSet.concat (a.contributions ss) := by
  induction ss generalizing a with
  | nil => exact (RuleSet.append_empty a.rules).symm
  | cons s ss ih =>
    show ((a.after s).run ss).rules = _
    rw [ih, rules_after, contributions, RuleSet.concat_cons, RuleSet.append_assoc]

theorem prefix_run (a : Assembly) (ss : List Step) :
    a.rules.symbols <+: (a.run ss).rules.symbols ∧
      a.rules.includes <+: (a.run ss).rules.includes := by
  rw [rules_run]
  exact ⟨List.prefix_append _ _, List.prefix_append _ _⟩

theorem run_append_cons (a : Assembly) (before : List Step) (s : Step) (after : List Step) :
    a.run (before ++ s :: after) = ((a.run before).after s).run after :=
  run_append a before (s :: after)

/-- A symbol rule of a run was there at the start, belongs to a rule set that was added, or is the
one of a header that was added. -/
theorem mem_symbols_run {x : SymbolRule} (hx : x ∈ (a.run ss).rules.symbols) :
    x ∈ a.rules.symbols ∨ (∃ r, .extend r ∈ ss ∧ x ∈ r.symbols) ∨
      ∃ before n after, ss = before ++ .addHeader n :: after ∧
        ((a.run before).perform (.addHeader n)).1 = .ok () ∧
        x = ⟨((a.run before).session.headers n).className,
          ((a.run before).session.headers n).className⟩ := by
  induction ss generalizing a with
  | nil => exact .inl hx
  | cons s ss ih =>
    rcases ih (a := a.after s) hx with h | ⟨r, hr, h⟩ | ⟨before, n, after, rfl, hok, h⟩
    · rw [rules_after, RuleSet.symbols_append, List.mem_append] at h
      rcases h with h | h
      · exact .inl h
      · right
        cases s with
        | other c => cases h
        | extend r => exact .inl ⟨r, List.mem_cons_self, h⟩
        | addHeader n =>
          rw [contribution] at h
          cases hl : a.session.listed n with
          | error e =>
            rw [hl] at h
            cases h
          | ok names =>
            rw [hl] at h
            refine .inr ⟨[], n, ss, rfl, ?_, List.mem_singleton.mp h⟩
            exact congrArg Prod.fst (perform_addHeader_of_ok hl)
    · exact .inr (.inl ⟨r, List.mem_cons_of_mem s hr, h⟩)
    · exact .inr (.inr ⟨s :: before, n, after, rfl, hok, h⟩)

end Run

/-- In a run the rules of the start come first, and behind them whole contributions in the order of
the steps. A header that is added contributes one symbol rule and one block of include rules, for
all the names in its list; where it has no list, nothing changes at all. -/
theorem rules_of_run (a : Assembly) (ss : List Step) :
    (a.run ss).rules = a.rules ++ RuleSet.concat (a.contributions ss) ∧
    (∀ before s after, ss = before ++ s :: after →
      let here := a.run before
      here.rules.symbols <+: (a.run ss).rules.symbols ∧
      here.rules.includes <+: (a.run ss).rules.includes ∧
      ∀ n, s = .addHeader n →
        let h := here.session.headers n
        (here.perform s).1.map (fun _ => (here.after s).rules) =
          (here.rules.addHeader here.session.fs h).value ∧
        (∀ e, (here.perform s).1 = .error e → here.after s = here) ∧
        ((here.perform s).1 = .ok () → ∃ names moreSymbols moreIncludes,
          (h.known = some names ∨ h.known = none ∧ ∃ bytes,
            here.session.fs.readBytes h.path = .ok bytes ∧
            names = Header.localIncludes (String.ofList (decodeLossy bytes))) ∧
          (here.after s).rules = ⟨here.rules.symbols ++ [⟨h.className, h.className⟩],
            here.rules.includes ++ names.map (⟨h.moduleName, ·, h.className⟩)⟩ ∧
          (a.run ss).rules.symbols =
            here.rules.symbols ++ ⟨h.className, h.className⟩ :: moreSymbols ∧
          (a.run ss).rules.includes =
            here.rules.includes ++ (names.map (⟨h.moduleName, ·, h.className⟩) ++ moreIncludes))) ∧
    ∀ x ∈ (a.run ss).rules.symbols, x ∈ a.rules.symbols ∨
      (∃ r, .extend r ∈ ss ∧ x ∈ r.symbols) ∨
      ∃ before n after, ss = before ++ .addHeader n :: after ∧
        ((a.run before).perform (.addHeader n)).1 = .ok () ∧
        x = ⟨((a.run before).session.headers n).className,
          ((a.run before).session.headers n).className⟩ := by
  refine ⟨rules_run a ss, ?_, fun x hx => mem_symbols_run hx⟩
  rintro before s after rfl here
  have hrun : a.run (before ++ s :: after) = (here.after s).run after :=
    run_append_cons a before s after
  obtain ⟨hsymbols, hincludes⟩ := here.prefix_run (s :: after)
  refine ⟨by rwa [hrun], by rwa [hrun], ?_⟩
  rintro n rfl h
  refine ⟨here.perform_addHeader_eq n, ?_, ?_⟩
  · intro e he
    exact after_addHeader_of_error (perform_addHeader_eq_error_iff.mp he)
  · intro hok
    cases hl : here.session.listed n with
    | error e =>
      rw [perform_addHeader_of_error hl] at hok
      cases hok
    | ok names =>
      have hafter := rules_after_addHeader hl
      have hfinal := (here.after (.addHeader n)).rules_run after
      rw [hafter, RuleSet.append_assoc] at hfinal
      let later := RuleSet.concat ((here.after (.addHeader n)).contributions after)
      refine ⟨names, later.symbols, later.includes, Session.listed_eq_ok_iff.mp hl, hafter, ?_, ?_⟩
      · rw [hrun, hfinal]
        rfl
      · rw [hrun, hfinal]
        rfl

/-- The one header of this session has no file. -/
def withoutFile : Assembly :=
  ⟨.start (FileSystem.empty []) fun _ => .ofString "m/f", ⟨[⟨"s", "t"⟩], []⟩⟩

def oneFile : FileSystem :=
  ((FileSystem.empty []).put [encode ['m']] .folder).put [encode ['m'], encode ['f']]
    (.file 0o644 (encode "#include \"x.h\"\n".toList))

/-- A header is added in vain, then with its file, and once more when the file is gone. -/
def attempts : List Step :=
  [.addHeader 0, .other (.change oneFile), .addHeader 0, .other (.change (FileSystem.empty [])),
    .addHeader 0]

theorem rules_attempts :
    (withoutFile.perform (.addHeader 0)).1 = .error (.io "Failed to read file: m/f" .notFound) ∧
      withoutFile.after (.addHeader 0) = withoutFile ∧
      ∃ moreSymbols moreIncludes,
        (withoutFile.run attempts).rules.symbols = ⟨"s", "t"⟩ :: ⟨"f", "f"⟩ :: moreSymbols ∧
        (withoutFile.run attempts).rules.includes = ⟨"m", "x", "f"⟩ :: moreIncludes := by
  have hmissing : withoutFile.session.listed 0 =
      .error (.io "Failed to read file: m/f" .notFound) := by cbv
  obtain ⟨-, hsplit, -⟩ := rules_of_run withoutFile attempts
  have hfails := perform_addHeader_eq_error_iff.mpr hmissing
  have hsame : withoutFile.after (.addHeader 0) = withoutFile :=
    ((hsplit [] _ _ rfl).2.2 0 rfl).2.1 _ hfails
  have hthere : withoutFile.run [.addHeader 0, .other (.change oneFile)] =
      ⟨{ withoutFile.session with fs := oneFile }, withoutFile.rules⟩ :=
    congrArg (fun a : Assembly => a.after (.other (.change oneFile))) hsame
  have hread : oneFile.readBytes (.ofString "m/f") =
      .ok (encode "#include \"x.h\"\n".toList) := by cbv
  have hnames : Header.localIncludes
      (String.ofList (decodeLossy (encode "#include \"x.h\"\n".toList))) = ["x"] := by
    decide +kernel
  have hlisted : (withoutFile.run [.addHeader 0, .other (.change oneFile)]).session.listed 0 =
      .ok ["x"] := by
    rw [hthere]
    exact Session.listed_eq_ok_iff.mpr (.inr ⟨rfl, _, hread, hnames.symm⟩)
  have hsucceeds := congrArg Prod.fst (perform_addHeader_of_ok hlisted)
  have hreached := hsplit [.addHeader 0, .other (.change oneFile)] _ _ rfl
  rw [hthere] at hsucceeds hreached
  obtain ⟨names, moreSymbols, moreIncludes, hhas, -, hsymbols, hincludes⟩ :=
    (hreached.2.2 0 rfl).2.2 hsucceeds
  have hclass : (withoutFile.session.headers 0).className = "f" := by cbv
  have hmodule : (withoutFile.session.headers 0).moduleName = "m" := by cbv
  change _ = [⟨"s", "t"⟩] ++
    ⟨(withoutFile.session.headers 0).className, (withoutFile.session.headers 0).className⟩ ::
      moreSymbols at hsymbols
  change _ = [] ++ (names.map (⟨(withoutFile.session.headers 0).moduleName, ·,
    (withoutFile.session.headers 0).className⟩) ++ moreIncludes) at hincludes
  obtain hknown | ⟨-, bytes, hbytes, rfl⟩ := hhas
  · cases hknown
  · cases hread.symm.trans hbytes
    rw [hclass] at hsymbols
    rw [hnames, hclass, hmodule] at hincludes
    exact ⟨hfails, hsame, moreSymbols, moreIncludes, hsymbols, hincludes⟩

end Assembly

end IncludeMap
