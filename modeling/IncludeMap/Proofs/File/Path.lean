import IncludeMap.File.Tree
import Mathlib.Data.List.Basic

/-! # Steps of joined paths and of parents

The steps of a path come from its segments one by one, so the steps of a joined path are those of
its parts. A path that ends in a name has a parent, and the steps in front of the name are those of
the parent, but for steps that stay where they are.
-/
namespace IncludeMap.File
open Text

theorem segments_append (a b : Bytes) : segments (a ++ slash :: b) = segments a ++ segments b := by
  induction a with
  | nil => simp [segments]
  | cons c a ih =>
    by_cases hc : c = slash
    · simp [segments, hc, ih]
    · rw [List.cons_append, segments, if_neg hc, ih, segments, if_neg hc]
      cases h : segments a with
      | nil => exact absurd h (segments_ne_nil a)
      | cons s ss => rfl

theorem segments_of_not_mem {n : Bytes} (h : slash ∉ n) : segments n = [n] := by
  induction n with
  | nil => rfl
  | cons c n ih =>
    rw [List.mem_cons, not_or] at h
    rw [segments, if_neg fun hc => h.1 hc.symm, ih h.2]

theorem not_mem_of_mem_segments {bs s : Bytes} (h : s ∈ segments bs) : slash ∉ s := by
  induction bs generalizing s with
  | nil =>
    rw [segments, List.mem_singleton] at h
    simp [h]
  | cons c bs ih =>
    rw [segments] at h
    split at h
    · rcases List.mem_cons.mp h with rfl | h
      · simp
      · exact ih h
    · next hc =>
      split at h
      · next hs => exact absurd hs (segments_ne_nil bs)
      · next t ts hs =>
        rcases List.mem_cons.mp h with rfl | h
        · rw [List.mem_cons, not_or]
          exact ⟨fun h => hc h.symm, ih (hs ▸ List.mem_cons_self)⟩
        · exact ih (hs ▸ List.mem_cons_of_mem t h)

theorem joinSegments_cons {ss : List Bytes} (hss : ss ≠ []) (s : Bytes) :
    joinSegments (s :: ss) = s ++ slash :: joinSegments ss := by
  cases ss with
  | nil => exact absurd rfl hss
  | cons t ts => rfl

theorem joinSegments_append {ss ts : List Bytes} (hss : ss ≠ []) (hts : ts ≠ []) :
    joinSegments (ss ++ ts) = joinSegments ss ++ slash :: joinSegments ts := by
  induction ss with
  | nil => exact absurd rfl hss
  | cons s ss ih =>
    rw [List.cons_append, joinSegments_cons (by simp [hts])]
    by_cases h : ss = []
    · simp [h, joinSegments]
    · rw [ih h, joinSegments_cons h, List.append_assoc, List.cons_append]

theorem segments_joinSegments {ss : List Bytes} (hss : ss ≠ []) (h : ∀ s ∈ ss, slash ∉ s) :
    segments (joinSegments ss) = ss := by
  induction ss with
  | nil => exact absurd rfl hss
  | cons s ss ih =>
    have hs := segments_of_not_mem (h s List.mem_cons_self)
    by_cases hn : ss = []
    · subst hn
      exact hs
    · have ih := ih hn fun t ht => h t (List.mem_cons_of_mem s ht)
      rw [joinSegments_cons hn, segments_append, hs, ih]
      rfl

theorem eq_of_segments {bs s : Bytes} {init : List Bytes} (h : segments bs = init ++ [s]) :
    bs = if init = [] then s else joinSegments init ++ slash :: s := by
  rw [← joinSegments_segments bs, h]
  split
  · next hi =>
    rw [hi]
    rfl
  · next hi => exact joinSegments_append hi (by simp)

theorem getLast?_ne_slash {bs s : Bytes} {init : List Bytes} (h : segments bs = init ++ [s])
    (hs : s ≠ []) : bs.getLast? ≠ some slash := by
  have hsegment : s ∈ segments bs := by simp [h]
  have hmem := not_mem_of_mem_segments hsegment
  have hlast : bs.getLast? = s.getLast? := by
    obtain ⟨t, c, rfl⟩ := (List.eq_nil_or_concat s).resolve_left hs
    rw [eq_of_segments h]
    split <;> simp [List.getLast?_cons]
  intro hb
  exact hmem (List.mem_of_getLast? (hlast ▸ hb))

theorem exists_segments_concat {bs : Bytes} (hne : bs ≠ []) (hb : bs.getLast? ≠ some slash) :
    ∃ init s, segments bs = init ++ [s] ∧ s ≠ [] := by
  obtain ⟨init, s, hs⟩ := (List.eq_nil_or_concat (segments bs)).resolve_left (segments_ne_nil bs)
  rw [List.concat_eq_append] at hs
  refine ⟨init, s, hs, ?_⟩
  rintro rfl
  have he := eq_of_segments hs
  split at he
  · exact hne he
  · exact hb (by simp [he])

namespace Path

/-- The steps of the segments of a path, without the closing one. -/
def plainSteps (p : Path) : List Step := ((segments p.bytes).filter (· ≠ [])).map stepOf

theorem plainSteps_eq_nil_iff {p : Path} :
    p.plainSteps = [] ↔ (segments p.bytes).filter (· ≠ []) = [] := List.map_eq_nil_iff

theorem steps_eq (p : Path) :
    p.steps = p.plainSteps ++
      if p.plainSteps ≠ [] ∧ p.bytes.getLast? = some slash then [.closing] else [] := by
  simp only [ne_eq, plainSteps_eq_nil_iff]
  rfl

theorem steps_eq_plainSteps_or (p : Path) :
    p.steps = p.plainSteps ∨ p.steps = p.plainSteps ++ [.closing] := by
  rw [steps_eq]
  split
  · exact .inr rfl
  · exact .inl (List.append_nil _)

theorem bytes_join {p q : Path} (hq : q.isAbsolute = false) :
    (p.join q).bytes = q.bytes ∧ p.bytes = [] ∨
      (∃ front, p.bytes = front ++ [slash] ∧ (p.join q).bytes = front ++ slash :: q.bytes) ∨
      p.bytes ≠ [] ∧ (p.join q).bytes = p.bytes ++ slash :: q.bytes := by
  unfold join
  by_cases hp : p.bytes = []
  · rw [if_pos (.inr hp)]
    exact .inl ⟨rfl, hp⟩
  · rw [if_neg (by simp [hq, hp])]
    split
    · next hl =>
      obtain ⟨front, hf⟩ := List.getLast?_eq_some_iff.mp hl
      exact .inr (.inl ⟨front, hf, by simp [hf]⟩)
    · exact .inr (.inr ⟨hp, rfl⟩)

theorem plainSteps_join {p q : Path} (hq : q.isAbsolute = false) :
    (p.join q).plainSteps = p.plainSteps ++ q.plainSteps := by
  rcases bytes_join (p := p) hq with ⟨hj, hp⟩ | ⟨front, hp, hj⟩ | ⟨-, hj⟩
  · simp [plainSteps, hj, hp, segments]
  · have hs : segments (front ++ [slash]) = segments front ++ [[]] := segments_append front []
    simp [plainSteps, hj, hp, segments_append, hs]
  · simp [plainSteps, hj, segments_append]

theorem plainSteps_ne_nil {p : Path} (hp : p.isAbsolute = false) (hne : p.bytes ≠ []) :
    p.plainSteps ≠ [] := by
  obtain ⟨c, bs, hb⟩ := List.exists_cons_of_ne_nil hne
  have hc : c ≠ slash := by
    rintro rfl
    simp [isAbsolute, hb] at hp
  rw [ne_eq, plainSteps_eq_nil_iff, hb, segments, if_neg hc]
  split <;> simp

theorem steps_join {p q : Path} (hq : q.isAbsolute = false) (hne : q.bytes ≠ []) :
    (p.join q).steps = p.plainSteps ++ q.steps := by
  have hlast : (p.join q).bytes.getLast? = q.bytes.getLast? := by
    obtain ⟨c, bs, hb⟩ := List.exists_cons_of_ne_nil hne
    rcases bytes_join (p := p) hq with ⟨hj, -⟩ | ⟨front, -, hj⟩ | ⟨-, hj⟩
    · rw [hj]
    · simp [hj, hb, List.getLast?_cons]
    · simp [hj, hb, List.getLast?_cons]
  have hn := plainSteps_ne_nil hq hne
  rw [steps_eq, steps_eq, plainSteps_join hq, hlast, List.append_assoc]
  simp [hn]

theorem isAbsolute_join {p q : Path} (hq : q.isAbsolute = false) :
    (p.join q).isAbsolute = p.isAbsolute := by
  rcases bytes_join (p := p) hq with ⟨hj, hp⟩ | ⟨front, hp, hj⟩ | ⟨hp, hj⟩
  · simpa [isAbsolute, hj, hp] using hq
  · cases front <;> simp [isAbsolute, hj, hp]
  · obtain ⟨c, bs, hb⟩ := List.exists_cons_of_ne_nil hp
    simp [isAbsolute, hj, hb]

end Path

theorem stepOf_eq_down_iff {s n : Bytes} :
    stepOf s = .down n ↔ s = n ∧ s ≠ [dot] ∧ s ≠ [dot, dot] := by
  unfold stepOf
  split
  · next h => simp [h]
  · split
    · next h => simp [h]
    · next h₁ h₂ =>
      simp only [Step.down.injEq, ne_eq, h₁, h₂, not_false_eq_true, and_self, and_true]

theorem isName_iff {n : Name} :
    isName n = true ↔ n ≠ [] ∧ n ≠ [dot] ∧ n ≠ [dot, dot] ∧ slash ∉ n := by
  simp [isName, and_assoc]

namespace Path

/-- The path ends in a name, with these steps in front of it. -/
def EndsIn (p : Path) (before : List Step) (n : Name) : Prop :=
  p.steps = before ++ [.down n]

theorem exists_segments_of_endsIn {p : Path} {before : List Step} {n : Name}
    (h : p.EndsIn before n) :
    ∃ init, segments p.bytes = init ++ [n] ∧ isName n = true ∧
      before = (init.filter (· ≠ [])).map stepOf := by
  have hplain : p.plainSteps = before ++ [.down n] := by
    rcases steps_eq_plainSteps_or p with hs | hs
    · exact hs.symm.trans h
    · have := List.append_inj_right' (hs.symm.trans h) rfl
      simp at this
  have hslash : p.bytes.getLast? ≠ some slash := by
    intro hl
    have := steps_eq p
    rw [if_pos ⟨by simp [hplain], hl⟩, h, hplain] at this
    simp at this
  have hne : p.bytes ≠ [] := by
    intro hb
    simp [plainSteps, hb, segments] at hplain
  obtain ⟨init, s, hs, hsne⟩ := exists_segments_concat hne hslash
  have hlast : (init.filter (· ≠ [])).map stepOf ++ [stepOf s] = before ++ [.down n] := by
    rw [← hplain, plainSteps, hs]
    simp [hsne]
  obtain ⟨hb, hd⟩ := List.append_inj' hlast rfl
  obtain ⟨rfl, h₁, h₂⟩ := stepOf_eq_down_iff.mp (List.singleton_inj.mp hd)
  have hsegment : s ∈ segments p.bytes := by simp [hs]
  exact ⟨init, hs, isName_iff.mpr ⟨hsne, h₁, h₂, not_mem_of_mem_segments hsegment⟩, hb.symm⟩

/-- Trimming takes away segments that mean nothing, and all of them only when the first one is
empty. -/
theorem trimSegments_spec (ss : List Bytes) :
    ∃ dropped, ss = dropped ++ trimSegments ss ∧ (∀ s ∈ dropped, s = [] ∨ s = [dot]) ∧
      (trimSegments ss = [] → ss = [] ∨ ss.getLast? = some []) ∧
      ∀ s rest, trimSegments ss = s :: rest → s ≠ [] := by
  fun_induction trimSegments ss with
  | case1 => exact ⟨[], by simp⟩
  | case2 => exact ⟨[[]], by simp⟩
  | case3 s hs =>
    refine ⟨[], rfl, by simp, fun h => absurd h (List.cons_ne_nil s []), ?_⟩
    intro t rest h
    exact (List.cons.inj h).1 ▸ hs
  | case4 s t ss hs ih =>
    obtain ⟨dropped, he, hd, hnil, hhead⟩ := ih
    refine ⟨s :: dropped, by rw [List.cons_append, ← he], ?_, ?_, hhead⟩
    · intro u hu
      rcases List.mem_cons.mp hu with rfl | hu
      · exact hs
      · exact hd u hu
    · intro h
      rcases hnil h with h | h
      · exact absurd h (List.cons_ne_nil t ss)
      · exact .inr (by rw [List.getLast?_cons_cons, h])
  | case5 s t ss hs =>
    refine ⟨[], rfl, by simp, fun h => absurd h (List.cons_ne_nil s _), ?_⟩
    intro u rest h
    exact (List.cons.inj h).1 ▸ fun hn => hs (.inl hn)

theorem map_stepOf_of_meaningless {ss : List Bytes} (h : ∀ s ∈ ss, s = [] ∨ s = [dot]) :
    ∃ m, (ss.filter (· ≠ [])).map stepOf = List.replicate m .stay := by
  refine ⟨_, List.eq_replicate_iff.mpr ⟨rfl, fun t ht => ?_⟩⟩
  obtain ⟨s, hs, rfl⟩ := List.mem_map.mp ht
  obtain ⟨hm, hne⟩ := List.mem_filter.mp hs
  rcases h s hm with rfl | rfl
  · simp at hne
  · rfl

theorem backwards_of_endsIn {p : Path} {init : List Bytes} {n : Name}
    (hs : segments p.bytes = init ++ [n]) (hn : isName n = true) :
    p.backwards = n :: init.reverse := by
  obtain ⟨hne, hdot, -, -⟩ := isName_iff.mp hn
  rw [backwards, hs, List.reverse_append, List.reverse_singleton, List.singleton_append]
  cases init.reverse with
  | nil => rw [trimSegments, if_neg hne]
  | cons t ts => rw [trimSegments, if_neg (by simp [hne, hdot])]

/-- The path has the parent, and these are the steps of the parent, but for steps at the end that
stay where they are. -/
def HasParent (p : Path) (before : List Step) (parent : Path) (stays : Nat) : Prop :=
  p.parent? = some parent ∧ parent.isAbsolute = p.isAbsolute ∧ parent.steps = parent.plainSteps ∧
    before = parent.plainSteps ++ List.replicate stays .stay ∧ (parent.bytes = [] → before = [])

section Parent

variable {p : Path} {init : List Bytes} {n : Name}

/-- Where nothing in front of the name means anything, the parent is the root or the workplace. -/
theorem hasParent_of_trim_nil (hs : segments p.bytes = init ++ [n]) (hn : isName n = true)
    (ht : trimSegments init.reverse = []) {m : Nat}
    (hm : (init.filter (· ≠ [])).map stepOf = List.replicate m .stay) :
    ∃ parent stays, p.HasParent ((init.filter (· ≠ [])).map stepOf) parent stays := by
  obtain ⟨-, -, -, hnil, -⟩ := trimSegments_spec init.reverse
  have hp := eq_of_segments hs
  have hparent : p.parent? = some ⟨if p.isAbsolute then [slash] else []⟩ := by
    rw [parent?, backwards_of_endsIn hs hn]
    simp only [ht]
  rcases hnil ht with hi | hi
  · rw [List.reverse_eq_nil_iff] at hi
    have ha : p.isAbsolute = false := by
      obtain ⟨c, cs, rfl⟩ := List.exists_cons_of_ne_nil (isName_iff.mp hn).1
      have hc : c ≠ slash := fun hc => (isName_iff.mp hn).2.2.2 (hc ▸ List.mem_cons_self)
      rw [if_pos hi] at hp
      simp [isAbsolute, hp, hc]
    rw [ha] at hparent
    subst hi
    exact ⟨⟨[]⟩, 0, hparent, ha.symm, rfl, rfl, fun _ => rfl⟩
  · rw [List.getLast?_reverse] at hi
    have ha : p.isAbsolute = true := by
      obtain ⟨rest, hr⟩ := List.head?_eq_some_iff.mp hi
      rw [if_neg (by simp [hr]), hr] at hp
      cases rest with
      | nil => simp [isAbsolute, hp, joinSegments]
      | cons t ts => simp [isAbsolute, hp, joinSegments]
    rw [ha] at hparent
    exact ⟨⟨[slash]⟩, m, hparent, ha.symm, rfl, hm, fun h => absurd h (List.cons_ne_nil slash [])⟩

/-- Otherwise the parent consists of the segments up to the last one that means something. -/
theorem hasParent_of_trim_cons (hs : segments p.bytes = init ++ [n]) (hn : isName n = true)
    {kept dropped : List Bytes} {s : Bytes} (ht : trimSegments init.reverse = s :: kept)
    (hinit : init = (kept.reverse ++ [s]) ++ dropped) {m : Nat}
    (hm : (dropped.filter (· ≠ [])).map stepOf = List.replicate m .stay) :
    ∃ parent stays, p.HasParent ((init.filter (· ≠ [])).map stepOf) parent stays := by
  obtain ⟨-, -, -, -, hhead⟩ := trimSegments_spec init.reverse
  have hne : kept.reverse ++ [s] ≠ [] :=
    List.append_ne_nil_of_right_ne_nil _ (List.cons_ne_nil s [])
  have hkept : segments (joinSegments (kept.reverse ++ [s])) = kept.reverse ++ [s] := by
    refine segments_joinSegments hne fun t htm => ?_
    have hsegment : t ∈ segments p.bytes := by
      rw [hs, hinit]
      exact List.mem_append_left _ (List.mem_append_left _ htm)
    exact not_mem_of_mem_segments hsegment
  have hjoin : joinSegments (kept.reverse ++ [s]) ≠ [] := by
    intro he
    rw [he, segments] at hkept
    have hlast := congrArg List.getLast? hkept
    rw [List.getLast?_singleton, List.getLast?_concat, Option.some.injEq] at hlast
    exact hhead s kept ht hlast.symm
  have hparent : p.parent? = some ⟨joinSegments (kept.reverse ++ [s])⟩ := by
    rw [parent?, backwards_of_endsIn hs hn]
    simp only [ht, List.reverse_cons]
  refine ⟨_, m, hparent, ?_, ?_, ?_, fun he => absurd he hjoin⟩
  · have hbytes : p.bytes = joinSegments (kept.reverse ++ [s]) ++
        slash :: joinSegments (dropped ++ [n]) := by
      rw [← joinSegments_segments p.bytes, hs, hinit, List.append_assoc]
      exact joinSegments_append hne (List.append_ne_nil_of_right_ne_nil _ (List.cons_ne_nil n []))
    obtain ⟨c, cs, hc⟩ := List.exists_cons_of_ne_nil hjoin
    rw [isAbsolute, isAbsolute, hbytes, hc]
    rfl
  · rw [steps_eq, if_neg fun h => getLast?_ne_slash hkept (hhead s kept ht) h.2, List.append_nil]
  · rw [hinit, List.filter_append, List.map_append, hm, plainSteps, hkept]

end Parent

theorem hasParent_of_endsIn {p : Path} {before : List Step} {n : Name} (h : p.EndsIn before n) :
    ∃ parent stays, p.HasParent before parent stays := by
  obtain ⟨init, hs, hn, rfl⟩ := exists_segments_of_endsIn h
  obtain ⟨dropped, hd, hmeaning, -, -⟩ := trimSegments_spec init.reverse
  have hreverse : ∀ s ∈ dropped.reverse, s = [] ∨ s = [dot] := fun s hs =>
    hmeaning s (List.mem_reverse.mp hs)
  obtain ⟨m, hm⟩ := map_stepOf_of_meaningless hreverse
  have hinit : init = (trimSegments init.reverse).reverse ++ dropped.reverse := by
    rw [← List.reverse_append, ← hd, List.reverse_reverse]
  cases ht : trimSegments init.reverse with
  | nil =>
    rw [ht, List.reverse_nil, List.nil_append] at hinit
    exact hasParent_of_trim_nil hs hn ht (hinit ▸ hm)
  | cons s kept =>
    rw [ht, List.reverse_cons] at hinit
    exact hasParent_of_trim_cons hs hn ht hinit hm

theorem fileName?_of_endsIn {p : Path} {before : List Step} {n : Name} (h : p.EndsIn before n) :
    p.fileName? = some n := by
  obtain ⟨init, hs, hn, -⟩ := exists_segments_of_endsIn h
  have hname := isName_iff.mp hn
  rw [fileName?, backwards_of_endsIn hs hn]
  exact if_neg (by simp [hname.2.1, hname.2.2.1])

theorem bytes_ne_nil_of_endsIn {p : Path} {before : List Step} {n : Name}
    (h : p.EndsIn before n) : p.bytes ≠ [] := by
  obtain ⟨init, hs, -, -⟩ := exists_segments_of_endsIn h
  intro hp
  rw [EndsIn, steps, hp] at h
  exact absurd (congrArg List.length h) (by simp [segments])

theorem bytes_ne_nil_of_endsIn_join {p q : Path} {before : List Step} {n : Name}
    (hq : q.isAbsolute = false) (h : (p.join q).EndsIn before n) : q.bytes ≠ [] := by
  obtain ⟨init, hs, hn, -⟩ := exists_segments_of_endsIn h
  have hslash := getLast?_ne_slash hs (isName_iff.mp hn).1
  intro hqb
  rcases bytes_join (p := p) hq with ⟨hj, -⟩ | ⟨front, -, hj⟩ | ⟨-, hj⟩
  · exact bytes_ne_nil_of_endsIn h (hj.trans hqb)
  · exact hslash (by simp [hj, hqb])
  · exact hslash (by simp [hj, hqb])

theorem plainSteps_ofName {n : Name} (hn : isName n = true) :
    (⟨n⟩ : Path).plainSteps = [.down n] := by
  obtain ⟨hne, hdot, hdots, hslash⟩ := isName_iff.mp hn
  rw [plainSteps, segments_of_not_mem hslash, List.filter_cons_of_pos (by simpa using hne)]
  exact congrArg (· :: []) (stepOf_eq_down_iff.mpr ⟨rfl, hdot, hdots⟩)

theorem isAbsolute_ofName {n : Name} (hn : isName n = true) :
    (⟨n⟩ : Path).isAbsolute = false := by
  obtain ⟨hne, -, -, hslash⟩ := isName_iff.mp hn
  obtain ⟨c, cs, rfl⟩ := List.exists_cons_of_ne_nil hne
  have hc : c ≠ slash := fun hc => hslash (hc ▸ List.mem_cons_self)
  simp [isAbsolute, hc]

theorem plainSteps_child (p : Path) {n : Name} (hn : isName n = true) :
    (p.child n).plainSteps = p.plainSteps ++ [.down n] := by
  rw [child, plainSteps_join (isAbsolute_ofName hn), plainSteps_ofName hn]

theorem isAbsolute_child (p : Path) {n : Name} (hn : isName n = true) :
    (p.child n).isAbsolute = p.isAbsolute :=
  isAbsolute_join (isAbsolute_ofName hn)

theorem endsIn_child (p : Path) {n : Name} (hn : isName n = true) :
    (p.child n).EndsIn p.plainSteps n := by
  obtain ⟨hne, -, -, hslash⟩ := isName_iff.mp hn
  have hsteps : (⟨n⟩ : Path).steps = [.down n] := by
    have hlast : n.getLast? ≠ some slash := fun h => hslash (List.mem_of_getLast? h)
    rw [steps_eq, if_neg fun h => hlast h.2, plainSteps_ofName hn, List.append_nil]
  rw [EndsIn, child, steps_join (isAbsolute_ofName hn) hne, hsteps]

theorem fileName?_child (p : Path) {n : Name} (hn : isName n = true) :
    (p.child n).fileName? = some n :=
  fileName?_of_endsIn (p.endsIn_child hn)

theorem fileName?_parent_child_child (p : Path) {m n : Name} (hm : isName m = true)
    (hn : isName n = true) : (((p.child m).child n).parent?.bind fileName?) = some m := by
  obtain ⟨parent, k, hparent, -, hsteps, hbefore, -⟩ :=
    hasParent_of_endsIn ((p.child m).endsIn_child hn)
  rw [plainSteps_child p hm] at hbefore
  rw [hparent, Option.bind_some]
  cases k with
  | zero =>
    rw [List.replicate_zero, List.append_nil] at hbefore
    exact fileName?_of_endsIn (hsteps.trans hbefore.symm)
  | succ k =>
    rw [List.replicate_succ', ← List.append_assoc] at hbefore
    have hlast := (List.append_inj' hbefore rfl).2
    cases hlast

end Path

end IncludeMap.File
