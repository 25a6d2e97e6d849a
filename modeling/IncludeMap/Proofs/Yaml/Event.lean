import IncludeMap.Proofs.Yaml.Allowed

/-! # The items of written documents

The tokens of a document become the events of its items, between the starts and the ends of the
stream and of the document. Which event comes next depends on the kinds of the tokens that are left
and on what the reader expects.
-/
namespace IncludeMap.Yaml

/-! ## Items of the parts -/

def nameItem (name : String) : Item := .scalar none name.toList true

def textItem (s : String) : Item := .scalar none s.toList (decide (styleOf s.toList = .plain))

def fieldItems (f : String × String) : List Item := [nameItem f.1, textItem f.2]

def recordItems (r : Fields) : List Item :=
  [.mappingStart] ++ r.flatMap fieldItems ++ [.mappingEnd]

def Section.entryItems : Section → List (List Item)
  | .texts items => items.map fun s => [textItem s]
  | .records items => items.map recordItems

def Section.items (v : Section) : List Item :=
  [.sequenceStart] ++ v.entryItems.flatten ++ [.sequenceEnd]

def sectionItems (x : String × Section) : List Item := nameItem x.1 :: x.2.items

def documentItems (sections : List (String × Section)) : List Item :=
  [.mappingStart] ++ sections.flatMap sectionItems ++ [.mappingEnd]

/-- The item of an event that defines no anchor. -/
def Event.item? : Event → Option Item
  | .scalar none tag text plain => some (.scalar tag text plain)
  | .sequenceStart none => some .sequenceStart
  | .sequenceEnd => some .sequenceEnd
  | .mappingStart none => some .mappingStart
  | .mappingEnd => some .mappingEnd
  | _ => none

namespace EventReader

variable {r s t : EventReader} {kinds : List Kind} {later : List Expectation}
  {text : List Char} {plain : Bool} {expected : Expectation}

/-! ## Outlooks -/

/-- What decides on the next events. -/
structure Outlook where
  kinds : List Kind
  expected : Expectation
  later : List Expectation

structure Has (r : EventReader) (x : Outlook) : Prop where
  kinds : r.tokens.map Token.kind = x.kinds
  expected : r.expected = x.expected
  later : r.later = x.later

/-- The reader emits events on the way from one state to another. -/
inductive Emits : EventReader → List (Event × Place) → EventReader → Prop where
  | nil (r : EventReader) : Emits r [] r
  | cons {r s t : EventReader} {e : Event × Place} {es : List (Event × Place)}
    (step : r.step = .ok (e, s)) (going : e.1 ≠ .streamEnd) (more : Emits s es t) :
    Emits r (e :: es) t

theorem Emits.append {es fs : List (Event × Place)} (h : Emits r es s) (hs : Emits s fs t) :
    Emits r (es ++ fs) t := by
  induction h with
  | nil => exact hs
  | cons hstep hgoing _ ih => exact .cons hstep hgoing (ih hs)

theorem Emits.run {es : List (Event × Place)} (h : Emits r es s) (fuel : Nat) :
    r.run (es.length + fuel) = ⟨es ++ (s.run fuel).events, (s.run fuel).failure⟩ := by
  induction h with
  | nil r => simp
  | @cons r s t e es hstep hgoing _ ih =>
    rw [List.length_cons, Nat.add_right_comm, EventReader.run, hstep]
    simp only [if_neg hgoing, ih, List.cons_append]

/-- From one outlook to another the events of the items are emitted. -/
def Gives (x : Outlook) (items : List Item) (y : Outlook) : Prop :=
  ∀ r : EventReader, r.Has x → ∃ es s, Emits r es s ∧
    es.map (fun e => e.1.item?) = items.map some ∧ s.Has y

theorem Gives.nil (x : Outlook) : Gives x [] x := fun r hr => ⟨[], r, .nil r, rfl, hr⟩

theorem Gives.append {x y z : Outlook} {is js : List Item} (h : Gives x is y) (hz : Gives y js z) :
    Gives x (is ++ js) z := by
  intro r hr
  obtain ⟨es, s, hes, hitems, hs⟩ := h r hr
  obtain ⟨fs, t, hfs, hmore, ht⟩ := hz s hs
  exact ⟨es ++ fs, t, hes.append hfs, by simp [hitems, hmore], ht⟩

theorem Gives.of_step {x y : Outlook} {e : Event} {i : Item} (he : e.item? = some i)
    (h : ∀ r : EventReader, r.Has x → ∃ p s, r.step = .ok ((e, p), s) ∧ s.Has y) :
    Gives x [i] y := by
  intro r hr
  obtain ⟨p, s, hstep, hs⟩ := h r hr
  refine ⟨[(e, p)], s, .cons hstep ?_ (.nil s), by simp [he], hs⟩
  rintro rfl
  cases he

/-! ## Nodes -/

theorem nodeStep_scalar {block indentless : Bool} {u : Token} {us : List Token}
    (htokens : r.tokens = u :: us) (hu : u.kind = .scalar text plain)
    (hlater : r.later = expected :: later) :
    r.nodeStep block indentless = .ok ((.scalar none none text plain, u.place),
      { r with tokens := us, expected := expected, later := later }) := by
  simp [nodeStep, peek, htokens, hu, properties, fullTag, contentStep, pop, hlater, skip, emit,
    scalarTag, bind, Except.bind]

theorem nodeStep_mapping {indentless : Bool} {u : Token} {us : List Token}
    (htokens : r.tokens = u :: us) (hu : u.kind = .blockMappingStart) :
    r.nodeStep true indentless =
      .ok ((.mappingStart none, u.place), r.expect .firstBlockKey) := by
  simp [nodeStep, peek, htokens, hu, properties, fullTag, contentStep, emit, bind, Except.bind]

theorem nodeStep_indentless {block : Bool} {u : Token} {us : List Token}
    (htokens : r.tokens = u :: us) (hu : u.kind = .blockEntry) :
    r.nodeStep block true = .ok ((.sequenceStart none, u.place), r.expect .indentlessEntry) := by
  simp [nodeStep, peek, htokens, hu, properties, fullTag, contentStep, emit, bind, Except.bind]

theorem nodeStep_flow {block indentless : Bool} {u : Token} {us : List Token}
    (htokens : r.tokens = u :: us) (hu : u.kind = .flowSequenceStart) :
    r.nodeStep block indentless =
      .ok ((.sequenceStart none, u.place), r.expect .firstFlowEntry) := by
  simp [nodeStep, peek, htokens, hu, properties, fullTag, contentStep, emit, bind, Except.bind]

theorem Has.exists_cons {k : Kind} (h : r.Has ⟨k :: kinds, expected, later⟩) :
    ∃ (u : Token) (us : List Token) (failure : Option Failure) (openings : List Place)
      (forms : List (List Char × Text.Bytes)),
      r = ⟨u :: us, failure, expected, later, openings, forms⟩ ∧ u.kind = k ∧
        us.map Token.kind = kinds := by
  obtain ⟨tokens, failure, e, l, openings, forms⟩ := r
  obtain ⟨hkinds, rfl, rfl⟩ := h
  obtain ⟨u, us, rfl, hu, hus⟩ := List.map_eq_cons_iff.mp hkinds
  exact ⟨u, us, failure, openings, forms, rfl, hu, hus⟩

/-! ## Mappings -/

/-- The key of an entry is read where the reader comes from the start of the mapping, too. -/
theorem blockKeyStep_key {u v : Token} {vs : List Token} {failure : Option Failure}
    {openings : List Place} {forms : List (List Char × Text.Bytes)} (hu : u.kind = .key)
    (hv : v.kind = .scalar text true) :
    blockKeyStep ⟨u :: v :: vs, failure, expected, later, openings, forms⟩ =
      .ok ((.scalar none none text true, v.place),
        ⟨vs, failure, .blockValue, later, openings, forms⟩) := by
  have hnode : nodeStep ⟨v :: vs, failure, expected, .blockValue :: later, openings, forms⟩ true
      true = .ok ((.scalar none none text true, v.place),
        ⟨vs, failure, .blockValue, later, openings, forms⟩) := nodeStep_scalar rfl hv rfl
  simp [blockKeyStep, peek, hu, skip, hv, endsBlockValue, bind, Except.bind, push, hnode]

theorem gives_key (name : String) :
    Gives ⟨.key :: .scalar name.toList true :: kinds, .blockKey, later⟩ [nameItem name]
      ⟨kinds, .blockValue, later⟩ := by
  refine .of_step (e := .scalar none none name.toList true) rfl fun r hr => ?_
  obtain ⟨u, us, failure, openings, forms, rfl, hu, hus⟩ := hr.exists_cons
  obtain ⟨v, vs, rfl, hv, hvs⟩ := List.map_eq_cons_iff.mp hus
  exact ⟨v.place, _, blockKeyStep_key hu hv, hvs, rfl, rfl⟩

theorem gives_firstKey (name : String) :
    Gives ⟨.blockMappingStart :: .key :: .scalar name.toList true :: kinds, .firstBlockKey, later⟩
      [nameItem name] ⟨kinds, .blockValue, later⟩ := by
  refine .of_step (e := .scalar none none name.toList true) rfl fun r hr => ?_
  obtain ⟨t, us, failure, openings, forms, rfl, -, hts⟩ := hr.exists_cons
  obtain ⟨u, us, rfl, hu, hus⟩ := List.map_eq_cons_iff.mp hts
  obtain ⟨v, vs, rfl, hv, hvs⟩ := List.map_eq_cons_iff.mp hus
  exact ⟨v.place, _, blockKeyStep_key hu hv, hvs, rfl, rfl⟩

theorem gives_text (s : String) :
    Gives ⟨.value :: scalarKind s.toList :: kinds, .blockValue, later⟩ [textItem s]
      ⟨kinds, .blockKey, later⟩ := by
  refine .of_step (e := .scalar none none s.toList (decide (styleOf s.toList = .plain))) rfl
    fun r hr => ?_
  obtain ⟨u, us, failure, openings, forms, rfl, hu, hus⟩ := hr.exists_cons
  obtain ⟨v, vs, rfl, hv, hvs⟩ := List.map_eq_cons_iff.mp hus
  refine ⟨v.place, ⟨vs, failure, .blockKey, later, openings, forms⟩, ?_, hvs, rfl, rfl⟩
  have hnode : nodeStep ⟨v :: vs, failure, .blockValue, .blockKey :: later, openings, forms⟩ true
      true = .ok ((.scalar none none s.toList (decide (styleOf s.toList = .plain)), v.place),
        ⟨vs, failure, .blockKey, later, openings, forms⟩) := nodeStep_scalar rfl hv rfl
  simp [step, blockValueStep, peek, hu, skip, hv, scalarKind, endsBlockValue, bind, Except.bind,
    push, hnode]

theorem gives_mappingEnd :
    Gives ⟨.blockEnd :: kinds, .blockKey, expected :: later⟩ [.mappingEnd]
      ⟨kinds, expected, later⟩ := by
  refine .of_step (e := .mappingEnd) rfl fun r hr => ?_
  obtain ⟨u, us, failure, openings, forms, rfl, hu, hus⟩ := hr.exists_cons
  refine ⟨u.place, ⟨us, failure, expected, later, openings.drop 1, forms⟩, ?_, hus, rfl, rfl⟩
  simp [step, blockKeyStep, peek, hu, skip, leave, pop, emit, bind, Except.bind]

/-- The fields of a record, from behind the start of its mapping on. -/
theorem gives_fields (fs : Fields) :
    Gives ⟨fs.flatMap fieldKinds ++ kinds, .blockKey, later⟩ (fs.flatMap fieldItems)
      ⟨kinds, .blockKey, later⟩ := by
  induction fs with
  | nil => exact .nil _
  | cons f fs ih =>
    have hfield : Gives ⟨(f :: fs).flatMap fieldKinds ++ kinds, .blockKey, later⟩ (fieldItems f)
        ⟨fs.flatMap fieldKinds ++ kinds, .blockKey, later⟩ :=
      (gives_key f.1).append (gives_text f.2)
    exact hfield.append ih

/-! ## Sequences -/

/-- The start of a sequence whose entries stand in the column of its key. -/
theorem gives_sequenceStart :
    Gives ⟨.value :: .blockEntry :: kinds, .blockValue, later⟩ [.sequenceStart]
      ⟨.blockEntry :: kinds, .indentlessEntry, .blockKey :: later⟩ := by
  refine .of_step (e := .sequenceStart none) rfl fun r hr => ?_
  obtain ⟨u, us, failure, openings, forms, rfl, hu, hus⟩ := hr.exists_cons
  obtain ⟨v, vs, rfl, hv, hvs⟩ := List.map_eq_cons_iff.mp hus
  refine ⟨v.place, ⟨v :: vs, failure, .indentlessEntry, .blockKey :: later, openings, forms⟩, ?_,
    by simp [hv, hvs], rfl, rfl⟩
  have hnode : nodeStep ⟨v :: vs, failure, .blockValue, .blockKey :: later, openings, forms⟩ true
      true = .ok ((.sequenceStart none, v.place),
        ⟨v :: vs, failure, .indentlessEntry, .blockKey :: later, openings, forms⟩) :=
    nodeStep_indentless rfl hv
  simp [step, blockValueStep, peek, hu, skip, hv, endsBlockValue, bind, Except.bind, push, hnode]

theorem gives_sequenceEnd {k : Kind} (hk : k ≠ .blockEntry) :
    Gives ⟨k :: kinds, .indentlessEntry, expected :: later⟩ [.sequenceEnd]
      ⟨k :: kinds, expected, later⟩ := by
  refine .of_step (e := .sequenceEnd) rfl fun r hr => ?_
  obtain ⟨u, us, failure, openings, forms, rfl, rfl, hus⟩ := hr.exists_cons
  refine ⟨u.place, ⟨u :: us, failure, expected, later, openings, forms⟩, ?_, by simp [hus], rfl,
    rfl⟩
  simp [step, indentlessEntryStep, peek, hk, pop, emit, bind, Except.bind]

theorem gives_emptySequence :
    Gives ⟨.value :: .flowSequenceStart :: .flowSequenceEnd :: kinds, .blockValue, later⟩
      [.sequenceStart, .sequenceEnd] ⟨kinds, .blockKey, later⟩ := by
  have hstart : Gives
      ⟨.value :: .flowSequenceStart :: .flowSequenceEnd :: kinds, .blockValue, later⟩
      [.sequenceStart]
      ⟨.flowSequenceStart :: .flowSequenceEnd :: kinds, .firstFlowEntry, .blockKey :: later⟩ := by
    refine .of_step (e := .sequenceStart none) rfl fun r hr => ?_
    obtain ⟨u, us, failure, openings, forms, rfl, hu, hus⟩ := hr.exists_cons
    obtain ⟨v, vs, rfl, hv, hvs⟩ := List.map_eq_cons_iff.mp hus
    refine ⟨v.place, ⟨v :: vs, failure, .firstFlowEntry, .blockKey :: later, openings, forms⟩, ?_,
      by simp [hv, hvs], rfl, rfl⟩
    have hnode : nodeStep ⟨v :: vs, failure, .blockValue, .blockKey :: later, openings, forms⟩ true
        true = .ok ((.sequenceStart none, v.place),
          ⟨v :: vs, failure, .firstFlowEntry, .blockKey :: later, openings, forms⟩) :=
      nodeStep_flow rfl hv
    simp [step, blockValueStep, peek, hu, skip, hv, endsBlockValue, bind, Except.bind, push, hnode]
  have hend : Gives
      ⟨.flowSequenceStart :: .flowSequenceEnd :: kinds, .firstFlowEntry, .blockKey :: later⟩
      [.sequenceEnd] ⟨kinds, .blockKey, later⟩ := by
    refine .of_step (e := .sequenceEnd) rfl fun r hr => ?_
    obtain ⟨u, us, failure, openings, forms, rfl, hu, hus⟩ := hr.exists_cons
    obtain ⟨v, vs, rfl, hv, hvs⟩ := List.map_eq_cons_iff.mp hus
    refine ⟨v.place, ⟨vs, failure, .blockKey, later, openings, forms⟩, ?_, hvs, rfl, rfl⟩
    simp [step, begin, peek, enter, skip, flowEntryStep, skipComma, hv, leave, pop, emit, bind,
      Except.bind]
  exact hstart.append hend

theorem gives_entry_text (s : String) :
    Gives ⟨itemKinds s ++ kinds, .indentlessEntry, later⟩ [textItem s]
      ⟨kinds, .indentlessEntry, later⟩ := by
  refine .of_step (e := .scalar none none s.toList (decide (styleOf s.toList = .plain))) rfl
    fun r hr => ?_
  obtain ⟨u, us, failure, openings, forms, rfl, hu, hus⟩ := hr.exists_cons
  obtain ⟨v, vs, rfl, hv, hvs⟩ := List.map_eq_cons_iff.mp hus
  refine ⟨v.place, ⟨vs, failure, .indentlessEntry, later, openings, forms⟩, ?_, hvs, rfl, rfl⟩
  have hnode : nodeStep ⟨v :: vs, failure, .indentlessEntry, .indentlessEntry :: later, openings,
      forms⟩ true false = .ok ((.scalar none none s.toList (decide (styleOf s.toList = .plain)),
        v.place), ⟨vs, failure, .indentlessEntry, later, openings, forms⟩) :=
    nodeStep_scalar rfl hv rfl
  simp [step, indentlessEntryStep, peek, hu, skip, hv, scalarKind, endsBlockValue, bind,
    Except.bind, push, hnode]

theorem gives_mappingStart :
    Gives ⟨.blockEntry :: .blockMappingStart :: kinds, .indentlessEntry, later⟩ [.mappingStart]
      ⟨.blockMappingStart :: kinds, .firstBlockKey, .indentlessEntry :: later⟩ := by
  refine .of_step (e := .mappingStart none) rfl fun r hr => ?_
  obtain ⟨u, us, failure, openings, forms, rfl, hu, hus⟩ := hr.exists_cons
  obtain ⟨v, vs, rfl, hv, hvs⟩ := List.map_eq_cons_iff.mp hus
  refine ⟨v.place, ⟨v :: vs, failure, .firstBlockKey, .indentlessEntry :: later, openings, forms⟩,
    ?_, by simp [hv, hvs], rfl, rfl⟩
  have hnode : nodeStep ⟨v :: vs, failure, .indentlessEntry, .indentlessEntry :: later, openings,
      forms⟩ true false = .ok ((.mappingStart none, v.place),
        ⟨v :: vs, failure, .firstBlockKey, .indentlessEntry :: later, openings, forms⟩) :=
    nodeStep_mapping rfl hv
  simp [step, indentlessEntryStep, peek, hu, skip, hv, endsBlockValue, bind, Except.bind, push,
    hnode]

theorem gives_record {r : Fields} (hr : r ≠ []) :
    Gives ⟨recordKinds r ++ kinds, .indentlessEntry, later⟩ (recordItems r)
      ⟨kinds, .indentlessEntry, later⟩ := by
  obtain ⟨f, fs, rfl⟩ := List.exists_cons_of_ne_nil hr
  have hshape : recordKinds (f :: fs) ++ kinds = .blockEntry :: .blockMappingStart :: .key ::
      .scalar f.1.toList true :: .value :: scalarKind f.2.toList ::
        (fs.flatMap fieldKinds ++ .blockEnd :: kinds) := by
    simp [recordKinds, fieldKinds]
  have hitems : recordItems (f :: fs) =
      [.mappingStart] ++ [nameItem f.1] ++ [textItem f.2] ++ fs.flatMap fieldItems ++
        [.mappingEnd] := by
    simp [recordItems, fieldItems]
  rw [hshape, hitems]
  exact (((gives_mappingStart.append (gives_firstKey f.1)).append (gives_text f.2)).append
    (gives_fields fs)).append gives_mappingEnd

/-- Entries follow each other without anything between them. -/
theorem gives_entries {α : Type} {kindsOf : α → List Kind} {itemsOf : α → List Item} {xs : List α}
    (h : ∀ x ∈ xs, ∀ kinds, Gives ⟨kindsOf x ++ kinds, .indentlessEntry, later⟩ (itemsOf x)
      ⟨kinds, .indentlessEntry, later⟩) :
    Gives ⟨xs.flatMap kindsOf ++ kinds, .indentlessEntry, later⟩ (xs.flatMap itemsOf)
      ⟨kinds, .indentlessEntry, later⟩ := by
  induction xs with
  | nil => exact .nil _
  | cons x xs ih =>
    rw [List.flatMap_cons, List.flatMap_cons, List.append_assoc]
    exact (h x List.mem_cons_self _).append (ih fun y hy => h y (List.mem_cons_of_mem x hy))

/-! ## Sections -/

theorem gives_value {v : Section} {k : Kind} (hv : v.IsWritable) (hk : k ≠ .blockEntry) :
    Gives ⟨.value :: (v.kinds ++ k :: kinds), .blockValue, later⟩ v.items
      ⟨k :: kinds, .blockKey, later⟩ := by
  have hsequence {ks : List Kind} {is : List Item}
      (h : Gives ⟨.blockEntry :: ks, .indentlessEntry, .blockKey :: later⟩ is
        ⟨k :: kinds, .indentlessEntry, .blockKey :: later⟩) :
      Gives ⟨.value :: .blockEntry :: ks, .blockValue, later⟩
        ([.sequenceStart] ++ is ++ [.sequenceEnd]) ⟨k :: kinds, .blockKey, later⟩ :=
    (gives_sequenceStart.append h).append (gives_sequenceEnd hk)
  cases v with
  | texts items =>
    cases items with
    | nil => exact gives_emptySequence
    | cons x xs =>
      have h : Gives ⟨(x :: xs).flatMap itemKinds ++ k :: kinds, .indentlessEntry,
          .blockKey :: later⟩ ((x :: xs).flatMap fun y => [textItem y])
          ⟨k :: kinds, .indentlessEntry, .blockKey :: later⟩ :=
        gives_entries fun y _ _ => gives_entry_text y
      exact hsequence h
  | records items =>
    cases items with
    | nil => exact gives_emptySequence
    | cons r rs =>
      have h : Gives ⟨(r :: rs).flatMap recordKinds ++ k :: kinds, .indentlessEntry,
          .blockKey :: later⟩ ((r :: rs).flatMap recordItems)
          ⟨k :: kinds, .indentlessEntry, .blockKey :: later⟩ :=
        gives_entries fun y hy _ => gives_record (hv y hy).1
      exact hsequence h

/-- Behind a section comes the next key or the end of the mapping. -/
theorem exists_behind (xs : List (String × Section)) (kinds : List Kind) :
    ∃ k ks, k ≠ .blockEntry ∧ xs.flatMap sectionKinds ++ .blockEnd :: kinds = k :: ks := by
  cases xs with
  | nil => exact ⟨.blockEnd, kinds, by decide, rfl⟩
  | cons y ys => exact ⟨.key, _, by decide, rfl⟩

theorem gives_sections {xs : List (String × Section)} (hxs : ∀ x ∈ xs, x.2.IsWritable) :
    Gives ⟨xs.flatMap sectionKinds ++ .blockEnd :: kinds, .blockKey, later⟩
      (xs.flatMap sectionItems) ⟨.blockEnd :: kinds, .blockKey, later⟩ := by
  induction xs with
  | nil => exact .nil _
  | cons x xs ih =>
    have hrest := ih fun y hy => hxs y (List.mem_cons_of_mem x hy)
    obtain ⟨k, ks, hk, hks⟩ := exists_behind xs kinds
    rw [List.flatMap_cons, List.flatMap_cons, List.append_assoc, hks]
    rw [hks] at hrest
    exact ((gives_key x.1).append (gives_value (hxs x List.mem_cons_self) hk)).append hrest

/-! ## The stream -/

/-- The stream and the document are started before the first item. -/
theorem exists_emits_start {failure : Option Failure} {tokens : List Token}
    (h : tokens.map Token.kind = .streamStart :: .blockMappingStart :: kinds) :
    ∃ p q s, Emits (start tokens failure) [(.streamStart, p), (.documentStart, q)] s ∧
      s.Has ⟨.blockMappingStart :: kinds, .blockNode, [.documentEnd]⟩ := by
  obtain ⟨u, us, rfl, hu, hus⟩ := List.map_eq_cons_iff.mp h
  obtain ⟨v, vs, rfl, hv, hvs⟩ := List.map_eq_cons_iff.mp hus
  have hstream : step (start (u :: v :: vs) failure) =
      .ok ((.streamStart, u.place), ⟨v :: vs, failure, .firstDocument, [], [], []⟩) := rfl
  have hdocument : step ⟨v :: vs, failure, .firstDocument, [], [], []⟩ =
      .ok ((.documentStart, v.place),
        ⟨v :: vs, failure, .blockNode, [.documentEnd], [], defaultForms⟩) := by
    simp [step, documentStep, peek, opensDocument, hv, push, expect, emit, bind, Except.bind]
  exact ⟨u.place, v.place, _, .cons hstream nofun (.cons hdocument nofun (.nil _)),
    by simp [hv, hvs], rfl, rfl⟩

theorem gives_document {x : String × Section} {xs : List (String × Section)}
    (hxs : ∀ y ∈ x :: xs, y.2.IsWritable) :
    Gives ⟨.blockMappingStart :: ((x :: xs).flatMap sectionKinds ++ .blockEnd :: kinds), .blockNode,
      expected :: later⟩ (documentItems (x :: xs)) ⟨kinds, expected, later⟩ := by
  have hstart : Gives
      ⟨.blockMappingStart :: ((x :: xs).flatMap sectionKinds ++ .blockEnd :: kinds), .blockNode,
        expected :: later⟩ [.mappingStart]
      ⟨.blockMappingStart :: ((x :: xs).flatMap sectionKinds ++ .blockEnd :: kinds), .firstBlockKey,
        expected :: later⟩ := by
    refine .of_step (e := .mappingStart none) rfl fun r hr => ?_
    obtain ⟨u, us, failure, openings, forms, rfl, hu, hus⟩ := hr.exists_cons
    have hnode : nodeStep ⟨u :: us, failure, .blockNode, expected :: later, openings, forms⟩ true
        false = .ok ((.mappingStart none, u.place),
          ⟨u :: us, failure, .firstBlockKey, expected :: later, openings, forms⟩) :=
      nodeStep_mapping rfl hu
    exact ⟨u.place, _, hnode, by simp [hu, hus], rfl, rfl⟩
  obtain ⟨k, ks, hk, hks⟩ : ∃ k ks, k ≠ .blockEntry ∧
      xs.flatMap sectionKinds ++ .blockEnd :: kinds = k :: ks := exists_behind xs kinds
  have hfirst : Gives
      ⟨.blockMappingStart :: ((x :: xs).flatMap sectionKinds ++ .blockEnd :: kinds), .firstBlockKey,
        expected :: later⟩ (sectionItems x) ⟨k :: ks, .blockKey, expected :: later⟩ := by
    rw [List.flatMap_cons, List.append_assoc, hks]
    exact (gives_firstKey x.1).append (gives_value (hxs x List.mem_cons_self) hk)
  have hmore : Gives ⟨k :: ks, .blockKey, expected :: later⟩ (xs.flatMap sectionItems)
      ⟨.blockEnd :: kinds, .blockKey, expected :: later⟩ :=
    hks ▸ gives_sections fun y hy => hxs y (List.mem_cons_of_mem x hy)
  have hitems : documentItems (x :: xs) =
      [.mappingStart] ++ sectionItems x ++ xs.flatMap sectionItems ++ [.mappingEnd] := by
    simp [documentItems]
  rw [hitems]
  exact ((hstart.append hfirst).append hmore).append gives_mappingEnd

/-- The document and the stream are ended behind the last item. -/
theorem run_end (h : r.Has ⟨[.streamEnd], .documentEnd, []⟩) (fuel : Nat) :
    ∃ p q, r.run (fuel + 2) = ⟨[(.documentEnd, p), (.streamEnd, q)], none⟩ := by
  obtain ⟨u, us, failure, openings, forms, rfl, hu, hus⟩ := h.exists_cons
  obtain rfl : us = [] := List.map_eq_nil_iff.mp hus
  have hdocument : step ⟨[u], failure, .documentEnd, [], openings, forms⟩ =
      .ok ((.documentEnd, u.place), ⟨[u], failure, .document, [], openings, []⟩) := by
    simp [step, documentEndStep, peek, hu, expect, emit, bind, Except.bind]
  have hstream : step ⟨[u], failure, .document, [], openings, []⟩ =
      .ok ((.streamEnd, u.place), ⟨[], failure, .nothing, [], openings, []⟩) := by
    simp [step, documentStep, afterEnds, peek, hu, expect, skip, emit, bind, Except.bind]
  refine ⟨u.place, u.place, ?_⟩
  rw [EventReader.run, hdocument]
  simp only [EventReader.run, hstream]
  rfl

end EventReader

/-! ## The number of events -/

theorem length_flatMap_le {α β γ : Type} {f : α → List β} {g : α → List γ} (xs : List α)
    (h : ∀ x ∈ xs, (f x).length ≤ (g x).length) :
    (xs.flatMap f).length ≤ (xs.flatMap g).length := by
  induction xs with
  | nil => exact Nat.le_refl 0
  | cons x xs ih =>
    have hx := h x List.mem_cons_self
    have hxs := ih fun y hy => h y (List.mem_cons_of_mem x hy)
    simp only [List.flatMap_cons, List.length_append]
    omega

theorem length_items_le (v : Section) : v.items.length ≤ v.kinds.length + 2 := by
  have hitems (xs : List String) : ∀ s ∈ xs, [textItem s].length ≤ (itemKinds s).length :=
    fun _ _ => by simp [itemKinds]
  have hrecords (rs : List Fields) :
      ∀ r ∈ rs, (recordItems r).length ≤ (recordKinds r).length := by
    intro r _
    have := length_flatMap_le r (f := fieldItems) (g := fieldKinds)
      fun _ _ => by simp [fieldItems, fieldKinds]
    simp only [recordItems, recordKinds, List.length_append, List.length_cons, List.length_nil]
    omega
  cases v with
  | texts items =>
    cases items with
    | nil => decide
    | cons x xs =>
      have h := length_flatMap_le (x :: xs) (hitems (x :: xs))
      simp only [Section.items, Section.entryItems, Section.kinds, ← List.flatMap_def,
        List.length_append, List.length_singleton]
      omega
  | records items =>
    cases items with
    | nil => decide
    | cons r rs =>
      have h := length_flatMap_le (r :: rs) (hrecords (r :: rs))
      simp only [Section.items, Section.entryItems, Section.kinds, ← List.flatMap_def,
        List.length_append, List.length_singleton]
      omega

theorem length_documentItems_le (sections : List (String × Section)) :
    (documentItems sections).length ≤ (documentKinds sections).length := by
  have h := length_flatMap_le sections (f := sectionItems) (g := sectionKinds) fun x _ => by
    have := length_items_le x.2
    simp only [sectionItems, sectionKinds, List.length_append, List.length_cons, List.length_nil]
    omega
  simp only [documentItems, documentKinds, List.length_append, List.length_cons, List.length_nil]
  omega

/-! ## Whole documents -/

theorem collect_item (failure : Option Failure) {g : Gathering} {e : Event} {i : Item} {p : Place}
    (rest : List (Event × Place)) (h : e.item? = some i) :
    Gathering.collect failure g ((e, p) :: rest) = Gathering.collect failure (g.add i p) rest := by
  unfold Event.item? at h
  split at h <;> cases h <;> rfl

theorem collect_items (failure : Option Failure) (g : Gathering) {es : List (Event × Place)}
    (rest : List (Event × Place)) {items : List Item}
    (h : es.map (fun e => e.1.item?) = items.map some) :
    ∃ g' : Gathering, Gathering.collect failure g (es ++ rest) =
        Gathering.collect failure g' rest ∧
      g'.items.reverse.map Prod.fst = g.items.reverse.map Prod.fst ++ items := by
  induction es generalizing g items with
  | nil =>
    obtain rfl : items = [] := by simpa using h.symm
    exact ⟨g, rfl, by simp⟩
  | cons e es ih =>
    obtain ⟨e, p⟩ := e
    obtain ⟨i, is, rfl, hi, his⟩ := List.map_eq_cons_iff.mp h.symm
    have hstep := collect_item failure (g := g) (p := p) (es ++ rest) hi.symm
    obtain ⟨g', hcollect, hitems⟩ := ih (g.add i p) his.symm
    refine ⟨g', hstep.trans hcollect, ?_⟩
    simp [hitems, Gathering.add]

/-- A written document is read as its items, and nothing is behind it. -/
theorem documentOf_writtenDocument {sections : List (String × Section)} (hne : sections ≠ [])
    (h : ∀ x ∈ sections, IsName x.1.toList ∧ x.2.IsWritable) :
    (documentOf (writtenDocument sections)).items.map Prod.fst = documentItems sections ∧
      (documentOf (writtenDocument sections)).trouble = none ∧
      (documentOf (writtenDocument sections)).single = true := by
  obtain ⟨tokens, htokens, hkinds⟩ := tokensOf_writtenDocument hne h
  obtain ⟨x, xs, rfl⟩ := List.exists_cons_of_ne_nil hne
  have hshape : documentKinds (x :: xs) = .streamStart :: .blockMappingStart ::
      ((x :: xs).flatMap sectionKinds ++ .blockEnd :: [.streamEnd]) := by
    simp [documentKinds]
  obtain ⟨p, q, s, hstart, hs⟩ := EventReader.exists_emits_start (hkinds.trans hshape)
  obtain ⟨es, t, hes, hitems, ht⟩ :=
    EventReader.gives_document (fun y hy => (h y hy).2) s hs
  have hlength : es.length = (documentItems (x :: xs)).length := by
    simpa using congrArg List.length hitems
  -- There are no more items than tokens, so the fuel does for their events and the two ends.
  have hfuel : 8 * tokens.length + 8 =
      ([(Event.streamStart, p), (Event.documentStart, q)] ++ es).length +
        (8 * tokens.length + 4 - es.length + 2) := by
    have htlength : tokens.length = (documentKinds (x :: xs)).length := by
      simpa using congrArg List.length hkinds
    have := length_documentItems_le (x :: xs)
    simp only [List.length_append, List.length_cons, List.length_nil]
    omega
  obtain ⟨p', q', hend⟩ := EventReader.run_end ht (8 * tokens.length + 4 - es.length)
  have hevents : eventsOf tokens none =
      ⟨(.streamStart, p) :: (.documentStart, q) :: (es ++ [(.documentEnd, p'), (.streamEnd, q')]),
        none⟩ := by
    rw [eventsOf, hfuel, (hstart.append hes).run, hend]
    simp
  obtain ⟨g, hcollect, hg⟩ :=
    collect_items none .empty [(.documentEnd, p'), (.streamEnd, q')] hitems
  have hdocument : documentOf (writtenDocument (x :: xs)) = g.finish none true := by
    simp only [documentOf, firstForbidden_of_isClean (isClean_writtenDocument h), htokens, hevents]
    simp only [Gathering.collect, hcollect]
    rfl
  rw [hdocument]
  exact ⟨hg, rfl, rfl⟩

end IncludeMap.Yaml
