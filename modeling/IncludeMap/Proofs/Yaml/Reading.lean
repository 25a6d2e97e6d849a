import IncludeMap.Proofs.Yaml.Event
import IncludeMap.Yaml.Reading

/-! # Reading written values

A value is read from its own items and from no others. Lists, records and mappings are read entry by
entry, so what is read from a document is put together from what its parts yield.
-/
namespace IncludeMap.Yaml

variable {α β : Type} {d : Document} {items more : List Item} {route : Route} {fuel : Nat}

/-- The value is read from the items, whatever follows them. -/
def Yields (read : Reading α) (items : List Item) (a : α) : Prop :=
  ∀ (here rest : List (Item × Place)) (followed : Nat), here.map Prod.fst = items →
    read ⟨here ++ rest, followed⟩ = .ok (a, ⟨rest, followed⟩)

namespace Yields

variable {read : Reading α} {a : α} {b : β}

theorem pure (a : α) : Yields (Pure.pure a) [] a := by
  intro here rest followed h
  obtain rfl := List.map_eq_nil_iff.mp h
  rfl

theorem bind {f : α → Reading β} (h : Yields read items a) (hf : Yields (f a) more b) :
    Yields (read >>= f) (items ++ more) b := by
  intro here rest followed hhere
  obtain ⟨xs, ys, rfl, hxs, hys⟩ := List.map_eq_append_iff.mp hhere
  have hread := h xs (ys ++ rest) followed hxs
  rw [List.append_assoc]
  show (read ⟨xs ++ (ys ++ rest), followed⟩).bind (fun x => f x.1 x.2) = _
  rw [hread]
  exact hf ys rest followed hys

theorem map (h : Yields read items a) (f : α → β) : Yields (f <$> read) items (f a) := by
  intro here rest followed hhere
  show ((read ⟨here ++ rest, followed⟩).map fun x => (f x.1, x.2)) = _
  rw [h here rest followed hhere]
  rfl

theorem mapM {f : β → Reading α} {value : β → α} {xs : List β}
    (h : ∀ x ∈ xs, Yields (f x) [] (value x)) : Yields (xs.mapM f) [] (xs.map value) := by
  induction xs with
  | nil => exact pure []
  | cons x xs ih =>
    rw [List.mapM_cons]
    have hmore := ih fun y hy => h y (List.mem_cons_of_mem x hy)
    exact (h x List.mem_cons_self).bind (hmore.bind (pure _))

theorem node {i : Item} {read : Item → Place → Reading α} (hi : ∀ n, i ≠ .alias n)
    (h : ∀ p, Yields (read i p) items a) : Yields (readNode d read) (i :: items) a := by
  intro here rest followed hhere
  obtain ⟨⟨j, p⟩, xs, rfl, rfl, hxs⟩ := List.map_eq_cons_iff.mp hhere
  have hread := h p xs rest followed hxs
  rw [← hread]
  cases j <;> first | rfl | exact absurd rfl (hi _)

end Yields

/-! ## Texts and lists -/

theorem yields_readText (expected s : String) (tag : Option Text.Bytes) (plain : Bool) :
    Yields (readText d expected route) [.scalar tag s.toList plain] s := by
  have h : Yields (readText d expected route) [.scalar tag s.toList plain]
      (String.ofList s.toList) :=
    .node (fun n h => by cases h) fun _ => .pure _
  rwa [String.ofList_toList] at h

theorem readEntries_succ {read : Nat → Reading α} {x : Item × Place} {left : List (Item × Place)}
    (hx : x.1 ≠ .sequenceEnd) (n followed : Nat) :
    readEntries d read (fuel + 1) n ⟨x :: left, followed⟩ =
      (do
        let a ← read n
        let as ← readEntries d read fuel (n + 1)
        pure (a :: as) : Reading (List α)) ⟨x :: left, followed⟩ := by
  obtain ⟨i, p⟩ := x
  cases i with
  | sequenceEnd => exact absurd rfl hx
  | _ => rfl

theorem yields_readEntries {read : Nat → Reading α} {itemsOf : α → List Item} {xs : List α}
    (h : ∀ x ∈ xs, ∀ n, Yields (read n) (itemsOf x) x)
    (hfirst : ∀ x ∈ xs, ∃ i is, itemsOf x = i :: is ∧ i ≠ .sequenceEnd) (hfuel : xs.length < fuel)
    (n : Nat) :
    Yields (readEntries d read fuel n) (xs.flatMap itemsOf ++ [.sequenceEnd]) xs := by
  induction xs generalizing fuel n with
  | nil =>
    obtain ⟨fuel, rfl⟩ : ∃ k, fuel = k + 1 := Nat.exists_eq_add_one.mpr hfuel
    intro here rest followed hhere
    obtain ⟨⟨i, p⟩, xs, rfl, hi, hxs⟩ := List.map_eq_cons_iff.mp hhere
    obtain rfl := List.map_eq_nil_iff.mp hxs
    obtain rfl : i = .sequenceEnd := hi
    rfl
  | cons x xs ih =>
    obtain ⟨fuel, rfl⟩ : ∃ k, fuel = k + 1 := Nat.exists_eq_add_one.mpr (Nat.zero_lt_of_lt hfuel)
    have hmore := ih (fun y hy => h y (List.mem_cons_of_mem x hy))
      (fun y hy => hfirst y (List.mem_cons_of_mem x hy)) (Nat.lt_of_succ_lt_succ hfuel) (n + 1)
    have hboth : Yields (do
          let a ← read n
          let as ← readEntries d read fuel (n + 1)
          pure (a :: as))
        (itemsOf x ++ (xs.flatMap itemsOf ++ [.sequenceEnd] ++ [])) (x :: xs) :=
      (h x List.mem_cons_self n).bind (hmore.bind (.pure _))
    obtain ⟨i, is, hitems, hi⟩ := hfirst x List.mem_cons_self
    intro here rest followed hhere
    have hread := hboth here rest followed (by simpa using hhere)
    rw [List.flatMap_cons, hitems] at hhere
    obtain ⟨y, ys, rfl, rfl, -⟩ := List.map_eq_cons_iff.mp hhere
    rw [List.cons_append, readEntries_succ hi]
    exact hread

theorem yields_readSequence {read : Route → Reading α} {itemsOf : α → List Item} {xs : List α}
    (h : ∀ x ∈ xs, ∀ route, Yields (read route) (itemsOf x) x)
    (hfirst : ∀ x ∈ xs, ∃ i is, itemsOf x = i :: is ∧ i ≠ .sequenceEnd)
    (hlength : xs.length ≤ d.items.length) :
    Yields (readSequence d route read) ([.sequenceStart] ++ xs.flatMap itemsOf ++ [.sequenceEnd])
      xs := by
  refine .node (fun n h => by cases h) fun p => ?_
  rw [if_pos rfl]
  exact yields_readEntries (fun x hx n => h x hx _) hfirst (Nat.lt_succ_of_le hlength) 0

/-! ## Mappings -/

/-- The entries of a mapping, read one after the other, make one value out of another. -/
def Folds (read : String → Route → α → Reading α) : List (String × List Item) → α → α → Prop
  | [], a, b => a = b
  | e :: es, a, c => ∃ b, (∀ route, Yields (read e.1 route a) e.2 b) ∧ Folds read es b c

theorem readFields_succ {read : String → Route → α → Reading α} {x : Item × Place}
    {left : List (Item × Place)} (hx : x.1 ≠ .mappingEnd) (a : α) (followed : Nat) :
    readFields d route read (fuel + 1) a ⟨x :: left, followed⟩ =
      (do
        let name ← readText d "field identifier" route
        let a ← read name (route ++ [keyPart x.1]) a
        readFields d route read fuel a : Reading α) ⟨x :: left, followed⟩ := by
  obtain ⟨i, p⟩ := x
  cases i with
  | mappingEnd => exact absurd rfl hx
  | _ => rfl

theorem yields_readFields {read : String → Route → α → Reading α} {es : List (String × List Item)}
    {a b : α} (h : Folds read es a b) (hfuel : es.length < fuel) :
    Yields (readFields d route read fuel a)
      ((es.flatMap fun e => nameItem e.1 :: e.2) ++ [.mappingEnd]) b := by
  induction es generalizing fuel a with
  | nil =>
    obtain rfl : a = b := h
    obtain ⟨fuel, rfl⟩ : ∃ k, fuel = k + 1 := Nat.exists_eq_add_one.mpr hfuel
    intro here rest followed hhere
    obtain ⟨⟨i, p⟩, xs, rfl, hi, hxs⟩ := List.map_eq_cons_iff.mp hhere
    obtain rfl := List.map_eq_nil_iff.mp hxs
    obtain rfl : i = .mappingEnd := hi
    rfl
  | cons e es ih =>
    obtain ⟨c, hc, hes⟩ := h
    obtain ⟨fuel, rfl⟩ : ∃ k, fuel = k + 1 := Nat.exists_eq_add_one.mpr (Nat.zero_lt_of_lt hfuel)
    have hmore := ih hes (Nat.lt_of_succ_lt_succ hfuel)
    have hname : Yields (readText d "field identifier" route) [nameItem e.1] e.1 :=
      yields_readText "field identifier" e.1 none true
    intro here rest followed hhere
    have hall := hname.bind (f := fun name => do
        let a ← read name (route ++ [keyPart (nameItem e.1)]) a
        readFields d route read fuel a) ((hc _).bind hmore)
    have hread := hall here rest followed (by simpa using hhere)
    obtain ⟨y, ys, rfl, hy, -⟩ := List.map_eq_cons_iff.mp hhere
    have hend : y.1 ≠ .mappingEnd := by
      rw [hy]
      exact fun h => by cases h
    rw [List.cons_append, readFields_succ hend, hy]
    exact hread

theorem yields_readMapping {expected : String} {start a : α}
    {read : Place → String → Route → α → Reading α} {finish : Place → α → Reading β}
    {es : List (String × List Item)} {b : β} (h : ∀ p, Folds (read p) es start a)
    (hfinish : ∀ p, Yields (finish p a) [] b) (hlength : es.length ≤ d.items.length) :
    Yields (readMapping d expected route start read finish)
      ([.mappingStart] ++ (es.flatMap fun e => nameItem e.1 :: e.2) ++ [.mappingEnd]) b := by
  refine .node (fun n h => by cases h) fun p => ?_
  have hfields : Yields (readFields d route (read p) (d.items.length + 1) start)
      ((es.flatMap fun e => nameItem e.1 :: e.2) ++ [.mappingEnd]) a :=
    yields_readFields (h p) (Nat.lt_succ_of_le hlength)
  have hall := hfields.bind (hfinish p)
  rwa [List.append_nil] at hall

/-! ## Records -/

theorem lookup_reverse {fs : Fields} (h : (fs.map Prod.fst).Nodup) {f : String × String}
    (hf : f ∈ fs) : fs.reverse.lookup f.1 = some f.2 := by
  obtain ⟨before, after, rfl⟩ := List.append_of_mem hf
  refine List.lookup_eq_some_iff.mpr ⟨after.reverse, before.reverse, by simp, fun g hg => ?_⟩
  have hne : f.1 ∉ after.map Prod.fst := by
    simp only [List.map_append, List.map_cons, List.nodup_append, List.nodup_cons] at h
    exact h.2.1.1
  rw [bne_iff_ne]
  intro heq
  exact hne (heq ▸ List.mem_map_of_mem (List.mem_reverse.mp hg))

theorem lookup_eq_none {fs : Fields} {name : String} (h : name ∉ fs.map Prod.fst) :
    fs.lookup name = none := by
  rw [List.lookup_eq_none_iff]
  intro g hg
  rw [bne_iff_ne]
  intro heq
  exact h (heq ▸ List.mem_map_of_mem hg)

/-- The fields so far are kept with the newest first. -/
theorem folds_fields {names : List String} {read : String → Route → Fields → Reading Fields}
    (hread : ∀ name here found, name ∈ names → found.lookup name = none →
      read name here found = do
        let text ← readText d "a string" here
        pure ((name, text) :: found))
    (found : Fields) {todo : Fields} (hnames : ∀ f ∈ todo, f.1 ∈ names)
    (hnodup : ((found.reverse ++ todo).map Prod.fst).Nodup) :
    Folds read (todo.map fun f => (f.1, [textItem f.2])) found (todo.reverse ++ found) := by
  induction todo generalizing found with
  | nil => rfl
  | cons f todo ih =>
    have hnew : found.lookup f.1 = none := by
      refine lookup_eq_none fun hmem => ?_
      rw [List.map_append, List.nodup_append] at hnodup
      have hmem' : f.1 ∈ found.reverse.map Prod.fst := by simpa using hmem
      exact hnodup.2.2 f.1 hmem' f.1 (by simp) rfl
    refine ⟨f :: found, fun route => ?_, ?_⟩
    · rw [hread f.1 route found (hnames f List.mem_cons_self) hnew]
      exact (yields_readText "a string" f.2 none _).bind (.pure _)
    · have hmore := ih (f :: found) (fun g hg => hnames g (List.mem_cons_of_mem f hg))
        (by simpa using hnodup)
      simpa using hmore

/-- A record is read as the texts of its fields, if no two of them have one name. -/
theorem yields_readRecord {expected : String} (fs : Fields) (h : (fs.map Prod.fst).Nodup)
    (hlength : fs.length ≤ d.items.length) :
    Yields (readRecord d expected (fs.map Prod.fst) route) (recordItems fs) (fs.map Prod.snd) := by
  have hshape : recordItems fs = [.mappingStart] ++
      ((fs.map fun f => (f.1, [textItem f.2])).flatMap fun e => nameItem e.1 :: e.2) ++
        [.mappingEnd] := by
    rw [recordItems, List.flatMap_map]
    rfl
  rw [hshape]
  refine yields_readMapping (a := fs.reverse) (fun p => ?_) (fun p => ?_) (by simpa using hlength)
  · rw [← List.append_nil fs.reverse]
    refine folds_fields (d := d) (fun name here found hname hfound => ?_) []
      (fun f hf => List.mem_map_of_mem hf) h
    have hcontains : (fs.map Prod.fst).contains name = true := List.contains_iff_mem.mpr hname
    simp only [hcontains, hfound, if_true, Option.isSome_none, Bool.false_eq_true, if_false]
  · have htexts : fs.map Prod.snd = (fs.map Prod.fst).map fun name =>
        (fs.reverse.lookup name).getD "" := by
      rw [List.map_map]
      refine List.map_congr_left fun f hf => ?_
      rw [Function.comp, lookup_reverse h hf]
      rfl
    rw [htexts]
    refine .mapM fun name hname => ?_
    obtain ⟨f, hf, rfl⟩ := List.mem_map.mp hname
    rw [lookup_reverse h hf]
    exact .pure _

/-! ## Whole documents -/

theorem readOnly_of_yields {read : Reading α} {a : α} (h : Yields read (d.items.map Prod.fst) a)
    (htrouble : d.trouble = none) (hsingle : d.single = true) : readOnly d read = .ok a := by
  have hread := h d.items [] 0 rfl
  rw [List.append_nil] at hread
  simp only [readOnly, hread, htrouble, hsingle, if_true]

end IncludeMap.Yaml
