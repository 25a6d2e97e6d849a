import IncludeMap.Config.Load
import IncludeMap.Config.Save
import IncludeMap.Proofs.File.Overwrite
import IncludeMap.Proofs.Text.Utf8
import IncludeMap.Proofs.Yaml.Reading

/-! # Saved configurations

A configuration is read back from its own text whatever its lists and texts are, and where the text
has some of its fields only, the others have their default values.
-/
namespace IncludeMap
open File Text Yaml

namespace Config

variable {d : Document} {route : Route}

/-- The configuration with default values for all but some fields. -/
def keeping (c : Config) (fields : List Field) : Config :=
  { excludedClasses :=
      if .excludedClasses ∈ fields then c.excludedClasses else default.excludedClasses
    excludedSuffixes :=
      if .excludedSuffixes ∈ fields then c.excludedSuffixes else default.excludedSuffixes
    extraSymbols := if .extraSymbols ∈ fields then c.extraSymbols else default.extraSymbols
    extraIncludes := if .extraIncludes ∈ fields then c.extraIncludes else default.extraIncludes }

theorem keeping_all (c : Config) : c.keeping Field.all = c := rfl

/-! ## Lists -/

theorem length_entryItems_le (v : Section) : v.entryItems.length ≤ v.items.length := by
  have hpos : ∀ n ∈ v.entryItems.map List.length, 1 ≤ n := by
    intro n hn
    obtain ⟨is, his, rfl⟩ := List.mem_map.mp hn
    cases v with
    | texts items =>
      obtain ⟨s, -, rfl⟩ := List.mem_map.mp his
      exact Nat.le_refl 1
    | records items =>
      obtain ⟨r, -, rfl⟩ := List.mem_map.mp his
      simp [recordItems]
  have hsum := List.length_le_sum_of_one_le _ hpos
  rw [List.length_map, ← List.length_flatten] at hsum
  simp only [Section.items, List.length_append, List.length_singleton]
  omega

theorem yields_texts {xs : List String}
    (hlength : (Section.texts xs).items.length ≤ d.items.length) :
    Yields (readSequence d route (readText d "a string")) (Section.texts xs).items xs := by
  have hentries := length_entryItems_le (.texts xs)
  rw [Section.entryItems, List.length_map] at hentries
  rw [Section.items, Section.entryItems, ← List.flatMap_def]
  exact yields_readSequence (fun s _ _ => yields_readText "a string" s none _)
    (fun s _ => ⟨textItem s, [], rfl, fun h => by cases h⟩) (hentries.trans hlength)

theorem yields_records {α : Type} {read : Route → Reading α} {fieldsOf : α → Fields} {xs : List α}
    (h : ∀ x ∈ xs, ∀ route, (recordItems (fieldsOf x)).length ≤ d.items.length →
      Yields (read route) (recordItems (fieldsOf x)) x)
    (hlength : (Section.records (xs.map fieldsOf)).items.length ≤ d.items.length) :
    Yields (readSequence d route read) (Section.records (xs.map fieldsOf)).items xs := by
  have hentries := length_entryItems_le (.records (xs.map fieldsOf))
  have hrecord : ∀ x ∈ xs, (recordItems (fieldsOf x)).length ≤ d.items.length := by
    intro x hx
    have hmem : recordItems (fieldsOf x) ∈ (Section.records (xs.map fieldsOf)).entryItems :=
      List.mem_map_of_mem (List.mem_map_of_mem hx)
    have hle := (List.sublist_flatten_of_mem hmem).length_le
    simp only [Section.items, List.length_append, List.length_singleton] at hlength
    omega
  rw [Section.entryItems, List.length_map, List.length_map] at hentries
  rw [Section.items, Section.entryItems, List.map_map, ← List.flatMap_def]
  exact yields_readSequence (fun x hx route => h x hx route (hrecord x hx))
    (fun x _ => ⟨.mappingStart, _, rfl, fun h => by cases h⟩) (hentries.trans hlength)

/-! ## Rules -/

theorem yields_symbolRule (r : SymbolRule)
    (hlength : (recordItems (symbolFields r)).length ≤ d.items.length) :
    Yields (readSymbolRule d route) (recordItems (symbolFields r)) r := by
  have hnames : (["symbol", "header"] : List String).Nodup := by decide
  have hfew : 2 ≤ d.items.length := Nat.le_trans (show 2 ≤ 6 by decide) hlength
  have hrecord : Yields (readRecord d "struct SymbolOverride" ["symbol", "header"] route)
      (recordItems (symbolFields r)) [r.symbol, r.header] :=
    yields_readRecord (symbolFields r) hnames hfew
  rw [← List.append_nil (recordItems (symbolFields r)), readSymbolRule]
  exact hrecord.bind (.pure r)

theorem yields_includeRule (r : IncludeRule)
    (hlength : (recordItems (includeFields r)).length ≤ d.items.length) :
    Yields (readIncludeRule d route) (recordItems (includeFields r)) r := by
  have hnames : (["module", "include", "header"] : List String).Nodup := by decide
  have hfew : 3 ≤ d.items.length := Nat.le_trans (show 3 ≤ 8 by decide) hlength
  have hrecord : Yields
      (readRecord d "struct IncludeOverride" ["module", "include", "header"] route)
      (recordItems (includeFields r)) [r.module, r.included, r.header] :=
    yields_readRecord (includeFields r) hnames hfew
  rw [← List.append_nil (recordItems (includeFields r)), readIncludeRule]
  exact hrecord.bind (.pure r)

theorem isRecord_symbolFields (r : SymbolRule) : IsRecord (symbolFields r) := by
  have hnames : ∀ name ∈ ["symbol", "header"], IsName name.toList := by decide
  refine ⟨List.cons_ne_nil _ _, fun f hf => hnames f.1 ?_⟩
  exact List.mem_map_of_mem (f := Prod.fst) hf

theorem isRecord_includeFields (r : IncludeRule) : IsRecord (includeFields r) := by
  have hnames : ∀ name ∈ ["module", "include", "header"], IsName name.toList := by decide
  refine ⟨List.cons_ne_nil _ _, fun f hf => hnames f.1 ?_⟩
  exact List.mem_map_of_mem (f := Prod.fst) hf

/-! ## Fields -/

theorem isName_key (f : Field) : IsName f.key.toList := by
  cases f <;> decide

theorem isWritable_content (c : Config) (f : Field) : (c.content f).IsWritable := by
  cases f with
  | excludedClasses => trivial
  | excludedSuffixes => trivial
  | extraSymbols =>
    intro r hr
    obtain ⟨x, -, rfl⟩ := List.mem_map.mp hr
    exact isRecord_symbolFields x
  | extraIncludes =>
    intro r hr
    obtain ⟨x, -, rfl⟩ := List.mem_map.mp hr
    exact isRecord_includeFields x

theorem ofKey?_key (f : Field) : Field.ofKey? f.key = some f := by
  cases f <;> decide

/-- The draft with the value that a configuration has for a field. -/
def Draft.set (draft : Draft) (c : Config) : Field → Draft
  | .excludedClasses => { draft with classes := some c.excludedClasses }
  | .excludedSuffixes => { draft with suffixes := some c.excludedSuffixes }
  | .extraSymbols => { draft with symbols := some c.extraSymbols }
  | .extraIncludes => { draft with includes := some c.extraIncludes }

/-- The draft that has the values of a configuration for some fields and none for the others. -/
def holding (c : Config) (fields : List Field) : Draft :=
  { classes := if .excludedClasses ∈ fields then some c.excludedClasses else none
    suffixes := if .excludedSuffixes ∈ fields then some c.excludedSuffixes else none
    symbols := if .extraSymbols ∈ fields then some c.extraSymbols else none
    includes := if .extraIncludes ∈ fields then some c.extraIncludes else none }

theorem holding_concat (c : Config) (fields : List Field) (f : Field) :
    c.holding (fields ++ [f]) = (c.holding fields).set c f := by
  cases f <;> simp [holding, Draft.set]

theorem config_holding (c : Config) (fields : List Field) :
    (c.holding fields).config = c.keeping fields := by
  have hgetD {α : Type} (f : Field) (a b : α) :
      (if f ∈ fields then some a else none).getD b = if f ∈ fields then a else b := by
    split <;> rfl
  simp only [holding, Draft.config, keeping, hgetD]
  rfl

theorem yields_readOnce {α : Type} {read : Reading α} {items : List Item} {a : α} {f : Field}
    {place : Place} {before : Option α} {set : Option α → Draft} (hbefore : before = none)
    (h : Yields read items a) :
    Yields (do
      let x ← readOnce f place before read
      pure (set x)) items (set (some a)) := by
  subst hbefore
  have hread : Yields (readOnce f place none read) items (some a) := h.map some
  have hall := hread.bind (f := fun x => pure (set x)) (.pure _)
  rwa [List.append_nil] at hall

theorem yields_readValue {c : Config} {f : Field} {found : List Field} {place : Place}
    (hf : f ∉ found) (hlength : (c.content f).items.length ≤ d.items.length) :
    Yields (readValue d place route (c.holding found) f) (c.content f).items
      (c.holding (found ++ [f])) := by
  rw [holding_concat]
  cases f with
  | excludedClasses => exact yields_readOnce (if_neg hf) (yields_texts hlength)
  | excludedSuffixes => exact yields_readOnce (if_neg hf) (yields_texts hlength)
  | extraSymbols =>
    exact yields_readOnce (if_neg hf) (yields_records (fun r _ _ => yields_symbolRule r) hlength)
  | extraIncludes =>
    exact yields_readOnce (if_neg hf) (yields_records (fun r _ _ => yields_includeRule r) hlength)

/-! ## Documents -/

theorem folds_readField {c : Config} {place : Place} (found : List Field) {todo : List Field}
    (hnodup : (found ++ todo).Nodup)
    (hlength : ∀ f ∈ todo, (c.content f).items.length ≤ d.items.length) :
    Folds (readField d place) (todo.map fun f => (f.key, (c.content f).items)) (c.holding found)
      (c.holding (found ++ todo)) := by
  induction todo generalizing found with
  | nil => simp [Folds]
  | cons f todo ih =>
    have hf : f ∉ found := by
      intro hmem
      exact (List.nodup_append.mp hnodup).2.2 f hmem f List.mem_cons_self rfl
    refine ⟨c.holding (found ++ [f]), fun route => ?_, ?_⟩
    · simp only [readField, ofKey?_key]
      exact yields_readValue hf (hlength f List.mem_cons_self)
    · have hmore := ih (found ++ [f]) (by simpa using hnodup)
        fun g hg => hlength g (List.mem_cons_of_mem f hg)
      simpa using hmore

theorem length_items_le_documentItems {sections : List (String × Section)} {x : String × Section}
    (hx : x ∈ sections) : x.2.items.length ≤ (documentItems sections).length := by
  have hle := (List.sublist_flatten_of_mem (List.mem_map_of_mem (f := sectionItems) hx)).length_le
  rw [← List.flatMap_def] at hle
  simp only [sectionItems, documentItems, List.length_append, List.length_cons] at hle ⊢
  omega

theorem length_le_documentItems (sections : List (String × Section)) :
    sections.length ≤ (documentItems sections).length := by
  have hle := length_flatMap_le sections (f := fun x => [x]) (g := sectionItems)
    fun x _ => by simp [sectionItems]
  simp only [documentItems, List.length_append, List.flatMap_singleton'] at hle ⊢
  omega

theorem yields_readDocument {fields : List Field} (c : Config) (hnodup : fields.Nodup)
    (hlength : (documentItems (fields.map fun f => (f.key, c.content f))).length ≤
      d.items.length) :
    Yields (readDocument d) (documentItems (fields.map fun f => (f.key, c.content f)))
      (c.keeping fields) := by
  have hcontent : ∀ f ∈ fields, (c.content f).items.length ≤ d.items.length := fun f hf =>
    (length_items_le_documentItems
      (List.mem_map_of_mem (f := fun f => (f.key, c.content f)) hf)).trans hlength
  have hfew := (length_le_documentItems _).trans hlength
  rw [List.length_map] at hfew
  have hshape : documentItems (fields.map fun f => (f.key, c.content f)) = [.mappingStart] ++
      ((fields.map fun f => (f.key, (c.content f).items)).flatMap fun e => nameItem e.1 :: e.2) ++
        [.mappingEnd] := by
    rw [documentItems, List.flatMap_map, List.flatMap_map]
    rfl
  rw [hshape, ← config_holding]
  exact yields_readMapping (fun p => folds_readField [] hnodup hcontent)
    (fun p => .pure _) (by simpa using hfew)

/-- Without a section the document is an empty mapping. -/
theorem ofText_empty : ofText "\x7b\x7d\n" = .ok default := by
  cbv

/-- A document that has some of the fields, each once, is read as the configuration that keeps
them. -/
theorem ofText_written {fields : List Field} (c : Config) (hnodup : fields.Nodup) :
    ofText (c.written fields) = .ok (c.keeping fields) := by
  -- An empty document is a flow mapping, to which the lemmas on block mappings do not apply.
  rcases eq_or_ne fields [] with rfl | hne
  · exact ofText_empty
  have hsections : ∀ x ∈ fields.map fun f => (f.key, c.content f),
      IsName x.1.toList ∧ x.2.IsWritable := by
    intro x hx
    obtain ⟨f, -, rfl⟩ := List.mem_map.mp hx
    exact ⟨isName_key f, c.isWritable_content f⟩
  obtain ⟨hitems, htrouble, hsingle⟩ :=
    documentOf_writtenDocument (mt List.map_eq_nil_iff.mp hne) hsections
  have hlength := congrArg List.length hitems
  rw [List.length_map] at hlength
  have hread := yields_readDocument c hnodup (Nat.le_of_eq hlength.symm)
  rw [← hitems] at hread
  rw [ofText, written, String.toList_ofList]
  exact readOnly_of_yields hread htrouble hsingle

/-! ## Files -/

theorem load_of_overwrite {c : Config} {fs after : FileSystem} {p : Path} {fields : List Field}
    (hnodup : fields.Nodup)
    (h : fs.overwrite p (encode (c.written fields).toList) = .ok after) :
    load after p = .ok (c.keeping fields) := by
  have htext : after.readText p = .ok (c.written fields) := by
    rw [FileSystem.readText, FileSystem.readBytes_of_overwrite h]
    simp only [decode?_encode, String.ofList_toList]
  simp only [load, htext, ofText_written c hnodup]

theorem save_eq_ok_iff {c : Config} {fs after : FileSystem} {p : Path} :
    c.save fs p = .ok after ↔
      fs.overwrite p (encode (c.written Field.all).toList) = .ok after := by
  rw [save]
  cases fs.overwrite p (encode (c.written Field.all).toList) with
  | error fault => exact iff_of_false nofun nofun
  | ok gs => simp only [Except.ok.injEq]

/-- A configuration is saved wherever a path leads to a file or to a free name, and is loaded from
there as it was. A text with some of the fields is loaded, too: as the configuration that has the
default values for the others. -/
theorem load_of_save (c : Config) (fs : FileSystem) (p : Path) :
    ((∃ after, c.save fs p = .ok after) ↔
      ∃ a, fs.lookup .follow p = .ok a ∧ fs.isFolder a.location = false) ∧
    (∀ after, c.save fs p = .ok after → load after p = .ok c) ∧
    ∀ fields : List Field, fields.Nodup →
      ofText (c.written fields) = .ok (c.keeping fields) ∧
      ∀ after, fs.overwrite p (encode (c.written fields).toList) = .ok after →
        load after p = .ok (c.keeping fields) := by
  refine ⟨⟨?_, ?_⟩, fun after h => ?_, fun fields hnodup => ?_⟩
  · rintro ⟨after, h⟩
    obtain ⟨a, ha, hf, -⟩ := FileSystem.overwrite_eq_ok_iff.mp (save_eq_ok_iff.mp h)
    exact ⟨a, ha, hf⟩
  · rintro ⟨a, ha, hf⟩
    exact ⟨_, save_eq_ok_iff.mpr (FileSystem.overwrite_eq_ok_iff.mpr ⟨a, ha, hf, rfl⟩)⟩
  · have hall : Field.all.Nodup := by decide
    have hload := load_of_overwrite hall (save_eq_ok_iff.mp h)
    rwa [keeping_all] at hload
  · exact ⟨ofText_written c hnodup, fun after h => load_of_overwrite hnodup h⟩

/-- A new file that holds texts of all styles. -/
theorem load_of_save_newFile :
    let c : Config := ⟨[], ["_p.h", "yes", " ", "a\nb\n", "\u0007"], [⟨"null", "#"⟩], []⟩
    ∃ after, c.save (.empty []) (.ofString "a") = .ok after ∧
      load after (.ofString "a") = .ok c := by
  intro c
  have ha : (FileSystem.empty []).lookup .follow (.ofString "a") =
      .ok (.absent [] (encode ['a'])) := by cbv
  obtain ⟨hsave, hload, -⟩ := load_of_save c (.empty []) (.ofString "a")
  obtain ⟨after, h⟩ := hsave.mpr ⟨_, ha, by cbv⟩
  exact ⟨after, h, hload after h⟩

end Config

end IncludeMap
