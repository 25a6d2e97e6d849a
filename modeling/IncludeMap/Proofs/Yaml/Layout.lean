import IncludeMap.Proofs.Yaml.Token

/-! # The tokens of written documents

Each part of a document is scanned into its own tokens, whatever the texts in it are: a record into
a block mapping, a list into its entries or a pair of brackets, and the document into a block
mapping of its sections.
-/
namespace IncludeMap.Yaml

/-! ## Tokens of the parts -/

def itemKinds (s : String) : List Kind := [.blockEntry, scalarKind s.toList]

def fieldKinds (f : String × String) : List Kind :=
  [.key, .scalar f.1.toList true, .value, scalarKind f.2.toList]

def recordKinds (r : Fields) : List Kind :=
  [.blockEntry, .blockMappingStart] ++ r.flatMap fieldKinds ++ [.blockEnd]

def Section.kinds : Section → List Kind
  | .texts [] | .records [] => [.flowSequenceStart, .flowSequenceEnd]
  | .texts items => items.flatMap itemKinds
  | .records items => items.flatMap recordKinds

def sectionKinds (x : String × Section) : List Kind :=
  [.key, .scalar x.1.toList true, .value] ++ x.2.kinds

def documentKinds (sections : List (String × Section)) : List Kind :=
  [.streamStart, .blockMappingStart] ++ sections.flatMap sectionKinds ++ [.blockEnd, .streamEnd]

/-- A record has a field, and its fields have names. -/
def IsRecord (r : Fields) : Prop := r ≠ [] ∧ ∀ f ∈ r, IsName f.1.toList

def Section.IsWritable : Section → Prop
  | .texts _ => True
  | .records items => ∀ r ∈ items, IsRecord r

namespace Scanner

variable {s : Scanner} {rest tail : List Char} {k : Nat} {indent : Int} {outer : List Int}
  {kinds kinds' : List Kind}

/-- In the first column, between the entries and sections of a document. -/
def Point.top (rest : List Char) (kinds : List Kind) : Point := ⟨rest, 0, 0, [-1], true, kinds⟩

theorem startsToken_name {name : List Char} (hname : IsName name) : StartsToken (name ++ rest) := by
  obtain ⟨c, t, rfl⟩ := List.exists_cons_of_ne_nil hname.nonempty
  have hc := hname.letters c List.mem_cons_self
  exact startsToken_cons.mpr ⟨isGap_of_letter hc, isBreak_of_letter hc, ne_of_letter hc (by decide),
    ne_of_letter hc (by decide)⟩

/-! ## Entries -/

theorem leads_item (text : String) (htail : StartsToken tail) :
    Leads (.top (writtenItem text ++ tail) kinds)
      (.top tail ((itemKinds text).reverse ++ kinds)) := by
  have hshape : writtenItem text ++ tail = '-' :: ' ' ::
      (ended (writtenScalar (spaces (0 + nesting)) text.toList) ++ (spaces 0 ++ tail)) := rfl
  intro s hs
  rw [hshape] at hs
  obtain ⟨t, hst, ht⟩ := leads_blockEntry (startsToken_writtenScalar _) s hs
  obtain ⟨u, htu, hu⟩ := ht.exists_scalar (i := 0) (by decide) (Nat.le_refl 0) htail
  exact ⟨u, hst.trans htu, hu.at (Int.le_refl 0)⟩

theorem At.exists_field {f : String × String}
    (h : s.At ⟨writtenField f ++ (spaces k ++ tail), 2, indent, outer, true, kinds⟩)
    (hname : IsName f.1.toList) (hindent : indent ≤ 2)
    (hlevel : behindKey 2 indent outer f.1.toList kinds = (2, [0, -1], kinds')) (hk : k ≤ 2)
    (htail : StartsToken tail) :
    ∃ t, Reads s t ∧
      t.Reaches ⟨tail, k, 2, [0, -1], true, scalarKind f.2.toList :: kinds'⟩ := by
  have hshape : writtenField f ++ (spaces k ++ tail) = f.1.toList ++ ':' :: (spaces 1 ++
      (ended (writtenScalar (spaces (2 + nesting)) f.2.toList) ++ (spaces k ++ tail))) := by
    simp [writtenField, scalarLine, nesting, spaces]
  rw [hshape] at h
  obtain ⟨q, tokens, hreads, hcolumn, hkinds⟩ := h.exists_key hname rfl hindent
  rw [hlevel] at hreads hkinds
  have hreaches : (outside none q (spaces 1 ++ (ended (writtenScalar (spaces (2 + nesting))
      f.2.toList) ++ (spaces k ++ tail))) (2 : Nat) [0, -1] false tokens).Reaches
      ⟨_, 2 + f.1.toList.length + 1 + 1, (2 : Nat), [0, -1], false, kinds'⟩ :=
    reaches_spaces (startsToken_writtenScalar _) (by rw [hcolumn]) hkinds
  have hdeep : 2 ≤ 2 + f.1.toList.length + 1 + 1 := by omega
  have hat := hreaches.at (Int.ofNat_le.mpr hdeep)
  obtain ⟨t, ht, hreach⟩ := hat.exists_scalar (i := 2) (by omega) hk htail
  exact ⟨t, hreads.trans ht, hreach⟩

/-- The induction is on the fields behind the first one, which opens the mapping in its column. -/
theorem At.exists_fields {f : String × String} {fs : Fields}
    (h : s.At ⟨writtenField f ++ (fs.flatMap (spaces nesting ++ writtenField ·) ++ tail), 2, indent,
      outer, true, kinds⟩)
    (hnames : ∀ g ∈ f :: fs, IsName g.1.toList) (hindent : indent ≤ 2)
    (hlevel : behindKey 2 indent outer f.1.toList kinds = (2, [0, -1], kinds'))
    (htail : StartsToken tail) :
    ∃ t, Reads s t ∧ t.At (.top tail
      (.blockEnd :: (fs.flatMap fieldKinds).reverse ++ scalarKind f.2.toList :: kinds')) := by
  have hname := hnames f List.mem_cons_self
  induction fs generalizing s f indent outer kinds kinds' with
  | nil =>
    obtain ⟨t, hst, ht⟩ := At.exists_field (k := 0) h hname hindent hlevel (by decide) htail
    exact ⟨t, hst, ht.at_blockEnd (by decide) (Int.le_refl 0)⟩
  | cons g gs ih =>
    have hg : IsName g.1.toList := hnames g (by simp)
    have hshape : (g :: gs).flatMap (spaces nesting ++ writtenField ·) ++ tail = spaces 2 ++
        (writtenField g ++ (gs.flatMap (spaces nesting ++ writtenField ·) ++ tail)) := by
      simp [nesting]
    rw [hshape] at h
    have hnext : StartsToken (writtenField g ++
        (gs.flatMap (spaces nesting ++ writtenField ·) ++ tail)) := by
      rw [writtenField, List.append_assoc]
      exact startsToken_name hg
    obtain ⟨t, hst, ht⟩ := h.exists_field hname hindent hlevel (Nat.le_refl 2) hnext
    have hlevel' : behindKey 2 2 [0, -1] g.1.toList (scalarKind f.2.toList :: kinds') = (2, [0, -1],
      .value :: .scalar g.1.toList true :: .key :: scalarKind f.2.toList :: kinds') := rfl
    obtain ⟨u, htu, hu⟩ := ih (ht.at (Int.le_refl 2))
      (fun x hx => hnames x (List.mem_cons_of_mem f hx)) (Int.le_refl 2) hlevel' hg
    refine ⟨u, hst.trans htu, ?_⟩
    simpa [fieldKinds] using hu

theorem leads_record {r : Fields} (hr : IsRecord r) (htail : StartsToken tail) :
    Leads (.top (writtenRecord r ++ tail) kinds)
      (.top tail ((recordKinds r).reverse ++ kinds)) := by
  obtain ⟨hne, hnames⟩ := hr
  obtain ⟨f, fs, rfl⟩ := List.exists_cons_of_ne_nil hne
  have hname := hnames f List.mem_cons_self
  have hshape : writtenRecord (f :: fs) ++ tail = '-' :: ' ' ::
      (writtenField f ++ (fs.flatMap (spaces nesting ++ writtenField ·) ++ tail)) := by
    simp [writtenRecord]
  have hstart : StartsToken (writtenField f ++
      (fs.flatMap (spaces nesting ++ writtenField ·) ++ tail)) := by
    rw [writtenField, List.append_assoc]
    exact startsToken_name hname
  intro s hs
  rw [hshape] at hs
  obtain ⟨t, hst, ht⟩ := leads_blockEntry hstart s hs
  obtain ⟨u, htu, hu⟩ := ht.exists_fields hnames (by decide) rfl htail
  refine ⟨u, hst.trans htu, ?_⟩
  simpa [recordKinds, fieldKinds] using hu

/-- Entries that each begin with their dash follow each other. -/
theorem leads_entries {α : Type} {write : α → List Char} {kindsOf : α → List Kind} {xs : List α}
    (hdash : ∀ x ∈ xs, ∃ t, write x = '-' :: t)
    (hleads : ∀ x ∈ xs, ∀ tail kinds, StartsToken tail →
      Leads (.top (write x ++ tail) kinds) (.top tail ((kindsOf x).reverse ++ kinds)))
    (htail : StartsToken tail) :
    Leads (.top (xs.flatMap write ++ tail) kinds)
      (.top tail ((xs.flatMap kindsOf).reverse ++ kinds)) := by
  induction xs generalizing kinds with
  | nil => exact .refl _
  | cons x xs ih =>
    have hrest : StartsToken (xs.flatMap write ++ tail) := by
      cases xs with
      | nil => exact htail
      | cons y ys =>
        obtain ⟨t, ht⟩ := hdash y (by simp)
        rw [List.flatMap_cons, ht]
        exact startsToken_cons.mpr (by decide)
    have hfirst := hleads x List.mem_cons_self (xs.flatMap write ++ tail) kinds hrest
    rw [List.flatMap_cons, List.append_assoc, List.flatMap_cons, List.reverse_append,
      List.append_assoc]
    exact hfirst.trans (ih (fun y hy => hdash y (List.mem_cons_of_mem x hy))
      (fun y hy => hleads y (List.mem_cons_of_mem x hy)))

/-! ## Sections -/

/-- The value of a section behind its key and colon. -/
def writtenValue (s : Section) : List Char :=
  match s.entries with
  | [] => ' ' :: "[]\n".toList
  | entries => '\n' :: entries.flatten

theorem writtenSection_eq (key : String) (s : Section) :
    writtenSection key s = key.toList ++ ':' :: writtenValue s := by
  unfold writtenSection writtenValue
  split <;> simp [*]

theorem exists_value {v : Section} {q : Place} {tokens : List Token} (hv : v.IsWritable)
    (htail : StartsToken tail) :
    ∃ t, Reads (outside none q (writtenValue v ++ tail) 0 [-1] false tokens) t ∧
      t.At (.top tail (v.kinds.reverse ++ tokens.map Token.kind)) := by
  have hempty : ∃ t,
      Reads (outside none q (spaces 1 ++ ("[]\n".toList ++ tail)) 0 [-1] false tokens) t ∧
        t.At (.top tail (.flowSequenceEnd :: .flowSequenceStart :: tokens.map Token.kind)) := by
    have hreaches : (outside none q (spaces 1 ++ ("[]\n".toList ++ tail)) 0 [-1] false
        tokens).Reaches ⟨_, q.column + 1, 0, [-1], false, tokens.map Token.kind⟩ :=
      reaches_spaces (startsToken_cons.mpr (by decide)) rfl rfl
    exact leads_emptyList htail _ (hreaches.at (Int.natCast_nonneg _))
  have hentries {text : List Char} {ks : List Kind} (htext : StartsToken text)
      (hleads : Leads (.top text (tokens.map Token.kind))
        (.top tail (ks.reverse ++ tokens.map Token.kind))) :
      ∃ t, Reads (outside none q ('\n' :: text) 0 [-1] false tokens) t ∧
        t.At (.top tail (ks.reverse ++ tokens.map Token.kind)) :=
    hleads _ ((reaches_newline (k := 0) htext (harmless_none _) rfl).at (Int.le_refl 0))
  cases v with
  | texts items =>
    cases items with
    | nil => exact hempty
    | cons x xs =>
      have hleads : Leads (.top ((x :: xs).flatMap writtenItem ++ tail) (tokens.map Token.kind))
          (.top tail (((x :: xs).flatMap itemKinds).reverse ++ tokens.map Token.kind)) :=
        leads_entries (fun y _ => ⟨_, rfl⟩) (fun y _ _ _ h => leads_item y h) htail
      have hshape : writtenValue (.texts (x :: xs)) ++ tail =
          '\n' :: ((x :: xs).flatMap writtenItem ++ tail) := by
        simp [writtenValue, Section.entries, List.flatMap_def]
      rw [hshape]
      exact hentries (startsToken_cons.mpr (by decide)) hleads
  | records items =>
    cases items with
    | nil => exact hempty
    | cons r rs =>
      have hdash : ∀ y ∈ r :: rs, ∃ t, writtenRecord y = '-' :: t := by
        intro y _
        cases y <;> exact ⟨_, rfl⟩
      have hleads : Leads (.top ((r :: rs).flatMap writtenRecord ++ tail) (tokens.map Token.kind))
          (.top tail (((r :: rs).flatMap recordKinds).reverse ++ tokens.map Token.kind)) :=
        leads_entries hdash (fun y hy _ _ h => leads_record (hv y hy) h) htail
      have hshape : writtenValue (.records (r :: rs)) ++ tail =
          '\n' :: ((r :: rs).flatMap writtenRecord ++ tail) := by
        simp [writtenValue, Section.entries, List.flatMap_def]
      have hstart : StartsToken ((r :: rs).flatMap writtenRecord ++ tail) := by
        obtain ⟨t, ht⟩ := hdash r List.mem_cons_self
        rw [List.flatMap_cons, ht]
        exact startsToken_cons.mpr (by decide)
      rw [hshape]
      exact hentries hstart hleads

theorem At.exists_section {x : String × Section}
    (h : s.At ⟨writtenSection x.1 x.2 ++ tail, 0, indent, outer, true, kinds⟩)
    (hname : IsName x.1.toList) (hx : x.2.IsWritable) (hindent : indent ≤ 0)
    (hlevel : behindKey 0 indent outer x.1.toList kinds = (0, [-1], kinds'))
    (htail : StartsToken tail) :
    ∃ t, Reads s t ∧ t.At (.top tail (x.2.kinds.reverse ++ kinds')) := by
  rw [writtenSection_eq, List.append_assoc, List.cons_append] at h
  have hend : endsWord (writtenValue x.2 ++ tail) = true := by
    unfold writtenValue
    split <;> rfl
  obtain ⟨q, tokens, hreads, -, hkinds⟩ := h.exists_key hname hend hindent
  rw [hlevel] at hreads hkinds
  obtain ⟨t, ht, hat⟩ := exists_value (q := q) hx htail
  rw [hkinds] at hat
  exact ⟨t, hreads.trans ht, hat⟩

/-- The induction is on the sections behind the first one, which opens the mapping. -/
theorem At.exists_sections {x : String × Section} {xs : List (String × Section)}
    (h : s.At ⟨writtenSection x.1 x.2 ++ xs.flatMap fun y => writtenSection y.1 y.2, 0, indent,
      outer, true, kinds⟩)
    (hxs : ∀ y ∈ x :: xs, IsName y.1.toList ∧ y.2.IsWritable) (hindent : indent ≤ 0)
    (hlevel : behindKey 0 indent outer x.1.toList kinds = (0, [-1], kinds')) :
    ∃ t, Reads s t ∧
      t.At (.top [] ((xs.flatMap sectionKinds).reverse ++ (x.2.kinds.reverse ++ kinds'))) := by
  obtain ⟨hname, hx⟩ := hxs x List.mem_cons_self
  induction xs generalizing s x indent outer kinds kinds' with
  | nil => exact h.exists_section hname hx hindent hlevel startsToken_nil
  | cons y ys ih =>
    obtain ⟨hyname, hy⟩ := hxs y (by simp)
    have hnext : StartsToken ((y :: ys).flatMap fun y => writtenSection y.1 y.2) := by
      rw [List.flatMap_cons, writtenSection_eq, List.append_assoc]
      exact startsToken_name hyname
    obtain ⟨t, hst, ht⟩ := h.exists_section hname hx hindent hlevel hnext
    have hlevel' : behindKey 0 0 [-1] y.1.toList (x.2.kinds.reverse ++ kinds') =
      (0, [-1], .value :: .scalar y.1.toList true :: .key :: (x.2.kinds.reverse ++ kinds')) := rfl
    obtain ⟨u, htu, hu⟩ := ih ht (fun z hz => hxs z (List.mem_cons_of_mem x hz)) (Int.le_refl 0)
      hlevel' hyname hy
    refine ⟨u, hst.trans htu, ?_⟩
    simpa [sectionKinds] using hu

end Scanner

open Scanner

theorem tokensOf_writtenDocument {sections : List (String × Section)} (hne : sections ≠ [])
    (h : ∀ x ∈ sections, IsName x.1.toList ∧ x.2.IsWritable) :
    ∃ tokens, tokensOf (writtenDocument sections) = ⟨tokens, none⟩ ∧
      tokens.map Token.kind = documentKinds sections := by
  obtain ⟨x, xs, rfl⟩ := List.exists_cons_of_ne_nil hne
  have hshape : writtenDocument (x :: xs) =
      writtenSection x.1 x.2 ++ xs.flatMap fun y => writtenSection y.1 y.2 := by
    rw [writtenDocument, if_neg hne, List.flatMap_cons]
  have hstart : StartsToken (writtenDocument (x :: xs)) := by
    rw [hshape, writtenSection_eq, List.append_assoc]
    exact startsToken_name (h x List.mem_cons_self).1
  have hleads : Leads ⟨writtenDocument (x :: xs), 0, -1, [], true, [.streamStart]⟩
      (.top [] ((xs.flatMap sectionKinds).reverse ++ (x.2.kinds.reverse ++
        [.value, .scalar x.1.toList true, .key, .blockMappingStart, .streamStart]))) := by
    intro s hs
    rw [hshape] at hs
    exact hs.exists_sections h (by decide) rfl
  obtain ⟨tokens, htokens, hkinds⟩ := tokensOf_of_leads hstart hleads
  refine ⟨tokens, htokens, ?_⟩
  rw [hkinds]
  simp [documentKinds, sectionKinds]

end IncludeMap.Yaml
