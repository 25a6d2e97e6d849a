import IncludeMap.Header.Included
import IncludeMap.Proofs.Text.Separator

/-! # The names in a text, line by line

A search takes the longest name at the first place where an include starts, and goes on behind it. A
name never leaves its line, and behind the last ending of a line no other include can start. So each
line has one name at most: it reaches from the first opening to the last ending of the line.
-/
namespace IncludeMap.Header
open Text
variable {s t name rest line : List Char} {names : List (List Char)}

/-- The text starts with an include of the name, and `rest` stands behind it. -/
def Includes (s name rest : List Char) : Prop :=
  s = opening ++ (name ++ (ending ++ rest)) ∧ '\n' ∉ name

/-- What a search finds in a text: it passes over a character where no include starts, and takes the
longest name where one does. -/
inductive Finds : List Char → List (List Char) → Prop where
  | nothing : Finds [] []
  | pass {c : Char} {s : List Char} {names : List (List Char)}
    (hno : ∀ name rest, ¬ Includes (c :: s) name rest) (h : Finds s names) : Finds (c :: s) names
  | take {s name rest : List Char} {names : List (List Char)} (hi : Includes s name rest)
    (hlongest : ∀ n r, Includes s n r → n.length ≤ name.length) (h : Finds rest names) :
    Finds s (name :: names)

/-- What a line names: the text from behind its first opening to the last ending behind that. -/
def nameOfLine? (line : List Char) : Option (List Char) :=
  (splitOnce opening line).bind fun (_, rest) => (splitLast ending rest).map Prod.fst

section Longest

theorem eq_of_longestName (h : longestName s = some (name, rest)) :
    s = name ++ (ending ++ rest) ∧ '\n' ∉ name := by
  induction s generalizing name with
  | nil => cases h
  | cons c s ih =>
    rw [longestName] at h
    split at h
    · next n r hn =>
      cases h
      split at hn
      · cases hn
      · next hc =>
        obtain ⟨hs, hname⟩ := ih hn
        refine ⟨by rw [hs, List.cons_append], ?_⟩
        rw [List.mem_cons, not_or]
        exact ⟨Ne.symm hc, hname⟩
    · split at h
      · next hp =>
        cases h
        obtain ⟨t, ht⟩ := List.isPrefixOf_iff_prefix.mp hp
        refine ⟨?_, List.not_mem_nil⟩
        obtain rfl : s = 'h' :: '"' :: t := (List.cons.inj ht).2.symm
        exact ht.symm
      · cases h

theorem exists_longestName (hname : '\n' ∉ name) (rest : List Char) :
    ∃ n r, longestName (name ++ (ending ++ rest)) = some (n, r) ∧ name.length ≤ n.length := by
  induction name with
  | nil =>
    have hp : ending.isPrefixOf (ending ++ rest) = true :=
      List.isPrefixOf_iff_prefix.mpr (List.prefix_append _ _)
    have he : ending ++ rest = '.' :: 'h' :: '"' :: rest := rfl
    rw [List.nil_append, he, longestName, ← he, hp]
    split
    · next n r _ => exact ⟨_, _, rfl, Nat.zero_le _⟩
    · exact ⟨_, _, rfl, Nat.zero_le _⟩
  | cons c name ih =>
    rw [List.mem_cons, not_or] at hname
    obtain ⟨n, r, hn, hle⟩ := ih hname.2
    refine ⟨c :: n, r, ?_, Nat.succ_le_succ hle⟩
    rw [List.cons_append, longestName, if_neg (Ne.symm hname.1), hn]

theorem longestName_eq_some_iff :
    longestName s = some (name, rest) ↔
      (s = name ++ (ending ++ rest) ∧ '\n' ∉ name) ∧
        ∀ n r, s = n ++ (ending ++ r) ∧ '\n' ∉ n → n.length ≤ name.length := by
  constructor
  · intro h
    refine ⟨eq_of_longestName h, ?_⟩
    rintro n r ⟨rfl, hn⟩
    obtain ⟨m, t, hm, hle⟩ := exists_longestName hn r
    cases hm.symm.trans h
    exact hle
  · rintro ⟨⟨rfl, hname⟩, hlongest⟩
    obtain ⟨n, r, h, hle⟩ := exists_longestName hname rest
    have hn := eq_of_longestName h
    have hlen := Nat.le_antisymm hle (hlongest n r hn)
    obtain ⟨rfl, hr⟩ := List.append_inj hn.1 hlen
    rw [h, List.append_cancel_left hr]

theorem longestName_eq_none_iff :
    longestName s = none ↔ ∀ n r, ¬ (s = n ++ (ending ++ r) ∧ '\n' ∉ n) := by
  constructor
  · rintro h n r ⟨rfl, hn⟩
    obtain ⟨m, t, hm, -⟩ := exists_longestName hn r
    cases hm.symm.trans h
  · intro h
    cases hl : longestName s with
    | none => rfl
    | some p => exact absurd (eq_of_longestName hl) (h p.1 p.2)

theorem longestName_of_line (hs : '\n' ∉ s) : longestName s = splitLast ending s := by
  have hpart : ∀ {n r : List Char}, s = n ++ (ending ++ r) → '\n' ∉ n := by
    rintro n r rfl hn
    exact hs (List.mem_append_left _ hn)
  apply Option.ext
  rintro ⟨name, rest⟩
  rw [longestName_eq_some_iff, splitLast_eq_some_iff]
  constructor
  · rintro ⟨⟨he, -⟩, hlongest⟩
    exact ⟨he, fun b r hb => hlongest b r ⟨hb, hpart hb⟩⟩
  · rintro ⟨he, hlast⟩
    exact ⟨⟨he, hpart he⟩, fun n r hn => hlast n r hn.1⟩

end Longest

section Search

theorem includes_opening_append :
    Includes (opening ++ t) name rest ↔ t = name ++ (ending ++ rest) ∧ '\n' ∉ name := by
  rw [Includes, List.append_cancel_left_eq]

theorem length_lt_of_includes (h : Includes s name rest) : rest.length < s.length := by
  have hpos : 0 < opening.length := by decide
  rw [h.1]
  simp only [List.length_append]
  omega

theorem exists_longest_includes (h : Includes s name rest) :
    ∃ n r, Includes s n r ∧ ∀ m q, Includes s m q → m.length ≤ n.length := by
  obtain ⟨rfl, hname⟩ := h
  obtain ⟨n, r, hl, -⟩ := exists_longestName hname rest
  obtain ⟨hn, hlongest⟩ := longestName_eq_some_iff.mp hl
  exact ⟨n, r, includes_opening_append.mpr hn, fun m q hm =>
    hlongest m q (includes_opening_append.mp hm)⟩

theorem namesIn_of_includes (h : Includes s name rest)
    (hlongest : ∀ n r, Includes s n r → n.length ≤ name.length) :
    namesIn s = name :: namesIn rest := by
  obtain ⟨rfl, hname⟩ := h
  generalize ht : name ++ (ending ++ rest) = t at hlongest ⊢
  have hl : longestName t = some (name, rest) :=
    longestName_eq_some_iff.mpr ⟨⟨ht.symm, hname⟩, fun n r hn =>
      hlongest n r (includes_opening_append.mpr hn)⟩
  have hp : opening.isPrefixOf (opening ++ t) = true :=
    List.isPrefixOf_iff_prefix.mpr (List.prefix_append _ _)
  have ho : opening ++ t = '#' :: ("include \"".toList ++ t) := rfl
  have hd : ("include \"".toList ++ t).drop 9 = t := rfl
  rw [ho] at hp ⊢
  rw [namesIn, if_pos hp, hd]
  split
  · next n r h =>
    cases h.symm.trans hl
    rfl
  · next h => cases h.symm.trans hl

theorem namesIn_of_not_includes {c : Char} (hno : ∀ name rest, ¬ Includes (c :: s) name rest) :
    namesIn (c :: s) = namesIn s := by
  rw [namesIn]
  split
  · next hp =>
    obtain ⟨t, ht⟩ := List.isPrefixOf_iff_prefix.mp hp
    obtain rfl : s = "include \"".toList ++ t := (List.cons.inj ht).2.symm
    have hl : longestName t = none := longestName_eq_none_iff.mpr fun n r hn =>
      hno n r (ht ▸ includes_opening_append.mpr hn)
    have hd : ("include \"".toList ++ t).drop 9 = t := rfl
    rw [hd]
    split
    · next h => cases h.symm.trans hl
    · rfl
  · rfl

theorem finds_namesIn (s : List Char) : Finds s (namesIn s) := by
  induction hn : s.length using Nat.strongRecOn generalizing s with
  | ind n ih =>
    by_cases h : ∃ name rest, Includes s name rest
    · obtain ⟨_, _, h⟩ := h
      obtain ⟨name, rest, hi, hlongest⟩ := exists_longest_includes h
      rw [namesIn_of_includes hi hlongest]
      exact .take hi hlongest (ih _ (hn ▸ length_lt_of_includes hi) rest rfl)
    · have hno : ∀ name rest, ¬ Includes s name rest := fun name rest hi => h ⟨name, rest, hi⟩
      cases s with
      | nil =>
        rw [namesIn]
        exact .nothing
      | cons c s =>
        rw [namesIn_of_not_includes hno]
        exact .pass hno (ih s.length (hn ▸ Nat.lt_succ_self s.length) s rfl)

theorem finds_iff : Finds s names ↔ names = namesIn s := by
  constructor
  · intro h
    induction h with
    | nothing => rw [namesIn]
    | pass hno _ ih => rw [namesIn_of_not_includes hno, ih]
    | take hi hlongest _ ih => rw [namesIn_of_includes hi hlongest, ih]
  · rintro rfl
    exact finds_namesIn s

theorem newline_not_mem_of_mem_namesIn (h : name ∈ namesIn s) : '\n' ∉ name := by
  have hs := finds_namesIn s
  generalize namesIn s = names at h hs
  induction hs with
  | nothing => cases h
  | pass _ _ ih => exact ih h
  | take hi _ _ ih =>
    rcases List.mem_cons.mp h with rfl | h
    · exact hi.2
    · exact ih h

end Search

section Lines

theorem includes_append_newline :
    Includes (s ++ '\n' :: t) name rest ↔ ∃ r, Includes s name r ∧ rest = r ++ '\n' :: t := by
  constructor
  · rintro ⟨he, hname⟩
    have hp : '\n' ∉ opening ++ (name ++ ending) := by
      simp only [List.mem_append, not_or]
      exact ⟨by decide, hname, by decide⟩
    have hpre : opening ++ (name ++ ending) <+: s ++ '\n' :: t :=
      ⟨rest, by rw [he]; simp only [List.append_assoc]⟩
    obtain ⟨r, rfl⟩ := (prefix_append_cons_iff hp).mp hpre
    refine ⟨r, ⟨by simp only [List.append_assoc], hname⟩, ?_⟩
    simp only [List.append_assoc] at he
    exact (List.append_cancel_left (List.append_cancel_left (List.append_cancel_left he))).symm
  · rintro ⟨r, ⟨rfl, hname⟩, rfl⟩
    exact ⟨by simp only [List.append_assoc], hname⟩

theorem namesIn_append_newline (s t : List Char) :
    namesIn (s ++ '\n' :: t) = namesIn s ++ namesIn t := by
  have hs := finds_namesIn s
  generalize namesIn s = names at hs
  induction hs with
  | nothing =>
    refine namesIn_of_not_includes fun name rest hi => ?_
    exact absurd (List.cons.inj hi.1).1 (by decide)
  | pass hno _ ih =>
    rw [List.cons_append, namesIn_of_not_includes, ih]
    intro name rest hi
    obtain ⟨r, hr, -⟩ := includes_append_newline.mp (List.cons_append ▸ hi)
    exact hno name r hr
  | take hi hlongest _ ih =>
    rw [namesIn_of_includes (includes_append_newline.mpr ⟨_, hi, rfl⟩), ih, List.cons_append]
    intro n r hn
    obtain ⟨q, hq, -⟩ := includes_append_newline.mp hn
    exact hlongest n q hq

theorem nameOfLine?_eq_some_iff :
    nameOfLine? line = some name ↔
      ∃ before rest after, FirstAt opening line before rest ∧
        LastAt ending line (before ++ (opening ++ name)) after := by
  have hsplit : nameOfLine? line = some name ↔
      ∃ before rest after, FirstAt opening line before rest ∧ LastAt ending rest name after := by
    simp only [nameOfLine?, Option.bind_eq_some_iff, Option.map_eq_some_iff, Prod.exists,
      splitOnce_eq_some_iff_firstAt, splitLast_eq_some_iff]
    constructor
    · rintro ⟨before, rest, hf, n, after, hl, rfl⟩
      exact ⟨before, rest, after, hf, hl⟩
    · rintro ⟨before, rest, after, hf, hl⟩
      exact ⟨before, rest, hf, name, after, hl, rfl⟩
  rw [hsplit]
  refine exists_congr fun before => exists_congr fun rest => exists_congr fun after =>
    and_congr_right fun hf => ?_
  obtain ⟨rfl, -⟩ := hf
  constructor
  · rintro ⟨rfl, hlast⟩
    refine ⟨by simp only [List.append_assoc], fun b r hb => ?_⟩
    rw [← List.append_assoc before] at hb
    rcases List.append_eq_append_iff.mp hb with ⟨u, rfl, hu⟩ | ⟨u, hu, -⟩
    · have hle := hlast u r hu
      simp only [List.length_append] at hle ⊢
      omega
    · have hlen := congrArg List.length hu
      simp only [List.length_append] at hlen ⊢
      omega
  · rintro ⟨hparts, hlast⟩
    have hrest : rest = name ++ (ending ++ after) := by
      simp only [List.append_assoc] at hparts
      exact List.append_cancel_left (List.append_cancel_left hparts)
    refine ⟨hrest, fun b r hb => ?_⟩
    have hle := hlast (before ++ (opening ++ b)) r (by rw [hb]; simp only [List.append_assoc])
    simp only [List.length_append] at hle
    omega

theorem exists_nameOfLine?_iff :
    (∃ name, nameOfLine? line = some name) ↔
      ∃ before rest, FirstAt opening line before rest ∧ ending <:+: rest := by
  simp only [nameOfLine?, Option.bind_eq_some_iff, Option.map_eq_some_iff, Prod.exists,
    splitOnce_eq_some_iff_firstAt]
  constructor
  · rintro ⟨name, before, rest, hf, n, after, hl, -⟩
    refine ⟨before, rest, hf, ?_⟩
    by_contra hno
    cases hl.symm.trans (splitLast_eq_none_iff.mpr hno)
  · rintro ⟨before, rest, hf, hin⟩
    cases hl : splitLast ending rest with
    | none => exact absurd hin (splitLast_eq_none_iff.mp hl)
    | some p => exact ⟨p.1, before, rest, hf, p.1, p.2, hl, rfl⟩

theorem exists_includes_of_nameOfLine? (h : nameOfLine? line = some name) :
    ∃ before rest, line = before ++ (opening ++ (name ++ (ending ++ rest))) := by
  obtain ⟨before, _, after, -, hl⟩ := nameOfLine?_eq_some_iff.mp h
  exact ⟨before, after, by rw [hl.parts]; simp only [List.append_assoc]⟩

theorem nameOfLine?_opening_append (t : List Char) :
    nameOfLine? (opening ++ t) = (splitLast ending t).map Prod.fst := by
  have hfirst : splitOnce opening (opening ++ t) = some ([], t) :=
    splitOnce_eq_some_iff_firstAt.mpr ⟨rfl, fun _ _ _ => Nat.zero_le _⟩
  rw [nameOfLine?, hfirst, Option.bind_some]

/-- A line with nothing behind its first opening holds no ending behind a later one either. -/
theorem nameOfLine?_of_opening {c : Char} (ht : opening ++ t = c :: s)
    (hno : ¬ ending <:+: t) : nameOfLine? s = none := by
  cases h : nameOfLine? s with
  | none => rfl
  | some name =>
    obtain ⟨before, rest, hs⟩ := exists_includes_of_nameOfLine? h
    have hd : s.drop 9 = t := by
      rw [← (List.cons.inj ht).2]
      rfl
    have hlen : 9 ≤ (before ++ opening).length := by
      rw [List.length_append]
      exact Nat.le_trans (by decide) (Nat.le_add_left opening.length before.length)
    refine absurd ⟨(before ++ opening).drop 9 ++ name, rest, ?_⟩ hno
    rw [← hd, hs, ← List.append_assoc before, List.drop_append_of_le_length hlen]
    simp only [List.append_assoc]

theorem nameOfLine?_of_not_includes {c : Char} (hline : '\n' ∉ c :: s)
    (hno : ∀ name rest, ¬ Includes (c :: s) name rest) : nameOfLine? (c :: s) = nameOfLine? s := by
  by_cases hp : opening <+: c :: s
  · obtain ⟨t, ht⟩ := hp
    have hnone : ¬ ending <:+: t := by
      rintro ⟨n, r, hn⟩
      rw [List.append_assoc] at hn
      refine hno n r (ht ▸ includes_opening_append.mpr ⟨hn.symm, fun hm => hline ?_⟩)
      rw [← ht, ← hn]
      exact List.mem_append_right _ (List.mem_append_left _ hm)
    rw [nameOfLine?_of_opening ht hnone, ← ht, nameOfLine?_opening_append,
      splitLast_eq_none_iff.mpr hnone, Option.map_none]
  · rw [nameOfLine?, nameOfLine?, splitOnce, isPrefixOf?_eq_none_iff.mpr hp, Option.bind_map]
    rfl

/-- A line that starts with an include names its longest name, and its rest names nothing. -/
theorem nameOfLine?_of_includes (hline : '\n' ∉ s) (h : Includes s name rest)
    (hlongest : ∀ n r, Includes s n r → n.length ≤ name.length) :
    nameOfLine? s = some name ∧ nameOfLine? rest = none := by
  obtain ⟨rfl, hname⟩ := h
  have hl : splitLast ending (name ++ (ending ++ rest)) = some (name, rest) := by
    rw [← longestName_of_line fun hm => hline (List.mem_append_right _ hm),
      longestName_eq_some_iff]
    exact ⟨⟨rfl, hname⟩, fun n r hn => hlongest n r (includes_opening_append.mpr hn)⟩
  refine ⟨by rw [nameOfLine?_opening_append, hl, Option.map_some], ?_⟩
  cases h : nameOfLine? rest with
  | none => rfl
  | some n =>
    obtain ⟨before, after, rfl⟩ := exists_includes_of_nameOfLine? h
    have hle := (splitLast_eq_some_iff.mp hl).last
      (name ++ (ending ++ (before ++ (opening ++ n)))) after (by simp only [List.append_assoc])
    have hpos : 0 < ending.length := by decide
    simp only [List.length_append] at hle
    omega

theorem names_of_finds (h : Finds line names) (hline : '\n' ∉ line) :
    names = (nameOfLine? line).toList := by
  induction h with
  | nothing => rfl
  | @pass c s names hno _ ih =>
    rw [ih fun hm => hline (List.mem_cons_of_mem c hm), nameOfLine?_of_not_includes hline hno]
  | @take s name rest names hi hlongest _ ih =>
    obtain ⟨hs, hrest⟩ := nameOfLine?_of_includes hline hi hlongest
    have hn : '\n' ∉ rest := fun hm => hline (by rw [hi.1]; simp [hm])
    rw [ih hn, hs, hrest]
    rfl

theorem namesIn_eq_filterMap (s : List Char) :
    namesIn s = (s.splitOn '\n').filterMap nameOfLine? := by
  have hline : ∀ l, '\n' ∉ l → namesIn l = (nameOfLine? l).toList := fun l hl =>
    names_of_finds (finds_namesIn l) hl
  rw [List.filterMap_eq_flatMap_toList]
  refine eq_flatMap_splitOn (fun l t hl => ?_) hline s
  rw [namesIn_append_newline, hline l hl]

end Lines

/-- The names of the private headers in a text are what the search for the longest includes finds.
Each line gives one name at most, which reaches from behind its first opening to its last ending,
and gives it exactly when an ending stands behind the first opening. -/
theorem localIncludes_lines (text : String) :
    (∀ names, Finds text.toList names ↔ names.map String.ofList = localIncludes text) ∧
      localIncludes text = ((text.toList.splitOn '\n').filterMap nameOfLine?).map String.ofList ∧
      (∀ line, (∃ name, nameOfLine? line = some name) ↔
        ∃ before rest, FirstAt opening line before rest ∧ ending <:+: rest) ∧
      (∀ line name, nameOfLine? line = some name ↔
        ∃ before rest after, FirstAt opening line before rest ∧
          LastAt ending line (before ++ (opening ++ name)) after) ∧
      (localIncludes text).length ≤ (text.toList.splitOn '\n').length ∧
      (∀ name ∈ localIncludes text, '\n' ∉ name.toList) ∧
      ∀ s t, localIncludes (s ++ "\n" ++ t) = localIncludes s ++ localIncludes t := by
  have hinj : Function.Injective String.ofList := fun _ _ h => String.ofList_injective h
  refine ⟨fun names => ?_, ?_, fun _ => exists_nameOfLine?_iff,
    fun _ _ => nameOfLine?_eq_some_iff, ?_, ?_, fun s t => ?_⟩
  · rw [finds_iff, localIncludes, (List.map_injective_iff.mpr hinj).eq_iff]
  · rw [localIncludes, namesIn_eq_filterMap]
  · rw [localIncludes, namesIn_eq_filterMap, List.length_map]
    exact List.length_filterMap_le _ _
  · intro name h
    obtain ⟨n, hn, rfl⟩ := List.mem_map.mp h
    rw [String.toList_ofList]
    exact newline_not_mem_of_mem_namesIn hn
  · have htext : (s ++ "\n" ++ t).toList = s.toList ++ '\n' :: t.toList := by simp
    rw [localIncludes, localIncludes, localIncludes, htext, namesIn_append_newline,
      List.map_append]

/-- A name may hold quotes, and a line without an ending behind its opening gives none. -/
example : localIncludes "#include \"a.h\" // see \"b.h\"\n.h\" #include \"c\"\n#include \".h\"\r" =
    ["a.h\" // see \"b", ""] := by decide +kernel

end IncludeMap.Header
