import IncludeMap.Proofs.Document.RoundTrip

/-! # The layout of a document

A document has one line for each rule, whatever the texts of the rules, between a line for either
bracket. Each line but the banner starts with a bracket or with two blanks and a brace, or is empty,
so none of them is a comment.
-/
namespace IncludeMap.Document
open Text

def ruleText (kind subject header : String) : List Char :=
  "\x7b\"".toList ++ kind.toList ++ "\": [".toList ++ literal subject ++ ", \"private\", ".toList ++
    literal ("<" ++ header ++ ">") ++ ", \"public\"]\x7d".toList

def symbolText (x : SymbolRule) : List Char := ruleText "symbol" x.symbol x.header

def includeText (x : IncludeRule) : List Char :=
  ruleText "include" ("@[\"<](" ++ x.module ++ "/)?" ++ x.included ++ "\\.h[\">]") x.header

/-- The texts of the rules, the symbol rules first. -/
def ruleTexts (r : RuleSet) : List (List Char) :=
  r.symbols.map symbolText ++ r.includes.map includeText

/-- The lines between the brackets: an empty one, or one for each rule, with a comma at the end of
all but the last. -/
def ruleRows (r : RuleSet) : List (List Char) :=
  if r.isEmpty then [[]]
  else (ruleTexts r).mapIdx fun k t => ' ' :: ' ' :: (t ++ if k + 1 < r.size then [','] else [])

theorem literal_privateMark : literal privateMark = "\"private\"".toList := by
  rw [literal_eq_flatMap]
  decide

theorem literal_publicMark : literal publicMark = "\"public\"".toList := by
  rw [literal_eq_flatMap]
  decide

theorem literal_name (k : Kind) : literal k.name = '"' :: (k.name.toList ++ ['"']) := by
  rw [literal_eq_flatMap]
  cases k <;> decide

theorem entryText_eq_ruleText (kind : Kind) (subject header : String) :
    entryText ⟨kind, subject, privateMark, angled header, publicMark⟩ =
      ruleText kind.name subject header := by
  have hopen : "\x7b\"".toList = ['\x7b', '"'] := by decide
  have hname : "\": [".toList = ['"', ':', ' ', '['] := by decide
  have hprivate : ", \"private\", ".toList =
      [',', ' '] ++ ("\"private\"".toList ++ [',', ' ']) := by decide
  have hpublic : ", \"public\"]\x7d".toList =
      [',', ' '] ++ ("\"public\"".toList ++ [']', '\x7d']) := by decide
  simp only [entryText, separated, literal_name, literal_privateMark, literal_publicMark, ruleText,
    angled, hopen, hname, hprivate, hpublic, List.append_assoc, List.cons_append, List.nil_append]

theorem map_entryText_entriesOf (r : RuleSet) : (entriesOf r).map entryText = ruleTexts r := by
  rw [entriesOf, ruleTexts, List.map_append, List.map_map, List.map_map]
  congr 1
  · exact List.map_congr_left fun x _ => entryText_eq_ruleText .symbol x.symbol x.header
  · exact List.map_congr_left fun x _ => entryText_eq_ruleText .include _ x.header

theorem length_ruleTexts (r : RuleSet) : (ruleTexts r).length = r.size := by
  rw [ruleTexts, List.length_append, List.length_map, List.length_map, RuleSet.size]

theorem getElem?_entryRows {es : List Entry} (hes : es ≠ []) (k : Nat) :
    (entryRows es)[k]? = es[k]?.map fun e =>
      ' ' :: ' ' :: (entryText e ++ if k + 1 < es.length then [','] else []) := by
  induction es generalizing k with
  | nil => exact absurd rfl hes
  | cons e es ih =>
    cases es with
    | nil => cases k <;> simp [entryRows]
    | cons f es =>
      cases k with
      | zero => simp [entryRows]
      | succ k => simp [entryRows, ih (List.cons_ne_nil f es)]

theorem entryRows_entriesOf (r : RuleSet) : entryRows (entriesOf r) = ruleRows r := by
  have hsize : (entriesOf r).length = r.size := length_entriesOf r
  rw [ruleRows]
  cases he : r.isEmpty with
  | true =>
    rw [RuleSet.isEmpty_iff.mp he]
    rfl
  | false =>
    have hes : entriesOf r ≠ [] := by
      rintro h
      rw [h, List.length_nil, RuleSet.size] at hsize
      simp only [RuleSet.isEmpty, Bool.and_eq_false_iff, List.isEmpty_eq_false_iff,
        ← List.length_pos_iff] at he
      omega
    apply List.ext_getElem?
    intro k
    rw [getElem?_entryRows hes, hsize, if_neg Bool.false_ne_true, List.getElem?_mapIdx,
      ← map_entryText_entriesOf, List.getElem?_map, Option.map_map]
    rfl

theorem joinLines_append_newline {ls : List (List Char)} (hls : ls ≠ []) :
    joinLines ls ++ ['\n'] = ls.flatMap (· ++ ['\n']) := by
  induction ls with
  | nil => exact absurd rfl hls
  | cons l ls ih =>
    by_cases h : ls = []
    · simp [h, joinLines]
    · rw [joinLines_cons h, List.append_assoc, List.cons_append, ih h]
      simp

theorem isComment_of_mem_tail {r : RuleSet} {row : List Char} (h : row ∈ (documentRows r).tail) :
    isComment row = false := by
  simp only [documentRows, List.tail_cons, List.mem_cons, List.mem_append, List.not_mem_nil,
    or_false] at h
  rcases h with rfl | h | rfl | rfl
  · rfl
  · exact (entryRows_facts h).2
  · rfl
  · rfl

/-- A document consists of the banner, the brackets and the lines of the rules, in printable ASCII
characters, and ends with an empty line. No line but the banner is a comment. -/
theorem render_lines (r : RuleSet) :
    lines (render r).toList = banner.toList :: ['['] :: (ruleRows r ++ [[']'], []]) ∧
      (render r).toList = (lines (render r).toList).flatMap (· ++ ['\n']) ∧
      (r ≠ .empty → (ruleRows r).length = r.size) ∧
      (∃ front, (render r).toList = front ++ [']', '\n', '\n']) ∧
      (∀ c ∈ (render r).toList, c = '\n' ∨ 0x20 ≤ c.toNat ∧ c.toNat ≤ 0x7e) ∧
      ∀ row ∈ (lines (render r).toList).tail, isComment row = false := by
  have htext : (render r).toList = (documentRows r).flatMap (· ++ ['\n']) := by
    have hrows : documentRows r ≠ [] := List.cons_ne_nil _ _
    rw [toList_render, joinLines_append_newline hrows]
  rw [lines_render]
  refine ⟨by rw [documentRows, entryRows_entriesOf], htext, fun hr => ?_, ?_, fun c hc => ?_,
    fun _ => isComment_of_mem_tail⟩
  · have he : ¬ r.isEmpty = true := fun h => hr (RuleSet.isEmpty_iff.mp h)
    rw [ruleRows, if_neg he, List.length_mapIdx, length_ruleTexts]
  · have hend : ['\n', ']', '\n', '\n'] = ['\n'] ++ [']', '\n', '\n'] := rfl
    rw [render, String.toList_ofList, hend, ← List.append_assoc]
    exact ⟨_, rfl⟩
  · rw [htext] at hc
    obtain ⟨row, hrow, hc⟩ := List.mem_flatMap.mp hc
    rcases List.mem_append.mp hc with hc | hc
    · have hp := List.all_eq_true.mp (all_isPrintable_of_mem_documentRows hrow) c hc
      simp only [isPrintable, Bool.and_eq_true, decide_eq_true_eq] at hp
      exact .inr ⟨hp.1, Nat.le_of_lt_succ hp.2⟩
    · exact .inl (List.mem_singleton.mp hc)

/-- A line break and a number sign in a name stay in the line of its rule. -/
example : ruleRows ⟨[⟨"\n#", "]"⟩], []⟩ =
    ["  \x7b\"symbol\": [\"\\n#\", \"private\", \"<]>\", \"public\"]\x7d".toList] := by
  decide +kernel

end IncludeMap.Document
