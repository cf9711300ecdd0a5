import Keymap.Proofs.CodeRuns
import Keymap.Proofs.ComboTraining

namespace Keymap.Qmk

open Code List
open Token (word mark)
open Zmk (IsText TypeTexts)

variable {value : Values} {combos : List Combo} {combo : Combo} {rest : List Token}
  {first second : Char} {seconds : List (Char × String)}

def letter (c : Char) : Document := .text (String.singleton c)

theorem letter_injective : Function.Injective letter := by
  intro c c' h
  simpa [letter, ← String.toList_inj] using h

def Trains (combos : List Combo) (first second : Char) : Prop :=
  ∃ combo ∈ combos, combo.bigram? = .ok (some (letter first, letter second))

section Grouping

def pair? : List Char → Option (Char × Char)
  | [first, second] => some (first, second)
  | _ => none

def letters? (combo : Combo) : Option (Char × Char) :=
  match combo.training.isPresent, combo.macroText with
  | true, .text s => pair? s.toList
  | _, _ => none

theorem bigram?_eq (types : combo.macroText = .null ∨ IsText combo.macroText) :
    combo.bigram? = .ok ((letters? combo).map fun p => (letter p.1, letter p.2)) := by
  rw [Combo.bigram?, letters?]
  cases combo.training.isPresent with
  | false => rfl
  | true =>
    rcases types with hn | ⟨text, ht⟩
    · rw [hn]
      rfl
    · rw [ht]
      obtain ⟨cs, rfl⟩ : ∃ cs, text = String.ofList cs := ⟨text.toList, String.ofList_toList.symm⟩
      have hs : (Document.text (String.ofList cs)).length = .ok cs.length := by
        rw [Document.length, String.length_ofList]
      have h (i : Int) : (Document.text (String.ofList cs)).item i =
          (Document.elementAt "string" cs i).map letter := by
        rw [Document.item, String.toList_ofList]
        rfl
      have hp : (Document.text (String.ofList cs)).isPresent = !cs.isEmpty := by
        cases cs <;> simp [Document.isPresent]
      change _ = Except.ok (Option.map _ (pair? (String.ofList cs).toList))
      rw [hs, h, h, hp, String.toList_ofList]
      rcases cs with _ | ⟨a, _ | ⟨b, _ | ⟨c, cs⟩⟩⟩ <;> rfl

theorem trains_iff (ht : TypeTexts combos) :
    Trains combos first second ↔ ∃ c ∈ combos, letters? c = some (first, second) := by
  refine exists_congr fun c => and_congr_right fun hm => ?_
  rw [bigram?_eq (ht c hm)]
  constructor
  · intro hs
    obtain ⟨p, h, hs⟩ := Option.map_eq_some_iff.mp (Except.ok.inj hs)
    obtain ⟨hf, hsc⟩ := Prod.mk.inj hs
    rw [h, ← letter_injective hf, ← letter_injective hsc]
  · intro h
    rw [h]
    rfl

abbrev Row := String × List (Char × String)

abbrev Table := List Row

def asCase (e : Row) : TrainingCase :=
  ⟨.text e.1, e.2.map fun s => (letter s.1, s.2)⟩

def trainedPairs (combos : List Combo) : List (String × (Char × String)) :=
  combos.filterMap fun c => (letters? c).map fun p => (String.singleton p.1, (p.2, c.title))

theorem addBigram_asCase (s : String) (p : Char × String) (table : Table) :
    addBigram (.text s) (letter p.1) p.2 (table.map asCase) =
      (assign s ((table.lookup s).getD [] ++ [p]) table).map asCase := by
  have hg : ∀ groups : List (Document × List (Char × String)),
      addBigram (.text s) (letter p.1) p.2 (groups.map fun g => ⟨g.1, g.2.map fun s => (letter s.1, s.2)⟩) =
        (Zmk.addToGroup (.text s) p groups).map fun g => ⟨g.1, g.2.map fun s => (letter s.1, s.2)⟩ := by
    intro groups
    induction groups with
    | nil => rfl
    | cons g groups ih =>
      rw [map_cons, addBigram, Zmk.addToGroup]
      split <;> simp [ih]
  have h := hg (Zmk.asBindings table)
  rw [Zmk.addToGroup_asBindings] at h
  rw [Zmk.asBindings, map_map, Zmk.asBindings, map_map] at h
  exact h

theorem collectCases_eq (h : TypeTexts combos) :
    collectCases combos = .ok ((Zmk.grouped (trainedPairs combos)).map asCase) := by
  unfold collectCases Zmk.grouped
  rw [← map_nil (f := asCase)]
  generalize ([] : Table) = table
  induction combos generalizing table with
  | nil => rfl
  | cons c combos ih =>
    rw [TypeTexts, forall_mem_cons] at h
    rw [foldlM_cons, bigram?_eq h.1, trainedPairs, filterMap_cons]
    cases letters? c with
    | none => exact ih h.2 table
    | some p =>
      obtain ⟨first, second⟩ := p
      refine (congrArg (foldlM _ · combos) (addBigram_asCase (String.singleton first) (second, c.title) table)).trans ?_
      exact ih h.2 _

theorem checkOrdered_texts (names : List String) : Document.checkOrdered (names.map .text) = .ok () := by
  induction names with
  | nil => rfl
  | cons a names ih =>
    cases names with
    | nil => rfl
    | cons b names => exact ih

def trainedTable (combos : List Combo) : Table :=
  (Zmk.grouped (trainedPairs combos)).mergeSort fun a b => decide (a.1 ≤ b.1)

theorem trainingCases_eq (ht : TypeTexts combos) :
    trainingCases combos = .ok ((trainedTable combos).map asCase) := by
  have h : ((Zmk.grouped (trainedPairs combos)).map asCase).map (·.first) =
      ((Zmk.grouped (trainedPairs combos)).map (·.1)).map .text := by
    rw [map_map, map_map]
    rfl
  rw [trainingCases, collectCases_eq ht, ok_bind, h, checkOrdered_texts, ok_bind, trainedTable, map_mergeSort]
  · rfl
  · exact fun _ _ _ _ => rfl

theorem mem_trainedPairs {p : String × (Char × String)} : p ∈ trainedPairs combos ↔
    ∃ first, p.1 = String.singleton first ∧
      ∃ c ∈ combos, letters? c = some (first, p.2.1) ∧ c.title = p.2.2 := by
  simp only [trainedPairs, mem_filterMap, Option.map_eq_some_iff]
  constructor
  · rintro ⟨c, hm, ⟨first, second⟩, h, rfl⟩
    exact ⟨first, rfl, c, hm, h, rfl⟩
  · rintro ⟨first, hk, c, hm, h, ht⟩
    exact ⟨c, hm, _, h, Prod.ext hk.symm (Prod.ext rfl ht)⟩

structure Collects (combos : List Combo) (first : Char) (e : Row) : Prop where
  key : e.1 = String.singleton first
  seconds : ∀ s, s ∈ e.2 ↔ ∃ c ∈ combos, letters? c = some (first, s.1) ∧ c.title = s.2

theorem collects_of_mem {e : Row} (hm : e ∈ trainedTable combos) : ∃ first, Collects combos first e := by
  obtain ⟨hgr, hpr⟩ := Zmk.mem_grouped (mem_mergeSort.mp hm)
  have hg : ∀ s, s ∈ e.2 ↔ (e.1, s) ∈ trainedPairs combos := by
    intro s
    rw [hgr, mem_map]
    constructor
    · rintro ⟨p, hkp, rfl⟩
      obtain ⟨hp, h⟩ := mem_filter.mp hkp
      rwa [beq_iff_eq.mp h]
    · exact fun hp => ⟨_, mem_filter.mpr ⟨hp, beq_self_eq_true _⟩, rfl⟩
  obtain ⟨s, hs⟩ := exists_mem_of_ne_nil _ hpr
  obtain ⟨first, h, -⟩ := mem_trainedPairs.mp ((hg s).mp hs)
  refine ⟨first, h, fun s => (hg s).trans (mem_trainedPairs.trans ?_)⟩
  constructor
  · rintro ⟨first', hk, hf⟩
    rwa [String.singleton_inj.mp (h.symm.trans hk)]
  · exact fun hf => ⟨first, h, hf⟩

theorem Collects.trains (ht : TypeTexts combos) {e : Row} (hc : Collects combos first e) :
    (∃ s ∈ e.2, s.1 = second) ↔ Trains combos first second := by
  rw [trains_iff ht]
  constructor
  · rintro ⟨s, hs, rfl⟩
    obtain ⟨c, hm, h, -⟩ := (hc.seconds s).mp hs
    exact ⟨c, hm, h⟩
  · rintro ⟨c, hm, h⟩
    exact ⟨(second, c.title), (hc.seconds _).mpr ⟨c, hm, h, rfl⟩, rfl⟩

theorem exists_trains (ht : TypeTexts combos) {e : Row} (hm : e ∈ trainedTable combos) :
    ∃ first, Collects combos first e ∧ ∃ second, Trains combos first second := by
  obtain ⟨first, h⟩ := collects_of_mem hm
  obtain ⟨s, hs⟩ := exists_mem_of_ne_nil _ (Zmk.mem_grouped (mem_mergeSort.mp hm)).2
  exact ⟨first, h, s.1, (h.trains ht).mp ⟨s, hs, rfl⟩⟩

theorem exists_collects (types : TypeTexts combos) (trains : Trains combos first second) :
    ∃ e ∈ trainedTable combos, Collects combos first e := by
  obtain ⟨c, hc, hl⟩ := (trains_iff types).mp trains
  obtain ⟨seconds, ht⟩ := Zmk.exists_mem_grouped
    (mem_trainedPairs.mpr ⟨first, rfl, c, hc, hl, rfl⟩ :
      (String.singleton first, (second, c.title)) ∈ trainedPairs combos)
  have hm : (String.singleton first, seconds) ∈ trainedTable combos := mem_mergeSort.mpr ht
  obtain ⟨first', h⟩ := collects_of_mem hm
  rw [← String.singleton_inj.mp h.key] at h
  exact ⟨_, hm, h⟩

theorem nodup_trainedTable : ((trainedTable combos).map (·.1)).Nodup :=
  ((mergeSort_perm _ _).map _).nodup_iff.mpr (Zmk.grouped_invariant _).1

end Grouping

section Lines

def labelOf (key : String) : Expression :=
  ((singleChar? key).map fun c => word (charKeycode c)).toList

theorem labelOf_singleton (c : Char) : labelOf (String.singleton c) = [word (charKeycode c)] := by
  simp [labelOf, singleChar?]

def testCode (s : Char × String) : List Token :=
  [word "if", mark '(', word "curr_kc", mark '=', mark '=', word (charKeycode s.1), mark ')', word "return",
    word "true", mark ';']

def body : List (Char × String) → List Token
  | [s] => word "return" :: ([word "curr_kc", mark '=', mark '=', word (charKeycode s.1)] ++ [mark ';'])
  | seconds => seconds.flatMap testCode ++ [word "return", word "false", mark ';']

theorem body_of_several (h : ¬ ∃ s, seconds = [s]) :
    body seconds = seconds.flatMap testCode ++ [word "return", word "false", mark ';'] := by
  unfold body
  split
  · exact absurd ⟨_, rfl⟩ h
  · rfl

theorem charKeycodeOf_letter (c : Char) : charKeycodeOf (letter c) = .ok (charKeycode c) := by
  have h : (letter c).length = .ok 1 := by simp [letter, Document.length]
  have hs : (letter c).word "isalpha" = .ok (String.singleton c) := rfl
  rw [charKeycodeOf, h, ok_bind, hs, ok_bind]
  simp [singleChar?]
  rfl

/-- The keycode of a letter is a name, and the titles of its combos are on one line. -/
structure LegibleTraining (combos : List Combo) : Prop where
  types : TypeTexts combos
  titles : ∀ c ∈ combos, '\n' ∉ c.title.toList
  names : ∀ first second, Trains combos first second →
    IsName (charKeycode first) ∧ IsName (charKeycode second)

theorem head_charKeycode (c : Char) : (charKeycode c).toList.head? = some 'K' := by
  have h : ("KC_" ++ Text.upper (String.singleton c)).toList.head? = some 'K' := by simp
  have hl : ∀ p ∈ punctuationKeycodes, p.2.toList.head? = some 'K' := by decide
  rw [charKeycode]
  split
  · exact h
  · cases hf : punctuationKeycodes.lookup c with
    | none => exact h
    | some code => exact hl _ (mem_of_lookup hf)

theorem quiet_charKeycode {c : Char} (h : IsName (charKeycode c)) : Quiet [word (charKeycode c)] := by
  have hs : keywords.all (fun w => w.toList.head? ≠ some 'K') := by decide
  rw [← h.reads.line_eq]
  exact (h.plain fun hl => of_decide_eq_true (all_eq_true.mp hs _ hl) (head_charKeycode c)).quiet

theorem ne_newline {c : Char} (h : IsName (charKeycode c)) : '\n' ∉ (String.singleton c).toList := by
  have hb : ¬ IsName (charKeycode '\n') := fun h => absurd (h.2 '\n' (by decide)) (by decide)
  rw [String.toList_singleton, mem_singleton]
  rintro rfl
  exact hb h

theorem code_testLine {s : Char × String} (h : IsName (charKeycode s.1)) (hs : '\n' ∉ s.2.toList) :
    code ("            if (curr_kc == " ++ charKeycode s.1 ++ ") return true;  // " ++ s.2) = testCode s := by
  have hr : Comments ("            if (curr_kc == " ++ charKeycode s.1 ++ ") return true;  // " ++ s.2)
      ([word "if", mark '(', word "curr_kc", mark '=', mark '='] ++ [word (charKeycode s.1)] ++
        [mark ')', word "return", word "true", mark ';']) :=
    (((closes_ofList (by decide)).append_reads h.reads).append_comments (comments_ofList (by decide))
      rfl).append hs
  exact hr.code_eq

theorem code_returnLine {keycode : String} (h : IsName keycode) :
    code ("            return curr_kc == " ++ keycode ++ ";") = word "return" ::
      ([word "curr_kc", mark '=', mark '=', word keycode] ++ [mark ';']) := by
  have hr : Closes ("            return curr_kc == " ++ keycode ++ ";")
      ([word "return", word "curr_kc", mark '=', mark '='] ++ [word keycode] ++ [mark ';']) :=
    ((closes_ofList (by decide)).append_reads h.reads).append_closes (closes_ofList (by decide)) rfl
  exact hr.code_eq

theorem code_caseLine {label note : String} (h : IsName label) (hs : '\n' ∉ note.toList) :
    code ("        case " ++ label ++ ":  // " ++ note) = [word "case", word label, mark ':'] := by
  have hr : Comments ("        case " ++ label ++ ":  // " ++ note)
      ([word "case"] ++ [word label] ++ [mark ':']) :=
    (((closes_ofList (by decide)).append_reads h.reads).append_comments (comments_ofList (by decide))
      rfl).append hs
  exact hr.code_eq

theorem code_bareCaseLine {label : String} (h : IsName label) :
    code ("        case " ++ label ++ ":") = [word "case", word label, mark ':'] := by
  have hr : Closes ("        case " ++ label ++ ":") ([word "case"] ++ [word label] ++ [mark ':']) :=
    ((closes_ofList (by decide)).append_reads h.reads).append_closes (closes_ofList (by decide)) rfl
  exact hr.code_eq

theorem lines_asCase (hn : IsName (charKeycode first))
    (h : ∀ s ∈ seconds, IsName (charKeycode s.1) ∧ '\n' ∉ s.2.toList) :
    ∃ ls, (asCase (String.singleton first, seconds)).lines = .ok ls ∧
      ls.flatMap code = word "case" :: (labelOf (String.singleton first) ++ mark ':' :: body seconds) := by
  have hl : charKeycodeOf (asCase (String.singleton first, seconds)).first = .ok (charKeycode first) :=
    charKeycodeOf_letter first
  rw [TrainingCase.lines, hl, ok_bind, labelOf_singleton]
  by_cases one : ∃ s, seconds = [s]
  · obtain ⟨s, rfl⟩ := one
    obtain ⟨hs, hsg⟩ := h s mem_cons_self
    have hnt : '\n' ∉ (s.2 ++ (": '" ++ (String.singleton first ++ ("' -> '" ++
        (String.singleton s.1 ++ "'"))))).toList :=
      single_append hsg (single_append (by decide) (single_append (ne_newline hn)
        (single_append (by decide) (single_append (ne_newline hs) (by decide)))))
    refine ⟨_, bind_eq_ok.mpr ⟨_, charKeycodeOf_letter s.1, rfl⟩, ?_⟩
    have hc := code_caseLine hn hnt
    have hr := code_returnLine hs
    simp only [← String.append_assoc] at hc
    rw [flatMap_cons, flatMap_cons, flatMap_nil, append_nil]
    exact congrArg₂ _ hc hr
  · split
    · rename_i second combo hsn
      obtain ⟨s, hsc, -⟩ := map_eq_singleton_iff.mp hsn
      exact absurd ⟨s, hsc⟩ one
    · have hts : Forall₂ (fun s l => (do
          let code ← charKeycodeOf s.1
          return s!"            if (curr_kc == {code}) return true;  // {s.2}" : Result String) = .ok l)
          (asCase (String.singleton first, seconds)).seconds (seconds.map fun s =>
            "            if (curr_kc == " ++ charKeycode s.1 ++ ") return true;  // " ++ s.2) := by
        rw [asCase, forall₂_map_left_iff, forall₂_map_right_iff, forall₂_same]
        intro s _
        rw [charKeycodeOf_letter]
        rfl
      refine ⟨_, bind_eq_ok.mpr ⟨_, mapM_eq_ok.mpr hts, rfl⟩, ?_⟩
      have hrt : Closes "            return false;" [word "return", word "false", mark ';'] :=
        closes_ofList (by decide)
      have ht : (seconds.map fun s => "            if (curr_kc == " ++ charKeycode s.1 ++
          ") return true;  // " ++ s.2).flatMap code = seconds.flatMap testCode := by
        rw [flatMap_map]
        exact flatMap_congr fun s hm => code_testLine (h s hm).1 (h s hm).2
      rw [body_of_several one, flatMap_append, flatMap_append, ht, flatMap_singleton, flatMap_singleton,
        hrt.code_eq]
      refine congrArg (· ++ _) (congrArg (· ++ seconds.flatMap testCode) (code_bareCaseLine hn))

end Lines

section Runs

/-- Whether a returned expression is true: it is `true`, or a comparison whose sides are worth the same. -/
def Truth (value : Values) (e : Expression) : Prop :=
  e = [word "true"] ∨ mark '=' ∈ e ∧ value (sides e).1 = value (sides e).2

def isSecond (value : Values) (s : Char × String) : Bool :=
  value [word "curr_kc"] = value [word (charKeycode s.1)]

def outcome (value : Values) : List (Char × String) → Expression
  | [s] => [word "curr_kc", mark '=', mark '=', word (charKeycode s.1)]
  | seconds => [word (if seconds.any (isSecond value) then "true" else "false")]

theorem outcome_of_several (h : ¬ ∃ s, seconds = [s]) :
    outcome value seconds = [word (if seconds.any (isSecond value) then "true" else "false")] := by
  unfold outcome
  split
  · exact absurd ⟨_, rfl⟩ h
  · rfl

theorem truth_outcome : Truth value (outcome value seconds) ↔ seconds.any (isSecond value) := by
  unfold outcome
  split
  · rename_i s
    have h : sides ([word "curr_kc"] ++ mark '=' :: mark '=' :: [word (charKeycode s.1)]) = _ :=
      sides_comparison (by simp)
    simp only [cons_append, nil_append] at h
    simp [Truth, h, isSecond]
  · split
    · simp_all [Truth]
    · simp_all [Truth]

theorem quiet_comparison {c : Char} (h : IsName (charKeycode c)) :
    Quiet [word "curr_kc", mark '=', mark '=', word (charKeycode c)] := by
  rw [Quiet, forall_mem_cons, forall_mem_cons, forall_mem_cons]
  exact ⟨by decide, by decide, by decide, quiet_charKeycode h⟩

theorem passes_testCode {s : Char × String} (h : IsName (charKeycode s.1)) : Passes (testCode s) := by
  have cut : testCode s = [word "if", mark '('] ++ [word "curr_kc", mark '=', mark '=', word (charKeycode s.1)] ++
      [mark ')', word "return", word "true", mark ';'] := rfl
  rw [cut, Passes, forall_mem_append, forall_mem_append]
  exact ⟨⟨by decide, (quiet_comparison h).passes⟩, by decide⟩

theorem passes_body (h : ∀ s ∈ seconds, IsName (charKeycode s.1)) : Passes (body seconds) := by
  by_cases one : ∃ s, seconds = [s]
  · obtain ⟨s, rfl⟩ := one
    exact passes_return (quiet_comparison (h s mem_cons_self))
  · rw [body_of_several one, Passes, forall_mem_append]
    refine ⟨fun t hm => ?_, by decide⟩
    obtain ⟨s, hs, ht⟩ := mem_flatMap.mp hm
    exact passes_testCode (h s hs) t ht

theorem running_tests (hn : ∀ s ∈ seconds, IsName (charKeycode s.1)) :
    result value .running (seconds.flatMap testCode ++ rest) =
      if seconds.any (isSecond value) then some [word "true"] else result value .running rest := by
  induction seconds with
  | nil => rfl
  | cons s seconds ih =>
    rw [forall_mem_cons] at hn
    have ht : result value .running (testCode s ++ (seconds.flatMap testCode ++ rest)) = _ :=
      running_test (by simp [Quiet, stops]) (quiet_charKeycode hn.1)
    rw [flatMap_cons, append_assoc, ht, any_cons]
    by_cases h : value [word "curr_kc"] = value [word (charKeycode s.1)]
    · rw [show isSecond value s = true from decide_eq_true h, if_pos h]
      simp [result, upTo]
    · rw [show isSecond value s = false from decide_eq_false h, if_neg h, Bool.false_or, ← ih hn.2]
      simp [result]

theorem running_body (h : ∀ s ∈ seconds, IsName (charKeycode s.1)) :
    result value .running (body seconds ++ rest) = some (outcome value seconds) := by
  by_cases one : ∃ s, seconds = [s]
  · obtain ⟨s, rfl⟩ := one
    exact running_return (quiet_comparison (h s mem_cons_self))
  · rw [body_of_several one, append_assoc, running_tests h, outcome_of_several one]
    split <;> simp_all [result, upTo]

def checkName : String := "combo_training_check"

def ending : List Token := [word "return", word "false", mark ';', mark '\x7d']

def checkCode (switch : List Token) : List Token :=
  [word "bool"] ++ word checkName :: ([mark '(', word "uint16_t", word "prev_kc", mark ',', word "uint16_t",
    word "curr_kc", mark ')', mark '\x7b'] ++ (switch ++ ending))

def rows (table : Table) : List Token :=
  branches (fun e => labelOf e.1) (fun e => body e.2) table

def switchCode : Table → List Token
  | [] => []
  | table => word "switch" :: mark '(' :: ([word "prev_kc"] ++ mark ')' :: mark '\x7b' :: (rows table ++ [mark '\x7d']))

theorem checkHead : Closes "bool combo_training_check(uint16_t prev_kc, uint16_t curr_kc) \x7b"
    [word "bool", word checkName, mark '(', word "uint16_t", word "prev_kc", mark ',', word "uint16_t",
      word "curr_kc", mark ')', mark '\x7b'] := closes_ofList (by decide +kernel)

theorem checkReturn : Closes "    return false;" [word "return", word "false", mark ';'] := closes_ofList (by decide)

theorem checkEnd : Closes "\x7d" [mark '\x7d'] := closes_ofList (by decide)

theorem code_noTraining {reason : String} (hs : '\n' ∉ reason.toList) :
    code (noTraining reason) = checkCode [] := by
  have ht : Comments ("// Combo training check (" ++ reason ++ ")") [] :=
    ((comments_ofList (by decide)).append hs).append (by decide)
  have htc : code (toString "// Combo training check (" ++ toString reason ++ toString ")") = [] := ht.code_eq
  have h : code "" = [] := rfl
  rw [noTraining, code_unlines]
  simp [htc, checkHead.code_eq, checkReturn.code_eq, checkEnd.code_eq, h, checkCode, ending]

structure LegibleRow (e : Row) : Prop where
  label : ∃ first, e.1 = String.singleton first ∧ IsName (charKeycode first)
  seconds : ∀ s ∈ e.2, IsName (charKeycode s.1) ∧ '\n' ∉ s.2.toList

theorem legibleRow_of_mem (legible : LegibleTraining combos) : ∀ e ∈ trainedTable combos, LegibleRow e := by
  intro e hm
  obtain ⟨first, h, second, htr⟩ := exists_trains legible.types hm
  refine ⟨⟨first, h.key, (legible.names _ _ htr).1⟩, fun s hs => ⟨?_, ?_⟩⟩
  · exact (legible.names _ _ ((h.trains legible.types).mp ⟨s, hs, rfl⟩)).2
  · obtain ⟨c, hc, -, ht⟩ := (h.seconds s).mp hs
    exact ht ▸ legible.titles c hc

theorem lines_table {table : Table} (legible : ∀ e ∈ table, LegibleRow e) :
    ∃ ls, (table.map asCase).mapM TrainingCase.lines = .ok ls ∧ ls.flatten.flatMap code = rows table := by
  induction table with
  | nil => exact ⟨[], rfl, rfl⟩
  | cons e table ih =>
    rw [forall_mem_cons] at legible
    obtain ⟨key, seconds⟩ := e
    obtain ⟨first, rfl, hn⟩ := legible.1.label
    obtain ⟨ls, hl, hln⟩ := lines_asCase hn legible.1.seconds
    obtain ⟨rest, h, hr⟩ := ih legible.2
    refine ⟨ls :: rest, ?_, ?_⟩
    · rw [mapM_eq_ok] at h ⊢
      exact .cons hl h
    · rw [flatten_cons, flatMap_append, hln, hr]
      rfl

theorem code_trainingCheck (legible : LegibleTraining combos) :
    ∃ text, trainingCheck true combos = .ok text ∧ code text = checkCode (switchCode (trainedTable combos)) := by
  have cases := trainingCases_eq legible.types
  by_cases absent : combos = []
  · have none : trainedTable [] = [] := mergeSort_nil
    rw [absent, none]
    exact ⟨noTraining "no combos defined", rfl, code_noTraining (by decide)⟩
  · have present : combos.isEmpty = false := by simpa using absent
    obtain ⟨ls, isLines, lines_code⟩ := lines_table (legibleRow_of_mem legible)
    rw [trainingCheck, present, cases]
    cases isTable : trainedTable combos with
    | nil => exact ⟨noTraining "no trainable combos", rfl, code_noTraining (by decide)⟩
    | cons e table =>
      rw [isTable] at isLines lines_code
      change ∃ text, (((e :: table).map asCase).mapM TrainingCase.lines >>= _) = .ok text ∧ _
      refine ⟨_, bind_eq_ok.mpr ⟨ls, isLines, rfl⟩, ?_⟩
      have title : Comments "// Combo training: punish sequential typing of combo output bigrams" [] :=
        comments_ofList (by decide +kernel)
      have switch : Closes "    switch (prev_kc) \x7b" [word "switch", mark '(', word "prev_kc", mark ')', mark '\x7b'] :=
        closes_ofList (by decide)
      have ends : Closes "    \x7d" [mark '\x7d'] := closes_ofList (by decide)
      have blank : code "" = [] := rfl
      rw [code_unlines]
      simp [title.code_eq, checkHead.code_eq, switch.code_eq, ends.code_eq, checkReturn.code_eq, checkEnd.code_eq,
    blank, lines_code, checkCode, switchCode,
        ending]

/-- What the check returns: the outcome of the first row of the previous key. -/
def answer (value : Values) (table : Table) : Expression :=
  ((table.find? fun e => value (labelOf e.1) = value [word "prev_kc"]).map
    fun e => outcome value e.2).getD [word "false"]

variable {table : Table} (legible : ∀ e ∈ table, LegibleRow e)
include legible

theorem quiet_labels : ∀ e ∈ table, Quiet (labelOf e.1) := by
  intro e hm
  obtain ⟨first, h, hn⟩ := (legible e hm).label
  rw [h, labelOf_singleton]
  exact quiet_charKeycode hn

theorem passes_bodies : ∀ e ∈ table, Passes (body e.2) :=
  fun e hm => passes_body fun s h => ((legible e hm).seconds s h).1

theorem result_checkCode :
    result value .running (after checkName (checkCode (switchCode table))) = some (answer value table) := by
  rw [checkCode, after_append (by simp [checkName]), running_append (by simp)]
  cases h : table with
  | nil => rfl
  | cons e others =>
    rw [← h]
    have run : result value (.seeking 1 (value [word "prev_kc"])) (rows table ++ mark '\x7d' :: ending) = _ :=
      seeking_branches (quiet_labels legible) (passes_bodies legible) fun e hm _ =>
        running_body fun s hs => ((legible e hm).seconds s hs).1
    have he : result value (.seeking 1 (value [word "prev_kc"])) (mark '\x7d' :: ending) = some [word "false"] := by
      simp [ending, result, upTo]
    have hsp : switchCode table ++ ending = word "switch" :: mark '(' :: ([word "prev_kc"] ++
        mark ')' :: mark '\x7b' :: (rows table ++ mark '\x7d' :: ending)) := by
      simp [h, switchCode]
    rw [hsp, running_switch (by simp [Quiet, stops]) (by simp), run, he, Option.or_some]
    rfl

theorem switchLabels_checkCode : switchLabels (checkCode (switchCode table)) =
      if table = [] then [] else [table.map fun e => labelOf e.1] := by
  cases h : table with
  | nil => rfl
  | cons e others =>
    rw [← h]
    have own : labels 1 (rows table ++ mark '\x7d' :: ending) = table.map fun e => labelOf e.1 :=
      labels_branches (quiet_labels legible) (passes_bodies legible)
    have hl : switchLabels (rows table ++ mark '\x7d' :: ending) = _ :=
      switchLabels_append (not_mem_branches (by simp) (quiet_labels legible) (passes_bodies legible))
    have hn : switchLabels ending = [] := by decide
    rw [h] at own hl ⊢
    simp [checkCode, switchCode, switchLabels, labels, own, hl, checkName, hn]

end Runs

section Recognised

def FirstsApart (combos : List Combo) (value : Values) : Prop :=
  ∀ first second other next, Trains combos first second → Trains combos other next →
    value [word (charKeycode first)] = value [word (charKeycode other)] → first = other

theorem nodup_labels_iff (ht : TypeTexts combos) :
    ((trainedTable combos).map fun e => value (labelOf e.1)).Nodup ↔ FirstsApart combos value := by
  constructor
  · intro ha first second other next htr htn hs
    obtain ⟨e, hm, hc⟩ := exists_collects ht htr
    obtain ⟨e', hmm, h⟩ := exists_collects ht htn
    have hl : value (labelOf e.1) = value (labelOf e'.1) := by
      rw [hc.key, h.key, labelOf_singleton, labelOf_singleton, hs]
    have hr := find?_of_nodup ha hm
    rw [hl, find?_of_nodup ha hmm] at hr
    rw [Option.some.inj hr] at h
    exact String.singleton_inj.mp (hc.key.symm.trans h.key)
  · intro ha
    refine pairwise_map.mpr ((pairwise_map.mp nodup_trainedTable).imp_of_mem fun {e e'} hm hmm other hs => ?_)
    obtain ⟨first, hc, second, htr⟩ := exists_trains ht hm
    obtain ⟨first', h, second', htn⟩ := exists_trains ht hmm
    rw [hc.key, h.key, labelOf_singleton, labelOf_singleton] at hs
    exact other (by rw [hc.key, h.key, ha _ _ _ _ htr htn hs])

/-- The previous key and the current one are the letters of a trained combo. -/
def Completes (combos : List Combo) (value : Values) : Prop :=
  ∃ first second, Trains combos first second ∧ value [word "prev_kc"] = value [word (charKeycode first)] ∧
    value [word "curr_kc"] = value [word (charKeycode second)]

theorem truth_answer (types : TypeTexts combos)
    (ha : ((trainedTable combos).map fun e => value (labelOf e.1)).Nodup) :
    Truth value (answer value (trainedTable combos)) ↔ Completes combos value := by
  constructor
  · intro ht
    cases h : (trainedTable combos).find? fun e => value (labelOf e.1) = value [word "prev_kc"] with
    | none => simp [answer, h, Truth] at ht
    | some e =>
      have hp : value (labelOf e.1) = value [word "prev_kc"] := by
        simpa using find?_some h
      obtain ⟨first, hc⟩ := collects_of_mem (mem_of_find?_eq_some h)
      rw [answer, h, Option.map_some, Option.getD_some, truth_outcome, any_eq_true] at ht
      obtain ⟨s, hs, hcr⟩ := ht
      rw [hc.key, labelOf_singleton] at hp
      exact ⟨first, s.1, (hc.trains types).mp ⟨s, hs, rfl⟩, hp.symm, of_decide_eq_true hcr⟩
  · rintro ⟨first, second, htr, hp, hcr⟩
    obtain ⟨e, hm, hc⟩ := exists_collects types htr
    obtain ⟨s, hs, rfl⟩ := (hc.trains types).mpr htr
    have h : ((trainedTable combos).find? fun e => value (labelOf e.1) = value [word "prev_kc"]) = some e := by
      rw [hp, ← labelOf_singleton, ← hc.key]
      exact find?_of_nodup ha hm
    rw [answer, h, Option.map_some, Option.getD_some, truth_outcome, any_eq_true]
    exact ⟨s, hs, decide_eq_true hcr⟩

/-- The check can be compiled, and it tells the letters of trained combos from all others. -/
structure Recognises (combos : List Combo) (value : Values) (text : String) : Prop where
  labels : ∀ ls ∈ switchLabels (code text), (ls.map value).Nodup
  completed : (∃ e, call value "combo_training_check" text = some e ∧ Truth value e) ↔ Completes combos value

/-- The check recognises exactly the trained combos if different first letters have different keycodes. -/
theorem combo_training_exact_iff (legible : LegibleTraining combos) (value : Values) :
    ∃ text, trainingCheck true combos = .ok text ∧ (Recognises combos value text ↔ FirstsApart combos value) := by
  obtain ⟨text, done, isCode⟩ := code_trainingCheck legible
  have rows := legibleRow_of_mem legible
  have returned : call value "combo_training_check" text = some (answer value (trainedTable combos)) := by
    rw [call, isCode]
    exact result_checkCode rows
  have distinct : (∀ ls ∈ switchLabels (code text), (ls.map value).Nodup) ↔
      ((trainedTable combos).map fun e => value (labelOf e.1)).Nodup := by
    rw [isCode, switchLabels_checkCode rows]
    split
    · rename_i none
      simp [none]
    · rw [forall_mem_singleton, map_map]
      rfl
  refine ⟨text, done, ?_⟩
  rw [← nodup_labels_iff legible.types]
  refine ⟨fun recognises => distinct.mp recognises.labels, fun apart => ⟨distinct.mpr apart, ?_⟩⟩
  rw [returned, ← truth_answer legible.types apart]
  simp

def letterPair (name text : String) : Combo :=
  { name, description := "", positions := .list [], action := "", macroText := .text text, training := .flag true }

theorem small_capital_same_case :
    let combos := [letterPair "and" "ab", letterPair "acme" "Ac"]
    LegibleTraining combos ∧ ∀ value : Values, ∃ text, trainingCheck true combos = .ok text ∧
      ¬ Recognises combos value text := by
  intro combos
  have types : TypeTexts combos := by
    simp only [TypeTexts, combos, forall_mem_cons]
    exact ⟨.inr ⟨_, rfl⟩, .inr ⟨_, rfl⟩, by simp⟩
  have legible : LegibleTraining combos := by
    refine ⟨types, by decide, fun first second trains => ?_⟩
    obtain ⟨c, member, isLetters⟩ := (trains_iff types).mp trains
    have named : combos.all (fun c => (letters? c).all fun p => [p.1, p.2].all fun l =>
        !(charKeycode l).toList.isEmpty && (charKeycode l).toList.all Text.isWordChar) = true := by decide +kernel
    have each := all_eq_true.mp named c member
    rw [isLetters] at each
    simpa [IsName] using each
  refine ⟨legible, fun value => ?_⟩
  obtain ⟨text, done, exact_iff⟩ := combo_training_exact_iff legible value
  refine ⟨text, done, fun holds => ?_⟩
  have same : charKeycode 'a' = charKeycode 'A' := by decide +kernel
  have small : Trains combos 'a' 'b' := (trains_iff types).mpr ⟨_, .head _, by decide⟩
  have capital : Trains combos 'A' 'c' := (trains_iff types).mpr ⟨_, .tail _ (.head _), by decide⟩
  exact absurd (exact_iff.mp holds _ _ _ _ small capital (by rw [same])) (by decide)

end Recognised

end Keymap.Qmk
