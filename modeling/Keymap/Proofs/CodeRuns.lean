import Keymap.Proofs.CodeLines

namespace Keymap.Code

open List
open Token (word mark)

variable {α : Type} {subject depth : Nat} {x : α}

variable {cs : List (Expression × Expression)} {left right : String}

abbrev Expression := List Token

abbrev Values := Expression → Nat

def upTo (c : Char) (ts : List Token) : List Token :=
  ts.takeWhile (· ≠ mark c)

def sides (e : Expression) : Expression × Expression :=
  (upTo '=' e, (e.dropWhile (· ≠ mark '=')).drop 2)

def alternatives (soFar : Expression) : List Token → List Expression
  | mark '|' :: mark '|' :: ts => soFar :: alternatives [] ts
  | t :: ts => alternatives (soFar ++ [t]) ts
  | [] => [soFar]

/-- A condition holds if it is `true`, or if one of the comparisons in parentheses does. -/
def holds (value : Values) (e : List Token) : Bool :=
  match e with
  | mark '(' :: ts => (alternatives [] (upTo ')' ts)).any fun comparison =>
      value (sides comparison).1 == value (sides comparison).2
  | e => e == [word "true"]

/-- Where a run is: at a statement, in a block or statement that is left out, or in a switch before
the case of its value. The depth counts the braces that are open. -/
inductive Phase where
  | running
  | skipping (depth : Nat)
  | seeking (depth subject : Nat)

def result (value : Values) : Phase → List Token → Option Expression
  | _, [] => none
  | .running, t :: ts =>
    if t = word "return" then some (upTo ';' ts)
    else if t = word "if" then result value (if holds value ts then .running else .skipping 0) ts
    else if t = word "switch" then
      result value (.seeking 0 (value (upTo ')' (ts.drop 1)))) ts
    else result value .running ts
  | .skipping depth, t :: ts =>
    if t = mark '\x7b' then result value (.skipping (depth + 1)) ts
    else if t = mark '\x7d' then
      result value (if depth ≤ 1 then .running else .skipping (depth - 1)) ts
    else if t = mark ';' then result value (if depth = 0 then .running else .skipping depth) ts
    else result value (.skipping depth) ts
  | .seeking depth subject, t :: ts =>
    if t = mark '\x7b' then result value (.seeking (depth + 1) subject) ts
    else if t = mark '\x7d' then
      result value (if depth ≤ 1 then .running else .seeking (depth - 1) subject) ts
    else if t = word "case" ∧ depth = 1 ∧ value (upTo ':' ts) = subject then
      result value .running ts
    else if t = word "default" ∧ depth = 1 then result value .running ts
    else result value (.seeking depth subject) ts

def after (w : String) (ts : List Token) : List Token :=
  (ts.dropWhile (· ≠ word w)).drop 1

def call (value : Values) (function text : String) : Option Expression :=
  result value .running (after function (code text))

def labels : Nat → List Token → List Expression
  | _, [] => []
  | depth, t :: ts =>
    if t = mark '\x7b' then labels (depth + 1) ts
    else if t = mark '\x7d' then if depth ≤ 1 then [] else labels (depth - 1) ts
    else if t = word "case" ∧ depth = 1 then upTo ':' ts :: labels depth ts
    else labels depth ts

def switchLabels : List Token → List (List Expression)
  | [] => []
  | t :: ts => if t = word "switch" then labels 0 ts :: switchLabels ts else switchLabels ts

variable {value : Values} {e rest : List Token}

theorem takeWhile_ne_append [DecidableEq α] {before rest : List α} (h : x ∉ before) :
    (before ++ x :: rest).takeWhile (· ≠ x) = before := by
  rw [takeWhile_append_of_pos]
  · simp
  · intro y hm
    exact decide_eq_true fun hs => h (hs ▸ hm)

theorem dropWhile_ne_append [DecidableEq α] {before rest : List α} (h : x ∉ before) :
    (before ++ x :: rest).dropWhile (· ≠ x) = x :: rest := by
  rw [dropWhile_append_of_pos]
  · simp
  · intro y hm
    exact decide_eq_true fun hs => h (hs ▸ hm)

theorem upTo_append {c : Char} (h : mark c ∉ e) : upTo c (e ++ mark c :: rest) = e :=
  takeWhile_ne_append h

theorem after_append {w : String} (h : word w ∉ e) : after w (e ++ word w :: rest) = rest := by
  rw [after, dropWhile_ne_append h, drop_one, tail_cons]

theorem sides_comparison {left right : Expression} (h : mark '=' ∉ left) :
    sides (left ++ mark '=' :: mark '=' :: right) = (left, right) := by
  rw [sides, upTo_append h, dropWhile_ne_append h]
  simp

theorem running_append (quiet : ∀ w ∈ ["return", "if", "switch"], word w ∉ e) :
    result value .running (e ++ rest) = result value .running rest := by
  induction e with
  | nil => rfl
  | cons t ts ih =>
    have own (w : String) (h : w ∈ ["return", "if", "switch"]) : t ≠ word w :=
      fun hw => quiet w h (hw ▸ mem_cons_self)
    rw [cons_append, result, if_neg (own "return" (by simp)), if_neg (own "if" (by simp)),
      if_neg (own "switch" (by simp))]
    exact ih fun w h hm => quiet w h (mem_cons_of_mem _ hm)

theorem skipping_append (ho : mark '\x7b' ∉ e) (h : mark '\x7d' ∉ e) :
    result value (.skipping (depth + 1)) (e ++ rest) = result value (.skipping (depth + 1)) rest := by
  induction e with
  | nil => rfl
  | cons t ts ih =>
    rw [mem_cons, not_or] at ho h
    rw [cons_append, result, if_neg (Ne.symm ho.1), if_neg (Ne.symm h.1)]
    simp only [Nat.add_one_ne_zero, if_false, ite_self]
    exact ih ho.2 h.2

theorem seeking_append (ho : mark '\x7b' ∉ e) (closes : mark '\x7d' ∉ e) (hc : word "case" ∉ e)
    (hd : word "default" ∉ e) : result value (.seeking depth subject) (e ++ rest) =
      result value (.seeking depth subject) rest := by
  induction e with
  | nil => rfl
  | cons t ts ih =>
    rw [mem_cons, not_or] at ho closes hc hd
    rw [cons_append, result, if_neg (Ne.symm ho.1), if_neg (Ne.symm closes.1),
      if_neg (fun h => hc.1 h.1.symm), if_neg (fun h => hd.1 h.1.symm)]
    exact ih ho.2 closes.2 hc.2 hd.2

def stops : List Token :=
  [mark '\x7b', mark '\x7d', mark ';', mark ':', word "return", word "if", word "switch",
   word "case", word "default"]

def Quiet (e : Expression) : Prop :=
  ∀ t ∈ e, t ∉ stops

theorem Quiet.not_mem {t : Token} (quiet : Quiet e) (h : t ∈ stops) : t ∉ e :=
  fun hm => quiet t hm h

theorem Plain.quiet {s : String} (h : Plain s) : Quiet (line s) := by
  have ha : ∀ t ∈ stops, t ∉ line s := by
    simp only [stops, forall_mem_cons]
    refine ⟨?_, ?_, ?_, ?_, ?_, ?_, ?_, ?_, ?_, by simp⟩
    all_goals first
      | exact h.mark_not_mem (by simp)
      | exact h.words _ (by simp [keywords])
  exact fun t hm hl => ha t hl hm

theorem running_append_quiet (quiet : Quiet e) :
    result value .running (e ++ rest) = result value .running rest := by
  refine running_append ?_
  simp only [forall_mem_cons]
  exact ⟨quiet.not_mem (by decide), quiet.not_mem (by decide), quiet.not_mem (by decide), by simp⟩

theorem seeking_append_quiet (quiet : Quiet e) :
    result value (.seeking depth subject) (e ++ rest) = result value (.seeking depth subject) rest :=
  seeking_append (quiet.not_mem (by decide)) (quiet.not_mem (by decide)) (quiet.not_mem (by decide))
    (quiet.not_mem (by decide))

/-- Code that a switch passes over while it looks for its case. -/
def Passes (e : List Token) : Prop :=
  ∀ t ∈ e, t ∉ [mark '\x7b', mark '\x7d', word "case", word "default", word "switch"]

theorem Passes.not_mem {t : Token} (hp : Passes e)
    (h : t ∈ [mark '\x7b', mark '\x7d', word "case", word "default", word "switch"]) : t ∉ e :=
  fun hm => hp t hm h

theorem Quiet.passes (quiet : Quiet e) : Passes e := by
  have hs : ∀ t ∈ [mark '\x7b', mark '\x7d', word "case", word "default", word "switch"], t ∈ stops := by decide
  exact fun t hm h => quiet t hm (hs t h)

section Cases

variable {cases : List α} {label body : α → List Token} {answer : α → Expression}

def branches (label body : α → List Token) (cases : List α) : List Token :=
  cases.flatMap fun c => word "case" :: (label c ++ mark ':' :: body c)

theorem branches_cons (c : α) (cases : List α) (rest : List Token) : branches label body (c :: cases) ++ rest =
      word "case" :: (label c ++ mark ':' :: (body c ++ (branches label body cases ++ rest))) := by
  simp [branches]

/-- A switch over cases that return gives what the first case of its value returns. -/
theorem seeking_branches (quiet : ∀ c ∈ cases, Quiet (label c)) (h : ∀ c ∈ cases, Passes (body c))
    (hr : ∀ c ∈ cases, ∀ rest, result value .running (body c ++ rest) = some (answer c)) :
    result value (.seeking 1 subject) (branches label body cases ++ rest) =
      ((cases.find? fun c => value (label c) = subject).map answer).or
        (result value (.seeking 1 subject) rest) := by
  induction cases with
  | nil => rfl
  | cons c cases ih =>
    rw [forall_mem_cons] at quiet h hr
    rw [branches_cons, result, if_neg (by simp), if_neg (by simp), upTo_append (quiet.1.not_mem (by decide))]
    by_cases hit : value (label c) = subject
    · rw [if_pos ⟨rfl, rfl, hit⟩, running_append_quiet quiet.1]
      simp [result, hit, hr.1]
    · have ho := ih quiet.2 h.2 hr.2
      rw [← seeking_append (e := body c) (h.1.not_mem (by simp)) (h.1.not_mem (by simp))
        (h.1.not_mem (by simp)) (h.1.not_mem (by simp))] at ho
      rw [if_neg (by simp [hit]), if_neg (by simp), seeking_append_quiet quiet.1]
      simpa [result, hit] using ho

theorem labels_append (hp : Passes e) : labels depth (e ++ rest) = labels depth rest := by
  induction e with
  | nil => rfl
  | cons t ts ih =>
    rw [Passes, forall_mem_cons] at hp
    have own : t ≠ mark '\x7b' ∧ t ≠ mark '\x7d' ∧ t ≠ word "case" := by
      refine ⟨?_, ?_, ?_⟩ <;> rintro rfl <;> exact hp.1 (by decide)
    rw [cons_append, labels, if_neg own.1, if_neg own.2.1, if_neg fun h => own.2.2 h.1, ih hp.2]

theorem labels_branches (quiet : ∀ c ∈ cases, Quiet (label c)) (h : ∀ c ∈ cases, Passes (body c)) :
    labels 1 (branches label body cases ++ mark '\x7d' :: rest) = cases.map label := by
  induction cases with
  | nil => simp [branches, labels]
  | cons c cases ih =>
    rw [forall_mem_cons] at quiet h
    rw [branches_cons, labels, if_neg (by simp), if_neg (by simp), if_pos ⟨rfl, rfl⟩,
      upTo_append (quiet.1.not_mem (by decide)), labels_append quiet.1.passes]
    simp [labels, labels_append h.1, ih quiet.2 h.2]

theorem not_mem_branches {t : Token} (hl : t ∈ [mark '\x7b', mark '\x7d', word "switch"])
    (quiet : ∀ c ∈ cases, Quiet (label c)) (passes : ∀ c ∈ cases, Passes (body c)) :
    t ∉ branches label body cases := by
  have hst : ∀ t ∈ [mark '\x7b', mark '\x7d', word "switch"], t ∈ stops ∧ t ≠ word "case" ∧ t ≠ mark ':' ∧
      t ∈ [mark '\x7b', mark '\x7d', word "case", word "default", word "switch"] := by decide
  obtain ⟨hs, hn, hnc, hp⟩ := hst t hl
  simp only [branches, mem_flatMap, not_exists, not_and]
  intro c h
  simp [hn, hnc, (quiet c h).not_mem hs, (passes c h).not_mem hp]

end Cases

def caseCode (cases : List (Expression × Expression)) : List Token :=
  cases.flatMap fun c => word "case" :: (c.1 ++ mark ':' :: word "return" :: (c.2 ++ [mark ';']))

theorem caseCode_eq (cases : List (Expression × Expression)) :
    caseCode cases = branches (·.1) (fun c => word "return" :: (c.2 ++ [mark ';'])) cases := rfl

theorem passes_return (quiet : Quiet e) : Passes (word "return" :: (e ++ [mark ';'])) := by
  rw [Passes, forall_mem_cons, forall_mem_append, forall_mem_singleton]
  exact ⟨by decide, quiet.passes, by decide⟩

theorem running_return (quiet : Quiet e) :
    result value .running (word "return" :: (e ++ [mark ';']) ++ rest) = some e := by
  have h : upTo ';' (e ++ mark ';' :: rest) = e := upTo_append (quiet.not_mem (by decide))
  simp [result, h]

section Returned

variable {cases : List (Expression × Expression)} (quiet : ∀ c ∈ cases, Quiet c.1 ∧ Quiet c.2)
include quiet

theorem seeking_caseCode : result value (.seeking 1 subject) (caseCode cases ++ rest) =
      match cases.find? fun c => value c.1 = subject with
      | some c => some c.2
      | none => result value (.seeking 1 subject) rest := by
  rw [caseCode_eq, seeking_branches (fun c h => (quiet c h).1)
    (fun c h => passes_return (quiet c h).2) fun c h _ => running_return (quiet c h).2]
  cases cases.find? fun c => value c.1 = subject <;> rfl

theorem labels_caseCode : labels 1 (caseCode cases ++ mark '\x7d' :: rest) = cases.map (·.1) := by
  rw [caseCode_eq]
  exact labels_branches (fun c h => (quiet c h).1) fun c h => passes_return (quiet c h).2

theorem not_mem_caseCode {t : Token} (hl : t ∈ [mark '\x7b', mark '\x7d', word "switch"]) :
    t ∉ caseCode cases := by
  rw [caseCode_eq]
  exact not_mem_branches hl (fun c h => (quiet c h).1) fun c h => passes_return (quiet c h).2

end Returned

theorem find?_of_nodup {key : α → Nat} {xs : List α} (h : (xs.map key).Nodup) (hm : x ∈ xs) :
    (xs.find? fun y => key y = key x) = some x := by
  induction xs with
  | nil => cases hm
  | cons y ys ih =>
    rw [map_cons, nodup_cons] at h
    rcases mem_cons.mp hm with rfl | hl
    · simp
    · have ho : key y ≠ key x := fun hs => h.1 (hs ▸ mem_map_of_mem hl)
      rw [find?_cons_of_neg (by simpa using ho), ih h.2 hl]

theorem running_switch {subject : Expression} (quiet : Quiet subject) (h : mark ')' ∉ subject) :
    result value .running (word "switch" :: mark '(' :: (subject ++ mark ')' :: mark '\x7b' :: rest)) =
      result value (.seeking 1 (value subject)) rest := by
  have ho : upTo ')' ((mark '(' :: (subject ++ mark ')' :: mark '\x7b' :: rest)).drop 1) =
      subject := upTo_append h
  rw [result, if_neg (by simp), if_neg (by simp), if_pos rfl, ho, result, if_neg (by simp),
    if_neg (by simp), if_neg (by simp), if_neg (by simp), seeking_append_quiet quiet]
  simp [result]

def anyOf : List (Expression × Expression) → List Token
  | [] => []
  | [c] => c.1 ++ mark '=' :: mark '=' :: c.2
  | c :: cs => c.1 ++ mark '=' :: mark '=' :: (c.2 ++ mark '|' :: mark '|' :: anyOf cs)

theorem alternatives_append {soFar : Expression} (bar : mark '|' ∉ e) :
    alternatives soFar (e ++ rest) = alternatives (soFar ++ e) rest := by
  induction e generalizing soFar with
  | nil => simp
  | cons t ts ih =>
    rw [mem_cons, not_or] at bar
    rw [cons_append, alternatives, ih bar.2]
    · simp
    · exact fun _ h => absurd h.symm bar.1

theorem alternatives_anyOf (hp : cs ≠ []) (h : ∀ c ∈ cs, mark '|' ∉ c.1 ∧ mark '|' ∉ c.2) :
    alternatives [] (anyOf cs) = cs.map fun c => c.1 ++ mark '=' :: mark '=' :: c.2 := by
  induction cs with
  | nil => exact absurd rfl hp
  | cons c cs ih =>
    rw [forall_mem_cons] at h
    have bar : mark '|' ∉ c.1 ++ mark '=' :: mark '=' :: c.2 := by simp [h.1.1, h.1.2]
    cases cs with
    | nil =>
      have hw : alternatives [] ((c.1 ++ mark '=' :: mark '=' :: c.2) ++ []) =
          alternatives ([] ++ (c.1 ++ mark '=' :: mark '=' :: c.2)) [] := alternatives_append bar
      simpa [anyOf, alternatives] using hw
    | cons c' cs =>
      have cut : anyOf (c :: c' :: cs) = (c.1 ++ mark '=' :: mark '=' :: c.2) ++
          mark '|' :: mark '|' :: anyOf (c' :: cs) := by simp [anyOf]
      rw [cut, alternatives_append bar, alternatives, ih (by simp) h.2]
      simp

theorem holds_anyOf (hp : cs ≠ []) (h : ∀ c ∈ cs, mark '|' ∉ c.1 ∧ mark '|' ∉ c.2)
    (he : ∀ c ∈ cs, mark '=' ∉ c.1) (hc : mark ')' ∉ anyOf cs) :
    holds value (mark '(' :: (anyOf cs ++ mark ')' :: rest)) ↔ ∃ c ∈ cs, value c.1 = value c.2 := by
  rw [holds, upTo_append hc, alternatives_anyOf hp h, any_map]
  simp only [any_eq_true, Function.comp_apply, beq_iff_eq]
  refine exists_congr fun c => and_congr_right fun hm => ?_
  rw [sides_comparison (he c hm)]

theorem running_test (hl : Quiet [word left]) (hr : Quiet [word right]) :
    result value .running (word "if" :: mark '(' :: word left :: mark '=' :: mark '=' ::
        word right :: mark ')' :: rest) =
      result value (if value [word left] = value [word right] then .running else .skipping 0) rest := by
  have hh : holds value (mark '(' :: (anyOf [([word left], [word right])] ++
      mark ')' :: rest)) ↔ value [word left] = value [word right] := by
    rw [holds_anyOf] <;> simp [anyOf]
  have hhd : Quiet (mark '(' :: (anyOf [([word left], [word right])] ++ [mark ')'])) := by
    simp only [Quiet, stops, mem_cons, not_or] at hl hr
    simp [Quiet, anyOf, hl, hr, stops]
  change result value .running (word "if" :: mark '(' :: (anyOf [([word left], [word right])] ++
      mark ')' :: rest)) = _
  rw [result, if_neg (by simp), if_pos rfl]
  by_cases h : value [word left] = value [word right]
  · have ho : result value .running ((mark '(' :: (anyOf [([word left], [word right])] ++
        [mark ')'])) ++ rest) = result value .running rest := running_append_quiet hhd
    rw [if_pos h, if_pos (hh.mpr h)]
    simpa using ho
  · rw [if_neg h, if_neg (mt hh.mp h)]
    simp [result, anyOf]

theorem running_if (h : Quiet [word left]) (hr : Quiet [word right]) :
    result value .running (word "if" :: mark '(' :: word left :: mark '=' :: mark '=' ::
        word right :: mark ')' :: mark '\x7b' :: rest) =
      if value [word left] = value [word right] then result value .running rest
      else result value (.skipping 1) rest := by
  rw [running_test h hr]
  split <;> simp [result]

theorem switchLabels_append (quiet : word "switch" ∉ e) : switchLabels (e ++ rest) = switchLabels rest := by
  induction e with
  | nil => rfl
  | cons t ts ih =>
    rw [mem_cons, not_or] at quiet
    rw [cons_append, switchLabels, if_neg (Ne.symm quiet.1), ih quiet.2]

end Keymap.Code
