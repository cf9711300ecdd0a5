import Keymap.Combo
import Keymap.Qmk.Magic

namespace Keymap.Qmk

structure TrainingCase where
  first : Document
  seconds : List (Document × String)
  deriving Repr

def addBigram (first second : Document) (combo : String) : List TrainingCase → List TrainingCase
  | [] => [⟨first, [(second, combo)]⟩]
  | c :: cs =>
    if c.first.same first then { c with seconds := c.seconds ++ [(second, combo)] } :: cs
    else c :: addBigram first second combo cs

def collectCases (combos : List Combo) : Result (List TrainingCase) :=
  combos.foldlM (fun acc c => do
    match ← c.bigram? with
    | some (first, second) =>
      let _ ← first.asField
      return addBigram first second c.title acc
    | none => return acc) []

def trainingCases (combos : List Combo) : Result (List TrainingCase) := do
  let cases ← collectCases combos
  Document.checkOrdered (cases.map (·.first))
  return cases.mergeSort fun a b => decide (a.first.toText ≤ b.first.toText)

def TrainingCase.lines (c : TrainingCase) : Result (List String) := do
  let first ← charKeycodeOf c.first
  match c.seconds with
  | [(second, combo)] =>
    let code ← charKeycodeOf second
    return [s!"        case {first}:  // {combo}: '{c.first.toText}' -> '{second.toText}'",
      s!"            return curr_kc == {code};"]
  | seconds =>
    let tests ← seconds.mapM fun (second, combo) => do
      let code ← charKeycodeOf second
      return s!"            if (curr_kc == {code}) return true;  // {combo}"
    return [s!"        case {first}:"] ++ tests ++ ["            return false;"]

def noTraining (reason : String) : String :=
  Text.unlines [
    "",
    s!"// Combo training check ({reason})",
    "bool combo_training_check(uint16_t prev_kc, uint16_t curr_kc) \x7b",
    "    return false;",
    "\x7d",
    ""]

def trainingCheck (enabled : Bool) (combos : List Combo) : Result String := do
  if !enabled then return noTraining "disabled"
  if combos.isEmpty then return noTraining "no combos defined"
  match ← trainingCases combos with
  | [] => return noTraining "no trainable combos"
  | cases =>
    let lines ← cases.mapM TrainingCase.lines
    return Text.unlines (
      ["",
       "// Combo training: punish sequential typing of combo output bigrams",
       "bool combo_training_check(uint16_t prev_kc, uint16_t curr_kc) \x7b",
       "    switch (prev_kc) \x7b"] ++
      lines.flatten ++
      ["    \x7d",
       "    return false;",
       "\x7d",
       ""])

end Keymap.Qmk
