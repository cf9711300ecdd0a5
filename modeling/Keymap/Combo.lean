import Keymap.Board

namespace Keymap

structure Combo where
  name : Document
  description : Document
  positions : Document
  action : Document
  macroText : Document := .null
  timeout : Document := .whole 50
  priorIdle : Document := .null
  layers : Document := .null
  slowRelease : Document := .flag false
  hold : Document := .null
  training : Document := .flag false
  deriving Inhabited

namespace Combo

def fields (combo : Combo) : Entries :=
  [("name", combo.name), ("description", combo.description), ("key_positions", combo.positions),
   ("action", combo.action), ("macro_text", combo.macroText), ("timeout_ms", combo.timeout),
   ("require_prior_idle_ms", combo.priorIdle), ("layers", combo.layers),
   ("slow_release", combo.slowRelease), ("hold_ms", combo.hold), ("training", combo.training)]

def required : List String :=
  ["name", "description", "key_positions", "action"]

def ofFields (d : Document) : Result Combo := do
  return {
    name := ← d.field "name"
    description := ← d.field "description"
    positions := ← d.field "key_positions"
    action := ← d.field "action"
    macroText := ← d.findD "macro_text" .null
    timeout := ← d.findD "timeout_ms" (.whole 50)
    priorIdle := ← d.findD "require_prior_idle_ms" .null
    layers := ← d.findD "layers" .null
    slowRelease := ← d.findD "slow_release" (.flag false)
    hold := ← d.findD "hold_ms" .null
    training := ← d.findD "training" (.flag false) }

def ofDocument (d : Document) : Result Combo := do
  d.checkForm required ["macro_text", "timeout_ms", "require_prior_idle_ms", "layers",
    "slow_release", "hold_ms", "training"]
  ofFields d

def title (combo : Combo) : String :=
  combo.name.toText

def checkPosition (combo : Combo) (p : Document) : Result Unit := do
  let low ← p.isBelow 0
  let high ← if low then pure false else p.isAbove 35
  if low || high then
    invalid s!"Combo {combo.title}: position {p.toText} out of range (must be 0-35)"

def validate (combo : Combo) : Result Unit := do
  (← combo.positions.members).forM combo.checkPosition
  if (← combo.positions.length) < 2 then
    invalid s!"Combo {combo.title}: must have at least 2 keys"
  if ← combo.timeout.isBelow 1 then
    invalid s!"Combo {combo.title}: timeout_ms must be positive"
  if !combo.macroText.isNull then
    if (← combo.macroText.length) = 0 then
      invalid s!"Combo {combo.title}: macro_text cannot be empty"
  if !combo.hold.isNull then
    if ← combo.hold.isBelow 1 then
      invalid s!"Combo {combo.title}: hold_ms must be positive"

/-- The two letters that a trained combo replaces: only texts of exactly two characters train. -/
def bigram? (combo : Combo) : Result (Option (Document × Document)) := do
  if !combo.training.isPresent || !combo.macroText.isPresent then return none
  if (← combo.macroText.length) ≠ 2 then return none
  return some (← combo.macroText.item (-2), ← combo.macroText.item (-1))

end Combo

namespace Combos

def validate (combos : List Combo) : Result Unit := do
  combos.forM Combo.validate
  let twice := repeatedIn (combos.map (·.name))
  if !twice.isEmpty then
    invalid ("Duplicate combo names found: " ++ (← nameSet twice))

def find? (combos : List Combo) (name : Document) : Option Combo :=
  combos.find? fun c => c.name.same name

end Combos

end Keymap
