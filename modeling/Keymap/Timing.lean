import Keymap.Document.Access

namespace Keymap

/-- The values are written out as they were configured. -/
structure Timing where
  tappingTerm : Document := .whole 200
  quickTap : Document := .whole 200
  priorIdle : Document := .null
  flavor : Document := "balanced"
  deriving Inhabited

structure Behaviors where
  homeRowMods : Timing := { tappingTerm := .whole 280, priorIdle := .whole 150 }
  layerTap : Timing := {}
  modTap : Timing := { flavor := "hold-preferred" }
  deriving Inhabited

namespace Timing

def ofDocument (d : Document) : Result Timing := do
  return {
    tappingTerm := ← d.findD "tapping_term_ms" (.whole 200)
    quickTap := ← d.findD "quick_tap_ms" (.whole 200)
    priorIdle := ← d.findD "require_prior_idle_ms" .null
    flavor := ← d.findD "flavor" "balanced" }

def ofFields (d : Document) : Result Timing := do
  d.checkForm [] ["tapping_term_ms", "quick_tap_ms", "require_prior_idle_ms", "flavor"]
  ofDocument d

def fields (t : Timing) : Entries :=
  [("tapping_term_ms", t.tappingTerm), ("quick_tap_ms", t.quickTap),
   ("require_prior_idle_ms", t.priorIdle), ("flavor", t.flavor)]

end Timing

namespace Behaviors

def timingOf (d : Document) (name : String) (default : Timing) : Result Timing := do
  if ← d.has name then Timing.ofDocument (← d.field name) else return default

def ofDocument (d : Document) : Result Behaviors := do
  let standard : Behaviors := {}
  let homeRowMods ← timingOf d "home_row_mods" standard.homeRowMods
  let layerTap ← timingOf d "layer_tap" standard.layerTap
  let modTap ← timingOf d "mod_tap" standard.modTap
  return { homeRowMods, layerTap, modTap }

def ofFields (d : Document) : Result Behaviors := do
  d.checkForm [] ["home_row_mods", "layer_tap", "mod_tap"]
  let timing := fun (name : String) (default : Timing) =>
    match d.get? name with
    | some fields => Timing.ofFields fields
    | none => Except.ok default
  let standard : Behaviors := {}
  let homeRowMods ← timing "home_row_mods" standard.homeRowMods
  let layerTap ← timing "layer_tap" standard.layerTap
  return { homeRowMods, layerTap, modTap := ← timing "mod_tap" standard.modTap }

end Behaviors

end Keymap
