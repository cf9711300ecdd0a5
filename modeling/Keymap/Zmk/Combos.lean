import Keymap.Combo
import Keymap.Zmk.Hands

namespace Keymap.Zmk

structure ComboNode where
  name : String
  timeout : String
  positions : List String
  binding : String
  layers : List Nat
  priorIdle : Option String
  slowRelease : Bool
  deriving DecidableEq, Repr

def comboBinding (combo : Combo) : Result String := do
  if !combo.macroText.isNull then return "&" ++ Text.lower (← combo.name.word "lower")
  return if combo.action.isWord "DFU" then "&bootloader" else "&kp " ++ combo.action.toText

def comboLayers (names : List Document) (combo : Combo) : Result (List Nat) := do
  if !combo.layers.isPresent then return []
  return (← combo.layers.members).filterMap fun n => names.findIdx? fun m => m.same n

def comboNode (names : List Document) (size : LayoutSize) (combo : Combo) : Result ComboNode := do
  let positions ← (← boardPositions size combo.positions).members
  let layers ← comboLayers names combo
  return {
    name := combo.title
    timeout := combo.timeout.toText
    positions := positions.map Document.toText
    binding := ← comboBinding combo
    layers
    priorIdle := if combo.priorIdle.isPresent then some combo.priorIdle.toText else none
    slowRelease := combo.slowRelease.isPresent }

namespace ComboNode

def lines (n : ComboNode) : List String :=
  [s!"        combo_{n.name} \x7b",
   s!"            timeout-ms = <{n.timeout}>;",
   "            key-positions = <" ++ Text.join " " n.positions ++ ">;",
   s!"            bindings = <{n.binding}>;"] ++
  (if n.layers.isEmpty then []
    else ["            layers = <" ++ Text.join " " (n.layers.map toString) ++ ">;"]) ++
  (match n.priorIdle with
    | some ms => [s!"            require-prior-idle-ms = <{ms}>;"]
    | none => []) ++
  (if n.slowRelease then ["            slow-release;"] else []) ++
  ["        \x7d;"]

end ComboNode

def combosSection (combos : List Combo) (names : List Document) (size : LayoutSize) :
    Result String := do
  if combos.isEmpty then return ""
  let nodes ← combos.mapM (comboNode names size)
  return Text.unlines [
    "    combos \x7b",
    "        compatible = \"zmk,combos\";",
    "",
    Text.join "\n\n" (nodes.map fun n => Text.unlines n.lines),
    "    \x7d;"]

end Keymap.Zmk
