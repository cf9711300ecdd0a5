import Keymap.Drawing.Superset
import Keymap.Family

namespace Keymap.Drawing

structure KeyPlace where
  layer : String
  place : Nat
  deriving DecidableEq, Repr

namespace KeyPlace

def selector (k : KeyPlace) (element : String) : String :=
  s!"    .layer-{k.layer} .keypos-{k.place} {element}"

def rectangles (ks : List KeyPlace) : String :=
  Text.join ",\n" (ks.map fun k => k.selector "rect")

def texts (ks : List KeyPlace) : String :=
  Text.join ",\n" (ks.map fun k => k.selector "text")

def glyphs (ks : List KeyPlace) : String :=
  Text.join ",\n" (ks.map fun k => Text.replace " text" " use" (k.selector "text"))

end KeyPlace

def layerKeys : List String := ["lt:", "osl:"]

def keysOn (keymap : List Layer) (size : LayoutSize) (starts : List String) (name : Document) :
    Result (List KeyPlace) := do
  match ← lookupLayer keymap name with
  | none => return []
  | some layer => return (← places starts layer size).map fun i => ⟨name.toText, i⟩

def oneShotKeys (size : LayoutSize) (layers : List Layer) : Result (List KeyPlace) := do
  let found ← (layers.filter fun l => l.core.isSome).mapM fun layer => do
    return (← places ["osl:"] layer size).map fun i => KeyPlace.mk layer.title i
  return found.flatten

def modifierKeys (keymap : List Layer) (size : LayoutSize) (bases : List Document) :
    Result (List KeyPlace) := do
  let found ← bases.mapM fun base => do
    let homeRow ← keysOn keymap size ["hrm:"] base
    let modTaps ← keysOn keymap size ["mt:"] base
    return homeRow ++ modTaps
  return found.flatten

def activatorsOn (layer : Layer) (size : LayoutSize) : Result (List (String × Nat)) := do
  let codes ← drawnCodes layer size
  return codes.zipIdx.filterMap fun (code, i) =>
    if layerKeys.any (Text.startsWith code) then
      ((Text.split ':' code)[1]?).map fun name => (name, i)
    else none

def firstOnly (found entries : List (String × Nat)) : List (String × Nat) :=
  entries.foldl (fun acc e => if (acc.lookup e.1).isSome then acc else acc ++ [e]) found

/-- The keys that hold each layer on the first base layer; the last one counts. -/
def firstActivators (keymap : List Layer) (size : LayoutSize) (bases : Document) :
    Result (List (String × Nat)) := do
  let base ← bases.item 0
  match ← lookupLayer keymap base with
  | none => throw (.noEntry base)
  | some layer => return assignAll [] (← activatorsOn layer size)

/-- The key that holds each layer: the first one on the drawn base layers, or the last one on the
first base layer if none is drawn. -/
def activators (keymap : List Layer) (size : LayoutSize) (bases : Document)
    (drawn : List Layer) : Result (List KeyPlace) := do
  let found ←
    if !bases.isPresent then pure []
    else if drawn.isEmpty then firstActivators keymap size bases
    else do
      let here := (← bases.members).filterMap fun base => drawn.find? fun l => l.name.same base
      let each ← here.mapM fun l => activatorsOn l size
      pure (firstOnly [] each.flatten)
  return found.map fun (name, i) => ⟨name, i⟩

def whiteText : String :=
  Text.unlines [" \x7b", "      fill: white !important;", "    \x7d", ""]

def activatorRules (ks : List KeyPlace) : String :=
  if ks.isEmpty then ""
  else
    KeyPlace.rectangles ks ++
    Text.unlines [
      " \x7b",
      "      fill: #FF9800 !important;",
      "      stroke: none !important;",
      "    \x7d",
      ""] ++
    KeyPlace.texts ks ++ whiteText ++ KeyPlace.glyphs ks ++ whiteText

def styleOpening : String := Text.unlines [
  "",
  "",
  "    /* Normalize layer activator text styling */",
  "    text.layer-activator \x7b",
  "      text-decoration: none !important;",
  "    \x7d",
  "",
  "    /* Remove bold from hold text (layer names on modifier keys) */",
  "    text.hold \x7b",
  "      font-weight: normal !important;",
  "    \x7d",
  "",
  "    /* Highlight layer activators (lt/osl) with bright green */",
  ""]

def styleClosing : String := Text.unlines [
  "",
  "",
  "    /* Style shifted keys (sm: syntax) to be larger and more visible */",
  "    text.shifted \x7b",
  "      font-size: 18px !important;",
  "      font-weight: 600 !important;",
  "      fill: #555 !important;",
  "    \x7d",
  "",
  "    /* Make sure ghost keys (on other layers) are clearly different */",
  "    .key.ghost rect \x7b",
  "      opacity: 0.3 !important;",
  "    \x7d",
  ""]

def styleSheet (keymap : List Layer) (size : LayoutSize) (bases : Document)
    (drawn : Option (List Layer)) : Result String := do
  let names ← bases.members
  let onBases ← names.mapM (keysOn keymap size layerKeys)
  let oneShot ← oneShotKeys size (drawn.getD keymap)
  let reaching := onBases.flatten ++ oneShot
  let modifiers ← modifierKeys keymap size names
  let holding ← activators keymap size bases (drawn.getD [])
  return styleOpening ++ KeyPlace.rectangles reaching ++
    Text.unlines [
      " \x7b",
      "      fill: #4CAF50 !important;",
      "      stroke: none !important;",
      "      opacity: 1 !important;",
      "    \x7d",
      ""] ++
    KeyPlace.texts reaching ++ whiteText ++ KeyPlace.glyphs reaching ++ whiteText ++
    Text.unlines [
      "",
      "    /* Highlight home row mods and mod-tap keys with lighter green stroke on all BASE layers */",
      ""] ++
    KeyPlace.rectangles modifiers ++
    Text.unlines [
      " \x7b",
      "      stroke: #66BB6A !important;",
      "      stroke-width: 2 !important;",
      "    \x7d",
      "",
      "    /* On other layers, highlight the key that keeps you on that layer */",
      ""] ++
    activatorRules holding ++ styleClosing

end Keymap.Drawing
