import Keymap.Qmk.Combos
import Keymap.Qmk.Layout
import Keymap.Qmk.Overrides
import Keymap.Qmk.Training

namespace Keymap.Qmk

structure Settings where
  keycodes : Entries := []
  comboTraining : Bool := true
  vocabulary : Option Vocabulary := none
  deriving Inhabited

structure Source where
  board : Board
  layers : List CompiledLayer
  combos : List Combo := []
  magic : Option MagicConfig := none
  rawLayers : List Layer := []
  morphs : List (Document × Document) := []
  deriving Inhabited

def extraEnumerators (extra : List String) (lastLayer : String) : List Enumerator :=
  match extra.reverse with
  | [] => []
  | last :: before => before.reverse.map (fun n => ⟨n, none⟩) ++ [⟨last, some s!"{lastLayer} + 1"⟩]

def extraLayerNames (board : Board) : Result (List String) := do
  let _ ← board.extraLayers.length
  Document.checkTextsFrom 0 (← board.extraLayers.members)

def extraLayers (board : Board) (layers : List CompiledLayer) : Result String := do
  let extra ← extraLayerNames board
  if extra.isEmpty then return ""
  let lastLayer := (layers.getLast?.map (·.name.toText)).getD "MEDIA"
  let members := (extraEnumerators extra lastLayer).map fun e =>
    match e.value with
    | some v => s!"{e.name} = {v}"
    | none => e.name
  return Text.unlines [
    "",
    "// Board-specific layers (extend standard enum from dario.h)",
    "enum \x7b",
    "    " ++ Text.join ", " members ++ "  // Continue from last standard layer",
    "\x7d;",
    ""]

def layerDefinition (size : LayoutSize) (layer : CompiledLayer) : Result String := do
  let call ← layerText size layer
  return s!"    [{layer.name.toText}] = {call},"

def keymapFile (settings : Settings) (s : Source) : Result String := do
  let definitions ← s.layers.mapM (layerDefinition s.board.layoutSize)
  let extra ← extraLayers s.board s.layers
  let comboTexts ← comboTextKeys s.combos
  let (magicCode, magicTexts) ← magicKeys settings.keycodes s.magic s.layers
  let handlers := if magicTexts.isEmpty then ""
    else "\n" ++ magicHandlers (sortedKeys magicTexts)
  let combos ← if s.combos.isEmpty then pure ""
    else do pure ("\n" ++ (← combosInline settings.vocabulary s.rawLayers s.combos false))
  let overrides ← if s.morphs.isEmpty then pure ""
    else do pure ("\n" ++ (← keyOverrides settings.keycodes s.morphs))
  let training ← trainingCheck settings.comboTraining s.combos
  return Text.unlines [
    "// AUTO-GENERATED - DO NOT EDIT",
    "// Generated from config/keymap.yaml by scripts/generate.py",
    s!"// Board: {s.board.name.toText}",
    "// Firmware: QMK",
    "",
    "#include \"dario.h\"",
    customEnum (comboTexts.map (·.1)) (sortedNames magicTexts),
    extra,
    "const uint16_t PROGMEM keymaps[][MATRIX_ROWS][MATRIX_COLS] = \x7b",
    Text.unlines definitions,
    "\x7d;",
    combos ++ magicCode ++ handlers ++ training ++ overrides]

def configFile (board : Board) : String :=
  Text.unlines [
    "// AUTO-GENERATED - DO NOT EDIT",
    "// Generated from config/keymap.yaml by scripts/generate.py",
    s!"// Board: {board.name.toText}",
    "",
    "#pragma once",
    ""]

def rulesFile (board : Board) : String :=
  Text.unlines [
    "# AUTO-GENERATED - DO NOT EDIT",
    "# Generated from config/boards.yaml by scripts/generate.py",
    s!"# Board: {board.name.toText}",
    "",
    "# User name for userspace integration",
    "USER_NAME := dario",
    "",
    "# Include board-specific features if they exist",
    s!"-include $(USER_PATH)/../../config/boards/{board.id.toText}.mk",
    "",
    "# Include global QMK rules if they exist",
    "-include $(USER_PATH)/../../config/global/rules.mk",
    ""]

def boxes (keys : List Document) : Result String := do
  return "│ " ++ Text.join " │ " (← keys.mapM (Document.padded 7)) ++ " │"

def picturedRows : List (List Nat × List Nat) :=
  [([0, 1, 2, 3, 4], [15, 16, 17, 18, 19]),
   ([5, 6, 7, 8, 9], [20, 21, 22, 23, 24]),
   ([10, 11, 12, 13, 14], [25, 26, 27, 28, 29])]

def keysAt (keys : List Document) (positions : List Nat) : List Document :=
  positions.map fun i => keys[i]?.getD ""

def boxesOfHands (left right : List Document) : Result String := do
  let leftBoxes ← boxes left
  return leftBoxes ++ "   " ++ (← boxes right)

def pictureRow (keys : List Document) (row : List Nat × List Nat) : Result String :=
  boxesOfHands (keysAt keys row.1) (keysAt keys row.2)

def picture36 (keys : List Document) : Result String := do
  let rule := "├─────────┼─────────┼─────────┼─────────┼─────────┤"
  let indent := Text.spaces 30
  let rows ← picturedRows.mapM (pictureRow keys)
  let upperThumbs ← boxesOfHands (keysAt keys [30, 31]) (keysAt keys [34, 35])
  let lowerThumbs ← boxesOfHands (keysAt keys [32] ++ [Document.text ""]) ["", ""]
  return Text.unlines (
    ["",
     "╭─────────┬─────────┬─────────┬─────────┬─────────╮   " ++
       "╭─────────┬─────────┬─────────┬─────────┬─────────╮"] ++
    rows.intersperse (rule ++ "   " ++ rule) ++
    ["╰─────────┴─────────┴─────────┼─────────┼─────────┤   " ++
       "├─────────┼─────────┼─────────┴─────────┴─────────╯",
     indent ++ upperThumbs,
     indent ++ lowerThumbs,
     indent ++ "╰─────────┴─────────╯   ╰─────────┴─────────╯",
     ""])

def layerPicture (size : LayoutSize) (layer : CompiledLayer) : Result String :=
  match size, layer.keycodes.length with
  | .split36, 36 => picture36 layer.keycodes
  | _, _ => .ok (Text.unlines (layer.keycodes.zipIdx.map fun (key, i) =>
      s!"{Text.padLeft 2 (toString i)}: {key.toText}"))

def readmeFile (board : Board) (layers : List CompiledLayer) : Result String := do
  let pictures ← layers.mapM fun l => do
    let picture ← layerPicture board.layoutSize l
    return s!"## {l.name.toText} Layer\n\n```\n{picture}\n```\n"
  return Text.unlines [
    s!"# Keymap for {board.name.toText}",
    "",
    "**Auto-generated from config/keymap.yaml**",
    "",
    "Do not edit this file directly. Edit config/keymap.yaml instead and regenerate.",
    "",
    "## Build",
    "",
    "```bash",
    s!"qmk compile -kb {board.qmkKeyboard.toText} -km dario",
    "```",
    "",
    "## Layers",
    "",
    Text.unlines pictures,
    "",
    "---",
    "",
    "*Generated by scripts/generate.py*",
    ""]

def files (settings : Settings) (s : Source) : Result (List (String × String)) := do
  let keymap ← keymapFile settings s
  return [("keymap.c", keymap), ("config.h", configFile s.board), ("rules.mk", rulesFile s.board),
    ("README.md", ← readmeFile s.board s.layers)]

end Keymap.Qmk
