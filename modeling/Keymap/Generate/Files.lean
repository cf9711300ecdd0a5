import Keymap.Generate.Configuration
import Keymap.OneShot
import Keymap.Qmk.Files
import Keymap.Zmk.Files

namespace Keymap.Generate

def includes (board : Board) (layer : Layer) : Result Bool :=
  if layer.fullLayout.isNone || board.keymapFile.isPresent then .ok true
  else board.extraLayers.holds layer.name

def layersHeaderPath : String := "qmk/users/dario/layers.gen.h"

def layersHeader (names : List Document) : Result String := do
  let enumerators ← Document.joinTexts ",\n    " names
  return Text.unlines [
    "// AUTO-GENERATED - DO NOT EDIT",
    "// Generated from config/keymap.yaml by scripts/generate.py",
    "",
    "#pragma once",
    "",
    "// Layer definitions",
    "// NOTE: Order must match config/keymap.yaml",
    "enum layers \x7b",
    "    " ++ enumerators,
    "\x7d;",
    ""]

def morphKeys (morphs : List ShiftMorph) : List (Document × Document) :=
  morphs.map fun (base, shifted) => (.text base, .text shifted)

def qmkFiles (c : Configuration) (comboTraining : Bool) (board : Board)
    (layers : List CompiledLayer) (rawLayers : List Layer) (morphs : List ShiftMorph) :
    Result (List (String × String)) :=
  Qmk.files { keycodes := c.keycodes, comboTraining, vocabulary := some c.vocabulary }
    { board, layers, combos := c.combos, magic := some c.magic, rawLayers,
      morphs := morphKeys morphs }

def magicLines (m : MagicMapping) : Result (List String) := do
  let mappings := (← m.mappings.entries).map fun (previous, alternate) =>
    s!"  - {previous.text} → {alternate.toText}"
  return [s!"### {m.title}",
    s!"- default: {m.default.toText}",
    s!"- timeout_ms: {m.timeout.toText}",
    "- mappings:"] ++ mappings ++ [""]

def zmkReadme (c : Configuration) (board : Board) (pictures : String) : Result String := do
  let mappings ← List.mapM magicLines c.magic
  let magic := if c.magic.isEmpty then [] else "## Magic Key Mappings" :: mappings.flatten
  let lines := [s!"# {board.name.toText} - ZMK Keymap", "", pictures] ++ magic
  return Text.trimEnd (Text.unlines lines) ++ "\n"

def zmkFiles (c : Configuration) (options : Options) (behaviors : Option String) (board : Board)
    (layers : List CompiledLayer) (morphs : List ShiftMorph) : Result (List (String × String)) := do
  let settings : Zmk.Settings := {
    keycodes := c.keycodes
    magicTraining := options.magicTraining
    comboTraining := options.comboTraining
    behaviors := c.keymap.behaviors }
  let source : Zmk.Source :=
    { board, layers, combos := c.combos, magic := some c.magic, morphs := morphKeys morphs }
  let start := Zmk.Progress.start settings behaviors
  let keymap ← ((Zmk.keymapFile settings source).run.run start).1
  let pictures ← Zmk.readmeFile board layers
  return assignAll [] [(s!"{board.zmkShield.toText}.keymap", keymap),
    ("README.md", ← zmkReadme c board pictures)]

end Keymap.Generate
