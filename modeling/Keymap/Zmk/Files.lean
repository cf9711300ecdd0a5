import Keymap.Zmk.Combos
import Keymap.Zmk.Layers

namespace Keymap.Zmk

structure Settings where
  keycodes : Entries := []
  magicTraining : Bool := false
  comboTraining : Bool := true
  behaviors : Behaviors := {}
  deriving Inhabited

structure Progress where
  macros : List String := ["github_url"]
  table : BehaviorTable := []
  deriving Inhabited

def Progress.start (settings : Settings) (file : Option String) : Progress :=
  { table := seedBehaviors settings.behaviors ((file.map readBehaviors).getD []) }

/-- The file of behaviours as a generator finds it. -/
inductive BehaviorsFile where
  | absent
  | refused
  | contents (bytes : ByteArray)

/-- A file that is refused counts as none. One that is read has to be a text. -/
def Progress.ofFile (settings : Settings) : BehaviorsFile → Result Progress
  | .absent | .refused => .ok (start settings none)
  | .contents bytes =>
    match String.fromUTF8? bytes with
    | some text => .ok (start settings (some (Text.unixLines text)))
    | none => .error (.malformed "'utf-8' codec can't decode the contents")

def unreadBehaviors (path : String) (fault : Fault) : String :=
  s!"Warning: Could not read behaviors dtsi file {path}: {fault.message}"

structure Source where
  board : Board
  layers : List CompiledLayer
  combos : List Combo := []
  magic : Option MagicConfig := none
  morphs : List (Document × Document) := []
  deriving Inhabited

abbrev Generating := ExceptT Fault (StateM Progress)

def define (settings : Settings) (requests : List (Result MacroRequest)) : Generating (List String) := do
  let progress ← getThe Progress
  let (result, macros) := defineMacros settings.keycodes progress.macros requests
  set { progress with macros }
  match result with
  | .ok definitions => return definitions
  | .error fault => throw fault

def defineComboMacros (settings : Settings) (combos : List Combo) : Generating (List String) :=
  define settings (comboRequests combos)

def defineMagicMacros (settings : Settings) (magic : MagicConfig) :
    Generating (List String × MacroRefs) := do
  return (← define settings (magicRequests magic), magicRefs magic)

def homeRow (settings : Settings) (size : LayoutSize) : Generating String := do
  modifyThe Progress fun p => { p with table := withHomeRow settings.behaviors size p.table }
  return homeRowSection settings.behaviors size

def timingOverride (name : String) (t : Timing) : List String :=
  [s!"&{name} \x7b",
   s!"    tapping-term-ms = <{t.tappingTerm.toText}>;",
   s!"    quick-tap-ms = <{t.quickTap.toText}>;",
   s!"    flavor = \"{t.flavor.toText}\";",
   "\x7d;"]

def layerDefines (layers : List CompiledLayer) : List String :=
  layers.zipIdx.map fun (l, i) => s!"#define {l.name.toText} {i}"

def behaviorSections (settings : Settings) (table : BehaviorTable) (refs : MacroRefs)
    (s : Source) : Result (List String × Replacements) := do
  let config := s.magic.getD []
  let magicPart ← if config.isEmpty then pure []
    else do pure [← magicSection settings.keycodes table refs config]
  let (trainingPart, replacements) ←
    if config.isEmpty || !settings.magicTraining then pure ([], [])
    else do
      let (text, r) ← magicTrainingSection settings.keycodes table refs config s.layers
      pure ([text], r)
  let (comboPart, comboReplacements) ←
    if s.combos.isEmpty || !settings.comboTraining then pure ([], [])
    else do
      let (text, r) ← comboTrainingSection settings.keycodes table s.combos s.layers
      pure (if text.isEmpty then [] else [text], r)
  let morphPart ← if s.morphs.isEmpty then pure []
    else do pure [← shiftMorphs settings.keycodes s.morphs]
  return (magicPart ++ trainingPart ++ comboPart ++ morphPart,
    mergeReplacements replacements comboReplacements)

def keymapFile (settings : Settings) (s : Source) : Generating String := do
  let size := s.board.layoutSize
  let combos ← if s.combos.isEmpty then pure ""
    else do pure ("\n" ++ (← liftM (combosSection s.combos (s.layers.map (·.name)) size)))
  let comboMacros ← defineComboMacros settings s.combos
  let (magicMacros, refs) ← defineMagicMacros settings (s.magic.getD [])
  let definitions := comboMacros ++ magicMacros
  let macros := if definitions.isEmpty then "" else "\n" ++ wrapMacros definitions
  let home ← homeRow settings size
  let table := (← getThe Progress).table
  let (sections, replacements) ← liftM (behaviorSections settings table refs s)
  let layers ← liftM (s.layers.mapM (layerNode size replacements s.magic))
  let shield := if s.board.zmkShield.isPresent then s.board.zmkShield else s.board.zmkBoard
  return Text.unlines (
    ["// AUTO-GENERATED - DO NOT EDIT",
     "// Generated from config/keymap.yaml",
     s!"// Board: {s.board.name.toText}",
     s!"// Shield/Board: {shield.toText}",
     "",
     "#include <behaviors.dtsi>",
     "#include <dt-bindings/zmk/keys.h>",
     "#include <dt-bindings/zmk/bt.h>",
     "#include \"dario_behaviors.dtsi\"",
     "",
     "// Behavior timing overrides (from config/keymap.yaml)"] ++
    timingOverride "lt" settings.behaviors.layerTap ++ [""] ++
    timingOverride "mt" settings.behaviors.modTap ++ [""] ++
    layerDefines s.layers ++
    ["",
     "/ \x7b",
     combos,
     macros ++ Text.join "\n" (home :: sections),
     "    keymap \x7b",
     "        compatible = \"zmk,keymap\";",
     "",
     Text.join "\n\n" layers,
     "    \x7d;",
     "\x7d;",
     ""])

end Keymap.Zmk
