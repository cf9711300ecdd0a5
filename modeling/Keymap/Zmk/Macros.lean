import Keymap.Combo
import Keymap.Rows
import Keymap.Zmk.Keys
import Keymap.Zmk.Encode

namespace Keymap.Zmk

structure Macro where
  name : String
  groups : List (List String)
  deriving DecidableEq, Repr

namespace Macro

def ofPieces (keycodes : Entries) (name : String) (pieces : List String) : Result Macro := do
  return ⟨name, chunks 10 (← keyPresses keycodes pieces)⟩

def ofDocument (keycodes : Entries) (name sequence : Document) : Result Macro := do
  let pieces ← sequence.members
  let m ← ofPieces keycodes name.toText (pieces.map Document.toText)
  let _ ← name.word "upper"
  return m

def groupLine (keys : List String) : String :=
  "                , <&macro_tap " ++ Text.join " " keys ++ ">"

def head (m : Macro) : List String :=
  [s!"        {m.name}: {m.name}_macro \x7b",
   "            compatible = \"zmk,behavior-macro\";",
   s!"            label = \"{Text.upper m.name}\";",
   "            #binding-cells = <0>;",
   "            bindings"]

def render (m : Macro) : String :=
  Text.unlines (m.head ++
    ["                = <&macro_wait_time 10>",
     "                , <&macro_tap_time 10>"] ++
    m.groups.map groupLine ++
    ["                ;",
     "        \x7d;"])

def renderPlain (m : Macro) : String :=
  Text.unlines (m.head ++
    [Text.unlines (m.groups.map groupLine),
     "                ;",
     "        \x7d;"])

end Macro

def wrapMacros (definitions : List String) : String :=
  "    macros \x7b\n" ++ Text.unlines definitions ++ "\n    \x7d;\n"

def comboMacroTree (keycodes : Entries) (combos : List Combo) : Result String := do
  let texts := combos.filter fun c => !c.macroText.isNull
  if texts.isEmpty then return ""
  let definitions ← texts.mapM fun c => do
    let name := Text.lower (← c.name.word "lower")
    return (← Macro.ofDocument keycodes name c.macroText).renderPlain
  return Text.unlines (
    ["", "/ \x7b", "    macros \x7b", Text.unlines definitions, "    \x7d;", "\x7d;", ""])

abbrev MacroRequest := String × Document

/-- Defines the macros that are not yet defined, in order, up to the first request that fails. Also
returns the names defined so far, which are kept when a definition fails. -/
def defineMacros (keycodes : Entries) (defined : List String) :
    List (Result MacroRequest) → Result (List String) × List String
  | [] => (.ok [], defined)
  | .error fault :: _ => (.error fault, defined)
  | .ok (name, typed) :: rest =>
    if defined.contains name then defineMacros keycodes defined rest
    else match Macro.ofDocument keycodes name typed with
      | .error fault => (.error fault, defined)
      | .ok m =>
        let (texts, names) := defineMacros keycodes (defined ++ [name]) rest
        (texts.map (m.render :: ·), names)

def comboRequests (combos : List Combo) : List (Result MacroRequest) :=
  (combos.filter fun c => !c.macroText.isNull).map fun c => do
    return (Text.lower (← c.name.word "lower"), c.macroText)

def magicMacroName (baseLayer previous : String) : String :=
  let fragment := labelOf previous
  let fragment := if fragment = "key" then
      "chr_" ++ Text.join "_" (previous.toList.map fun c => toString c.toNat)
    else fragment
  s!"magic_{familyLabel baseLayer}_{fragment}"

abbrev MacroRefs := List ((String × String) × String)

abbrev MagicText := (String × String) × List String

def textsOf (m : MagicMapping) : Result (List MagicText) := do
  let base ← m.baseLayer.word "lower"
  return (← m.mappings.entries).filterMap fun (previous, alternate) =>
    match textPieces alternate with
    | [] => none
    | pieces => some ((base, previous.text), pieces)

def magicTexts : MagicConfig → List (Result MagicText)
  | [] => []
  | m :: rest =>
    match textsOf m with
    | .ok texts => texts.map .ok ++ magicTexts rest
    | .error fault => [.error fault]

def magicRequests (magic : MagicConfig) : List (Result MacroRequest) :=
  (magicTexts magic).map fun text => do
    let (place, pieces) ← text
    return (magicMacroName place.1 place.2, .list (pieces.map .text))

def magicRefs (magic : MagicConfig) : MacroRefs :=
  assignAll [] ((magicTexts magic).filterMap fun text =>
    text.toOption.map fun (place, _) => (place, magicMacroName place.1 place.2))

end Keymap.Zmk
