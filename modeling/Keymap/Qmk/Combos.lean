import Keymap.Combo
import Keymap.Qmk.Magic

namespace Keymap.Qmk

open Document (Number)

def positionOn42 (p : Number) : Number :=
  if p.isAtLeast 30 then p.plus 6
  else ((p.floorDiv 10).times 12).sum ((p.floorMod 10).plus 1)

def positionOn58 (p : Number) : Number :=
  if p.isAtLeast 30 then (p.plus (-30)).plus 49
  else (((p.floorDiv 10).times 12).plus 12).sum ((p.floorMod 10).plus 1)

def placeAll (place : Number → Number) (positions : Document) : Result Document := do
  return .list (← (← positions.members).mapM fun p => do
    return (place (← p.comparable ">=")).toDocument)

def boardPositions (size : LayoutSize) (positions : Document) : Result Document :=
  match size with
  | .split42 => placeAll positionOn42 positions
  | .custom "58_from_3x6" => placeAll positionOn58 positions
  | _ => .ok positions

def silentKeys : List String := ["NONE", "TRANS", "XXX", "_______"]

def firstBase : List Layer → Result Document
  | [] => .ok .null
  | l :: ls => do
    if Text.startsWith (← l.name.word "startswith") "BASE_" then return l.name else firstBase ls

def lookupLayer (combo : Combo) (layers : List Layer) : Result Document := do
  if combo.layers.isPresent then combo.layers.item 0 else firstBase layers

def tapName (key : String) : String :=
  let parts := Vocabulary.parts key
  if Text.startsWith key "hrm:" || Text.startsWith key "mt:" || Text.startsWith key "lt:" then
    if parts.length ≥ 3 then parts.getLast?.getD key else key
  else if Text.startsWith key "sm:" then
    if parts.length ≥ 3 then parts[1]?.getD key else key
  else key

def entryKeycode (vocabulary : Option Vocabulary) (entry : Entry) : Result Document :=
  match vocabulary, entry with
  | some v, entry => value v entry.text
  | none, .key code => .ok (.text ("KC_" ++ tapName code))
  | none, .position _ => .error (.lacking "dict" "startswith")

def comboKeycode (vocabulary : Option Vocabulary) (combo : Combo) (layer : String)
    (entries : List Entry) (p : Document) : Result Document := do
  if ← p.isAtLeast entries.length then
    .error (.refused (s!"Combo '{combo.title}' references position {p.toText} but layer " ++
      s!"'{layer}' only has {entries.length} core keys"))
  let entry ← Document.elementBy entries p
  if let .key code := entry then
    if silentKeys.contains code then
      .error (.refused (s!"Combo '{combo.title}' references position {p.toText} which has a " ++
        s!"transparent/none key in layer '{layer}'"))
  entryKeycode vocabulary entry

def comboKeycodes (vocabulary : Option Vocabulary) (layers : List Layer) (combo : Combo) :
    Result (List Document) := do
  let refuse := fun (reason : String) =>
    (.error (.refused s!"Combo '{combo.title}' {reason}") : Result (List Document))
  if layers.isEmpty then refuse "requires raw_layers for keycode lookup"
  else
    let name ← lookupLayer combo layers
    if !name.isPresent then refuse "has no valid layer for keycode lookup"
    else
      let _ ← name.asField
      match layers.find? fun l => l.name.same name with
      | none => refuse s!"references layer '{name.toText}' which doesn't exist"
      | some layer =>
        match layer.core with
        | none => refuse s!"references layer '{name.toText}' which has no core layout"
        | some core =>
          let entries ← core.byPosition
          (← combo.positions.members).mapM (comboKeycode vocabulary combo name.toText entries)

def capitals (combo : Combo) : Result String :=
  (combo.name.word "upper").map Text.upper

def eventName (combo : Combo) : Result String := do
  return "COMBO_" ++ (← capitals combo)

def textKeyName (combo : Combo) : Result String := do
  return "MACRO_" ++ (← capitals combo)

def comboTextKeys (combos : List Combo) : Result TextKeys :=
  (combos.filter fun c => !c.macroText.isNull).mapM fun c => do
    return (← textKeyName c, c.macroText.toText)

def actionKeycode (combo : Combo) : Result String :=
  if !combo.macroText.isNull then textKeyName combo
  else if combo.action.isWord "DFU" then .ok "QK_BOOT"
  else .ok ("KC_" ++ combo.action.toText)

def sequenceLine (combo : Combo) (keys : String) : String :=
  s!"const uint16_t PROGMEM {combo.title}_combo[] = \x7b{keys}, COMBO_END\x7d;"

def definitionLine (combo : Combo) : Result String := do
  let event ← eventName combo
  let action ← actionKeycode combo
  return s!"    [{event}] = COMBO({combo.title}_combo, {action})"

structure ComboFilter where
  event : String
  named : List String
  tested : List String
  deriving DecidableEq, Repr

namespace ComboFilter

def lines (f : ComboFilter) : String :=
  Text.unlines [
    s!"        case {f.event}:",
    "            // Only active on " ++ Text.join ", " f.named,
    "            return (" ++ Text.join " || " (f.tested.map fun l => s!"layer == {l}") ++ ");"]

def function (filters : List ComboFilter) : String :=
  Text.unlines [
    "",
    "// Layer filtering",
    "bool combo_should_trigger(uint16_t combo_index, combo_t *combo, uint16_t keycode, " ++
      "keyrecord_t *record) \x7b",
    "    uint8_t layer = get_current_base_layer();",
    "",
    "    switch (combo_index) \x7b",
    Text.unlines (filters.map lines),
    "        default:",
    "            return true;  // Other combos active on all layers",
    "    \x7d",
    "\x7d",
    ""]

end ComboFilter

def combosHeader (combos : List Combo) : Result String := do
  if combos.isEmpty then return ""
  let events ← combos.mapM eventName
  return Text.unlines [
    "// AUTO-GENERATED - DO NOT EDIT",
    "// Generated combo definitions from config/keymap.yaml",
    "",
    "#pragma once",
    "",
    "#ifdef COMBO_ENABLE",
    "",
    "#include \"quantum.h\"",
    "",
    "// Combo indices",
    "enum combo_events \x7b",
    "    " ++ Text.join ",\n    " events ++ ",",
    "    COMBO_LENGTH",
    "\x7d;",
    "",
    "// Combo configuration",
    "#define COMBO_LEN COMBO_LENGTH",
    "",
    "// External combo array declaration",
    "extern combo_t key_combos[];",
    "",
    "#endif  // COMBO_ENABLE",
    ""]

/-- The filters of combos as a file of their own: layers that are not compiled are not tested, and a
combo with nothing to test has no filter. -/
def knownFilter? (layerNames : List Document) (combo : Combo) : Result (Option ComboFilter) := do
  if combo.layers.isNull then return none
  let event ← eventName combo
  let named ← combo.layers.members
  match named.filter fun n => layerNames.any fun m => m.same n with
  | [] => return none
  | tested =>
    return some ⟨event, ← Document.checkTextsFrom 0 named, tested.map Document.toText⟩

def knownFilters (combos : List Combo) (layerNames : List Document) :
    Result (List ComboFilter) := do
  return (← combos.mapM (knownFilter? layerNames)).filterMap id

def combosSource (combos : List Combo) (layerNames : List Document) (size : LayoutSize) :
    Result String := do
  if combos.isEmpty then return ""
  let sequences ← combos.mapM fun c => do
    let _ ← capitals c
    let positions ← (← boardPositions size c.positions).members
    return sequenceLine c (Text.join ", " (positions.map Document.toText))
  let definitions ← combos.mapM definitionLine
  let filters ← knownFilters combos layerNames
  let filtered := combos.any fun c => !c.layers.isNull
  return Text.unlines [
    "// AUTO-GENERATED - DO NOT EDIT",
    "// Generated combo processing logic from config/keymap.yaml",
    "",
    "#include \"dario.h\"",
    "#include \"combos.h\"",
    "",
    "#ifdef COMBO_ENABLE",
    "",
    "// Combo key sequences",
    Text.unlines sequences,
    "",
    "// Combo definitions",
    "combo_t key_combos[] = \x7b",
    Text.join ",\n" definitions,
    "\x7d;",
    "",
    (if filtered then ComboFilter.function filters else ""),
    "#endif  // COMBO_ENABLE",
    ""]

def namedFilter? (combo : Combo) : Result (Option ComboFilter) := do
  if !combo.layers.isPresent then return none
  let event ← eventName combo
  let named ← combo.layers.members
  return some ⟨event, ← Document.checkTextsFrom 0 named, named.map Document.toText⟩

def namedFilters (combos : List Combo) : Result (List ComboFilter) := do
  return (← combos.mapM namedFilter?).filterMap id

def textHandler (key : String × String) : String :=
  Text.unlines [
    s!"        case {key.1}:",
    "            if (record->event.pressed) \x7b",
    "                SEND_STRING(\"" ++ key.2 ++ "\");",
    "            \x7d",
    "            return false;"]

def textHandlers (keys : TextKeys) : String :=
  if keys.isEmpty then ""
  else Text.unlines [
    "",
    "",
    "// Combo macro handlers",
    "bool process_combo_macros(uint16_t keycode, keyrecord_t *record) \x7b",
    "    switch (keycode) \x7b",
    Text.unlines (keys.map textHandler),
    "        default:",
    "            return true;",
    "    \x7d",
    "\x7d",
    ""]

def textEnum (keys : TextKeys) : String :=
  if keys.isEmpty then ""
  else Text.unlines [
    "",
    "// Combo macro keycodes",
    "enum combo_macros \x7b",
    Text.join ",\n" ((numberedFrom "SAFE_RANGE" (keys.map (·.1))).map Enumerator.render),
    "\x7d;",
    ""]

def combosInline (vocabulary : Option Vocabulary) (layers : List Layer) (combos : List Combo)
    (withEnum : Bool) : Result String := do
  if combos.isEmpty then return ""
  let sequences ← combos.mapM fun c => do
    return sequenceLine c (← Document.joinTexts ", " (← comboKeycodes vocabulary layers c))
  let definitions ← combos.mapM definitionLine
  let events ← combos.mapM eventName
  let filters ← namedFilters combos
  let keys ← comboTextKeys combos
  return Text.unlines [
    "",
    "#ifdef COMBO_ENABLE",
    (if withEnum then textEnum keys else ""),
    "// Combo indices",
    "enum combo_events \x7b",
    "    " ++ Text.join ",\n    " events ++ ",",
    "    COMBO_LENGTH",
    "\x7d;",
    "",
    "#define COMBO_COUNT COMBO_LENGTH",
    "",
    "// Combo key sequences",
    Text.unlines sequences,
    "",
    "// Combo definitions",
    "combo_t key_combos[] = \x7b",
    Text.join ",\n" definitions,
    "\x7d;",
    "",
    (if filters.isEmpty then "" else "\n" ++ ComboFilter.function filters) ++ textHandlers keys,
    "#endif  // COMBO_ENABLE",
    ""]

def beforeLastParen (cs : List Char) : Option (List Char) :=
  let line := cs.takeWhile (· != '\n')
  match line.reverse.dropWhile (· != ')') with
  | _ :: c :: before => some (c :: before).reverse
  | _ => none

/-- Gives back blanks one at a time until something stands before the last parenthesis. -/
def tapAfterBlanks : List Char → Option (List Char)
  | [] => none
  | c :: cs =>
    if Text.isBlank c then
      match tapAfterBlanks cs with
      | some tap => some tap
      | none => beforeLastParen (c :: cs)
    else beforeLastParen (c :: cs)

def modTap? (cs : List Char) : Option (List Char) :=
  let mod := cs.takeWhile fun c => 'A' ≤ c && c ≤ 'Z'
  match cs.dropWhile fun c => 'A' ≤ c && c ≤ 'Z' with
  | '_' :: 'T' :: '(' :: rest => if mod.isEmpty then none else beforeLastParen rest
  | _ => none

def layerTap? : List Char → Option (List Char)
  | 'L' :: 'T' :: '(' :: rest =>
    match rest.dropWhile (· != ',') with
    | ',' :: after => if rest.head? = some ',' then none else tapAfterBlanks after
    | _ => none
  | _ => none

def tapKeycode? (keycode : String) : Option String :=
  if ["XXXXXXX", "_______", "KC_NO", "KC_TRNS"].contains keycode then none
  else match modTap? keycode.toList with
    | some tap => some (String.ofList tap)
    | none => match layerTap? keycode.toList with
      | some tap => some (String.ofList tap)
      | none => some keycode

def baseKeycode? (d : Document) : Result (Option String) :=
  match d with
  | .text keycode => .ok (tapKeycode? keycode)
  | d => .error (.mismatch s!"expected string or bytes-like object, got '{d.kind}'")

end Keymap.Qmk
