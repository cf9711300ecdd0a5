import Keymap.Characters
import Keymap.Compile
import Keymap.Text.Identifier

/-!
The magic key in QMK: a function that maps the previous key to the key to send, for each base layer,
and custom keycodes that send texts.
-/

namespace Keymap.Qmk

def plainKeycode (keycodes : Entries) (key : String) : Result Document := do
  let absent := fun (name : String) =>
    s!"Missing QMK value for keycode '{name}' in keycodes.yaml"
  match keycodes.lookup (.word key) with
  | some entry =>
    let value ← entry.findD "qmk" .null
    if value.isPresent then return value else invalid (absent key)
  | none =>
    let unknown := s!"Unknown magic key '{key}' not found in keycodes.yaml"
    match (singleChar? key).bind fun c => (characterKeys keycodes).lookup c with
    | none => invalid unknown
    | some token =>
      if !token.toDocument.isPresent then invalid unknown
      match keycodes.lookup token with
      | none => invalid unknown
      | some entry =>
        let value ← entry.findD "qmk" .null
        if value.isPresent then return value else invalid (absent token.text)

def simpleKeycode (keycodes : Entries) (d : Document) : Result Document :=
  match d with
  | .record _ =>
    match d.getD "kc", d.getD "text" with
    | .text key, _ => plainKeycode keycodes key
    | _, .text _ => invalid "Magic key text mappings must be handled as macros"
    | _, _ => plainKeycode keycodes d.toText
  | .list items => plainKeycode keycodes (String.join (items.map Document.toText))
  | d => plainKeycode keycodes d.toText

def identifierOf (token : String) : String :=
  let plain := Text.replace " " "_" (Text.replace "KC_" "" (Text.replace "&" ""
    (Text.replace "&kp " "" token)))
  let fragment := Text.identifierFragment plain
  if fragment.isEmpty then "key" else fragment

def textKeycode (baseLayer : Document) (previous : String) : Result String := do
  let family := Text.replace "base_" "" (Text.lower (← baseLayer.word "lower"))
  let fragment := identifierOf previous
  let fragment := match fragment, singleChar? previous with
    | "key", some c => s!"CHR_{c.toNat}"
    | f, _ => f
  return Text.upper s!"MAGIC_{family}_{fragment}"

abbrev TextKeys := List (String × String)

structure MagicCase where
  label : String
  result : String
  deriving DecidableEq, Repr

structure MagicSwitch where
  baseLayer : String
  cases : List MagicCase
  deriving DecidableEq, Repr

structure MagicDefault where
  comment : String
  result : String
  deriving DecidableEq, Repr

structure MagicFunction where
  switches : List MagicSwitch
  default : MagicDefault
  deriving Repr

def magicCase (keycodes : Entries) (baseLayer : Document) (previous : Field)
    (alternate : Document) : Result (MagicCase × TextKeys) := do
  let label := (← simpleKeycode keycodes previous.toDocument).toText
  match textPieces alternate with
  | [] => return (⟨label, (← simpleKeycode keycodes alternate).toText⟩, [])
  | pieces =>
    let name ← textKeycode baseLayer previous.text
    return (⟨label, name⟩, [(name, String.join pieces)])

def magicSwitch (keycodes : Entries) (m : MagicMapping) : Result (MagicSwitch × TextKeys) := do
  let cases ← (← m.mappings.entries).mapM fun (previous, alternate) =>
    magicCase keycodes m.baseLayer previous alternate
  return (⟨m.title, cases.map (·.1)⟩, cases.flatMap (·.2))

/-- The default of the first base layer serves for all. -/
def magicDefault (keycodes : Entries) (d : Document) : Result MagicDefault := do
  match d with
  | .text "REPEAT" => return ⟨"repeat previous key", "QK_REP"⟩
  | .text "NONE" => return ⟨"do nothing", "KC_NO"⟩
  | d => return ⟨d.toText, (← simpleKeycode keycodes d).toText⟩

def magicFunction (keycodes : Entries) (layers : List CompiledLayer) (first : MagicMapping)
    (rest : MagicConfig) : Result (MagicFunction × TextKeys) := do
  layers.forM fun l => do let _ ← l.name.asField
  let present := (first :: rest).filter fun m => layers.any fun l => l.name.same m.baseLayer
  let switches ← present.mapM (magicSwitch keycodes)
  let default ← magicDefault keycodes first.default
  return (⟨switches.map (·.1), default⟩, assignAll [] (switches.flatMap (·.2)))

namespace MagicFunction

def caseLine (c : MagicCase) : String :=
  s!"            case {c.label}: return {c.result};"

def switchLines (s : MagicSwitch) : List String :=
  [s!"    // {s.baseLayer} family",
   s!"    if (base_layer == {s.baseLayer}) \x7b",
   "        switch (keycode) \x7b"] ++
  s.cases.map caseLine ++ ["        \x7d", "    \x7d", ""]

def render (f : MagicFunction) : String :=
  Text.unlines (
    ["",
     "// Magic key configuration (alternate repeat key)",
     "uint16_t get_alt_repeat_key_keycode_user(uint16_t keycode, uint8_t mods) \x7b",
     "    // Get current base layer (not active overlay)",
     "    uint8_t base_layer = get_current_base_layer();",
     "    "] ++
    f.switches.flatMap switchLines ++
    [s!"    // Default: {f.default.comment}",
     s!"    return {f.default.result};",
     "\x7d",
     ""])

end MagicFunction

def magicKeys (keycodes : Entries) (magic : Option MagicConfig) (layers : List CompiledLayer) :
    Result (String × TextKeys) :=
  match magic with
  | none | some [] => .ok ("", [])
  | some (first :: rest) =>
    (magicFunction keycodes layers first rest).map fun r => (r.1.render, r.2)

structure Enumerator where
  name : String
  value : Option String := none
  deriving DecidableEq, Repr

namespace Enumerator

def render (e : Enumerator) : String :=
  match e.value with
  | some v => s!"    {e.name} = {v}"
  | none => s!"    {e.name}"

end Enumerator

/-- The first of a row of keycodes starts the free range. -/
def numberedFrom (start : String) : List String → List Enumerator
  | [] => []
  | name :: names => ⟨name, some start⟩ :: names.map fun n => ⟨n, none⟩

def customEnumerators (comboNames magicNames : List String) : List Enumerator :=
  numberedFrom "SAFE_RANGE" comboNames ++ magicNames.map fun n => ⟨n, none⟩

def customEnum (comboNames magicNames : List String) : String :=
  match customEnumerators comboNames magicNames with
  | [] => ""
  | members => Text.unlines ["", "enum magic_macros \x7b",
      Text.join ",\n" (members.map Enumerator.render) ++ ",", "\x7d;", ""]

def magicEnum (names : List String) : String :=
  match names with
  | [] => ""
  | name :: names => Text.unlines (
      ["#ifndef MACRO_GITHUB_URL",
       "#define MACRO_GITHUB_URL SAFE_RANGE",
       "#endif",
       "",
       "enum magic_macros \x7b",
       s!"    {name} = MACRO_GITHUB_URL + 1,"] ++
      names.map (fun n => s!"    {n},") ++ ["\x7d;", ""])

def punctuationKeycodes : List (Char × String) :=
  [(' ', "KC_SPC"), (',', "KC_COMM"), ('.', "KC_DOT"), ('-', "KC_MINS"), ('\'', "KC_QUOT"),
   ('/', "KC_SLSH")]

def charKeycode (c : Char) : String :=
  let named := "KC_" ++ Text.upper (String.singleton c)
  if Text.isLetter c then named else (punctuationKeycodes.lookup c).getD named

def charKeycodeOf (d : Document) : Result String := do
  if (← d.length) ≠ 1 then
    .error (.refused s!"Expected single character, got '{d.toText}'")
  match singleChar? (← d.word "isalpha") with
  | some c => return charKeycode c
  | none => .error (.refused s!"Expected single character, got '{d.toText}'")

def escapeLiteral (s : String) : String :=
  Text.replace "\"" "\\\"" (Text.replace "\\" "\\\\" s)

def firstKeycode (text : String) : String :=
  match singleChar? (Text.lower text) with
  | some c => charKeycode c
  | none => "KC_NO"

def sortedNames (keys : TextKeys) : List String :=
  Text.sortedSet (keys.map (·.1))

def sortedKeys (keys : TextKeys) : TextKeys :=
  (sortedNames keys).filterMap fun n => (keys.lookup n).map fun t => (n, t)

def textKeysOf (d : Document) : Result TextKeys := do
  (← d.sortedNames).mapM fun name => do
    return (name.text, ← (d.getD name).word "lower")

def magicHandlers (keys : TextKeys) : String :=
  match keys with
  | [] => ""
  | sorted => Text.unlines (
      ["",
       "bool process_magic_record(uint16_t keycode, keyrecord_t *record) \x7b",
       "    if (!record->event.pressed) \x7b",
       "        return true;",
       "    \x7d",
       "    switch (keycode) \x7b"] ++
      sorted.flatMap (fun (name, text) =>
        [s!"        case {name}:",
         "            SEND_STRING(\"" ++ escapeLiteral (Text.lower text) ++ "\");",
         "            return false;"]) ++
      ["    \x7d",
       "    return true;",
       "\x7d",
       "",
       "uint16_t magic_training_first_keycode(uint16_t keycode) \x7b",
       "    switch (keycode) \x7b"] ++
      sorted.map (fun (name, text) => s!"        case {name}: return {firstKeycode text};") ++
      ["    \x7d",
       "    return keycode;",
       "\x7d",
       ""])

end Keymap.Qmk
