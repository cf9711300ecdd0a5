import Keymap.Zmk.Training

namespace Keymap.Zmk

def bindingRows {α : Type} (size : LayoutSize) (keys : List α) : List (List α) :=
  match size, keys.length with
  | .totem38, 38 => splitRows [10, 10, 12, 6] keys
  | .split42, 42 => splitRows [12, 12, 12, 6] keys
  | .split36, 36 => splitRows [10, 10, 10, 6] keys
  | .split42, _ => chunks 12 keys
  | _, _ => chunks 10 keys

def bindingsText (size : LayoutSize) (keys : List Document) : Result String := do
  let rows ← (bindingRows size keys).mapM (Document.joinTexts " ")
  return Text.unlines (rows.map fun row => Text.spaces 16 ++ row)

def replaceBindings (r : List (Document × String)) (keys : List Document) :
    Result (List Document) :=
  keys.mapM fun k => do
    let _ ← k.asField
    return ((r.find? fun e => e.1.same k).map fun e => .text e.2).getD k

/-- The replacements that apply to a layer, in order. With a magic configuration these are the ones
of its family, or those of all families for a layer without one; else its own. -/
def applicable (replacements : Replacements) (magic : Option MagicConfig) (layer : String) :
    Result (List (List (Document × String))) := do
  match magic with
  | some config =>
    match ← config.forLayer? layer with
    | some m => return (m.baseLayer.text?.bind fun base => replacements.lookup base).toList
    | none => return replacements.map (·.2)
  | none => return (replacements.lookup layer).toList

def trainedKeys (replacements : Replacements) (magic : Option MagicConfig) (name : String)
    (keys : List Document) : Result (List Document) := do
  if replacements.isEmpty then return keys
  (← applicable replacements magic name).foldlM (fun keys r => replaceBindings r keys) keys

def layerNode (size : LayoutSize) (replacements : Replacements) (magic : Option MagicConfig)
    (layer : CompiledLayer) : Result String := do
  let name ← layer.name.word "lower"
  let keys ← trainedKeys replacements magic name layer.keycodes
  return Text.unlines [
    s!"        {Text.lower name}_layer \x7b",
    "            bindings = <",
    ← bindingsText size keys,
    "            >;",
    "        \x7d;"]

def bluetoothSigns : List (String × String) :=
  [("BT_NXT", "BT→"), ("BT_PRV", "BT←"), ("BT_CLR", "BT×")]

def shortText (binding : String) : Result String :=
  let key := String.ofList (binding.toList.dropWhile (· == '&'))
  if Text.startsWith key "kp " then .ok (Text.drop 3 key)
  else if key.toList.contains ' ' then
    match Text.words key with
    | [] => .error (.malformed "not enough values to unpack (expected at least 1, got 0)")
    | "hrm" :: hold :: tap :: _ => .ok (tap ++ "/" ++ Text.drop 1 hold)
    | "lt" :: layer :: tap :: _ => .ok (tap ++ "/" ++ layer)
    | "bt" :: action :: _ => .ok ((bluetoothSigns.lookup action).getD "BT")
    | "hrm" :: _ | "lt" :: _ | "bt" :: _ => .error (.outOfRange "list index out of range")
    | behavior :: _ => .ok (Text.upper behavior)
  else if key = "none" then .ok "___"
  else if key = "trans" then .ok "▽▽▽"
  else .ok (Text.take 4 (Text.upper key))

def shortForm (binding : Document) : Result String := do
  shortText (← binding.word "lstrip")

def shortRow (keys : List Document) (start stop : Nat) : Result String := do
  let forms ← ((keys.take stop).drop start).mapM shortForm
  return Text.join " " (forms.map (Text.padRight 4))

def picture36 (keys : List Document) : Result (List String) := do
  let rows ← [0, 10, 20].mapM fun start => do
    return "│ " ++ (← shortRow keys start (start + 5)) ++ " │    │ " ++
      (← shortRow keys (start + 5) (start + 10)) ++ " │"
  let thumbs := "      " ++ (← shortRow keys 30 33) ++ "              " ++ (← shortRow keys 33 36)
  return ["```",
    "Left Hand              Right Hand",
    "╭─────────────────╮    ╭─────────────────╮"] ++ rows ++
    ["╰─────────────────╯    ╰─────────────────╯", thumbs, "```"]

def keyList (keys : List Document) : List String :=
  ["```"] ++ keys.zipIdx.flatMap (fun (key, i) =>
    (if i % 6 == 0 && i > 0 then [""] else []) ++
      [s!"{Text.padLeft 2 (toString i)}: {key.toText}"]) ++ ["```"]

def readmeFile (board : Board) (layers : List CompiledLayer) : Result String := do
  let pictures ← layers.mapM fun l => do
    let body ← if l.keycodes.length = 36 then picture36 l.keycodes else pure (keyList l.keycodes)
    return [s!"## {l.name.toText} Layer", ""] ++ body ++ [""]
  return Text.unlines ([s!"# Keymap Visualization: {board.name.toText}", ""] ++ pictures.flatten)

end Keymap.Zmk
