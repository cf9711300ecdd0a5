import Keymap.Characters
import Keymap.Text.Case
import Keymap.Text.Identifier

namespace Keymap.Zmk

/-- The key of a single character, without the key-press behaviour. Letters are keys of that name,
digits keys named `N` and the digit, and all else is looked up among the characters. -/
def charKey (keycodes : Entries) (s : String) : Result Document := do
  match singleChar? s with
  | none => invalid s!"Expected a single character for macro output, got '{s}'"
  | some c =>
    let token : Option Field :=
      if Text.isLetter c then some (.word (Text.upper s))
      else if Text.isDigit c then some (.word ("N" ++ s))
      else (characterKeys keycodes).lookup c
    let unknown := s!"Unknown character '{s}' for magic macro; add it to keycodes.yaml"
    match token with
    | none => invalid unknown
    | some token =>
      if !token.toDocument.isPresent then invalid unknown
      match keycodes.lookup token with
      | none => invalid unknown
      | some entry =>
        let value ← entry.findD "zmk" .null
        if !value.isPresent then
          invalid s!"Missing ZMK value for token '{token.text}' in keycodes.yaml"
        match value with
        | .text t =>
          return .text (if Text.startsWith t "&kp " then Text.replace "&kp " "" t else t)
        | d => return d

def keyPresses (keycodes : Entries) (pieces : List String) : Result (List String) :=
  pieces.mapM fun p => do return "&kp " ++ (← charKey keycodes p).toText

def tapSequence (keycodes : Entries) (pieces : List String) : Result String := do
  return "&macro_tap " ++ Text.join " " (← keyPresses keycodes pieces)

def plainKey (keycodes : Entries) (key : String) : Result Document := do
  let key := if Text.startsWith key "KC_" then Text.drop 3 key else key
  let named ← match keycodes.lookup (.word key) with
    | some entry => if key.length > 1 then pure Document.null else entry.findD "zmk" .null
    | none => pure .null
  match key.toList with
  | [] => return if named.isPresent then named else "&kp "
  | [c] =>
    if named.isPresent then return named
    if Text.isLetter c then return .text ("&kp " ++ Text.upper key)
    let unknown := s!"Unknown magic key '{key}' not found in keycodes.yaml"
    match (characterKeys keycodes).lookup c with
    | none => invalid unknown
    | some token =>
      if !token.toDocument.isPresent then invalid unknown
      match keycodes.lookup token with
      | none => invalid unknown
      | some entry =>
        let value ← entry.findD "zmk" .null
        if value.isPresent then return value else invalid unknown
  | cs => return .text (← tapSequence keycodes (cs.map String.singleton))

def simpleKey (keycodes : Entries) (d : Document) : Result Document :=
  match d with
  | .record _ =>
    match d.getD "text", d.getD "kc" with
    | .text s, _ => (tapSequence keycodes (s.toList.map String.singleton)).map .text
    | _, .text key => plainKey keycodes key
    | _, _ => plainKey keycodes d.toText
  | .list items => (tapSequence keycodes (items.map Document.toText)).map .text
  | d => plainKey keycodes d.toText

def labelOf (token : String) : String :=
  let plain := Text.replace " " "_" (Text.replace "&" "" (Text.replace "&kp " ""
    (Text.replace "&macro_tap " "mt_" token)))
  let fragment := Text.lower (Text.identifierFragment plain)
  if fragment.isEmpty then "key" else fragment

def namedKey (keycodes : Entries) (key : Document) : Result Document := do
  let plain := Document.text ("&kp " ++ key.toText)
  match (← key.asField).bind fun name => keycodes.lookup name with
  | some entry =>
    let value ← entry.findD "zmk" ""
    return if value.isPresent then value else plain
  | none => return plain

def shiftMorphs (keycodes : Entries) (morphs : List (Document × Document)) : Result String := do
  if morphs.isEmpty then return ""
  let nodes ← morphs.mapM fun (base, shifted) => do
    let first := Text.lower (← base.word "lower")
    let second := Text.lower (← shifted.word "lower")
    let name := s!"sm_{first}_{second}"
    let baseKey := (← namedKey keycodes base).toText
    let shiftedKey := (← namedKey keycodes shifted).toText
    return [
      s!"        {name}: {name} \x7b",
      "            compatible = \"zmk,behavior-mod-morph\";",
      "            #binding-cells = <0>;",
      s!"            bindings = <{baseKey}>, <{shiftedKey}>;",
      "            mods = <(MOD_LSFT|MOD_RSFT)>;",
      "        \x7d;",
      ""]
  return Text.unlines (
    ["    // Shift-morph behaviors (mod-morph)",
     "    // These output a different key when shift is held",
     "    behaviors \x7b"] ++
    nodes.flatten ++ ["    \x7d;"])

end Keymap.Zmk
