import Keymap.Board
import Keymap.Magic
import Keymap.Vocabulary

namespace Keymap.Zmk

structure Encoder where
  vocabulary : Vocabulary := {}
  magic : Option MagicConfig := none
  layoutSize : LayoutSize := .unknown .null
  deriving Inhabited

structure Place where
  layer : Document := .null
  index : Document := .whole 0
  deriving Inhabited

def Place.goTo (p : Place) (layer index : Document) : Place :=
  { layer := if layer.isNull then p.layer else layer
    index := if index.isNull then p.index else index }

def isLeftOf (size : LayoutSize) (i : Document.Number) : Bool :=
  match size with
  | .split36 => if i.isAtLeast 30 then i.isBelow 33 else (i.floorMod 10).isBelow 5
  | .totem38 =>
    if i.isAtLeast 32 then i.isBelow 35
    else if i.isAtLeast 20 then ((i.plus (-20)).floorMod 12).isBelow 6
    else (i.floorMod 10).isBelow 5
  | _ => if i.isAtLeast 36 then i.isBelow 39 else (i.floorMod 12).isBelow 6

def isLeft (size : LayoutSize) (i : Document) : Result Bool :=
  (i.comparable ">=").map (isLeftOf size)

/-- The base layer that a layer belongs to: itself, or `BASE_<family>` for a layer named
`<name>_<family>` if that base layer has a magic mapping. -/
def baseLayer? (magic : Option MagicConfig) (layer : Document) : Result (Option String) := do
  if !layer.isPresent then return none
  let name ← layer.word "startswith"
  if Text.startsWith name "BASE_" then return some name
  match Text.findSplit ['_'] name.toList with
  | none => return none
  | some (_, family) =>
    let base := "BASE_" ++ String.ofList family
    match magic with
    | some config => return if (config.find? base).isSome then some base else none
    | none => return none

def familyLabel (baseLayer : String) : String :=
  Text.replace "base_" "" (Text.lower baseLayer)

/-- The base layer whose magic key stands on a layer: that of its family or, failing that, the first
one. -/
def magicBase? (t : Encoder) (layer : Document) : Result (Option Document) := do
  match t.magic with
  | none => return none
  | some config =>
    let base := match ← baseLayer? t.magic layer with
      | some base => .text base
      | none => (config.head?.map (·.baseLayer)).getD .null
    return if base.isPresent && (config.find? base).isSome then some base else none

def magicKey (t : Encoder) (layer : Document) : Result String := do
  match ← magicBase? t layer with
  | some base => return "&ak_" ++ familyLabel (← base.word "lower")
  | none => return "&none"

def magicTap (t : Encoder) (place : Place) (wrapper hold : String) : Result String := do
  match t.magic, ← baseLayer? t.magic place.layer with
  | some config, some base =>
    return if (config.find? base).isSome then s!"&{wrapper}_ak_{familyLabel base} {hold} 0"
      else "&none"
  | _, _ => return "&none"

def keyArgument (t : Encoder) (place : Place) (key : Document) : Result Document := do
  if key.isWord "MAGIC" then return .text (← magicKey t place.layer)
  match (← key.asField).bind fun name => t.vocabulary.keycodes.lookup name with
  | none => return key
  | some entry =>
    let d ← entry.findD "zmk" ""
    if !d.isPresent then return key
    let s ← d.word "startswith"
    return .text (if Text.startsWith s "&kp " then Text.drop 4 s else s)

def argument (t : Encoder) (place : Place) (param : Document) (said : String) : Result Document :=
  if param.isWord "key" then keyArgument t place (.text said) else .ok (.text said)

def argumentNamed (args : Arguments) (name : String) : Result Document :=
  match args.find? fun (param, _) => param.isWord name with
  | some (_, value) => .ok value
  | none => .error (.missing name)

def homeRowMod (t : Encoder) (place : Place) (args : Arguments) : Result String := do
  let behavior := if ← isLeft t.layoutSize place.index then "hml" else "hmr"
  let mod ← argumentNamed args "mod"
  let key ← argumentNamed args "key"
  return s!"&{behavior} {mod.toText} {key.toText}"

def composite (t : Encoder) (place : Place) (key : String) : Result String := do
  match Vocabulary.parts key with
  | ["sm", base, shifted] => return s!"&sm_{Text.lower base}_{Text.lower shifted}"
  | "sm" :: arguments => .error (Vocabulary.wrongMorph arguments.length)
  | name :: arguments =>
    match findAlias? t.vocabulary.aliases name with
    | none => return "&none"
    | some rule =>
      if !(← rule.supports "zmk") then return "&none"
      Vocabulary.checkCount rule name arguments
      match name, arguments with
      | "lt", [layer, "MAGIC"] => magicTap t place "lt" layer
      | "mt", [mod, "MAGIC"] => magicTap t place "mt" mod
      | _, _ =>
        let args ← rule.argumentsFor arguments (argument t place)
        if name = "hrm" then homeRowMod t place args else rule.toZmk args
  | [] => return "&none"

def supported (d : Document) : Document :=
  if d.isPresent then d else "&none"

def value (t : Encoder) (place : Place) (key : String) : Result Document :=
  if key = "MAGIC" then (magicKey t place.layer).map .text
  else match t.vocabulary.keycode? key with
    | some entry => (entry.findD "zmk" "&none").map supported
    | none =>
      if Vocabulary.isComposite key then (composite t place key).map .text
      else .error (Vocabulary.unknownKey key)

def modifiers : List String :=
  ["LGUI", "RGUI", "LALT", "RALT", "LCTRL", "RCTRL", "LSHFT", "RSHFT",
   "LCTL", "RCTL", "LSFT", "RSFT"]

def checkBinding (t : Encoder) (layer key : String) : Result Unit :=
  t.vocabulary.checkBinding "zmk" (.ok modifiers) layer key

end Keymap.Zmk
