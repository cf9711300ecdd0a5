import Keymap.Header.Keys
import Keymap.Rows

namespace Keymap.Header

abbrev HeaderLayers := List (String × List String)

def bodyLength : List Char → Nat
  | [] => 0
  | '\\' :: '\n' :: cs => 2 + bodyLength cs
  | '\n' :: _ => 0
  | _ :: cs => 1 + bodyLength cs

def definition? (cs : List Char) : Option (String × List Char) := do
  let rest ← after? "#define" cs
  let name := rest.dropWhile Text.isBlank
  if name.length = rest.length then none
  let (word, rest) ← word? (← after? "LAYER_" name)
  let body := rest.dropWhile Text.isBlank
  if body.length = rest.length then none
  return ("LAYER_" ++ word, body)

def bodyKeys (body : List Char) : List String :=
  let text := Text.replace "\n" " " (Text.replace "\\" "" (String.ofList body))
  (splitKeys (Text.trim text)).map unified

def definitionsFrom : Nat → List Char → HeaderLayers
  | _, [] => []
  | skip + 1, _ :: cs => definitionsFrom skip cs
  | 0, c :: cs =>
    match definition? (c :: cs) with
    | none => definitionsFrom 0 cs
    | some (name, body) =>
      let size := bodyLength body
      (Text.replace "LAYER_" "" name, bodyKeys (body.take size)) ::
        definitionsFrom (cs.length - (body.length - size)) cs

def layers (text : String) : HeaderLayers :=
  assignAll [] (definitionsFrom 0 text.toList)

def expected (what : String) (n : Nat) : Fault :=
  .refused s!"Expected 36 keycodes{what}, got {n}"

def handByHand {α : Type} (keys : List α) : List α :=
  let row := fun i => (keys.drop (10 * i)).take 10
  let left := fun i => (row i).take 5
  let right := fun i => (row i).drop 5
  left 0 ++ left 1 ++ left 2 ++ right 0 ++ right 1 ++ right 2 ++ (keys.drop 30).take 6

def layerKeys (what : String) (keys : Document) : Result (List Document) := do
  let n ← keys.length
  if n ≠ 36 then throw (expected what n)
  keys.sequence

def reorder (keys : Document) : Result (List Document) := do
  return handByHand (← layerKeys "" keys)

def coreRows {α : Type} (keys : List α) : List (List α) :=
  splitRows [5, 5, 5, 5, 5, 5, 3, 3] keys

def rowText (keys : List Document) : Result String := do
  return "- [" ++ Text.join ", " (← keys.mapM (Document.padded 15)) ++ "]"

def margin (indent : Document) : Result String :=
  match indent with
  | .whole n =>
    if !Document.isSize n then .error (.overflow Document.tooLarge)
    else if n ≥ Document.tooWide then .error .outOfMemory
    else .ok (Text.spaces n.toNat)
  | .flag b => .ok (if b then " " else "")
  | d => .error (.mismatch s!"can't multiply sequence by non-int of type '{d.kind}'")

def layerText (indent name keys : Document) : Result String := do
  let keys ← layerKeys s!" for layer {name.toText}" keys
  let margin ← margin indent
  let rows ← (coreRows (handByHand keys)).mapM rowText
  let body := ["# Left hand (3x5)"] ++ rows.take 3 ++ ["# Right hand (3x5)"] ++
    (rows.drop 3).take 3 ++ ["# Thumbs (3+3)"] ++ rows.drop 6
  let lines := [name.toText ++ ":", "  core:"] ++ body.map ("    " ++ ·)
  return String.join (lines.map fun line => margin ++ line ++ "\n")

def leadingLayers : List String :=
  ["BASE", "NAV", "MEDIA", "NUM", "SYM", "FUN"]

def HeaderLayers.toDocument (layers : HeaderLayers) : Document :=
  .record (layers.map fun (name, keys) => (Field.word name, .list (keys.map .text)))

def isLeading (name : Document) : Bool :=
  leadingLayers.any name.isWord

def configOrder (layers : Document) : Result (List Document) := do
  let leading ← leadingLayers.filterM layers.has
  let others := (← layers.members).filter fun name => !isLeading name
  return leading.map .text ++ others

def configText (layers : Document) : Result String := do
  let texts ← (← configOrder layers).mapM fun name => do
    layerText (.whole 2) name (← layers.select name)
  let opening := [
    "# Unified Keymap Configuration",
    "# Auto-generated from users/dario/layers.h",
    "# Generated by scripts/migrate_layers.py",
    "",
    "layers:"]
  return Text.unlines opening ++ "\n" ++ String.join (texts.map (· ++ "\n"))

end Keymap.Header
