import Keymap.Padding
import Keymap.Qmk.Encode
import Keymap.Zmk.Encode

namespace Keymap

structure CompiledLayer where
  name : Document
  keycodes : List Document
  deriving Repr, Inhabited

structure Compiler where
  qmk : Vocabulary := {}
  zmk : Zmk.Encoder := {}
  qmkMorphs : List ShiftMorph := []
  zmkMorphs : List ShiftMorph := []
  deriving Inhabited

namespace Compile

def referenceKeys (core : KeyGrid) : Result (List Entry) := do
  let flat ← core.byPosition
  if flat.length ≠ 36 then
    invalid s!"Core layout must have exactly 36 keys, got {flat.length}"
  return flat

def isReference : Entry → Bool
  | .position _ => true
  | .key _ => false

def resolve (core : List Entry) : Entry → Result Entry
  | .key code => .ok (.key code)
  | .position i =>
    match core[i]? with
    | some entry => .ok entry
    | none => invalid s!"L36 index {i} out of range (core has {core.length} keys)"

def keys (layer : Layer) (board : Board) : Result (List String) :=
  match layer.fullLayout with
  | some full => do
    let entries := full.flatten
    if entries.any isReference then
      match layer.core with
      | none => invalid s!"Layer {layer.title} uses L36 references but has no core defined"
      | some core =>
        let coreKeys ← referenceKeys core
        return (← entries.mapM (resolve coreKeys)).map Entry.text
    else return entries.map Entry.text
  | none =>
    match layer.core with
    | some core => Padding.pad board layer (core.flatten.map Entry.text)
    | none => .error (.lacking "NoneType" "flatten")

def encodeKeys (v : Vocabulary) (encode : Nat → String → Result Document) (index : Nat)
    (morphs : List ShiftMorph) : List String → Result (List Document) × List ShiftMorph
  | [] => (.ok [], morphs)
  | key :: rest =>
    let morphs := v.noteMorph key morphs
    match encode index key with
    | .error fault => (.error fault, morphs)
    | .ok code =>
      let (codes, morphs) := encodeKeys v encode (index + 1) morphs rest
      (codes.map (code :: ·), morphs)

end Compile

namespace Compiler

def compileQmk (c : Compiler) (layer : Layer) (board : Board) :
    Result CompiledLayer × Compiler :=
  match Compile.keys layer board with
  | .error fault => (.error fault, c)
  | .ok keys =>
    match keys.forM (Qmk.checkBinding c.qmk layer.title) with
    | .error fault => (.error fault, c)
    | .ok () =>
      let (codes, morphs) :=
        Compile.encodeKeys c.qmk (fun _ => Qmk.value c.qmk) 0 c.qmkMorphs keys
      (codes.map fun codes => ⟨layer.name, codes⟩, { c with qmkMorphs := morphs })

/-- Only where the board says ZMK is the layer known on which a magic key stands. -/
def compileZmk (c : Compiler) (layer : Layer) (board : Board) :
    Result CompiledLayer × Compiler :=
  match Compile.keys layer board with
  | .error fault => (.error fault, c)
  | .ok keys =>
    match keys.forM (Zmk.checkBinding c.zmk layer.title) with
    | .error fault => (.error fault, c)
    | .ok () =>
      let current := if board.firmware.isZmk then layer.name else .null
      let encode := fun (i : Nat) => Zmk.value c.zmk ⟨current, .whole i⟩
      let (codes, morphs) :=
        Compile.encodeKeys c.zmk.vocabulary encode 0 c.zmkMorphs keys
      (codes.map fun codes => ⟨layer.name, codes⟩, { c with zmkMorphs := morphs })

def compile (c : Compiler) (layer : Layer) (board : Board) : Result CompiledLayer × Compiler :=
  if board.firmware.isQmk then c.compileQmk layer board else c.compileZmk layer board

end Compiler

end Keymap
