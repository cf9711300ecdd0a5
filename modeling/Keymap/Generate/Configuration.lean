import Keymap.Compile
import Keymap.Generate.Options
import Keymap.Reading.Files

namespace Keymap.Generate

structure Configuration where
  keymap : KeymapConfig
  inventory : Inventory
  aliases : Aliases
  combos : List Combo
  magic : MagicConfig
  keycodes : Entries
  deriving Inhabited

def refuse (check : Result Unit) : Result Unit :=
  check.mapError fun fault =>
    match fault with
    | .invalid message => .refused message
    | fault => fault

/-- The keycodes that stand beside the aliases go before those of the general table. -/
def mergeKeycodes (general special : Document) : Result Entries := do
  let general ← general.entries
  match special with
  | .record special => return assignAll general special
  | d => .error (.mismatch s!"'{d.kind}' object is not a mapping")

namespace Configuration

def layerNames (c : Configuration) : List String :=
  c.keymap.layers.map (·.title)

def vocabulary (c : Configuration) : Vocabulary :=
  { aliases := c.aliases, keycodes := c.keycodes }

def compiler (c : Configuration) : Compiler :=
  { qmk := c.vocabulary, zmk := { vocabulary := c.vocabulary, magic := some c.magic } }

def describe (c : Configuration) (verbose : Bool) : Work Unit := do
  Work.say (s!"✅ Loaded {c.keymap.layers.length} layers, {c.inventory.boards.length} boards, " ++
    s!"{c.combos.length} combos, {c.magic.length} magic key configs")
  if verbose then
    Work.say ("  Layers: " ++ Text.join ", " c.layerNames)
    let ids := c.inventory.boards.map (·.id)
    Work.say ("  Boards: " ++ (← liftM (Document.joinTexts ", " ids)))
    Work.say s!"  Aliases: {c.aliases.length} behavior aliases"
    Work.say s!"  Combos: {c.combos.length} combo definitions"
    Work.say s!"  Magic keys: {c.magic.length} base layer configurations"

def read : Work Configuration := do
  let keymap ← Reading.keymapFile
  let inventory ← Reading.boardsFile
  let aliases ← Reading.aliasesFile
  let combos ← Reading.combosFile
  let magic ← Reading.magicFile
  let general ← Reading.keycodesFile
  let special ← Reading.specialKeycodesFile
  let keycodes ← liftM (mergeKeycodes general special)
  return { keymap, inventory, aliases, combos, magic, keycodes }

def load (verbose : Bool) : Work Configuration := do
  Work.say "📖 Parsing configuration..."
  let c ← read
  c.describe verbose
  Work.say "🔍 Validating configuration..."
  liftM (refuse (checkLayersStrictly c.keymap.layers))
  liftM (refuse (checkBoardsStrictly c.inventory.boards))
  Work.say "✅ Configuration is valid"
  return c

end Configuration

end Keymap.Generate
