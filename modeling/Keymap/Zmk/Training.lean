import Keymap.Zmk.HomeRow
import Keymap.Zmk.Magic

/-!
Training: a key that completes a bigram which the magic key or a combo would type is replaced by an
adaptive key that types `#` after the first key of the bigram.
-/

namespace Keymap.Zmk

abbrev Replacements := List (String × List (Document × String))

structure Trained where
  binding : Document
  family : String
  key : String
  behavior : String
  deriving Repr

/-- Adds a value to the group of its key; groups stand in the order of their first values. -/
def addToGroup {β : Type} (key : Document) (value : β) :
    List (Document × List β) → List (Document × List β)
  | [] => [(key, [value])]
  | (k, vs) :: rest =>
    if k.same key then (k, vs ++ [value]) :: rest else (k, vs) :: addToGroup key value rest

def groupBy {β : Type} (pairs : List (Document × β)) : List (Document × List β) :=
  pairs.foldl (fun acc p => addToGroup p.1 p.2 acc) []

structure HomeRowKey where
  binding : String
  hand : Hand
  hold : String
  tap : String
  deriving DecidableEq, Repr

def homeRowKey? (binding : Document) : Result (Option HomeRowKey) := do
  let binding ← binding.word "startswith"
  let hand : Option Hand :=
    if Text.startsWith binding "&hml" then some .left
    else if Text.startsWith binding "&hmr" then some .right
    else none
  match hand, Text.words binding with
  | some hand, _ :: hold :: tap :: _ => return some ⟨binding, hand, hold, tap⟩
  | _, _ => return none

structure Wrapped where
  node : HoldTap
  replaced : String
  replacement : String

def handLabel : Hand → String
  | .left => "hml"
  | .right => "hmr"

def wrapHomeRow (table : BehaviorTable) (kind : String) (t : Trained) (k : HomeRowKey) :
    Wrapped :=
  let hand := handLabel k.hand
  let name := s!"{hand}_{kind}_{t.family}_{t.key}"
  { node := {
      name
      label := Text.upper hand ++ "_" ++ Text.upper kind ++ "_" ++ Text.upper t.family ++ "_" ++
        Text.upper t.key
      properties := (table.lookup hand).getD []
      hold := "&kp"
      tap := "&" ++ t.behavior }
    replaced := k.binding
    replacement := s!"&{name} {k.hold} 0" }

def wrapBinding (keycodes : Entries) (table : BehaviorTable) (kind : String)
    (trained : List Trained) (binding : Document) : Result (Option Wrapped) := do
  match ← homeRowKey? binding with
  | none => return none
  | some k =>
    let tap ← plainKey keycodes k.tap
    let _ ← tap.asField
    return (trained.find? fun t => t.binding.same tap).map fun t => wrapHomeRow table kind t k

/-- The wrappers of the layers, each with the name under which it is replaced. `family` gives the
name and the trained bindings of a layer, if it has any. -/
def wrapLayers (keycodes : Entries) (table : BehaviorTable) (kind : String)
    (family : CompiledLayer → Result (Option (String × List Trained)))
    (layers : List CompiledLayer) : Result (List (String × Wrapped)) := do
  let wrapped ← layers.mapM fun layer => do
    match ← family layer with
    | none => return []
    | some (name, trained) =>
      let each ← layer.keycodes.mapM (wrapBinding keycodes table kind trained)
      return each.filterMap (·.map fun w => (name, w))
  return wrapped.flatten

def distinctNodes (wrapped : List (String × Wrapped)) : List HoldTap :=
  (assignAll [] (wrapped.map fun w => (w.2.node.name, w.2.node))).map (·.2)

def replaceBy (binding : Document) (replacement : String) :
    List (Document × String) → List (Document × String)
  | [] => [(binding, replacement)]
  | (b, r) :: rest =>
    if b.same binding then (b, replacement) :: rest else (b, r) :: replaceBy binding replacement rest

def replaceAllBy (start entries : List (Document × String)) : List (Document × String) :=
  entries.foldl (fun acc e => replaceBy e.1 e.2 acc) start

def addReplacement (name : String) (binding : Document) (replacement : String)
    (r : Replacements) : Replacements :=
  assign name (replaceBy binding replacement ((r.lookup name).getD [])) r

def withWrapped (wrapped : List (String × Wrapped)) (r : Replacements) : Replacements :=
  wrapped.foldl (fun acc (name, w) => addReplacement name (.text w.replaced) w.replacement acc) r

abbrev AlternateGroup := Document × List (Field × Document)

def groupedAlternates (keycodes : Entries) (refs : MacroRefs) (m : MagicMapping) :
    Result (List AlternateGroup) := do
  let pairs ← (← m.mappings.entries).mapM fun (previous, alternate) => do
    let binding ← alternateBinding keycodes refs m.baseLayer previous alternate
    let _ ← binding.asField
    return (binding, (previous, alternate))
  return groupBy pairs

/-- The binding that a group of previous keys leads to: the macro of the first of them, or else the
alternate of the last. -/
def groupBinding (keycodes : Entries) (refs : MacroRefs) (baseLayer : Document)
    (group : List (Field × Document)) : Result Document :=
  match group.head?.bind fun (previous, _) => macroRef? refs baseLayer previous with
  | some name => .ok (.text name)
  | none => simpleKey keycodes ((group.getLast?.map (·.2)).getD .null)

/-- Whether a shifted letter must not trigger training: it would have to be typed with a thumb that
also presses the magic key. -/
def exempt (c : Colocation) (hand : Option Hand) : Bool :=
  (hand = some .left && c.right) || (hand = some .right && c.left) || (c.left && c.right)

def needsStrict (layer : Option (CompiledLayer × Colocation)) (previous : List Field) :
    Result Bool :=
  match layer with
  | none => .ok false
  | some (layer, colocation) => previous.anyM fun p =>
      match p with
      | .word s =>
        if isLetterKey s then (letterHand? s layer).map (exempt colocation) else .ok false
      | .number _ => .ok false

def trainingKey (keycodes : Entries) (refs : MacroRefs)
    (layer : Option (CompiledLayer × Colocation)) (m : MagicMapping) (family : String)
    (group : List (Field × Document)) : Result (AdaptiveKey × Trained) := do
  let previous := group.map (·.1)
  let alternate ← (← groupBinding keycodes refs m.baseLayer group).word "replace"
  let key := labelOf alternate
  let name := s!"ak_train_{family}_{key}"
  let keys ← previous.mapM fun p => do bareKey (← simpleKey keycodes p.toDocument)
  let strict ← needsStrict layer previous
  let guard : Trigger := {
    name := "guard_trigger"
    keys
    binding := "&kp HASH"
    strict
    maxIdle := ← timeLimit m.timeout }
  return (⟨name, alternate, [guard]⟩, ⟨.text alternate, family, key, name⟩)

abbrev TrainedFamily := String × List (AdaptiveKey × Trained)

def magicTraining (keycodes : Entries) (refs : MacroRefs) (layers : List CompiledLayer)
    (m : MagicMapping) : Result (Option TrainedFamily) := do
  let layer ← match layers.find? fun l => l.name.same m.baseLayer with
    | some layer => do pure (some (layer, ← colocation layer))
    | none => pure none
  let groups ← groupedAlternates keycodes refs m
  if groups.isEmpty then return none
  let family ← familyOf m
  let keys ← groups.mapM fun (_, group) => trainingKey keycodes refs layer m family group
  return some (m.title, keys)

def trainingSection (title note : String) (keys : List AdaptiveKey) (wrappers : List HoldTap) :
    String :=
  Text.unlines (
    ["    // " ++ title,
     "    behaviors \x7b"] ++
    keys.flatMap (AdaptiveKey.lines [] note) ++
    wrappers.flatMap HoldTap.lines ++
    ["    \x7d;",
     ""])

def replacementsOf (trained : List (String × List Trained)) : Replacements :=
  trained.map fun (name, ts) =>
    (name, replaceAllBy [] (ts.map fun t => (t.binding, "&" ++ t.behavior)))

def magicTrainingSection (keycodes : Entries) (table : BehaviorTable) (refs : MacroRefs)
    (magic : MagicConfig) (layers : List CompiledLayer) : Result (String × Replacements) := do
  let families := (← magic.mapM (magicTraining keycodes refs layers)).filterMap id
  let trained := families.map fun (name, keys) => (name, keys.map (·.2))
  let familyOfLayer := fun (layer : CompiledLayer) => do
    let base := (← magic.forLayer? layer.name).bind fun m => m.baseLayer.text?
    return base.bind fun name => (trained.lookup name).map fun ts => (name, ts)
  let wrapped ← wrapLayers keycodes table "train" familyOfLayer layers
  let keys := families.flatMap fun (_, ks) => ks.map (·.1)
  return (trainingSection "Magic training behaviors: punish direct bigrams with '#'"
      "  // Disable training for shifted predecessors" keys (distinctNodes wrapped),
    withWrapped wrapped (replacementsOf trained))

def trainedLayers (layers : List CompiledLayer) (combo : Combo) : Result (List Document) := do
  if combo.layers.isPresent then combo.layers.members
  else
    let named ← layers.mapM fun l => do return (l.name, ← l.name.word "startswith")
    return (named.filter fun n => Text.startsWith n.2 "BASE_").map (·.1)

def layerBigrams (layers : List CompiledLayer) (combo : Combo) :
    Result (List (Document × (Document × Document))) := do
  match ← combo.bigram? with
  | none => return []
  | some (first, second) =>
    (← trainedLayers layers combo).mapM fun layer => do
      let _ ← layer.asField
      let _ ← second.asField
      return (layer, (second, first))

def comboBigrams (combos : List Combo) (layers : List CompiledLayer) :
    Result (List (Document × List (Document × List Document))) := do
  let all ← combos.mapM (layerBigrams layers)
  return (groupBy all.flatten).map fun (layer, pairs) => (layer, groupBy pairs)

def comboTrainingKey (keycodes : Entries) (family : String) (second : Document)
    (firsts : List Document) : Result (AdaptiveKey × Trained) := do
  let binding ← simpleKey keycodes second
  let key := labelOf binding.toText
  let name := s!"ak_combo_train_{family}_{key}"
  let keys ← firsts.mapM fun f => do bareKey (← simpleKey keycodes f)
  let _ ← binding.asField
  let guard : Trigger := {
    name := "guard_trigger"
    keys := keys.foldl (fun acc k => insertOnce k acc) []
    binding := "&kp HASH" }
  return (⟨name, binding.toText, [guard]⟩, ⟨binding, family, key, name⟩)

def comboTraining (keycodes : Entries) (layer : Document)
    (seconds : List (Document × List Document)) : Result TrainedFamily := do
  let name ← layer.word "lower"
  return (name, ← seconds.mapM fun (second, firsts) =>
    comboTrainingKey keycodes (familyLabel name) second firsts)

def comboTrainingSection (keycodes : Entries) (table : BehaviorTable) (combos : List Combo)
    (layers : List CompiledLayer) : Result (String × Replacements) := do
  let bigrams ← comboBigrams combos layers
  if bigrams.isEmpty then return ("", [])
  let families ← bigrams.mapM fun (layer, seconds) => comboTraining keycodes layer seconds
  let trained := families.map fun (name, keys) => (name, keys.map (·.2))
  let own := fun (layer : CompiledLayer) => do
    let name := (← layer.name.asField).bind Field.word?
    return name.bind fun name => (trained.lookup name).map fun ts => (name, ts)
  let wrapped ← wrapLayers keycodes table "combo_train" own layers
  let keys := families.flatMap fun (_, ks) => ks.map (·.1)
  return (trainingSection
      "Combo training behaviors: punish sequential typing of combo output bigrams" ""
      keys (distinctNodes wrapped),
    withWrapped wrapped (replacementsOf trained))

def mergeReplacements (a b : Replacements) : Replacements :=
  b.foldl (fun acc (name, r) => assign name (replaceAllBy ((acc.lookup name).getD []) r) acc) a

end Keymap.Zmk
