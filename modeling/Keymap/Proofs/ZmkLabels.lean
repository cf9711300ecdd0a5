import Keymap.Proofs.ZmkKeymap
import Mathlib.Data.Prod.Basic

namespace Keymap.Zmk

open Devicetree List

/-- The key texts of the layers of a board, and the tables that they are looked up in, refer to no
generated label, and names are identifiers. -/
structure PlainKeys (t : Encoder) (board : Board) (layers : List Layer) : Prop where
  names : ∀ layer ∈ layers, Text.IsIdentifier layer.title
  keys : ∀ layer ∈ layers, ∀ key, layer.KeyOn board key → Plain key
  morphs : ∀ layer ∈ layers, ∀ key, layer.KeyOn board key → ∀ plain shifted,
    t.vocabulary.shiftMorph? key = some (plain, shifted) →
      Text.IsIdentifier plain ∧ Text.IsIdentifier shifted
  keycodes : TidyTable (isGenerated · = false) t.vocabulary.keycodes
  aliases : ∀ rule ∈ t.vocabulary.aliases, rule.name ≠ .word "sm" → rule.Faithful

theorem mem_labels_of_mem_references {session after : Generate.Session} {verbose : Bool}
    {board : Board} {layers : List Layer} {compiled : List CompiledLayer} {settings : Settings}
    {combos : List Combo} {file : Option String} {text : String}
    (other : board.firmware.isQmk = false) (cleared : session.compiler.zmkMorphs = [])
    (compiles : (Generate.compileLayers verbose board layers).run.run session = (.ok compiled, after))
    (generates : ((keymapFile settings
      { board, layers := compiled, combos, magic := session.compiler.zmk.magic,
        morphs := Generate.morphKeys after.compiler.zmkMorphs }).run.run
          (.start settings file)).1 = .ok text) (keys : PlainKeys session.compiler.zmk board layers)
    (plain : PlainSettings settings board combos (session.compiler.zmk.magic.getD []))
    {label : String} (refers : label ∈ references text) (must : MustDefine combos label) :
    label ∈ labels text := by
  obtain ⟨kept, sublist, made, isMorph⟩ := Generate.compileLayers_source other compiles
  obtain ⟨parts, rfl⟩ := keymapFile_parts generates
  have source : ∀ layer ∈ compiled, ∃ original ∈ layers,
      CompiledFrom session.compiler.zmk board original layer ∧ original ∈ kept := by
    intro layer inCompiled
    obtain ⟨original, isKept, isMade⟩ := forall₂_mem_right made inCompiled
    exact ⟨original, sublist.subset isKept, isMade, isKept⟩
  have names : ∀ layer ∈ compiled, Text.IsIdentifier layer.name.toText := by
    intro layer inCompiled
    obtain ⟨original, inLayers, isMade, -⟩ := source layer inCompiled
    rw [isMade.name]
    exact keys.names original inLayers
  have morphNames : ∀ morph ∈ after.compiler.zmkMorphs,
      Text.IsIdentifier morph.1 ∧ Text.IsIdentifier morph.2 := by
    intro morph member
    rw [isMorph, cleared] at member
    rcases member with none | ⟨layer, isKept, key, onBoard, asks⟩
    · cases none
    · exact keys.morphs layer (sublist.subset isKept) key onBoard morph.1 morph.2 asks
  have base := parts.base plain
  have closed : EncoderClosed (Resolved combos parts.text) session.compiler.zmk := by
    refine ⟨keys.keycodes.mono base, keys.aliases, fun config isMagic m inConfig => ?_⟩
    exact parts.mappings plain (by simpa [isMagic] using inConfig)
  have bindings : LayersWithin (Resolved combos parts.text) compiled := by
    intro layer inCompiled binding inLayer
    obtain ⟨original, inLayers, isMade, isKept⟩ := source layer inCompiled
    obtain ⟨key, place, onBoard, isValue⟩ := isMade.bindings binding inLayer
    refine value_within base parts.hands closed place ⟨?_, fun first shifted asks => ?_⟩ binding isValue
    · exact (keys.keys original inLayers key onBoard).within base
    · have inMorphs := (isMorph (first, shifted)).mpr (.inr ⟨original, isKept, key, onBoard, asks⟩)
      obtain ⟨isFirst, isShifted⟩ := morphNames _ inMorphs
      refine ⟨isFirst, isShifted, parts.morphs ?_ isFirst isShifted⟩
      exact List.mem_map.mpr ⟨_, inMorphs, rfl⟩
  have within := parts.within plain names bindings fun morph member => by
    obtain ⟨names, inMorphs, rfl⟩ := List.mem_map.mp member
    exact morphNames names inMorphs
  exact within label refers (ne_empty_of_mem_references refers) must

def nightKeycodes : Entries :=
  [("A", .record [("zmk", "&kp A")]), ("B", .record [("zmk", "&kp B")])]

def nightEncoder : Encoder where
  vocabulary := {
    aliases := [⟨"hrm", .null, .list ["mod", "key"], .null, "&hrm \x7bmod\x7d \x7bkey\x7d", .list ["zmk"]⟩,
      ⟨"lt", .null, .list ["layer", "key"], .null, "&lt \x7blayer\x7d \x7bkey\x7d", .list ["zmk"]⟩]
    keycodes := nightKeycodes }
  magic := some [⟨"BASE_NIGHT", .whole 150, .record [("A", "B"), ("B", "ab")], "REPEAT"⟩]

def nightKeys : List String :=
  ["hrm:LGUI:B", "B", "sm:A:B", "lt:BASE_NIGHT:A", "lt:BASE_NIGHT:MAGIC", "MAGIC"]

def nightLayer : Layer where
  name := "BASE_NIGHT"
  fullLayout := some ⟨[nightKeys.map .key]⟩

def nightCombo : Combo where
  name := "ab"
  description := ""
  positions := .list [.whole 0, .whole 1]
  action := ""
  macroText := "ab"
  training := .flag true

def nightBoard : Board where
  id := "night"
  name := "Night"
  firmware := .zmk
  extraLayers := .list ["BASE_NIGHT"]

def nightSettings : Settings where
  keycodes := nightKeycodes
  magicTraining := true

def nightSession : Generate.Session where
  workspace := { root := "" }
  compiler := { zmk := nightEncoder }

def nightCompiled : Result (List CompiledLayer) × Generate.Session :=
  (Generate.compileLayers false nightBoard [nightLayer]).run.run nightSession

def nightLayers : List CompiledLayer :=
  nightCompiled.1.toOption.getD []

def nightSource : Source where
  board := nightBoard
  layers := nightLayers
  combos := [nightCombo]
  magic := nightEncoder.magic
  morphs := Generate.morphKeys nightCompiled.2.compiler.zmkMorphs

theorem night_tidyTable : TidyTable (isGenerated · = false) nightKeycodes := by
  refine tidyTable_of_forall (forall_mem_cons.mpr ⟨.ok ⟨?_, ?_⟩, forall_mem_singleton.mpr (.ok ⟨?_, ?_⟩)⟩)
  all_goals decide

theorem night_plainKeys : PlainKeys nightEncoder nightBoard [nightLayer] := by
  have keys : ∀ layer ∈ [nightLayer], ∀ key, layer.KeyOn nightBoard key → key ∈ nightKeys := by
    rintro layer h key ⟨keys, hk, hm⟩
    cases mem_singleton.mp h
    cases hk
    exact hm
  have hp : ∀ key ∈ nightKeys, Plain key := by decide
  have hmr : ∀ key ∈ nightKeys, (nightEncoder.vocabulary.shiftMorph? key).all fun morph =>
      Text.IsIdentifier morph.1 ∧ Text.IsIdentifier morph.2 := by
    decide
  refine ⟨by decide, fun layer h key hb => hp key (keys layer h key hb),
    fun layer h key hb first shifted ha => ?_, night_tidyTable, ?_⟩
  · simpa [ha] using hmr key (keys layer h key hb)
  · refine forall_mem_cons.mpr ⟨fun _ => ?_, forall_mem_singleton.mpr fun _ => ?_⟩
    · exact Alias.faithful_of_written "&hrm ".toList [("mod".toList, [' ']), ("key".toList, [])] rfl
        (by decide) (by decide) (by decide)
    · exact Alias.faithful_of_written "&lt ".toList [("layer".toList, [' ']), ("key".toList, [])] rfl
        (by decide) (by decide) (by decide)

theorem night_plainSettings :
    PlainSettings nightSettings nightBoard [nightCombo] (nightEncoder.magic.getD []) where
  keycodes := night_tidyTable
  homeRowMods := by constructor <;> decide
  layerTap := by constructor <;> decide
  modTap := by constructor <;> decide
  boardName := by decide
  shield := by decide
  boardKind := by decide
  layoutSize := by decide
  combos := forall_mem_singleton.mpr
    ⟨by decide, by decide, by decide, by decide, .ok (by decide), .error⟩
  magic := by decide

theorem night_labels : nightCompiled = (.ok nightLayers, nightCompiled.2) ∧ ∃ text,
    ((keymapFile nightSettings nightSource).run.run (.start nightSettings none)).1 = .ok text ∧
    "hml_combo_train_night_b" ∈ references text ∧ "hml_combo_train_night_b" ∈ labels text := by
  have compiles : nightCompiled = (.ok nightLayers, nightCompiled.2) :=
    Prod.fst_eq_iff.mp (eq_ok_getD (by decide +kernel))
  obtain ⟨text, generates⟩ : ∃ text, ((keymapFile nightSettings nightSource).run.run
      (.start nightSettings none)).1 = .ok text := exists_eq_ok (by decide +kernel)
  have layers : (layerNodes nightSettings nightSource (.start nightSettings none)).toOption.all
      fun nodes => nodes.any fun node => "hml_combo_train_night_b" ∈ references node := by
    decide +kernel
  have refers : "hml_combo_train_night_b" ∈ references text := by
    obtain ⟨parts, rfl⟩ := keymapFile_parts generates
    refine parts.mem_references ?_
    rw [parts.layerNodes_eq] at layers
    simpa [Except.toOption] using layers
  refine ⟨compiles, text, generates, refers, ?_⟩
  exact mem_labels_of_mem_references rfl rfl compiles generates night_plainKeys
    night_plainSettings refers (.inl (by decide))

def strayEncoder : Encoder where
  vocabulary := {
    aliases := [⟨"lt", .null, .list ["layer", "key"], .null, "&lt \x7blayer\x7d \x7bkey\x7d", .list ["zmk"]⟩] }

def strayLayer : Layer where
  name := "BASE_NIGHT"
  fullLayout := some ⟨[[.key "lt:BASE_NIGHT:&ak_night"]]⟩

def straySession : Generate.Session where
  workspace := { root := "" }
  compiler := { zmk := strayEncoder }

def strayCompiled : Result (List CompiledLayer) × Generate.Session :=
  (Generate.compileLayers false nightBoard [strayLayer]).run.run straySession

def strayLayers : List CompiledLayer :=
  strayCompiled.1.toOption.getD []

def straySource : Source where
  board := nightBoard
  layers := strayLayers
  magic := strayEncoder.magic
  morphs := Generate.morphKeys strayCompiled.2.compiler.zmkMorphs

theorem stray_bare : straySource.Bare :=
  ⟨rfl, rfl, isEmpty_iff.mp (by decide +kernel)⟩

theorem stray_headLines : ¬ Defines (headLines {} straySource) "ak_night" := by
  decide +kernel

theorem stray_homeRowSection : "ak_night" ∉ labels (homeRowSection {} .split36) := by
  rw [homeRowSection, mem_labels_unlines]
  decide +kernel

theorem stray_layerNodes : (layerNodes {} straySource (.start {} none)).toOption.all fun nodes =>
    (nodes.any fun node => "ak_night" ∈ references node) && nodes.all fun node => Lacks ':' node := by
  decide +kernel

theorem exists_reference_without_label : strayCompiled = (.ok strayLayers, strayCompiled.2) ∧ ∃ text,
      ((keymapFile {} straySource).run.run (.start {} none)).1 = .ok text ∧
      "ak_night" ∈ references text ∧ MustDefine [] "ak_night" ∧ "ak_night" ∉ labels text := by
  refine ⟨Prod.fst_eq_iff.mp (eq_ok_getD (by decide +kernel)), ?_⟩
  obtain ⟨text, generates⟩ : ∃ text, ((keymapFile {} straySource).run.run
      (.start {} none)).1 = .ok text := exists_eq_ok (by decide +kernel)
  obtain ⟨parts, rfl⟩ := keymapFile_parts generates
  have layers := stray_layerNodes
  rw [parts.layerNodes_eq] at layers
  simp only [Except.toOption, Option.all_some, Bool.and_eq_true, List.any_eq_true, List.all_eq_true,
    decide_eq_true_eq] at layers
  obtain ⟨refers, unlabelled⟩ := layers
  refine ⟨parts.text, generates, parts.mem_references refers, .inl (by decide), fun found => ?_⟩
  rcases parts.mem_labels_of_bare stray_bare unlabelled found with inHead | inHome
  · exact stray_headLines inHead
  · exact stray_homeRowSection inHome

end Keymap.Zmk
