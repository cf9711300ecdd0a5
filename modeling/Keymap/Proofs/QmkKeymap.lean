import Keymap.Proofs.Enumerations
import Keymap.Proofs.QmkMagic
import Keymap.Qmk.Files
import Mathlib.Data.List.Nodup
import Mathlib.Data.List.Range

namespace Keymap

open List

theorem Text.unlines_infix {part lines : List String} (hn : part ≠ []) (hi : part <:+: lines) :
    ∃ before after, unlines lines = before ++ unlines part ++ after := by
  have hj : ∀ {a b : List String}, a ≠ [] → b ≠ [] →
      unlines (a ++ b) = unlines a ++ "\n" ++ unlines b := by
    intro a b hf hs
    exact String.intercalate_append_of_ne_nil hf hs
  obtain ⟨front, back, rfl⟩ := hi
  by_cases hb : back = []
  · subst hb
    by_cases h : front = []
    · exact ⟨"", "", by simp [h]⟩
    · exact ⟨unlines front ++ "\n", "", by simp [hj h hn]⟩
  · have hp : front ++ part ≠ [] := by simp [hn]
    by_cases h : front = []
    · exact ⟨"", "\n" ++ unlines back, by simp [h, hj hn hb, String.append_assoc]⟩
    · refine ⟨unlines front ++ "\n", "\n" ++ unlines back, ?_⟩
      rw [hj hp hb, hj h hn]
      simp only [String.append_assoc]

namespace Qmk

variable {settings : Settings} {s : Source} {text : String}

structure Parts (settings : Settings) (s : Source) where
  definitions : List String
  comboTexts : TextKeys
  magicCode : String
  magicTexts : TextKeys
  start : List String
  extra : String
  rest : String
  isDefinitions : s.layers.mapM (layerDefinition s.board.layoutSize) = .ok definitions
  isExtra : extraLayers s.board s.layers = .ok extra
  isCombos : comboTextKeys s.combos = .ok comboTexts
  isMagic : magicKeys settings.keycodes s.magic s.layers = .ok (magicCode, magicTexts)

namespace Parts

def comboNames (parts : Parts settings s) : List String :=
  parts.comboTexts.map (·.1)

def magicNames (parts : Parts settings s) : List String :=
  sortedNames parts.magicTexts

def keycodes (parts : Parts settings s) : String :=
  customEnum parts.comboNames parts.magicNames

def layers (parts : Parts settings s) : List String :=
  ["const uint16_t PROGMEM keymaps[][MATRIX_ROWS][MATRIX_COLS] = \x7b", Text.unlines parts.definitions, "\x7d;"]

def lines (parts : Parts settings s) : List String :=
  parts.start ++ [parts.keycodes, parts.extra] ++ parts.layers ++ [parts.rest]

theorem keycodes_infix (parts : Parts settings s) :
    ∃ before after, Text.unlines parts.lines = before ++ parts.keycodes ++ after := by
  have h : [parts.keycodes] <:+: parts.lines :=
    ⟨parts.start, parts.extra :: parts.layers ++ [parts.rest], by simp [lines]⟩
  simpa [Text.unlines] using Text.unlines_infix (by simp) h

theorem extra_infix (parts : Parts settings s) :
    ∃ before after, Text.unlines parts.lines = before ++ parts.extra ++ after := by
  have h : [parts.extra] <:+: parts.lines :=
    ⟨parts.start ++ [parts.keycodes], parts.layers ++ [parts.rest], by simp [lines]⟩
  simpa [Text.unlines] using Text.unlines_infix (by simp) h

theorem layers_infix (parts : Parts settings s) :
    ∃ before after, Text.unlines parts.lines = before ++ Text.unlines parts.layers ++ after :=
  Text.unlines_infix (by simp [layers])
    ⟨parts.start ++ [parts.keycodes, parts.extra], [parts.rest], rfl⟩

theorem comboNames_eq (parts : Parts settings s) : Forall₂ (fun combo name => textKeyName combo = .ok name)
      (s.combos.filter fun combo => !combo.macroText.isNull) parts.comboNames := by
  refine forall₂_map_right_iff.mpr ((mapM_eq_ok.mp parts.isCombos).imp fun combo key one => ?_)
  obtain ⟨name, h, one⟩ := bind_eq_ok.mp one
  obtain rfl := pure_eq_ok.mp one
  exact h

end Parts

theorem keymapFile_parts (h : keymapFile settings s = .ok text) :
    ∃ parts : Parts settings s, text = Text.unlines parts.lines := by
  unfold keymapFile at h
  obtain ⟨definitions, hd, h⟩ := bind_eq_ok.mp h
  obtain ⟨extra, he, h⟩ := bind_eq_ok.mp h
  obtain ⟨comboTexts, hc, h⟩ := bind_eq_ok.mp h
  obtain ⟨⟨magicCode, magicTexts⟩, hm, h⟩ := bind_eq_ok.mp h
  obtain ⟨combos, h⟩ := optional_eq_ok h
  obtain ⟨overrides, h⟩ := optional_eq_ok h
  obtain ⟨training, -, h⟩ := bind_eq_ok.mp h
  obtain rfl := pure_eq_ok.mp h
  exact ⟨⟨definitions, comboTexts, magicCode, magicTexts, [_, _, _, _, _, _], extra, _, hd, he, hc, hm⟩, rfl⟩

def Source.SendsText (s : Source) (name : String) : Prop :=
  ∃ m ∈ s.magic.getD [], (∃ layer ∈ s.layers, layer.name.same m.baseLayer = true) ∧
    ∃ entries, m.mappings.entries = .ok entries ∧ ∃ e ∈ entries, textPieces e.2 ≠ [] ∧
      textKeycode m.baseLayer e.1.text = .ok name

theorem magicKeys_texts {keycodes : Entries} {code : String} {texts : TextKeys}
    (hd : magicKeys keycodes s.magic s.layers = .ok (code, texts)) (name : String) :
    name ∈ sortedNames texts ↔ s.SendsText name := by
  have hsr : name ∈ sortedNames texts ↔ name ∈ texts.map (·.1) := by
    simp [sortedNames, Text.sortedSet]
  rw [hsr, Source.SendsText]
  rcases magicKeys_eq_ok hd with ⟨hnn, -, rfl⟩ | ⟨first, rest, hmg, switches, _, -, hsw, -, rfl⟩
  · simp [hnn]
  · have hec : Forall₂ (fun m keys => ∀ key, key ∈ keys ↔ TextOf m key) _ (switches.map (·.2)) :=
      forall₂_map_right_iff.mpr (hsw.imp fun _ _ one => one.2)
    rw [mem_names_assignAll, mem_map, flatMap_def, hmg, Option.getD_some]
    simp only [mem_flatten_of_forall₂ hec, compiledMappings, mem_filter, any_eq_true]
    constructor
    · rintro ⟨_, ⟨m, ⟨hm, h⟩, entries, het, e, he, hs, hn, -⟩, rfl⟩
      exact ⟨m, hm, h, entries, het, e, he, hs, hn⟩
    · rintro ⟨m, hm, h, entries, het, e, he, hs, hn⟩
      exact ⟨(name, _), ⟨m, ⟨hm, h⟩, entries, het, e, he, hs, hn, rfl⟩, rfl⟩

/-- The custom keycodes of a keymap have pairwise different values, and all of them are in the free
range exactly if a combo has a text or no magic key has one: only the keycode of the first text combo is
placed there, and all others follow it. -/
theorem customKeycodes_free_iff (done : keymapFile settings s = .ok text) (symbol : String → Nat)
    (positive : 0 < symbol "SAFE_RANGE") :
    ∃ combos magic before after, text = before ++ customEnum combos magic ++ after ∧
      List.Forall₂ (fun combo name => textKeyName combo = .ok name)
        (s.combos.filter fun combo => !combo.macroText.isNull) combos ∧
      (∀ name, name ∈ magic ↔ s.SendsText name) ∧ ((∀ name ∈ combos ++ magic, Text.IsWord name) →
        Enumerator.read (customEnum combos magic) = customEnumerators combos magic) ∧
      let values := Enumerator.values symbol (customEnumerators combos magic)
      values.map (·.1) = combos ++ magic ∧ (values.map (·.2)).Nodup ∧
        ((∀ v ∈ values, symbol "SAFE_RANGE" ≤ v.2) ↔
          (∃ combo ∈ s.combos, combo.macroText.isNull = false) ∨ ∀ name, ¬ s.SendsText name) := by
  obtain ⟨parts, rfl⟩ := keymapFile_parts done
  obtain ⟨before, after, isText⟩ := parts.keycodes_infix
  have combos := parts.comboNames_eq
  have magic := magicKeys_texts parts.isMagic
  refine ⟨parts.comboNames, parts.magicNames, before, after, isText, combos, magic,
    Enumerator.read_customEnum, ?_, ?_, ?_⟩
  · rw [Enumerator.values_customEnumerators, List.zipIdx_map_fst]
  · rw [Enumerator.values_customEnumerators, List.zipIdx_map_snd]
    exact List.nodup_range'
  · have someCombo : parts.comboNames ≠ [] ↔ ∃ combo ∈ s.combos, combo.macroText.isNull = false := by
      rw [← List.length_pos_iff, ← combos.length_eq, List.length_pos_iff]
      simp [List.filter_eq_nil_iff]
    have noMagic : parts.magicNames = [] ↔ ∀ name, ¬ s.SendsText name := by
      rw [List.eq_nil_iff_forall_not_mem]
      exact forall_congr' fun name => not_congr (magic name)
    rw [Enumerator.values_customEnumerators_ge_iff positive, someCombo, noMagic]

def nightSource : Source where
  board := { id := "night", name := "Night", firmware := .qmk, qmkKeyboard := "night" }
  layers := [⟨"BASE_NIGHT", List.replicate 36 "KC_A"⟩]
  magic := some [{
    baseLayer := "BASE_NIGHT"
    timeout := .whole 0
    mappings := .record [("A", .record [("text", "nd")])] }]

def nightSettings : Settings where
  keycodes := [("A", .record [("qmk", "KC_A")])]

theorem nightSource_sendsText : nightSource.SendsText "MAGIC_NIGHT_A" := by
  refine ⟨_, mem_singleton.mpr rfl, ⟨_, mem_singleton.mpr rfl, by decide⟩, _, rfl, _,
    mem_singleton.mpr rfl, by decide, ?_⟩
  exact eq_ok_of_toOption (by decide)

/-- The keycode gets a value that is one of the firmware's, whose free range starts at `0x7E40`. -/
theorem night_keycode_not_free : ∃ text combos magic before after,
    keymapFile nightSettings nightSource = .ok text ∧
      text = before ++ customEnum combos magic ++ after ∧ "MAGIC_NIGHT_A" ∈ magic ∧
      ∃ v ∈ Enumerator.values (fun _ => 0x7E40) (customEnumerators combos magic), v.2 < 0x7E40 := by
  obtain ⟨text, done⟩ : ∃ text, keymapFile nightSettings nightSource = .ok text :=
    exists_eq_ok (by decide)
  obtain ⟨combos, magic, before, after, isText, -, isMagic, -, -, -, free⟩ :=
    customKeycodes_free_iff done (fun _ => 0x7E40) (by decide)
  refine ⟨text, combos, magic, before, after, done, isText, (isMagic _).mpr nightSource_sendsText, ?_⟩
  by_contra none
  have all := free.mp fun v member => Nat.le_of_not_lt fun below => none ⟨v, member, below⟩
  rcases all with ⟨combo, noCombo, -⟩ | noText
  · cases noCombo
  · exact noText _ nightSource_sendsText

end Qmk

end Keymap
