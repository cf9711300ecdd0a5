import Keymap.Proofs.CompiledKeys
import Keymap.Proofs.ZmkBindings
import Keymap.Proofs.ZmkLayers

namespace Keymap.Zmk

open Devicetree List

variable {known : String → Prop} {settings : Settings} {s : Source} {table : BehaviorTable}
  {refs : MacroRefs} {label : String} {definitions : List String}

def magicPart (settings : Settings) (table : BehaviorTable) (refs : MacroRefs) (s : Source) :
    Result (List String) :=
  if (s.magic.getD []).isEmpty then pure []
  else (magicSection settings.keycodes table refs (s.magic.getD [])).map ([·])

def magicTrainingPart (settings : Settings) (table : BehaviorTable) (refs : MacroRefs) (s : Source) :
    Result (List String × Replacements) :=
  if (s.magic.getD []).isEmpty || !settings.magicTraining then pure ([], [])
  else (magicTrainingSection settings.keycodes table refs (s.magic.getD []) s.layers).map
    fun made => ([made.1], made.2)

def comboTrainingPart (settings : Settings) (table : BehaviorTable) (s : Source) :
    Result (List String × Replacements) :=
  if s.combos.isEmpty || !settings.comboTraining then pure ([], [])
  else (comboTrainingSection settings.keycodes table s.combos s.layers).map
    fun made => (if made.1.isEmpty then [] else [made.1], made.2)

def morphPart (settings : Settings) (s : Source) : Result (List String) :=
  if s.morphs.isEmpty then pure [] else (shiftMorphs settings.keycodes s.morphs).map ([·])

structure SectionParts (settings : Settings) (table : BehaviorTable) (refs : MacroRefs)
    (s : Source) where
  magic : List String
  training : List String × Replacements
  combo : List String × Replacements
  morphs : List String
  isMagic : magicPart settings table refs s = .ok magic
  isTraining : magicTrainingPart settings table refs s = .ok training
  isCombo : comboTrainingPart settings table s = .ok combo
  isMorphs : morphPart settings s = .ok morphs

namespace SectionParts

def all (p : SectionParts settings table refs s) : List String :=
  p.magic ++ p.training.1 ++ p.combo.1 ++ p.morphs

def replacements (p : SectionParts settings table refs s) : Replacements :=
  mergeReplacements p.training.2 p.combo.2

end SectionParts

theorem behaviorSections_parts : Yields (behaviorSections settings table refs s) fun result =>
    ∃ p : SectionParts settings table refs s, result = (p.all, p.replacements) := by
  unfold behaviorSections
  extract_lets config afterMagic
  have hmd : ∀ magic, magicPart settings table refs s = .ok magic →
      Yields (afterMagic magic) fun result =>
        ∃ p : SectionParts settings table refs s, result = (p.all, p.replacements) := by
    intro magic hmg
    unfold afterMagic
    extract_lets afterTraining
    have htd : ∀ training, magicTrainingPart settings table refs s = .ok training →
        Yields (afterTraining training) fun result =>
          ∃ p : SectionParts settings table refs s, result = (p.all, p.replacements) := by
      intro training ht
      unfold afterTraining
      dsimp -zeta only
      extract_lets afterCombo
      have hc : ∀ combo, comboTrainingPart settings table s = .ok combo →
          Yields (afterCombo combo) fun result =>
            ∃ p : SectionParts settings table refs s, result = (p.all, p.replacements) := by
        intro combo hcm
        unfold afterCombo
        dsimp only
        split
        · rename_i h
          exact .ok ⟨⟨_, _, _, _, hmg, ht, hcm, if_pos h⟩, rfl⟩
        · rename_i hp
          refine Yields.self.bind fun text made =>
            .ok ⟨⟨_, _, _, _, hmg, ht, hcm, ?_⟩, rfl⟩
          rw [morphPart, if_neg hp, made]
          rfl
      clear_value afterCombo
      split
      · rename_i h
        exact hc _ (if_pos h)
      · rename_i hp
        refine Yields.self.bind fun made hm => hc _ ?_
        rw [comboTrainingPart, if_neg hp, hm]
        rfl
    clear_value afterTraining
    split
    · rename_i h
      exact htd _ (if_pos h)
    · rename_i hp
      refine Yields.self.bind fun made hm => htd _ ?_
      rw [magicTrainingPart, if_neg hp, hm]
      rfl
  clear_value afterMagic
  split
  · rename_i h
    exact hmd _ (if_pos h)
  · rename_i hp
    refine Yields.self.bind fun text made => hmd _ ?_
    rw [magicPart, if_neg hp, made]
    rfl

theorem SectionParts.within (p : SectionParts settings table refs s) (hb : KnowsOthers known)
    (tidy : TidyTable known settings.keycodes) (refsKnown : RefsKnown known refs)
    (hp : TableClosed known table) (mappings : ∀ m ∈ s.magic.getD [], MappingClosed known m)
    (names : TrainingNames s.combos s.layers) (hl : LayersWithin known s.layers)
    (morphs : ∀ morph ∈ s.morphs, Text.IsIdentifier morph.1.toText ∧ Text.IsIdentifier morph.2.toText)
    (hk : ∀ label, Defines p.all label → known label) :
    AllWithin known p.all ∧ ReplacementsWithin known p.replacements := by
  have hn : ReplacementsWithin known [] := by
    intro group hmm
    cases hmm
  have hmg : AllWithin known p.magic := by
    refine (?_ : Yields (magicPart settings table refs s) (AllWithin known)) _ p.isMagic
    unfold magicPart
    split
    · exact .ok .nil
    · exact .map ((magicSection_within hb tidy refsKnown hp mappings).mono fun text h => .cons h .nil)
  have htr : AllWithin known p.training.1 ∧ ReplacementsWithin known p.training.2 := by
    have ht := p.isTraining
    unfold magicTrainingPart at ht
    split at ht
    · rw [← pure_eq_ok.mp ht]
      exact ⟨.nil, hn⟩
    · obtain ⟨made, hm, hs⟩ := map_eq_ok.mp ht
      have hcl := magicTrainingSection_closed hb tidy refsKnown hp mappings hl
      have hsc : ∀ label ∈ labels made.1, known label := fun label hf =>
        hk label ⟨made.1, by simp [all, ← hs], hf⟩
      obtain ⟨h, hr⟩ := hcl made hm hsc
      rw [← hs]
      exact ⟨.cons h .nil, hr⟩
  have hcm : AllWithin known p.combo.1 ∧ ReplacementsWithin known p.combo.2 := by
    have hc := p.isCombo
    unfold comboTrainingPart at hc
    split at hc
    · rw [← pure_eq_ok.mp hc]
      exact ⟨.nil, hn⟩
    · obtain ⟨made, hm, hs⟩ := map_eq_ok.mp hc
      have hcl := comboTrainingSection_closed hb tidy hp names hl
      have hsc : ∀ label ∈ labels made.1, known label := by
        intro label hf
        by_cases he : made.1 = ""
        · rw [he] at hf
          cases hf
        · exact hk label ⟨made.1, by simp [all, ← hs, he], hf⟩
      obtain ⟨h, hr⟩ := hcl made hm hsc
      rw [← hs]
      refine ⟨?_, hr⟩
      split
      · exact .nil
      · exact .cons h .nil
  have morph : AllWithin known p.morphs := by
    refine (?_ : Yields (morphPart settings s) (AllWithin known)) _ p.isMorphs
    unfold morphPart
    split
    · exact .ok .nil
    · exact .map ((shiftMorphs_within hb tidy morphs).mono fun text h => .cons h .nil)
  exact ⟨((hmg.append htr.1).append hcm.1).append morph, htr.2.merge hcm.2⟩

theorem define_eq_ok {requests : List (Result MacroRequest)} {p after : Progress}
    {texts : List String} (h : (define settings requests).run.run p = (.ok texts, after)) :
    ∃ names, defineMacros settings.keycodes p.macros requests = (.ok texts, names) ∧
      after = { p with macros := names } := by
  unfold define at h
  cases hd : defineMacros settings.keycodes p.macros requests with
  | mk result names =>
    obtain ⟨now, _, hr, h⟩ := run_bind_eq_ok.mp h
    obtain ⟨rfl, rfl⟩ := run_pure_eq_ok.mp hr
    rw [hd] at h
    obtain ⟨_, _, hs, h⟩ := run_bind_eq_ok.mp h
    obtain ⟨-, rfl⟩ := Prod.mk.inj hs
    cases result with
    | error fault => cases (Prod.mk.inj h).1
    | ok texts' =>
      obtain ⟨rfl, rfl⟩ := run_pure_eq_ok.mp h
      exact ⟨names, rfl, rfl⟩

def headLines (settings : Settings) (s : Source) : List String :=
  let shield := if s.board.zmkShield.isPresent then s.board.zmkShield else s.board.zmkBoard
  ["// AUTO-GENERATED - DO NOT EDIT",
   "// Generated from config/keymap.yaml",
   s!"// Board: {s.board.name.toText}",
   s!"// Shield/Board: {shield.toText}",
   "",
   "#include <behaviors.dtsi>",
   "#include <dt-bindings/zmk/keys.h>",
   "#include <dt-bindings/zmk/bt.h>",
   "#include \"dario_behaviors.dtsi\"",
   "",
   "// Behavior timing overrides (from config/keymap.yaml)"] ++
  timingOverride "lt" settings.behaviors.layerTap ++ [""] ++
  timingOverride "mt" settings.behaviors.modTap ++ [""] ++
  layerDefines s.layers

def treeLines (combos behaviors : String) (layers : List String) : List String :=
  ["",
   "/ \x7b",
   combos,
   behaviors,
   "    keymap \x7b",
   "        compatible = \"zmk,keymap\";",
   "",
   Text.join "\n\n" layers,
   "    \x7d;",
   "\x7d;",
   ""]

def macroText (definitions : List String) : String :=
  if definitions.isEmpty then "" else "\n" ++ wrapMacros definitions

structure FileParts (settings : Settings) (s : Source) (start : Progress) where
  combos : String
  comboMacros : List String
  magicMacros : List String
  names : List String
  allNames : List String
  sections : SectionParts settings (withHomeRow settings.behaviors s.board.layoutSize start.table)
    (magicRefs (s.magic.getD [])) s
  layers : List String
  isCombos : combos = "" ∨ ∃ made, combosSection s.combos (s.layers.map (·.name)) s.board.layoutSize =
    .ok made ∧ combos = "\n" ++ made
  isComboMacros : defineMacros settings.keycodes start.macros (comboRequests s.combos) =
    (.ok comboMacros, names)
  isMagicMacros : defineMacros settings.keycodes names (magicRequests (s.magic.getD [])) =
    (.ok magicMacros, allNames)
  isSections : behaviorSections settings
    (withHomeRow settings.behaviors s.board.layoutSize start.table)
    (magicRefs (s.magic.getD [])) s = .ok (sections.all, sections.replacements)
  isLayers : s.layers.mapM (layerNode s.board.layoutSize sections.replacements s.magic) = .ok layers

variable {start : Progress}

namespace FileParts

def behaviors (parts : FileParts settings s start) : List String :=
  homeRowSection settings.behaviors s.board.layoutSize :: parts.sections.all

def text (parts : FileParts settings s start) : String :=
  Text.unlines (headLines settings s ++ treeLines parts.combos
    (macroText (parts.comboMacros ++ parts.magicMacros) ++ Text.unlines parts.behaviors) parts.layers)

end FileParts

theorem keymapFile_parts {text : String} (hg : ((keymapFile settings s).run.run start).1 = .ok text) :
    ∃ parts : FileParts settings s start, parts.text = text := by
  cases h : (keymapFile settings s).run.run start with
  | mk result after =>
  rw [h] at hg
  rw [show result = .ok text from hg] at h
  unfold keymapFile at h
  extract_lets size shield rest at h
  have hn : ∀ combos, (combos = "" ∨ ∃ made, combosSection s.combos (s.layers.map (·.name))
      s.board.layoutSize = .ok made ∧ combos = "\n" ++ made) →
      (rest combos).run.run start = (.ok text, after) →
        ∃ parts : FileParts settings s start, parts.text = text := by
    intro combos hc h
    obtain ⟨comboMacros, p, hcb, h⟩ := run_bind_eq_ok.mp h
    obtain ⟨names, hcd, rfl⟩ := define_eq_ok hcb
    obtain ⟨magicMacros, p, hm, h⟩ := run_bind_eq_ok.mp h
    obtain ⟨definitions, p', hd, hm⟩ := run_bind_eq_ok.mp hm
    obtain ⟨names', hmd, rfl⟩ := define_eq_ok hd
    obtain ⟨rfl, rfl⟩ := run_pure_eq_ok.mp hm
    obtain ⟨home, p, hh, h⟩ := run_bind_eq_ok.mp h
    obtain ⟨rfl, rfl⟩ : homeRowSection settings.behaviors size = home ∧ _ = p := by
      obtain ⟨hs, hsm⟩ := Prod.mk.inj hh
      exact ⟨Except.ok.inj hs, hsm⟩
    obtain ⟨table, p, ht, h⟩ := run_bind_eq_ok.mp h
    obtain ⟨rfl, rfl⟩ : _ = table ∧ _ = p := by
      obtain ⟨hs, hsm⟩ := Prod.mk.inj ht
      exact ⟨Except.ok.inj hs, hsm⟩
    obtain ⟨sections, p, hst, h⟩ := run_bind_eq_ok.mp h
    obtain ⟨hsc, rfl⟩ := run_liftM_eq_ok.mp hst
    obtain ⟨p, rfl⟩ := behaviorSections_parts _ hsc
    obtain ⟨layers, p, hl, h⟩ := run_bind_eq_ok.mp h
    obtain ⟨hlm, rfl⟩ := run_liftM_eq_ok.mp hl
    obtain ⟨rfl, rfl⟩ := run_pure_eq_ok.mp h
    refine ⟨⟨combos, comboMacros, definitions, names, names', p, layers, hc, hcd, hmd, hsc, hlm⟩, ?_⟩
    simp only [FileParts.text, headLines, treeLines, macroText, append_assoc]
    rfl
  clear_value rest
  split at h
  · exact hn _ (.inl rfl) h
  · obtain ⟨c, p, hc, h⟩ := run_bind_eq_ok.mp h
    obtain ⟨hcm, rfl⟩ := run_liftM_eq_ok.mp hc
    exact hn _ (.inr ⟨c, hcm, rfl⟩) h

def layerNodes (settings : Settings) (s : Source) (start : Progress) : Result (List String) := do
  let sections ← behaviorSections settings
    (withHomeRow settings.behaviors s.board.layoutSize start.table) (magicRefs (s.magic.getD [])) s
  s.layers.mapM (layerNode s.board.layoutSize sections.2 s.magic)

theorem macroText_append (h : definitions ≠ []) (rest : String) : macroText definitions ++ rest =
      Text.unlines ["", "    macros \x7b", Text.unlines definitions, "    \x7d;", rest] := by
  rw [← String.toList_inj, macroText, if_neg (by simpa using h), wrapMacros]
  simp [Text.unlines, String.intercalate_cons_cons]

theorem mem_labels_macroText {rest : String} (h : Defines definitions label ∨ label ∈ labels rest) :
    label ∈ labels (macroText definitions ++ rest) := by
  by_cases hp : definitions = []
  · rcases h with ⟨s, hn, -⟩ | h
    · rw [hp] at hn
      cases hn
    · rwa [hp, macroText, if_pos (by rfl), String.empty_append]
  · rw [macroText_append hp, mem_labels_unlines]
    rcases h with hd | h
    · exact ⟨_, by simp, mem_labels_unlines.mpr hd⟩
    · exact ⟨_, by simp, h⟩

theorem macroText_within {rest : String} (hm : AllWithin known definitions) (hw : Within known rest) :
    Within known (macroText definitions ++ rest) := by
  by_cases h : definitions = []
  · rwa [h, macroText, if_pos (by rfl), String.empty_append]
  · rw [macroText_append h]
    refine within_unlines (.literal (by decide) (.literal (by decide) (.cons ?_ ?_)))
    · exact within_unlines hm
    · exact .literal (by decide) (.cons hw .nil)

namespace FileParts

theorem mem_labels (parts : FileParts settings s start)
    (hf : Defines (parts.comboMacros ++ parts.magicMacros) label ∨ Defines parts.behaviors label) :
    label ∈ labels parts.text := by
  refine mem_labels_unlines.mpr (.append_right ?_)
  refine ⟨_, mem_cons_of_mem _ (mem_cons_of_mem _ (mem_cons_of_mem _
    mem_cons_self)), mem_labels_macroText (hf.imp_right fun h => ?_)⟩
  exact mem_labels_unlines.mpr h

theorem layerNodes_eq (parts : FileParts settings s start) : layerNodes settings s start = .ok parts.layers :=
  bind_eq_ok.mpr ⟨_, parts.isSections, parts.isLayers⟩

theorem mem_references (parts : FileParts settings s start)
    (h : ∃ node ∈ parts.layers, label ∈ references node) : label ∈ references parts.text := by
  have ht : label ∈ references (Text.join "\n\n" parts.layers) := by
    rw [references_join "\n\n" (by decide) (by decide) (by decide)]
    exact mem_flatMap.mpr h
  change label ∈ references (Text.join "\n" _)
  rw [references_join "\n" (by decide) (by decide) (by decide)]
  exact mem_flatMap.mpr ⟨_, mem_append_right _ (by simp [treeLines]), ht⟩

end FileParts

theorem timingOverride_within (hb : KnowsOthers known) {name : String}
    (hn : Text.IsIdentifier name) (other : isGenerated name = false) {t : Timing}
    (h : TimingClosed known t) : AllWithin known (timingOverride name t) := by
  have ho : Within known ("&" ++ name ++ " \x7b") :=
    (within_ampersand hn (hb name other)).append (lacks_literal (by decide)).within (.inr rfl)
  refine .cons ho (.cons ?_ (.cons ?_ (.cons ?_ (.literal (by decide) .nil))))
  · exact h.tappingTerm.surround (by decide)
  · exact h.quickTap.surround (by decide)
  · exact h.flavor.surround (by decide)

theorem layerDefines_within {layers : List CompiledLayer}
    (isNames : ∀ layer ∈ layers, Text.IsIdentifier layer.name.toText) :
    AllWithin known (layerDefines layers) := by
  intro line hm
  obtain ⟨⟨layer, i⟩, h, rfl⟩ := mem_map.mp hm
  have hn := isNames layer (fst_mem_of_mem_zipIdx h)
  refine Lacks.within ?_
  simp only [lacks_append]
  exact ⟨⟨⟨lacks_literal (by decide), lacks_of_isIdentifier hn⟩, lacks_literal (by decide)⟩,
    lacks_of_isIdentifier (Text.isIdentifier_toString i)⟩

structure PlainCombo (combo : Combo) : Prop where
  title : Text.IsIdentifier combo.title
  timeout : Plain combo.timeout.toText
  priorIdle : Plain combo.priorIdle.toText
  action : Plain combo.action.toText
  positions : Yields combo.positions.members fun ps => ∀ p ∈ ps, Plain p.toText
  layers : Yields combo.layers.members fun names => ∀ name ∈ names, Text.IsIdentifier name.toText

/-- What is written into a keymap as it is configured refers to no generated label, and names are
identifiers. -/
structure PlainSettings (settings : Settings) (board : Board) (combos : List Combo)
    (magic : MagicConfig) : Prop where
  keycodes : TidyTable (isGenerated · = false) settings.keycodes
  homeRowMods : TimingClosed (isGenerated · = false) settings.behaviors.homeRowMods
  layerTap : TimingClosed (isGenerated · = false) settings.behaviors.layerTap
  modTap : TimingClosed (isGenerated · = false) settings.behaviors.modTap
  boardName : Plain board.name.toText
  shield : Plain board.zmkShield.toText
  boardKind : Plain board.zmkBoard.toText
  layoutSize : Plain board.layoutSize.text
  combos : ∀ combo ∈ combos, PlainCombo combo
  magic : ∀ m ∈ magic, Text.IsIdentifier m.title ∧ Plain m.timeout.toText

/-- A label that a keymap has to define itself: one of a generated family, or the macro of a combo that
types a text. Only `github_url` is defined elsewhere. -/
def MustDefine (combos : List Combo) (label : String) : Prop :=
  isGenerated label = true ∨ ∃ combo ∈ combos, combo.macroText.isNull = false ∧
    label = Text.lower combo.title ∧ label ≠ "github_url"

def Resolved (combos : List Combo) (text label : String) : Prop :=
  label ≠ "" → MustDefine combos label → label ∈ labels text

namespace FileParts

variable {file : Option String} (parts : FileParts settings s (.start settings file))

section Labels

theorem mem_labels_combo (plain : PlainSettings settings s.board s.combos (s.magic.getD []))
    {combo : Combo} (h : combo ∈ s.combos) (hm : combo.macroText.isNull = false)
    (hp : Text.lower combo.title ≠ "") (ho : Text.lower combo.title ≠ "github_url") :
    Text.lower combo.title ∈ labels parts.text := by
  obtain ⟨hrt, -, ha⟩ := defineMacros_names parts.isComboMacros
  have hr : (do return (Text.lower (← combo.name.word "lower"), combo.macroText) :
      Result MacroRequest) ∈ comboRequests s.combos :=
    mem_map.mpr ⟨combo, mem_filter.mpr ⟨h, by simp [hm]⟩, rfl⟩
  obtain ⟨name, typed, hrq, hn⟩ := hrt _ hr
  obtain ⟨word, hw, hrs⟩ := bind_eq_ok.mp hrq
  obtain ⟨rfl, -⟩ := Prod.mk.inj (pure_eq_ok.mp hrs)
  have ht : combo.title = word := by
    rw [Combo.title, word_yields _ _ word hw]
    rfl
  have hi := (plain.combos combo h).title.lower
  rw [ht] at hi hp ho ⊢
  rcases ha _ hn with old | hd
  · exact absurd (mem_singleton.mp old) ho
  · exact parts.mem_labels (.inl (.append_left (hd hi hp)))

theorem base (hp : PlainSettings settings s.board s.combos (s.magic.getD [])) (name : String)
    (ho : isGenerated name = false) : Resolved s.combos parts.text name := by
  rintro hpr (h | ⟨combo, hc, hm, rfl, hn⟩)
  · rw [ho] at h
    cases h
  · exact parts.mem_labels_combo hp hc hm hpr hn

theorem hands : Resolved s.combos parts.text "hml" ∧ Resolved s.combos parts.text "hmr" :=
  ⟨fun _ _ => parts.mem_labels (.inr ⟨_, mem_cons_self, mem_labels_homeRowSection _ _ (.inl rfl)⟩),
    fun _ _ => parts.mem_labels (.inr ⟨_, mem_cons_self, mem_labels_homeRowSection _ _ (.inr rfl)⟩)⟩

theorem refsKnown (plain : PlainSettings settings s.board s.combos (s.magic.getD [])) :
    RefsKnown (Resolved s.combos parts.text) (magicRefs (s.magic.getD [])) := by
  intro place name hf
  obtain ⟨hs, typed, hr⟩ := requested_of_magicRefs hf
  have hn := isIdentifier_of_magicRequests (fun m hm => (plain.magic m hm).1) hr
  refine ⟨hn, fun hp _ => parts.mem_labels (.inl ?_)⟩
  obtain ⟨hrq, -, ha⟩ := defineMacros_names parts.isMagicMacros
  obtain ⟨_, _, hsm, hnm⟩ := hrq _ hr
  cases hsm
  rcases ha _ hnm with old | h
  · rcases (defineMacros_names parts.isComboMacros).2.2 _ old with old | h
    · rw [mem_singleton.mp old] at hs
      exact absurd hs (by decide)
    · exact .append_left (h hn hp)
  · exact .append_right (h hn hp)

theorem mappings (hp : PlainSettings settings s.board s.combos (s.magic.getD []))
    {m : MagicMapping} (h : m ∈ s.magic.getD []) : MappingClosed (Resolved s.combos parts.text) m := by
  obtain ⟨hn, ht⟩ := hp.magic m h
  refine ⟨hn, ht.within (parts.base hp), fun label hmm _ _ => ?_⟩
  have hm := parts.sections.isMagic
  have hps : ¬ (s.magic.getD []).isEmpty := fun hnn => by
    rw [isEmpty_iff.mp hnn] at h
    cases h
  rw [magicPart, if_neg hps] at hm
  obtain ⟨text, hmd, hpr⟩ := map_eq_ok.mp hm
  have hf := mem_labels_magicSection h hn hmm text hmd
  refine parts.mem_labels (.inr ⟨text, mem_cons_of_mem _ ?_, hf⟩)
  simp [SectionParts.all, ← hpr]

theorem morphs {plain shifted : String} (h : (.text plain, .text shifted) ∈ s.morphs)
    (isPlain : Text.IsIdentifier plain) (hs : Text.IsIdentifier shifted) :
    Resolved s.combos parts.text (morphLabel plain shifted) := by
  have hm := parts.sections.isMorphs
  have hpr : ¬ s.morphs.isEmpty := fun hn => by
    rw [isEmpty_iff.mp hn] at h
    cases h
  rw [morphPart, if_neg hpr] at hm
  obtain ⟨text, hmd, hp⟩ := map_eq_ok.mp hm
  have hf := mem_labels_shiftMorphs h isPlain hs text hmd
  intro _ _
  refine parts.mem_labels (.inr ⟨text, mem_cons_of_mem _ ?_, hf⟩)
  simp [SectionParts.all, ← hp]

end Labels

theorem comboClosed (plain : PlainSettings settings s.board s.combos (s.magic.getD []))
    {combo : Combo} (hc : combo ∈ s.combos) : ComboClosed (Resolved s.combos parts.text) combo := by
  have h := parts.base plain
  have hp := plain.combos combo hc
  refine ⟨hp.title, hp.timeout.within h, hp.priorIdle.within h, hp.action.within h, ?_, fun hm => ?_⟩
  · exact hp.positions.mono fun ps he p hmm => (he p hmm).within h
  · by_cases hu : Text.lower combo.title = "github_url"
    · rw [hu]
      exact h _ (by decide)
    · exact fun hpr _ => parts.mem_labels_combo plain hc hm hpr hu

theorem tableClosed (h : PlainSettings settings s.board s.combos (s.magic.getD [])) :
    TableClosed (Resolved s.combos parts.text) (withHomeRow settings.behaviors s.board.layoutSize
      (Progress.start settings file).table) :=
  have hb := parts.base h
  withHomeRow_closed (h.homeRowMods.mono hb) (h.layerTap.mono hb)
    (h.modTap.mono hb) _ _

theorem headLines_within (h : KnowsOthers known)
    (hp : PlainSettings settings s.board s.combos (s.magic.getD []))
    (hn : ∀ layer ∈ s.layers, Text.IsIdentifier layer.name.toText) :
    AllWithin known (headLines settings s) := by
  unfold headLines
  extract_lets shield
  have hs : Plain shield.toText := by
    unfold shield
    split
    · exact hp.shield
    · exact hp.boardKind
  clear_value shield
  refine (((((AllWithin.append ?_ ?_).append ?_).append ?_).append ?_).append ?_)
  · refine .literal (by decide) (.literal (by decide) (.cons ?_ (.cons ?_ ?_)))
    · exact (hp.boardName.within h).quiet_append (lacks_literal (by decide))
    · exact (hs.within h).quiet_append (lacks_literal (by decide))
    · refine .literal (by decide) (.literal (by decide) (.literal (by decide) (.literal (by decide) ?_)))
      exact .literal (by decide) (.literal (by decide) (.literal (by decide) .nil))
  · exact timingOverride_within h (by decide) (by decide) (hp.layerTap.mono h)
  · exact .literal (by decide) .nil
  · exact timingOverride_within h (by decide) (by decide) (hp.modTap.mono h)
  · exact .literal (by decide) .nil
  · exact layerDefines_within hn

theorem treeLines_within {combos behaviors : String} {layers : List String}
    (hc : Within known combos) (h : Within known behaviors)
    (hl : AllWithin known layers) : AllWithin known (treeLines combos behaviors layers) := by
  have hr := within_join "\n\n" (by decide) (by decide) (by decide) hl
  refine .literal (by decide) (.literal (by decide) (.cons hc (.cons h ?_)))
  refine .literal (by decide) (.literal (by decide) (.literal (by decide) (.cons hr ?_)))
  exact .literal (by decide) (.literal (by decide) (.literal (by decide) .nil))

theorem within (h : PlainSettings settings s.board s.combos (s.magic.getD []))
    (hn : ∀ layer ∈ s.layers, Text.IsIdentifier layer.name.toText)
    (layers : LayersWithin (Resolved s.combos parts.text) s.layers) (morphs : ∀ morph ∈ s.morphs,
      Text.IsIdentifier morph.1.toText ∧ Text.IsIdentifier morph.2.toText) :
    Within (Resolved s.combos parts.text) parts.text := by
  have hb := parts.base h
  have ht := h.keycodes.mono hb
  obtain ⟨hsc, hr⟩ := parts.sections.within hb ht (parts.refsKnown h)
    (parts.tableClosed h) (fun m hm => parts.mappings h hm)
    ⟨hn, fun combo hc => (h.combos combo hc).layers⟩ layers morphs
    fun label hd _ _ => parts.mem_labels (.inr hd.cons)
  have hcb : Within (Resolved s.combos parts.text) parts.combos := by
    rcases parts.isCombos with hnn | ⟨made, hmd, hs⟩
    · rw [hnn]
      exact Lacks.within (by decide)
    · rw [hs]
      have hcl := combosSection_within hb fun combo hc => parts.comboClosed h hc
      exact (hcl _ _ made hmd).quiet_append (by decide)
  have hcm : AllWithin (Resolved s.combos parts.text) parts.comboMacros :=
    defineMacros_within hb ht (fun name typed hmm =>
      isIdentifier_of_comboRequests (fun combo hc => (h.combos combo hc).title) hmm)
      parts.isComboMacros
  have hmg : AllWithin (Resolved s.combos parts.text) parts.magicMacros :=
    defineMacros_within hb ht (fun name typed hmm =>
      isIdentifier_of_magicRequests (fun m hm => (h.magic m hm).1) hmm)
      parts.isMagicMacros
  have hh : Within (Resolved s.combos parts.text)
      (homeRowSection settings.behaviors s.board.layoutSize) :=
    homeRowSection_within hb (h.homeRowMods.mono hb) (h.layoutSize.within hb)
  have hnd : AllWithin (Resolved s.combos parts.text) parts.layers :=
    Yields.mapM_all (fun layer hl =>
      layerNode_within hr (hn layer hl) (layers layer hl)) _ parts.isLayers
  refine within_unlines ((headLines_within hb h hn).append ?_)
  refine treeLines_within hcb (macroText_within (hcm.append hmg) ?_) hnd
  exact within_unlines (.cons hh hsc)

end FileParts

structure Source.Bare (s : Source) : Prop where
  magic : s.magic.getD [] = []
  combos : s.combos = []
  morphs : s.morphs = []

theorem SectionParts.all_of_bare (p : SectionParts settings table refs s) (h : s.Bare) : p.all = [] := by
  have hm := p.isMagic
  have ht := p.isTraining
  have hc := p.isCombo
  have hmr := p.isMorphs
  rw [magicPart, h.magic] at hm
  rw [magicTrainingPart, h.magic] at ht
  rw [comboTrainingPart, h.combos] at hc
  rw [morphPart, h.morphs] at hmr
  rw [all, ← Except.ok.inj hm, ← Except.ok.inj ht, ← Except.ok.inj hc, ← Except.ok.inj hmr]
  rfl

theorem treeLines_lacks {combos behaviors : String} {layers : List String} (hf : Lacks ':' combos)
    (last : Lacks ':' (Text.join "\n\n" layers)) :
    ∀ line ∈ treeLines combos behaviors layers, line = behaviors ∨ Lacks ':' line := by
  have h {cs : List Char} (hl : ':' ∉ cs) :
      String.ofList cs = behaviors ∨ Lacks ':' (String.ofList cs) := .inr (lacks_literal hl)
  simp only [treeLines, forall_mem_cons]
  exact ⟨h (by decide), h (by decide), .inr hf, .inl trivial, h (by decide),
    h (by decide), h (by decide), .inr last, h (by decide), h (by decide), h (by decide), forall_mem_nil _⟩

namespace FileParts

theorem macros_of_bare (parts : FileParts settings s start) (h : s.Bare) :
    parts.comboMacros ++ parts.magicMacros = [] := by
  have hc := congrArg Prod.fst parts.isComboMacros
  have hm := congrArg Prod.fst parts.isMagicMacros
  rw [h.combos] at hc
  rw [h.magic] at hm
  rw [← Except.ok.inj hc, ← Except.ok.inj hm]
  rfl

theorem lacks_combos_of_bare (parts : FileParts settings s start) (hb : s.Bare) : Lacks ':' parts.combos := by
  rcases parts.isCombos with hn | ⟨made, h, hs⟩
  · rw [hn]
    decide
  · rw [hb.combos] at h
    rw [hs, ← Except.ok.inj h]
    decide

theorem mem_labels_of_bare (parts : FileParts settings s start) (hb : s.Bare)
    (hn : ∀ node ∈ parts.layers, Lacks ':' node) (h : label ∈ labels parts.text) :
    Defines (headLines settings s) label ∨
      label ∈ labels (homeRowSection settings.behaviors s.board.layoutSize) := by
  rw [text, parts.macros_of_bare hb, behaviors, parts.sections.all_of_bare hb, mem_labels_unlines] at h
  obtain ⟨line, hl, h⟩ := h
  have hly : Lacks ':' (Text.join "\n\n" parts.layers) := lacks_join (by decide) hn
  rcases mem_append.mp hl with hh | ht
  · exact .inl ⟨line, hh, h⟩
  · rcases treeLines_lacks (parts.lacks_combos_of_bare hb) hly line ht with hs | hlc
    · rw [hs, macroText, if_pos (by rfl), String.empty_append, mem_labels_unlines] at h
      simpa [Defines] using Or.inr h
    · rw [labels_of_lacks hlc] at h
      cases h

end FileParts

end Keymap.Zmk
