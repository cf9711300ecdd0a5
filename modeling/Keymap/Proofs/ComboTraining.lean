import Keymap.Proofs.ReplacementTables

namespace Keymap.Zmk

open List

variable {first second : Document} {combo : Combo}

section Bigrams

variable {combos : List Combo} {layers : List CompiledLayer}

/-- A bigram of a combo that is trained on a layer. The combo lists the layer, or it lists none and the layer
is a base layer. -/
def TrainedOn (combos : List Combo) (layers : List CompiledLayer) (name : String) (first second : Document) :
    Prop :=
  ∃ combo ∈ combos, combo.bigram? = .ok (some (first, second)) ∧
    if combo.layers.isPresent then ∃ listed, combo.layers.members = .ok listed ∧ .text name ∈ listed
    else (∃ layer ∈ layers, layer.name = .text name) ∧ Text.startsWith name "BASE_" = true

theorem mem_trainedLayers {trained : List Document} (h : trainedLayers layers combo = .ok trained)
    (name : String) : .text name ∈ trained ↔
      if combo.layers.isPresent then ∃ listed, combo.layers.members = .ok listed ∧ .text name ∈ listed
      else (∃ layer ∈ layers, layer.name = .text name) ∧ Text.startsWith name "BASE_" := by
  rw [trainedLayers] at h
  split at h
  · rename_i hp
    rw [if_pos hp, h]
    exact ⟨fun hm => ⟨trained, rfl, hm⟩, fun ⟨_, hs, hm⟩ => Except.ok.inj hs ▸ hm⟩
  · rename_i ha
    obtain ⟨named, hnm, h⟩ := bind_eq_ok.mp h
    obtain rfl := pure_eq_ok.mp h
    have hr := mapM_eq_ok.mp hnm
    have ht : ∀ (layer : CompiledLayer) (n : Document × String),
        (do return (layer.name, ← layer.name.word "startswith")) = Except.ok n →
          layer.name = .text n.2 ∧ n.1 = .text n.2 := by
      intro layer n h
      obtain ⟨text, ht, h⟩ := bind_eq_ok.mp h
      obtain rfl := pure_eq_ok.mp h
      exact ⟨word_yields _ _ _ ht, word_yields _ _ _ ht⟩
    rw [if_neg ha, mem_map]
    constructor
    · rintro ⟨n, hk, hn⟩
      obtain ⟨hm, hb⟩ := mem_filter.mp hk
      obtain ⟨layer, hl, h⟩ := forall₂_mem_right hr hm
      obtain ⟨hly, hs⟩ := ht layer n h
      obtain rfl := Document.text.inj (hs.symm.trans hn)
      exact ⟨⟨layer, hl, hly⟩, hb⟩
    · rintro ⟨⟨layer, hl, hly⟩, hb⟩
      obtain ⟨n, hm, h⟩ := forall₂_mem_right hr.flip hl
      obtain ⟨hlr, hs⟩ := ht layer n h
      obtain rfl := Document.text.inj (hly.symm.trans hlr)
      exact ⟨n, mem_filter.mpr ⟨hm, hb⟩, hs⟩

theorem mem_layerBigrams {bigrams : List (Document × (Document × Document))}
    (h : layerBigrams layers combo = .ok bigrams) (name : String) (first second : Document) :
    (.text name, (second, first)) ∈ bigrams ↔ combo.bigram? = .ok (some (first, second)) ∧
      if combo.layers.isPresent then ∃ listed, combo.layers.members = .ok listed ∧ .text name ∈ listed
      else (∃ layer ∈ layers, layer.name = .text name) ∧ Text.startsWith name "BASE_" := by
  obtain ⟨found, hf, h⟩ := bind_eq_ok.mp h
  rw [hf]
  cases found with
  | none =>
    obtain rfl := pure_eq_ok.mp h
    constructor
    · intro hm
      cases hm
    · rintro ⟨some, -⟩
      cases some
  | some letters =>
    obtain ⟨first', second'⟩ := letters
    obtain ⟨trained, htr, h⟩ := bind_eq_ok.mp h
    have hr := mapM_eq_ok.mp h
    have hb : ∀ layer b, (do
        let _ ← layer.asField
        let _ ← second'.asField
        return (layer, (second', first')) : Result (Document × (Document × Document))) = .ok b →
        b = (layer, (second', first')) := by
      intro layer b h
      obtain ⟨_, -, h⟩ := bind_eq_ok.mp h
      obtain ⟨_, -, h⟩ := bind_eq_ok.mp h
      exact (pure_eq_ok.mp h).symm
    rw [← mem_trainedLayers htr]
    constructor
    · intro hm
      obtain ⟨layer, ht, h⟩ := forall₂_mem_right hr hm
      cases hb layer _ h
      exact ⟨rfl, ht⟩
    · rintro ⟨hs, ht⟩
      cases hs
      obtain ⟨b, hm, h⟩ := forall₂_mem_right hr.flip ht
      rwa [hb _ b h] at hm

theorem mem_bigrams {all : List (List (Document × (Document × Document)))}
    (h : combos.mapM (layerBigrams layers) = .ok all) (name : String) (first second : Document) :
    (.text name, (second, first)) ∈ all.flatten ↔ TrainedOn combos layers name first second := by
  have hr := mapM_eq_ok.mp h
  rw [mem_flatten]
  constructor
  · rintro ⟨bigrams, ha, hm⟩
    obtain ⟨combo, hc, h⟩ := forall₂_mem_right hr ha
    exact ⟨combo, hc, (mem_layerBigrams h name first second).mp hm⟩
  · rintro ⟨combo, hc, hh⟩
    obtain ⟨bigrams, ha, h⟩ := forall₂_mem_right hr.flip hc
    exact ⟨bigrams, ha, (mem_layerBigrams h name first second).mpr hh⟩

theorem isText_of_bigram? (types : combo.macroText = .null ∨ IsText combo.macroText)
    (h : combo.bigram? = .ok (some (first, second))) : IsText second := by
  rw [Combo.bigram?] at h
  split at h
  · cases pure_eq_ok.mp h
  · rename_i hp
    obtain ⟨length, -, h⟩ := bind_eq_ok.mp h
    split at h
    · cases pure_eq_ok.mp h
    · obtain ⟨_, -, h⟩ := bind_eq_ok.mp h
      obtain ⟨letter, hl, h⟩ := bind_eq_ok.mp h
      obtain ⟨-, rfl⟩ := Prod.mk.inj (Option.some.inj (pure_eq_ok.mp h))
      rcases types with hn | ⟨text, ht⟩
      · rw [hn] at hl
        cases hl
      · rw [ht] at hl
        obtain ⟨c, -, hc⟩ := map_eq_ok.mp hl
        exact ⟨_, hc.symm⟩

end Bigrams

section Families

variable {keycodes : Entries} {combos : List Combo} {layers : List CompiledLayer} {families : List TrainedFamily}

def comboFamilies (keycodes : Entries) (combos : List Combo) (layers : List CompiledLayer) :
    Result (List TrainedFamily) := do
  (← comboBigrams combos layers).mapM fun b => comboTraining keycodes b.1 b.2

def comboGuardName (name code : String) : String :=
  trainingName "ak_combo_train_" (familyLabel name) (labelOf code)

def BareOf (keycodes : Entries) (d : Document) (key : String) : Prop :=
  (do bareKey (← simpleKey keycodes d)) = Except.ok key

def HasTrigger (node : AdaptiveKey) (key : String) : Prop :=
  ∃ trigger ∈ node.triggers, key ∈ trigger.keys

theorem comboTrainingKey_eq_ok {family : String} {firsts : List Document} {pair : AdaptiveKey × Trained}
    (h : comboTrainingKey keycodes family second firsts = .ok pair) :
    simpleKey keycodes second = .ok pair.2.binding ∧ pair.2.behavior = pair.1.name ∧
      pair.1.name = trainingName "ak_combo_train_" family (labelOf pair.2.binding.toText) ∧
      ∀ key, HasTrigger pair.1 key ↔ ∃ first ∈ firsts, BareOf keycodes first key := by
  obtain ⟨binding, hbn, h⟩ := bind_eq_ok.mp h
  obtain ⟨keys, hks, h⟩ := bind_eq_ok.mp h
  obtain ⟨_, -, h⟩ := bind_eq_ok.mp h
  obtain rfl := pure_eq_ok.mp h
  refine ⟨hbn, rfl, rfl, fun key => ?_⟩
  have hr := mapM_eq_ok.mp hks
  constructor
  · rintro ⟨trigger, hm, hk⟩
    rw [mem_singleton.mp hm] at hk
    exact forall₂_mem_right hr ((mem_insertAll.mp hk).resolve_left not_mem_nil)
  · rintro ⟨first, hm, hb⟩
    obtain ⟨other, hky, h⟩ := forall₂_mem_right hr.flip hm
    obtain rfl := Except.ok.inj (h.symm.trans hb)
    exact ⟨_, mem_singleton_self _, mem_insertAll.mpr (.inr hky)⟩

structure CombosTrained (keycodes : Entries) (combos : List Combo) (layers : List CompiledLayer)
    (families : List TrainedFamily) : Prop where
  distinct : (families.map (·.1)).Nodup
  each : ∀ f ∈ families, ∀ pair ∈ f.2, ∃ second firsts,
    comboTrainingKey keycodes (familyLabel f.1) second firsts = .ok pair ∧
    (∃ first, TrainedOn combos layers f.1 first second) ∧
    ∀ first ∈ firsts, ∃ other, TrainedOn combos layers f.1 first other ∧ (other = second ∨ second.same other = true)
  found : ∀ name first other, TrainedOn combos layers name first other → ∃ f ∈ families, f.1 = name ∧
    ∃ pair ∈ f.2, ∃ second firsts, comboTrainingKey keycodes (familyLabel name) second firsts = .ok pair ∧
      first ∈ firsts ∧ (other = second ∨ second.same other = true)

structure LayerTrained (keycodes : Entries) (bigrams : List (Document × Document)) (layer : Document)
    (f : TrainedFamily) : Prop where
  isName : layer = .text f.1
  each : List.Forall₂ (fun s pair => comboTrainingKey keycodes (familyLabel f.1) s.1 s.2 = .ok pair)
    (groupBy bigrams) f.2

theorem layerTrained_of_comboTraining {bigrams : List (Document × Document)} {layer : Document} {f : TrainedFamily}
    (h : comboTraining keycodes layer (groupBy bigrams) = .ok f) : LayerTrained keycodes bigrams layer f := by
  obtain ⟨name, hn, h⟩ := bind_eq_ok.mp h
  obtain ⟨keys, hk, h⟩ := bind_eq_ok.mp h
  obtain rfl := pure_eq_ok.mp h
  exact ⟨word_yields _ _ _ hn, mapM_eq_ok.mp hk⟩

theorem nodup_of_layersTrained {groups : List (Document × List (Document × Document))}
    (h : groups.Pairwise fun a b => a.1.same b.1 = false)
    (hr : Forall₂ (fun g f => LayerTrained keycodes g.2 g.1 f) groups families) :
    (families.map (·.1)).Nodup := by
  have hn : groups.map (·.1) = families.map fun f => Document.text f.1 := by
    refine forall₂_eq_eq_eq ▸ ?_
    rw [forall₂_map_left_iff, forall₂_map_right_iff]
    exact hr.imp fun _ _ trained => trained.isName
  have h : (groups.map (·.1)).Pairwise fun a b => a.same b = false := pairwise_map.mpr h
  rw [hn, pairwise_map] at h
  refine pairwise_map.mpr (h.imp fun {a b} ho hs => ?_)
  rw [hs, same_text, beq_self_eq_true] at ho
  cases ho

theorem combosTrained_of_families (h : comboFamilies keycodes combos layers = .ok families) :
    CombosTrained keycodes combos layers families := by
  obtain ⟨bigrams, hbg, h⟩ := bind_eq_ok.mp h
  obtain ⟨all, ha, hbg⟩ := bind_eq_ok.mp hbg
  obtain rfl := pure_eq_ok.mp hbg
  have hbl := grouped_groupBy all.flatten
  have hr : Forall₂ (fun g f => LayerTrained keycodes g.2 g.1 f) (groupBy all.flatten) families :=
    (forall₂_map_left_iff.mp (mapM_eq_ok.mp h)).imp fun _ _ => layerTrained_of_comboTraining
  refine ⟨nodup_of_layersTrained hbl.apart hr, fun f hm pair inFamily => ?_, fun name first other trained => ?_⟩
  · obtain ⟨g, hgr, hn, he⟩ := forall₂_mem_right hr hm
    have ht : ∀ second first, (second, first) ∈ g.2 → TrainedOn combos layers f.1 first second := by
      intro second first hg
      obtain ⟨key, hb, -, hk⟩ := (hbl.gathers g hgr).each _ hg
      rw [hn] at hk
      obtain rfl : key = .text f.1 := hk.elim id Document.eq_text_of_text_same
      exact (mem_bigrams ha _ _ _).mp hb
    obtain ⟨s, hs, h⟩ := forall₂_mem_right he inFamily
    have hgt := (grouped_groupBy g.2).gathers s hs
    obtain ⟨first, -, hb⟩ := hgt.first
    refine ⟨s.1, s.2, h, ⟨first, ht _ _ hb⟩, fun first hf => ?_⟩
    obtain ⟨other, hb, -, hsm⟩ := hgt.each first hf
    exact ⟨other, ht _ _ hb, hsm⟩
  · obtain ⟨g, hgr, hg, hk⟩ := hbl.found _ ((mem_bigrams ha _ _ _).mpr trained)
    obtain ⟨f, inFamilies, hn, he⟩ := forall₂_mem_right hr.flip hgr
    have hk : g.1 = .text name := hk.elim Eq.symm Document.eq_text_of_same
    obtain rfl := Document.text.inj (hn.symm.trans hk)
    obtain ⟨s, hs, hf, hsm⟩ := (grouped_groupBy g.2).found _ hg
    obtain ⟨pair, inFamily, h⟩ := forall₂_mem_right he.flip hs
    exact ⟨f, inFamilies, rfl, pair, inFamily, s.1, s.2, h, hf, hsm⟩

def ComboTrains (keycodes : Entries) (combos : List Combo) (layers : List CompiledLayer) (name code : String) :
    Prop :=
  ∃ first second, TrainedOn combos layers name first second ∧ simpleKey keycodes second = .ok (.text code)

def ComboGuards (keycodes : Entries) (combos : List Combo) (layers : List CompiledLayer)
    (name code key : String) : Prop :=
  ∃ first second, TrainedOn combos layers name first second ∧ simpleKey keycodes second = .ok (.text code) ∧
    BareOf keycodes first key

def TypeTexts (combos : List Combo) : Prop :=
  ∀ combo ∈ combos, combo.macroText = .null ∨ IsText combo.macroText

theorem TypeTexts.isText (ht : TypeTexts combos) {name : String}
    (trained : TrainedOn combos layers name first second) : IsText second := by
  obtain ⟨combo, hm, h, -⟩ := trained
  exact isText_of_bigram? (ht combo hm) h

namespace CombosTrained

variable (trained : CombosTrained keycodes combos layers families) {f : TrainedFamily} (inFamilies : f ∈ families)
  {pair : AdaptiveKey × Trained} (inFamily : pair ∈ f.2) {code : String}

include trained

theorem exists_pair (types : TypeTexts combos) {name : String}
    (h : TrainedOn combos layers name first second) (hc : simpleKey keycodes second = .ok (.text code)) :
    ∃ f ∈ families, f.1 = name ∧ ∃ pair ∈ f.2, pair.2.binding = .text code ∧
      ∀ key, BareOf keycodes first key → HasTrigger pair.1 key := by
  obtain ⟨f, inFamilies, hn, pair, inFamily, other, firsts, hd, hf, hs⟩ := trained.found _ _ _ h
  obtain ⟨hbn, -, -, ht⟩ := comboTrainingKey_eq_ok hd
  obtain ⟨text, rfl⟩ := types.isText h
  obtain rfl : other = .text text := hs.elim Eq.symm Document.eq_text_of_same
  refine ⟨f, inFamilies, hn, pair, inFamily, Except.ok.inj (hbn.symm.trans hc), fun key hb => ?_⟩
  exact (ht key).mpr ⟨first, hf, hb⟩

include inFamilies inFamily

theorem behavior_eq : pair.2.behavior = pair.1.name := by
  obtain ⟨_, _, h, -⟩ := trained.each f inFamilies pair inFamily
  exact (comboTrainingKey_eq_ok h).2.1

theorem name_eq : pair.1.name = comboGuardName f.1 pair.2.binding.toText := by
  obtain ⟨_, _, h, -⟩ := trained.each f inFamilies pair inFamily
  exact (comboTrainingKey_eq_ok h).2.2.1

theorem trains (hb : pair.2.binding = .text code) : ComboTrains keycodes combos layers f.1 code := by
  obtain ⟨second, firsts, h, ⟨first, ht⟩, -⟩ := trained.each f inFamilies pair inFamily
  exact ⟨first, second, ht, hb ▸ (comboTrainingKey_eq_ok h).1⟩

theorem guards (types : TypeTexts combos) (isBinding : pair.2.binding = .text code) {key : String}
    (triggers : HasTrigger pair.1 key) : ComboGuards keycodes combos layers f.1 code key := by
  obtain ⟨second, firsts, h, ⟨_, htr⟩, he⟩ := trained.each f inFamilies pair inFamily
  obtain ⟨hc, -, -, ht⟩ := comboTrainingKey_eq_ok h
  obtain ⟨first, hf, hb⟩ := (ht key).mp triggers
  obtain ⟨other, htn, hs⟩ := he first hf
  obtain ⟨text, rfl⟩ := types.isText htr
  obtain rfl : other = .text text := hs.elim id Document.eq_text_of_text_same
  exact ⟨first, _, htn, isBinding ▸ hc, hb⟩

end CombosTrained

end Families

end Keymap.Zmk
