import Keymap.Proofs.Grouping
import Keymap.Proofs.ZmkSections

namespace Keymap.Zmk

open Devicetree List

variable {known : String → Prop} {keycodes : Entries} {table : BehaviorTable} {refs : MacroRefs}
  {layers : List CompiledLayer} {family name key title note kind : String}
  {wrapped : List (String × Wrapped)} {r : Replacements} {e : Document × String} {t : Trained}
  {combos : List Combo} {families : List TrainedFamily} {m : MagicMapping} {w : Wrapped}
  {keys : List AdaptiveKey} {binding : Document} {start : String} {wrappers : List HoldTap}

structure TrainedClosed (known : String → Prop) (pair : AdaptiveKey × Trained) : Prop where
  node : pair.1.Closed known
  present : pair.1.name ≠ ""
  behavior : pair.2.behavior = pair.1.name
  family : Text.IsIdentifier pair.2.family
  key : Text.IsIdentifier pair.2.key

def ReplacementsWithin (known : String → Prop) (r : Replacements) : Prop :=
  ∀ group ∈ r, ∀ e ∈ group.2, Within known e.2

theorem mem_replaceBy {replacement : String} {r : List (Document × String)}
    (h : e ∈ replaceBy binding replacement r) : e.2 = replacement ∨ e ∈ r := by
  induction r with
  | nil =>
    obtain rfl := mem_singleton.mp h
    exact .inl rfl
  | cons first rest ih =>
    rw [replaceBy] at h
    split at h
    · rcases mem_cons.mp h with rfl | hl
      · exact .inl rfl
      · exact .inr (mem_cons_of_mem _ hl)
    · rcases mem_cons.mp h with rfl | hl
      · exact .inr mem_cons_self
      · exact (ih hl).imp_right (mem_cons_of_mem _)

theorem mem_replaceAllBy {start entries : List (Document × String)}
    (hm : e ∈ replaceAllBy start entries) : e ∈ start ∨ ∃ e' ∈ entries, e.2 = e'.2 := by
  induction entries generalizing start with
  | nil => exact .inl hm
  | cons first rest ih =>
    rcases ih hm with old | ⟨e', hl, h⟩
    · rcases mem_replaceBy old with h | old
      · exact .inr ⟨first, mem_cons_self, h⟩
      · exact .inl old
    · exact .inr ⟨e', mem_cons_of_mem _ hl, h⟩

theorem ReplacementsWithin.lookup (hw : ReplacementsWithin known r) (h : e ∈ (r.lookup name).getD []) :
    Within known e.2 := by
  cases hf : r.lookup name with
  | none =>
    rw [hf] at h
    cases h
  | some group =>
    rw [hf] at h
    exact hw _ (mem_of_lookup hf) e h

theorem ReplacementsWithin.assign (hw : ReplacementsWithin known r) {group : List (Document × String)}
    (h : ∀ e ∈ group, Within known e.2) : ReplacementsWithin known (assign name group r) := by
  intro entry hm
  rcases mem_assign hm with rfl | old
  · exact h
  · exact hw entry old

theorem ReplacementsWithin.withWrapped (h : ReplacementsWithin known r)
    (he : ∀ w ∈ wrapped, Within known w.2.replacement) : ReplacementsWithin known (withWrapped wrapped r) := by
  induction wrapped generalizing r with
  | nil => exact h
  | cons first rest ih =>
    refine ih (h.assign fun e hm => ?_) fun w hl => he w (mem_cons_of_mem _ hl)
    rcases mem_replaceBy hm with hs | old
    · rw [hs]
      exact he first mem_cons_self
    · exact h.lookup old

theorem ReplacementsWithin.merge {a b : Replacements} (h : ReplacementsWithin known a)
    (hr : ReplacementsWithin known b) : ReplacementsWithin known (mergeReplacements a b) := by
  induction b generalizing a with
  | nil => exact h
  | cons first rest ih =>
    refine ih (h.assign fun e hm => ?_) fun group hl =>
      hr group (mem_cons_of_mem _ hl)
    rcases mem_replaceAllBy hm with old | ⟨e', new, hs⟩
    · exact h.lookup old
    · rw [hs]
      exact hr first mem_cons_self e' new

def WrapperOf (known : String → Prop) (table : BehaviorTable) (kind : String)
    (trained : Trained → Prop) (w : Wrapped) : Prop :=
  ∃ t k, trained t ∧ Within known k.hold ∧ w = wrapHomeRow table kind t k

def KeysWithin (known : String → Prop) (keys : List Document) : Prop :=
  ∀ key ∈ keys, Within known key.toText

def LayersWithin (known : String → Prop) (layers : List CompiledLayer) : Prop :=
  ∀ layer ∈ layers, KeysWithin known layer.keycodes

def isHomeRow (code : String) : Bool :=
  Text.startsWith code "&hml" || Text.startsWith code "&hmr"

theorem homeRowKey?_eq_some {k : HomeRowKey} (h : homeRowKey? binding = .ok (some k)) :
    binding = .text k.binding ∧ isHomeRow k.binding ∧ k.hold ∈ Text.words k.binding := by
  obtain ⟨text, ht, h⟩ := bind_eq_ok.mp h
  rw [word_yields _ _ _ ht]
  extract_lets hand at h
  have hh : hand.isSome → isHomeRow text := by
    unfold hand isHomeRow
    split <;> simp_all
  clear_value hand
  split at h
  · rename_i hw
    obtain rfl := Option.some.inj (pure_eq_ok.mp h)
    exact ⟨rfl, hh rfl, by rw [hw]; exact mem_cons_of_mem _ mem_cons_self⟩
  · cases pure_eq_ok.mp h

theorem wrapBinding_eq_some {trained : List Trained} {key : Document} :
    wrapBinding keycodes table kind trained key = .ok (some w) ↔
      ∃ k tap t field, homeRowKey? key = .ok (some k) ∧ plainKey keycodes k.tap = .ok tap ∧
        tap.asField = .ok field ∧ trained.find? (fun t => t.binding.same tap) = some t ∧
        w = wrapHomeRow table kind t k := by
  rw [wrapBinding]
  constructor
  · intro h
    obtain ⟨found, hfn, h⟩ := bind_eq_ok.mp h
    cases found with
    | none => cases pure_eq_ok.mp h
    | some k =>
      obtain ⟨tap, ht, h⟩ := bind_eq_ok.mp h
      obtain ⟨field, hf, h⟩ := bind_eq_ok.mp h
      obtain ⟨t, htr, rfl⟩ := Option.map_eq_some_iff.mp (pure_eq_ok.mp h)
      exact ⟨k, tap, t, field, hfn, ht, hf, htr, rfl⟩
  · rintro ⟨k, tap, t, field, hfn, ht, hf, htr, rfl⟩
    refine bind_eq_ok.mpr ⟨some k, hfn, bind_eq_ok.mpr ⟨tap, ht, bind_eq_ok.mpr ⟨field, hf, ?_⟩⟩⟩
    rw [htr]
    rfl

theorem mem_wrapLayers {family : CompiledLayer → Result (Option (String × List Trained))}
    (h : wrapLayers keycodes table kind family layers = .ok wrapped) :
    (name, w) ∈ wrapped ↔ ∃ layer ∈ layers, ∃ trained, family layer = .ok (some (name, trained)) ∧
      ∃ key ∈ layer.keycodes, wrapBinding keycodes table kind trained key = .ok (some w) := by
  obtain ⟨groups, hgr, h⟩ := bind_eq_ok.mp h
  obtain rfl := pure_eq_ok.mp h
  have hr := mapM_eq_ok.mp hgr
  rw [mem_flatten]
  constructor
  · rintro ⟨group, hg, hm⟩
    obtain ⟨layer, hl, h⟩ := forall₂_mem_right hr hg
    obtain ⟨found, hfn, h⟩ := bind_eq_ok.mp h
    cases found with
    | none =>
      obtain rfl := pure_eq_ok.mp h
      cases hm
    | some f =>
      obtain ⟨each, hec, h⟩ := bind_eq_ok.mp h
      obtain rfl := pure_eq_ok.mp h
      obtain ⟨wrapper, he, hwr⟩ := mem_filterMap.mp hm
      obtain ⟨w', rfl, hs⟩ := Option.map_eq_some_iff.mp hwr
      obtain ⟨rfl, rfl⟩ := Prod.mk.inj hs
      obtain ⟨key, hk, hw⟩ := forall₂_mem_right (mapM_eq_ok.mp hec) he
      exact ⟨layer, hl, f.2, hfn, key, hk, hw⟩
  · rintro ⟨layer, hl, trained, hf, key, hk, hw⟩
    obtain ⟨group, hg, h⟩ := forall₂_mem_right hr.flip hl
    refine ⟨group, hg, ?_⟩
    rw [hf, ok_bind] at h
    obtain ⟨each, hec, h⟩ := bind_eq_ok.mp h
    obtain rfl := pure_eq_ok.mp h
    obtain ⟨wrapper, he, hs⟩ := forall₂_mem_right (mapM_eq_ok.mp hec).flip hk
    obtain rfl := Except.ok.inj (hw.symm.trans hs)
    exact mem_filterMap.mpr ⟨some w, he, rfl⟩

theorem wrapLayers_yields {trained : Trained → Prop}
    {family : CompiledLayer → Result (Option (String × List Trained))}
    (hf : ∀ layer, Yields (family layer) fun found => ∀ name ts, found = some (name, ts) → ∀ t ∈ ts, trained t)
    (within : LayersWithin known layers) :
    Yields (wrapLayers keycodes table kind family layers) fun wrapped =>
      ∀ w ∈ wrapped, WrapperOf known table kind trained w.2 := by
  intro wrapped h w hm
  obtain ⟨layer, hl, ts, hfm, key, hk, hwr⟩ := (mem_wrapLayers h).mp hm
  obtain ⟨k, tap, t, field, hky, -, -, ht, hn⟩ := wrapBinding_eq_some.mp hwr
  obtain ⟨rfl, -, hw⟩ := homeRowKey?_eq_some hky
  refine ⟨t, k, ?_, within_words (within layer hl _ hk) hw, hn⟩
  exact hf layer _ hfm _ _ rfl t (mem_of_find?_eq_some ht)

def wrapperName (kind : String) (t : Trained) (k : HomeRowKey) : String :=
  handLabel k.hand ++ "_" ++ kind ++ "_" ++ t.family ++ "_" ++ t.key

theorem isIdentifier_handLabel (hand : Hand) : Text.IsIdentifier (handLabel hand) := by
  cases hand <;> decide

theorem isIdentifier_wrapperName (isKind : Text.IsIdentifier kind) (h : Text.IsIdentifier t.family)
    (hk : Text.IsIdentifier t.key) (k : HomeRowKey) : Text.IsIdentifier (wrapperName kind t k) := by
  simp only [wrapperName, Text.isIdentifier_append]
  exact ⟨⟨⟨⟨⟨⟨isIdentifier_handLabel _, by decide⟩, isKind⟩, by decide⟩, h⟩, by decide⟩, hk⟩

theorem wrapHomeRow_closed (hc : TableClosed known table) (base : KnowsOthers known)
    (isKind : Text.IsIdentifier kind) (h : Text.IsIdentifier t.family)
    (hk : Text.IsIdentifier t.key) (hb : Text.IsIdentifier t.behavior)
    (isKnown : known t.behavior) (k : HomeRowKey) : (wrapHomeRow table kind t k).node.Closed known := by
  refine ⟨isIdentifier_wrapperName isKind h hk k, ?_, ?_, within_literal base (by decide),
    within_ampersand hb isKnown⟩
  · change Quiet (Text.upper (handLabel k.hand) ++ "_" ++ Text.upper kind ++ "_" ++
      Text.upper t.family ++ "_" ++ Text.upper t.key)
    refine lacks_of_isIdentifier ?_
    simp only [Text.isIdentifier_append]
    exact ⟨⟨⟨⟨⟨⟨(isIdentifier_handLabel _).upper, by decide⟩, isKind.upper⟩, by decide⟩,
      h.upper⟩, by decide⟩, hk.upper⟩
  · refine hc (handLabel k.hand) ?_
    cases k.hand <;> decide

theorem mem_distinctNodes : (∀ node ∈ distinctNodes wrapped, ∃ w ∈ wrapped, node = w.2.node) ∧
      ∀ w ∈ wrapped, ∃ node ∈ distinctNodes wrapped, node.name = w.2.node.name := by
  have hk : ∀ e ∈ assignAll [] (wrapped.map fun w => (w.2.node.name, w.2.node)),
      ∃ w ∈ wrapped, e = (w.2.node.name, w.2.node) := by
    intro e hm
    rcases mem_assignAll hm with hnn | new
    · cases hnn
    · obtain ⟨w, h, rfl⟩ := mem_map.mp new
      exact ⟨w, h, rfl⟩
  constructor
  · intro node hm
    obtain ⟨e, ht, rfl⟩ := mem_map.mp hm
    obtain ⟨w, h, rfl⟩ := hk e ht
    exact ⟨w, h, rfl⟩
  · intro w h
    have hn : w.2.node.name ∈
        (assignAll [] (wrapped.map fun w => (w.2.node.name, w.2.node))).map (·.1) := by
      refine exists_mem_assignAll (.inr ?_)
      exact mem_map.mpr ⟨_, mem_map.mpr ⟨w, h, rfl⟩, rfl⟩
    obtain ⟨e, ht, hs⟩ := mem_map.mp hn
    obtain ⟨w', -, rfl⟩ := hk e ht
    exact ⟨_, mem_map.mpr ⟨_, ht, rfl⟩, hs⟩

theorem trainingSection_labels : (∀ k ∈ keys, Text.IsIdentifier k.name → k.name ≠ "" →
        k.name ∈ labels (trainingSection title note keys wrappers)) ∧
      ∀ h ∈ wrappers, Text.IsIdentifier h.name → h.name ≠ "" →
        h.name ∈ labels (trainingSection title note keys wrappers) := by
  refine ⟨fun k hm hn hp => ?_, fun h hm hn hp => ?_⟩
  · refine mem_labels_unlines.mpr (.append_left (.append_left (.append_right ?_)))
    exact .flatMap hm (k.defines hn hp _ _)
  · refine mem_labels_unlines.mpr (.append_left (.append_right ?_))
    exact .flatMap hm (h.defines hn hp)

theorem trainingSection_within (hq : Quiet title) (quiet' : Quiet note)
    (hk : ∀ k ∈ keys, k.Closed known) (hw : ∀ h ∈ wrappers, h.Closed known) :
    Within known (trainingSection title note keys wrappers) := by
  refine within_unlines (((AllWithin.append ?_ ?_).append ?_).append ?_)
  · exact .cons (hq.within.quiet_append (lacks_literal (by decide))) (.literal (by decide) .nil)
  · exact .flatMap fun k hm => (hk k hm).lines .nil quiet'
  · exact .flatMap fun h hm => (hw h hm).lines
  · exact .literal (by decide) (.literal (by decide) .nil)

theorem training_closed {family : CompiledLayer → Result (Option (String × List Trained))}
    (base : KnowsOthers known) (properties : TableClosed known table) (within : LayersWithin known layers)
    (hc : ∀ f ∈ families, ∀ pair ∈ f.2, TrainedClosed known pair) (hk : Text.IsIdentifier kind)
    (fromFamily : ∀ layer, Yields (family layer) fun found => ∀ name ts, found = some (name, ts) →
      ∀ t ∈ ts, ∃ f ∈ families, ∃ pair ∈ f.2, t = pair.2) :
    Yields (wrapLayers keycodes table kind family layers) fun wrapped => ∀ title note, Quiet title → Quiet note →
      let text := trainingSection title note (families.flatMap fun f => f.2.map (·.1)) (distinctNodes wrapped)
      (∀ label ∈ labels text, known label) →
        Within known text ∧ ReplacementsWithin known (withWrapped wrapped
          (replacementsOf (families.map fun f => (f.1, f.2.map (·.2))))) := by
  refine (wrapLayers_yields fromFamily within).mono fun wrapped hwr title note hq hqt => ?_
  intro text hkn
  have hbv : ∀ f ∈ families, ∀ pair ∈ f.2,
      Text.IsIdentifier pair.2.behavior ∧ known pair.2.behavior := by
    intro f hf pair hfm
    have trained := hc f hf pair hfm
    rw [trained.behavior]
    refine ⟨trained.node.name, hkn _ ?_⟩
    refine trainingSection_labels.1 pair.1 ?_ trained.node.name trained.present
    exact mem_flatMap.mpr ⟨f, hf, mem_map.mpr ⟨pair, hfm, rfl⟩⟩
  have wrappers : ∀ w ∈ wrapped, w.2.node.Closed known ∧ Within known w.2.replacement := by
    intro w hw
    obtain ⟨t, k, ⟨f, hf, pair, hfm, rfl⟩, hh, hnd⟩ := hwr w hw
    have trained := hc f hf pair hfm
    obtain ⟨hbh, hb⟩ := hbv f hf pair hfm
    have hn := isIdentifier_wrapperName hk trained.family trained.key k
    have hnn : w.2.node.name = wrapperName kind pair.2 k := by rw [hnd]; rfl
    obtain ⟨node, hkp, hs⟩ := mem_distinctNodes.2 w hw
    rw [hnn] at hs
    have hpr : node.name ≠ "" := by simp [hs, wrapperName]
    have ht : node.name ∈ labels text := trainingSection_labels.2 node hkp (hs ▸ hn) hpr
    rw [hs] at ht
    rw [hnd]
    exact ⟨wrapHomeRow_closed properties base hk trained.family trained.key hbh
      hb k, within_call hn (hkn _ ht) hh⟩
  constructor
  · refine trainingSection_within hq hqt (fun k hm => ?_) fun h hm => ?_
    · obtain ⟨f, hf, hfm⟩ := mem_flatMap.mp hm
      obtain ⟨pair, hp, rfl⟩ := mem_map.mp hfm
      exact (hc f hf pair hp).node
    · obtain ⟨w, hw, rfl⟩ := mem_distinctNodes.1 h hm
      exact (wrappers w hw).1
  · refine ReplacementsWithin.withWrapped ?_ fun w hm => (wrappers w hm).2
    intro group hm e hg
    obtain ⟨trained, htr, rfl⟩ := mem_map.mp hm
    obtain ⟨f, hf, rfl⟩ := mem_map.mp htr
    rcases mem_replaceAllBy hg with hno | ⟨e', he, hsm⟩
    · cases hno
    · obtain ⟨t, isT, rfl⟩ := mem_map.mp he
      obtain ⟨pair, hfm, rfl⟩ := mem_map.mp isT
      obtain ⟨hbh, hb⟩ := hbv f hf pair hfm
      rw [hsm]
      exact within_ampersand hbh hb

def trainingName (start family key : String) : String :=
  start ++ family ++ "_" ++ key

theorem mem_trained {layer : Option String} {ts : List Trained}
    (h : (layer.bind fun name => ((families.map fun f => (f.1, f.2.map (·.2))).lookup name).map fun ts =>
      (name, ts)) = some (name, ts))
    (hm : t ∈ ts) : ∃ f ∈ families, ∃ pair ∈ f.2, t = pair.2 := by
  obtain ⟨base, -, h⟩ := Option.bind_eq_some_iff.mp h
  obtain ⟨group, hf, hs⟩ := Option.map_eq_some_iff.mp h
  cases hs
  obtain ⟨f, hfm, hs⟩ := mem_map.mp (mem_of_lookup hf)
  cases hs
  obtain ⟨pair, hfl, rfl⟩ := mem_map.mp hm
  exact ⟨f, hfm, pair, hfl, rfl⟩

theorem mem_insertAll {keys start : List String} :
    key ∈ keys.foldl (fun acc k => insertOnce k acc) start ↔ key ∈ start ∨ key ∈ keys := by
  induction keys generalizing start with
  | nil => simp
  | cons first rest ih =>
    rw [foldl_cons, ih, mem_insertOnce, mem_cons, or_comm (a := key = first), or_assoc]

structure TrainingNames (combos : List Combo) (layers : List CompiledLayer) : Prop where
  layers : ∀ layer ∈ layers, Text.IsIdentifier layer.name.toText
  combos : ∀ combo ∈ combos, Yields combo.layers.members fun names =>
    ∀ name ∈ names, Text.IsIdentifier name.toText

theorem comboBigrams_yields (hn : TrainingNames combos layers) :
    Yields (comboBigrams combos layers) fun bigrams =>
      ∀ b ∈ bigrams, Text.IsIdentifier b.1.toText := by
  refine Yields.bind (q := fun all => ∀ pairs ∈ all, ∀ p ∈ pairs,
    Text.IsIdentifier (Document.toText p.1)) ?_ fun all h => .ok fun b hm => ?_
  · refine .mapM_all fun combo hc => Yields.trivial.bind fun found _ => ?_
    split
    · refine .ok fun p hnn => ?_
      cases hnn
    · refine Yields.bind (q := fun layers => ∀ layer ∈ layers, Text.IsIdentifier (Document.toText layer))
        ?_ fun trained h => ?_
      · unfold trainedLayers
        split
        · exact hn.combos combo hc
        · refine Yields.bind (q := fun named => ∀ n ∈ named,
            Text.IsIdentifier (Document.toText n.1)) ?_ fun named h => .ok fun layer hm => ?_
          · exact .mapM_all fun layer hl =>
              Yields.trivial.bind fun _ _ => .ok (hn.layers layer hl)
          · obtain ⟨n, hk, rfl⟩ := mem_map.mp hm
            exact h n (mem_filter.mp hk).1
      · exact .mapM_all fun layer ht => Yields.trivial.bind fun _ _ =>
          Yields.trivial.bind fun _ _ => .ok (h layer ht)
  · obtain ⟨g, hg, rfl⟩ := mem_map.mp hm
    obtain ⟨first, -, ha⟩ := ((grouped_groupBy _).gathers g hg).first
    obtain ⟨pairs, hpr, hp⟩ := mem_flatten.mp ha
    exact h pairs hpr _ hp

section Trainings

variable (base : KnowsOthers known) (tidy : TidyTable known keycodes)

include base

theorem trainedClosed_of_trigger {alternate : String} {binding : Document} {keys : List String} {strict : Bool}
    {limit : Option String} (start : String) (hs : Text.IsIdentifier start) (hp : start ≠ "")
    (h : Text.IsIdentifier family) (hk : Text.IsIdentifier key) (hw : Within known alternate)
    (keysWithin : ∀ key ∈ keys, Within known key) (hl : ∀ ms, limit = some ms → Within known ms) :
    let name := trainingName start family key
    TrainedClosed known (⟨name, alternate, [⟨"guard_trigger", keys, "&kp HASH", strict, limit⟩]⟩,
      ⟨binding, family, key, name⟩) := by
  intro name
  have hn : Text.IsIdentifier name := by
    simp only [name, trainingName, Text.isIdentifier_append]
    exact ⟨⟨⟨hs, h⟩, by decide⟩, hk⟩
  refine ⟨⟨hn, hw, fun t hm => ?_⟩, by simp [name, trainingName, hp], rfl, h, hk⟩
  obtain rfl := mem_singleton.mp hm
  exact ⟨lacks_literal (by decide), keysWithin, within_literal base (by decide), hl⟩

include tidy

theorem bareKeys_within {α : Type} (read : α → Document) (xs : List α) :
    Yields (xs.mapM fun x => do bareKey (← simpleKey keycodes (read x)))
      fun keys => ∀ key ∈ keys, Within known key :=
  .mapM_all fun x _ => (simpleKey_tidy base tidy (read x)).bind fun _ tidy => bareKey_within tidy

theorem groupBinding_within (refsKnown : RefsKnown known refs) (layer : Document) (group : List (Field × Document)) :
    Yields (groupBinding keycodes refs layer group) fun d => Within known d.toText := by
  unfold groupBinding
  split
  · rename_i ref h
    obtain ⟨first, -, hr⟩ := Option.bind_eq_some_iff.mp h
    exact .ok (macroRef?_within refsKnown hr)
  · exact (simpleKey_tidy base tidy _).mono fun d tidy => tidy.within

theorem trainingKey_closed (hr : RefsKnown known refs) {layer : Option (CompiledLayer × Colocation)}
    (timeout : Within known m.timeout.toText) (hf : Text.IsIdentifier family)
    (group : List (Field × Document)) :
    Yields (trainingKey keycodes refs layer m family group) (TrainedClosed known) := by
  refine (groupBinding_within base tidy hr _ _).bind fun d h => ?_
  refine (word_yields _ _).bind fun alternate ht => ?_
  refine (bareKeys_within base tidy Field.toDocument _).bind fun keys hk => ?_
  refine Yields.trivial.bind fun strict _ => ?_
  refine (timeLimit_within timeout).bind fun limit hl => .ok ?_
  rw [ht] at h
  exact trainedClosed_of_trigger base "ak_train_" (by decide) (by decide) hf
    (isIdentifier_labelOf alternate) h hk hl

theorem magicTraining_closed (hr : RefsKnown known refs) (layers : List CompiledLayer) (hc : MappingClosed known m) :
    Yields (magicTraining keycodes refs layers m) fun found =>
      ∀ f, found = some f → ∀ pair ∈ f.2, TrainedClosed known pair := by
  unfold magicTraining
  extract_lets rest
  have hn : ∀ layer, Yields (rest layer) fun found =>
      ∀ f, found = some f → ∀ pair ∈ f.2, TrainedClosed known pair := by
    intro layer
    refine Yields.trivial.bind fun groups _ => ?_
    split
    · refine .ok fun f hnn => ?_
      cases hnn
    · refine (familyOf_yields m).bind fun family h => ?_
      have h : Text.IsIdentifier family := h ▸ isIdentifier_familyLabel hc.title
      refine Yields.bind (.mapM_all fun group _ =>
        trainingKey_closed base tidy hr hc.timeout h group.2) fun keys he => ?_
      refine .ok fun f hf => ?_
      cases hf
      exact he
  clear_value rest
  split
  · exact Yields.trivial.bind fun colocation _ => hn _
  · exact hn _

theorem magicTrainingSection_closed (hr : RefsKnown known refs) (hp : TableClosed known table) {magic : MagicConfig}
    (hm : ∀ m ∈ magic, MappingClosed known m) (hw : LayersWithin known layers) :
    Yields (magicTrainingSection keycodes table refs magic layers) fun result =>
      (∀ label ∈ labels result.1, known label) → Within known result.1 ∧ ReplacementsWithin known result.2 := by
  refine Yields.bind (.mapM_all fun m h =>
    magicTraining_closed base tidy hr layers (hm m h))
    fun found he => ?_
  have hc : ∀ f ∈ found.filterMap id, ∀ pair ∈ f.2, TrainedClosed known pair := by
    intro f h
    obtain ⟨f', hfn, hf⟩ := mem_filterMap.mp h
    exact he f' hfn f hf
  refine (training_closed base hp hw hc (by decide) fun layer => ?_).bind fun _ he =>
    .ok (he _ _ (lacks_literal (by decide)) (lacks_literal (by decide)))
  exact Yields.trivial.bind fun _ _ => .ok fun name ts hf t h => mem_trained hf h

theorem comboTrainingKey_closed (hf : Text.IsIdentifier family) (second : Document) (firsts : List Document) :
    Yields (comboTrainingKey keycodes family second firsts) (TrainedClosed known) := by
  refine (simpleKey_tidy base tidy second).bind fun binding h => ?_
  refine (bareKeys_within base tidy id firsts).bind fun keys hk => ?_
  refine Yields.trivial.bind fun _ _ => .ok ?_
  refine trainedClosed_of_trigger base "ak_combo_train_" (by decide) (by decide) hf
    (isIdentifier_labelOf _) h.within (fun key hm => ?_) fun ms hn => nomatch hn
  exact hk key ((mem_insertAll.mp hm).resolve_left not_mem_nil)

theorem comboTrainingSection_closed (hp : TableClosed known table) (names : TrainingNames combos layers)
    (hw : LayersWithin known layers) :
    Yields (comboTrainingSection keycodes table combos layers) fun result =>
      (∀ label ∈ labels result.1, known label) → Within known result.1 ∧ ReplacementsWithin known result.2 := by
  refine (comboBigrams_yields names).bind fun bigrams hnm => ?_
  split
  · refine .ok fun _ => ⟨Lacks.within (by decide), fun group hnn => ?_⟩
    cases hnn
  · refine Yields.bind (q := fun families : List TrainedFamily =>
      ∀ f ∈ families, ∀ pair ∈ f.2, TrainedClosed known pair) ?_ fun families hc => ?_
    · refine .mapM_all fun bigram hm => ?_
      refine (word_yields _ _).bind fun name hn => ?_
      have hn : Text.IsIdentifier name := by
        have ht := hnm bigram hm
        rwa [hn] at ht
      have hf := isIdentifier_familyLabel hn
      exact Yields.bind (.mapM_all fun second _ =>
        comboTrainingKey_closed base tidy hf second.1 second.2) fun keys h => .ok h
    · refine (training_closed base hp hw hc (by decide) fun layer => ?_).bind fun _ h =>
        .ok (h _ _ (lacks_literal (by decide)) (lacks_literal (by decide)))
      exact Yields.trivial.bind fun _ _ => .ok fun name ts hf t hm => mem_trained hf hm

end Trainings

end Keymap.Zmk
