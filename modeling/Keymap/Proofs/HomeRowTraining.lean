import Keymap.Proofs.ReplacementTables

namespace Keymap.Zmk

open List

section Keys

variable {keycodes : Entries} {table : BehaviorTable} {refs : MacroRefs} {magic : MagicConfig}
  {layers : List CompiledLayer} {code tap hold name : String} {ts : List Trained} {hand : Hand}
  {layer : CompiledLayer} {base : String} {w : Wrapped} {nodes : List AdaptiveKey}

theorem lookup_of_trainingOf {trained : List (String × List Trained)}
    (h : trainingOf magic trained layer = .ok (some (name, ts))) : trained.lookup name = some ts := by
  obtain ⟨family, -, h⟩ := bind_eq_ok.mp h
  obtain ⟨base, -, found⟩ := Option.bind_eq_some_iff.mp (pure_eq_ok.mp h)
  obtain ⟨ts', ht, hs⟩ := Option.map_eq_some_iff.mp found
  obtain ⟨rfl, rfl⟩ := Prod.mk.inj hs
  exact ht

def homeRowCode (hand : Hand) (hold tap : String) : String :=
  "&" ++ handLabel hand ++ " " ++ hold ++ " " ++ tap

theorem homeRowKey?_homeRowCode
    (hw : Text.words (homeRowCode hand hold tap) = ["&" ++ handLabel hand, hold, tap]) :
    homeRowKey? (.text (homeRowCode hand hold tap)) =
      .ok (some ⟨homeRowCode hand hold tap, hand, hold, tap⟩) := by
  have h : (if Text.startsWith (homeRowCode hand hold tap) "&hml" then some Hand.left
      else if Text.startsWith (homeRowCode hand hold tap) "&hmr" then some Hand.right else none) =
        some hand := by
    cases hand <;> simp [homeRowCode, handLabel, Text.startsWith, isPrefixOf]
  refine bind_eq_ok.mpr ⟨_, rfl, ?_⟩
  dsimp only
  rw [h, hw]
  rfl

/-- A call of a wrapper that holds a modifier. All wrappers of that name tap the guard of a key. -/
def TapsGuard (keycodes : Entries) (refs : MacroRefs) (nodes : List AdaptiveKey) (wrappers : List HoldTap)
    (m : MagicMapping) (code hold out : String) : Prop :=
  ∃ name, out = "&" ++ name ++ " " ++ hold ++ " 0" ∧ (∃ w ∈ wrappers, w.name = name) ∧
    ∀ w ∈ wrappers, w.name = name → w.hold = "&kp" ∧ RefersToGuard keycodes refs nodes m code w.tap

structure IsWrapper (hand : Hand) (label : String) (w : HoldTap) : Prop where
  name : w.name = handLabel hand ++ "_train_" ++ label
  hold : w.hold = "&kp"
  tap : w.tap = "&ak_train_" ++ label

theorem IsWrapper.tap_eq {hand' : Hand} {label label' : String} {w w' : HoldTap}
    (h : IsWrapper hand label w) (hs : IsWrapper hand' label' w') (same : w.name = w'.name) :
    w.tap = w'.tap := by
  have ten : ∀ hand, (handLabel hand ++ "_train_").toList.length = 10 := by
    intro hand
    cases hand <;> decide
  have hn : (handLabel hand ++ "_train_").toList ++ label.toList =
      (handLabel hand' ++ "_train_").toList ++ label'.toList := by
    rw [← String.toList_append, ← String.toList_append, ← h.name, ← hs.name, same]
  have hl := (append_inj hn ((ten hand).trans (ten hand').symm)).2
  rw [h.tap, hs.tap, String.toList_inj.mp hl]

theorem wrapHomeRow_name (table : BehaviorTable) (kind : String) (t : Trained) (k : HomeRowKey) :
    (wrapHomeRow table kind t k).node.name = wrapperName kind t k := rfl

theorem wrapHomeRow_replacement (table : BehaviorTable) (kind : String) (t : Trained) (k : HomeRowKey) :
    (wrapHomeRow table kind t k).replacement = "&" ++ wrapperName kind t k ++ " " ++ k.hold ++ " 0" := rfl

theorem isWrapper_wrapHomeRow (table : BehaviorTable) (m : MagicMapping) (code : String) (k : HomeRowKey) :
    IsWrapper k.hand (familyLabel m.title ++ "_" ++ labelOf code)
      (wrapHomeRow table "train" (trainedAs m code) k).node := by
  refine ⟨?_, rfl, ?_⟩
  · rw [wrapHomeRow_name]
    simp [wrapperName, trainedAs, ← String.toList_inj]
  · simp [wrapHomeRow, trainedAs, guardName, trainingName, ← String.toList_inj]

/-- What magic training gave, section by section: the keys of the base layers, and the wrappers. -/
structure Made (keycodes : Entries) (table : BehaviorTable) (refs : MacroRefs) (magic : MagicConfig)
    (layers : List CompiledLayer) (found : List (Option TrainedFamily)) (wrapped : List (String × Wrapped)) :
    Prop where
  isFound : magic.mapM (magicTraining keycodes refs layers) = .ok found
  isWrapped : wrapLayers keycodes table "train" (trainingOf magic (trainedOf found)) layers = .ok wrapped

namespace Made

variable {found : List (Option TrainedFamily)} {wrapped : List (String × Wrapped)}
  (made : Made keycodes table refs magic layers found wrapped)

include made

theorem exists_trained {m : MagicMapping} (hm : m ∈ magic) :
    ∃ f, f ∈ found ∧ magicTraining keycodes refs layers m = .ok f := by
  obtain ⟨f, hf, h⟩ := forall₂_mem_right (mapM_eq_ok.mp made.isFound).flip hm
  exact ⟨f, hf, h⟩

theorem isWrapper (hm : (name, w) ∈ wrapped) : ∃ hand label, IsWrapper hand label w.node := by
  obtain ⟨layer, -, trained, h, key, -, isWrapper⟩ := (mem_wrapLayers made.isWrapped).mp hm
  obtain ⟨k, tap, t, field, -, -, -, ht, rfl⟩ := wrapBinding_eq_some.mp isWrapper
  obtain ⟨m, -, code, rfl⟩ := exists_trainedAs (mapM_eq_ok.mp made.isFound)
    (mem_of_lookup (lookup_of_trainingOf h)) (mem_of_find?_eq_some ht)
  exact ⟨k.hand, _, isWrapper_wrapHomeRow table m code k⟩

theorem wrapBinding_of_mem (ht : (trainedOf found).lookup base = some ts) (hm : (base, w) ∈ wrapped) :
    wrapBinding keycodes table "train" ts (.text w.replaced) = .ok (some w) := by
  obtain ⟨layer, -, ts', hf, key, -, h⟩ := (mem_wrapLayers made.isWrapped).mp hm
  obtain rfl := Option.some.inj ((lookup_of_trainingOf hf).symm.trans ht)
  obtain ⟨k, _, t, _, hk, -, -, -, hn⟩ := wrapBinding_eq_some.mp h
  obtain ⟨rfl, -⟩ := homeRowKey?_eq_some hk
  have hr : w.replaced = k.binding := by rw [hn]; rfl
  rw [hr]
  exact h

theorem inTable_eq (inLayers : layer ∈ layers) (isFamily : trainingOf magic (trainedOf found) layer = .ok (some (base, ts)))
    (inKeys : .text code ∈ layer.keycodes) {wrapper : Option Wrapped}
    (isWrapper : wrapBinding keycodes table "train" ts (.text code) = .ok wrapper) (r : Replacements) :
    inTable (withWrapped wrapped r) base code = (wrapper.map (·.replacement)).getD (inTable r base code) := by
  have ho : ∀ w ∈ wrapped, w.1 = base → w.2.replaced = code → some w.2 = wrapper := by
    rintro ⟨_, w⟩ hm rfl rfl
    have own := made.wrapBinding_of_mem (lookup_of_trainingOf isFamily) hm
    exact Except.ok.inj (own.symm.trans isWrapper)
  cases wrapper with
  | none =>
    refine inTable_of_unwrapped (fun w hm hb h => ?_) r
    cases ho w hm hb h
  | some w =>
    obtain ⟨k, _, t, _, hky, -, -, -, hn⟩ := wrapBinding_eq_some.mp isWrapper
    have h : w.replaced = code := by
      rw [hn]
      exact (Document.text.inj (homeRowKey?_eq_some hky).1).symm
    refine inTable_of_wrapped ⟨(base, w), ?_, rfl, h⟩ (fun w' hm hb h => ?_) r
    · exact (mem_wrapLayers made.isWrapped).mpr ⟨layer, inLayers, ts, isFamily, _, inKeys, isWrapper⟩
    · rw [Option.some.inj (ho w' hm hb h)]
      rfl

end Made

theorem inTable_replacementsOf (trained : List (String × List Trained)) (base code : String) :
    inTable (replacementsOf trained) base code = code ∨
      ∃ e ∈ trained, ∃ t ∈ e.2, inTable (replacementsOf trained) base code = "&" ++ t.behavior := by
  rw [inTable]
  cases found : (replacementsOf trained).lookup base with
  | none => exact .inl rfl
  | some entries =>
    rw [Option.getD_some, substitute]
    cases he : entries.find? fun e => e.1.same (.text code) with
    | none => exact .inl rfl
    | some entry =>
      obtain ⟨e, ht, h⟩ := mem_map.mp (mem_of_lookup found)
      obtain ⟨rfl, rfl⟩ := Prod.mk.inj h
      rcases mem_replaceAllBy (mem_of_find?_eq_some he) with none | ⟨e', het, h⟩
      · cases none
      · obtain ⟨t, htr, rfl⟩ := mem_map.mp het
        exact .inr ⟨e, ht, t, htr, h⟩

theorem call_ne_homeRowCode (hand hand' : Hand) (label hold hold' tap : String) :
    "&" ++ (handLabel hand ++ "_train_" ++ label) ++ " " ++ hold ++ " 0" ≠ homeRowCode hand' hold' tap := by
  intro hs
  have h := congrArg (fun s => s.toList[4]?) hs
  cases hand <;> cases hand' <;> simp [homeRowCode, handLabel] at h

theorem call_ne_guard (hand : Hand) (label hold : String) (m : MagicMapping) (code : String) :
    "&" ++ (handLabel hand ++ "_train_" ++ label) ++ " " ++ hold ++ " 0" ≠ "&" ++ guardName m code := by
  intro h
  have hs := congrArg (fun s => s.toList[1]?) h
  cases hand <;> simp [handLabel, guardName, trainingName] at hs

namespace Made

variable {found : List (Option TrainedFamily)} {wrapped : List (String × Wrapped)}
  {m : MagicMapping}

theorem not_tapsGuard_of_unwrapped (made : Made keycodes table refs magic layers found wrapped) :
    ¬ TapsGuard keycodes refs nodes (distinctNodes wrapped) m code hold
      (inTable (replacementsOf (trainedOf found)) base (homeRowCode hand hold tap)) := by
  rintro ⟨name, h, ⟨w, hw, rfl⟩, -⟩
  obtain ⟨⟨_, w⟩, hm, rfl⟩ := mem_distinctNodes.1 w hw
  obtain ⟨hand', label, hwr⟩ := made.isWrapper hm
  rw [hwr.name] at h
  rcases inTable_replacementsOf (trainedOf found) base (homeRowCode hand hold tap) with
    hs | ⟨e, ht, t, htr, hs⟩
  · exact call_ne_homeRowCode _ _ _ _ _ _ (h.symm.trans hs)
  · obtain ⟨m', -, code', rfl⟩ := exists_trainedAs (mapM_eq_ok.mp made.isFound) ht htr
    exact call_ne_guard _ _ _ _ _ (h.symm.trans hs)

theorem tapsGuard_of_wrapped (made : Made keycodes table refs magic layers found wrapped)
    {alternate : String} {k : HomeRowKey}
    (hm : (base, wrapHomeRow table "train" (trainedAs m alternate) k) ∈ wrapped) :
    TapsGuard keycodes refs nodes (distinctNodes wrapped) m code k.hold
      (wrapHomeRow table "train" (trainedAs m alternate) k).replacement ↔
      RefersToGuard keycodes refs nodes m code ("&" ++ guardName m alternate) := by
  have own := isWrapper_wrapHomeRow table m alternate k
  have ht : ∀ w ∈ distinctNodes wrapped, w.name = wrapperName "train" (trainedAs m alternate) k →
      w.hold = "&kp" ∧ w.tap = "&" ++ guardName m alternate := by
    intro w h hn
    obtain ⟨⟨_, w⟩, hwr, rfl⟩ := mem_distinctNodes.1 w h
    obtain ⟨hand, label, hw⟩ := made.isWrapper hwr
    exact ⟨hw.hold, hw.tap_eq own hn⟩
  obtain ⟨node, h, hnn⟩ := mem_distinctNodes.2 _ hm
  rw [wrapHomeRow_replacement]
  rw [wrapHomeRow_name] at hnn
  constructor
  · rintro ⟨name, hc, -, he⟩
    have hn : wrapperName "train" (trainedAs m alternate) k = name := by
      simpa [← String.toList_inj] using hc
    have hr := (he node h (hnn.trans hn)).2
    rwa [(ht node h hnn).2] at hr
  · intro hr
    refine ⟨_, rfl, ⟨node, h, hnn⟩, fun w h hn => ?_⟩
    obtain ⟨hh, htp⟩ := ht w h hn
    exact ⟨hh, htp ▸ hr⟩

/-- A home-row key whose tap is an alternate of the base layer is trained exactly if the tap is read as
this key, and no other node has the name of its guard. -/
theorem tapsGuard_iff (made : Made keycodes table (magicRefs magic) magic layers found wrapped)
    (single : DistinctBases magic) (inLayers : layer ∈ layers) (isName : layer.name = .text name)
    (isFamily : magic.forLayer? (.text name) = .ok (some m)) (isBase : m.baseLayer = .text base)
    (isWords : Text.words (homeRowCode hand hold tap) = ["&" ++ handLabel hand, hold, tap])
    (inKeys : .text (homeRowCode hand hold tap) ∈ layer.keycodes)
    (present : predecessors keycodes (magicRefs magic) m ("&kp " ++ tap) ≠ []) :
    TapsGuard keycodes (magicRefs magic) (nodesOf (found.filterMap id)) (distinctNodes wrapped) m ("&kp " ++ tap) hold
      (inTable (withWrapped wrapped (replacementsOf (trainedOf found))) base (homeRowCode hand hold tap)) ↔
    plainKey keycodes tap = .ok (.text ("&kp " ++ tap)) ∧
      RefersToGuard keycodes (magicRefs magic) (nodesOf (found.filterMap id)) m ("&kp " ++ tap)
        ("&" ++ guardName m ("&kp " ++ tap)) := by
  obtain ⟨f, hfn, htn⟩ := made.exists_trained (forLayer?_eq_ok isFamily).1
  obtain ⟨entries, _, hg⟩ := magicTraining_groups htn
  obtain ⟨own, hfm, ho, -⟩ := hg.exists_guard (by simp [Text.startsWith, isPrefixOf]) present
  cases f with
  | none => cases hfm
  | some f =>
  have htt : m.title = base := by
    rw [MagicMapping.title, isBase]
    rfl
  have htr : trainingOf magic (trainedOf found) layer = .ok (some (base, f.2.map (·.2))) := by
    rw [trainingOf_family single made.isFound isName (isName ▸ isFamily) htn, htt]
    rfl
  obtain ⟨_, hs, hwp⟩ := exists_wrapLayers.mp ⟨wrapped, made.isWrapped⟩ layer inLayers
  obtain ⟨wrapper, hw⟩ := hwp _ _ (Except.ok.inj (hs.symm.trans htr)) _ inKeys
  rw [made.inTable_eq inLayers htr inKeys hw]
  have hky := homeRowKey?_homeRowCode isWords
  cases wrapper with
  | none =>
    refine iff_of_false made.not_tapsGuard_of_unwrapped ?_
    rintro ⟨ht, -⟩
    -- The tap is among the trained bindings, so there would be a wrapper.
    have hth : ((f.2.map (·.2)).find? fun t => t.binding.same (.text ("&kp " ++ tap))).isSome := by
      rw [find?_isSome]
      refine ⟨own.2, mem_map_of_mem hfm, ?_⟩
      rw [(hg.pair_eq hfm).2, ho]
      exact beq_self_eq_true _
    obtain ⟨t, hf⟩ := Option.isSome_iff_exists.mp hth
    cases hw.symm.trans (wrapBinding_eq_some.mpr ⟨_, _, t, _, hky, ht, rfl, hf, rfl⟩)
  | some w =>
    obtain ⟨k, read, t, field, hke, ht, -, hf, rfl⟩ := wrapBinding_eq_some.mp hw
    obtain rfl := Option.some.inj (Except.ok.inj (hky.symm.trans hke))
    obtain ⟨pair, hfl, rfl⟩ := mem_map.mp (mem_of_find?_eq_some hf)
    obtain ⟨hpn, hp⟩ := hg.pair_eq hfl
    have hrd : read = .text pair.1.binding := by
      have hs : pair.2.binding.same read := by
        apply find?_some hf
      rw [hp] at hs
      exact Document.eq_text_of_text_same hs
    have hm := (mem_wrapLayers made.isWrapped).mpr ⟨layer, inLayers, _, htr, _, inKeys, hw⟩
    rw [hp] at hm ⊢
    rw [ht, hrd]
    have hn : pair.1 ∈ nodesOf (found.filterMap id) := mem_nodesOf (mem_filterMap.mpr ⟨_, hfn, rfl⟩) hfl
    refine (made.tapsGuard_of_wrapped hm).trans ⟨fun hr => ?_, fun hb => ?_⟩
    · obtain ⟨_, hrf, -, hgr⟩ := hr
      obtain rfl := (String.append_right_inj _).mp hrf
      have h := (hgr pair.1 hn hpn).binding
      rw [h]
      rw [h] at hgr
      exact ⟨rfl, _, rfl, ⟨pair.1, hn, h ▸ hpn⟩, hgr⟩
    · obtain ⟨h, hr⟩ := hb
      rw [Document.text.inj (Except.ok.inj h)]
      exact hr

end Made

end Keys

section Files

variable {settings : Settings} {s : Source} {magic : MagicConfig} {start : Progress} {keycodes : Entries}
  {table : BehaviorTable} {layers : List CompiledLayer}

theorem made_of_section {refs : MacroRefs} {result : String × Replacements}
    (h : magicTrainingSection keycodes table refs magic layers = .ok result) :
    ∃ found wrapped, Made keycodes table refs magic layers found wrapped ∧
      result = (magicTrainingText (nodesOf (found.filterMap id)) (distinctNodes wrapped),
        withWrapped wrapped (replacementsOf (trainedOf found))) := by
  rw [magicTrainingSection_eq] at h
  obtain ⟨found, hf, h⟩ := bind_eq_ok.mp h
  obtain ⟨wrapped, hw, h⟩ := bind_eq_ok.mp h
  exact ⟨found, wrapped, ⟨hf, hw⟩, (pure_eq_ok.mp h).symm⟩

theorem FileParts.isTraining (parts : FileParts settings s start) (h : s.magic = some magic) :
    magicTrainingPart settings (withHomeRow settings.behaviors s.board.layoutSize start.table)
      (magicRefs magic) s = .ok parts.sections.training := by
  have hr : magicRefs (s.magic.getD []) = magicRefs magic := by rw [h, Option.getD_some]
  exact hr ▸ parts.sections.isTraining

theorem FileParts.layers_of_noCombos (parts : FileParts settings s start) (hc : s.combos = [])
    (hm : s.magic = some magic) : Forall₂ (fun layer text =>
      layerNode s.board.layoutSize parts.sections.training.2 (some magic) layer = .ok text)
      s.layers parts.layers := by
  have h := parts.sections.isCombo
  rw [comboTrainingPart, hc] at h
  have hr : parts.sections.replacements = parts.sections.training.2 := by
    rw [SectionParts.replacements, ← pure_eq_ok.mp h]
    rfl
  rw [← hm, ← hr]
  exact mapM_eq_ok.mp parts.isLayers

/-- The node of a layer whose home-row keys have been trained. A key whose tap is an alternate taps the
guard of the alternate exactly if the tap is read as the key, and no other node has the guard's name. -/
def HomeRowLayer (keycodes : Entries) (refs : MacroRefs) (magic : MagicConfig) (nodes : List AdaptiveKey)
    (wrappers : List HoldTap) (size : LayoutSize) (layer : CompiledLayer) (text : String) : Prop :=
  ∃ name family outs body, layer.name = .text name ∧ magic.forLayer? (.text name) = .ok family ∧
    bindingsText size outs = .ok body ∧ text = layerText name body ∧
    List.Forall₂ (fun key out => ∀ m hand hold tap, family = some m →
      key = .text (homeRowCode hand hold tap) →
      Text.words (homeRowCode hand hold tap) = ["&" ++ handLabel hand, hold, tap] →
      predecessors keycodes refs m ("&kp " ++ tap) ≠ [] →
        ∃ trained, out = .text trained ∧
          (TapsGuard keycodes refs nodes wrappers m ("&kp " ++ tap) hold trained ↔
            plainKey keycodes tap = .ok (.text ("&kp " ++ tap)) ∧
              RefersToGuard keycodes refs nodes m ("&kp " ++ tap) ("&" ++ guardName m ("&kp " ++ tap))))
      layer.keycodes outs

theorem Made.homeRowLayer {found : List (Option TrainedFamily)} {wrapped : List (String × Wrapped)}
    (made : Made keycodes table (magicRefs magic) magic layers found wrapped) (single : DistinctBases magic)
    {layer : CompiledLayer} (hl : layer ∈ layers) {size : LayoutSize} {text : String}
    (hd : layerNode size (withWrapped wrapped (replacementsOf (trainedOf found))) (some magic) layer = .ok text) :
    HomeRowLayer keycodes (magicRefs magic) magic (nodesOf (found.filterMap id)) (distinctNodes wrapped) size
      layer text := by
  obtain ⟨name, outs, body, hn, ho, hbd, ht⟩ := layerNode_eq_ok hd
  obtain ⟨_, htr, -⟩ := exists_wrapLayers.mp ⟨wrapped, made.isWrapped⟩ layer hl
  obtain ⟨family, h, -⟩ := bind_eq_ok.mp htr
  rw [hn] at h
  refine ⟨name, family, outs, body, hn, h, hbd, ht, ?_⟩
  cases family with
  | none =>
    obtain ⟨f, hr⟩ := exists_rewritten ho
    exact hr.imp fun _ _ _ m _ _ _ hs => absurd hs (Option.some_ne_none m).symm
  | some m =>
    obtain ⟨-, base, hb⟩ := forLayer?_eq_ok h
    have hr := rewritten_of_family h hb ho
    refine ((forall₂_and_left _ _).mpr ⟨fun key hm => hm, hr⟩).imp ?_
    rintro key out ⟨hk, one⟩ m' hand hold tap ⟨⟩ rfl hw hp
    exact ⟨_, one _ rfl, made.tapsGuard_iff single hl hn h hb hw hk hp⟩

theorem single_of_plainKey {tap : String} (hd : plainKey keycodes tap = .ok (.text ("&kp " ++ tap))) :
    tap.length ≤ 1 ∨ Text.startsWith tap "KC_" := by
  by_contra hb
  obtain ⟨hl, hp⟩ := not_or.mp hb
  have hs : 1 < tap.length := Nat.lt_of_not_le hl
  obtain ⟨first, second, rest, hc⟩ : ∃ first second rest, tap.toList = first :: second :: rest := by
    rw [← String.length_toList] at hs
    match h : tap.toList with
    | [] | [_] => simp [h] at hs
    | first :: second :: rest => exact ⟨first, second, rest, rfl⟩
  -- Whatever the table says of the name, it is not asked: the characters are tapped one by one.
  obtain ⟨text, ht, hr⟩ : ∃ text, tapSequence keycodes (tap.toList.map String.singleton) = .ok text ∧
      text = "&kp " ++ tap := by
    unfold plainKey at hd
    rw [if_neg hp] at hd
    simp only [hc, if_pos hs] at hd ⊢
    split at hd <;>
    · obtain ⟨_, -, hd⟩ := bind_eq_ok.mp hd
      obtain ⟨text, ht, hd⟩ := bind_eq_ok.mp hd
      exact ⟨text, ht, Document.text.inj (pure_eq_ok.mp hd)⟩
  obtain ⟨keys, -, ht⟩ := bind_eq_ok.mp ht
  rw [← pure_eq_ok.mp ht] at hr
  have hsc := congrArg (fun s => s.toList[1]?) hr
  simp at hsc

/-- Home-row keys under magic training. The file is generated if it is generated without training and all
taps can be read. In the file a key taps the guard of its alternate exactly if its tap is read as that
alternate, which no name of several characters is. -/
theorem home_row_keys_trained_iff (training : settings.magicTraining = true) (noCombos : s.combos = [])
    (isMagic : s.magic = some magic) (single : DistinctBases magic)
    (alternates : ∀ m ∈ magic, AlternatesTranslate settings.keycodes m) (start : Progress) :
    (Generates settings s start ↔ Generates { settings with magicTraining := false } s start ∧
      TapsRead settings.keycodes magic s.layers) ∧
    (∀ tap, plainKey settings.keycodes tap = .ok (.text ("&kp " ++ tap)) →
      tap.length ≤ 1 ∨ Text.startsWith tap "KC_" = true) ∧
    ∀ text, ((keymapFile settings s).run.run start).1 = .ok text →
      ∃ parts : FileParts settings s start, parts.text = text ∧ ∃ nodes wrappers,
        (magic ≠ [] → parts.sections.training.1 = [magicTrainingText nodes wrappers]) ∧
        List.Forall₂ (HomeRowLayer settings.keycodes (magicRefs magic) magic nodes wrappers s.board.layoutSize)
          s.layers parts.layers := by
  refine ⟨generates_training_iff training noCombos isMagic single alternates,
    fun _ => single_of_plainKey, fun text done => ?_⟩
  obtain ⟨parts, isText⟩ := keymapFile_parts done
  have isTraining := parts.isTraining isMagic
  have isLayers := parts.layers_of_noCombos noCombos isMagic
  refine ⟨parts, isText, ?_⟩
  generalize parts.sections.training = made at isTraining isLayers ⊢
  rw [magicTrainingPart, training, isMagic, Option.getD_some] at isTraining
  by_cases isEmpty : magic = []
  · subst isEmpty
    refine ⟨[], [], fun present => absurd rfl present, isLayers.imp fun layer text done => ?_⟩
    obtain ⟨name, outs, body, isName, isOuts, isBody, isText⟩ := layerNode_eq_ok done
    obtain ⟨f, rewritten⟩ := exists_rewritten isOuts
    exact ⟨name, none, outs, body, isName, rfl, isBody, isText,
      rewritten.imp fun _ _ _ m _ _ _ isSome => absurd isSome (Option.some_ne_none m).symm⟩
  · rw [if_neg (by simpa using isEmpty)] at isTraining
    obtain ⟨result, isResult, isTraining⟩ := map_eq_ok.mp isTraining
    obtain ⟨found, wrapped, made, rfl⟩ := made_of_section isResult
    subst isTraining
    refine ⟨_, _, fun _ => rfl, ?_⟩
    exact ((List.forall₂_and_left _ _).mpr ⟨fun _ member => member, isLayers⟩).imp fun layer text one =>
      made.homeRowLayer single one.1 one.2

end Files

def commaMapping : MagicMapping :=
  ⟨"BASE_NIGHT", .whole 150, .record [("A", ",")], "REPEAT"⟩

def commaSettings : Settings where
  keycodes := [("A", .record [("zmk", "&kp A")]), ("C", .record [("zmk", "&kp C")]),
    ("M", .record [("zmk", "&kp M")]), ("O", .record [("zmk", "&kp O")]), (",", .record [("zmk", "&kp COMMA")])]
  magicTraining := true

def homeRowSource (key : Document) : Source where
  board := { id := "homerow", name := "Home row", firmware := .zmk }
  layers := [⟨"BASE_NIGHT", [key]⟩]
  magic := some [commaMapping]

/-- The key of the comma is an alternate, but no wrapper taps its guard. A key whose name has a digit keeps
the file from being generated. -/
theorem named_taps_untrained :
    let refs := magicRefs [commaMapping]
    let start := Progress.start commaSettings none
    (∃ parts : FileParts commaSettings (homeRowSource "&hml LGUI COMMA") start, ∃ nodes wrappers out body,
      parts.sections.training.1 = [magicTrainingText nodes wrappers] ∧
      parts.layers = [layerText "BASE_NIGHT" body] ∧ bindingsText .split36 [.text out] = .ok body ∧
      predecessors commaSettings.keycodes refs commaMapping "&kp COMMA" = [.word "A"] ∧
      ¬ TapsGuard commaSettings.keycodes refs nodes wrappers commaMapping "&kp COMMA" "LGUI" out) ∧
    Generates { commaSettings with magicTraining := false } (homeRowSource "&hml LGUI N1") start ∧
    ¬ Generates commaSettings (homeRowSource "&hml LGUI N1") start := by
  intro refs start
  have translate : ∀ m ∈ [commaMapping], AlternatesTranslate commaSettings.keycodes m := by
    rintro m (_ | ⟨_, ⟨⟩⟩) e (_ | ⟨_, ⟨⟩⟩)
    exact ⟨"&kp COMMA", rfl⟩
  refine ⟨?_, exists_eq_ok (by decide +kernel), ?_⟩
  · obtain ⟨text, done⟩ : ∃ text, ((keymapFile commaSettings (homeRowSource "&hml LGUI COMMA")).run.run
        start).1 = .ok text := exists_eq_ok (by decide +kernel)
    obtain ⟨-, names, files⟩ := home_row_keys_trained_iff (s := homeRowSource "&hml LGUI COMMA")
      (show commaSettings.magicTraining = true from rfl) rfl rfl (by decide) translate start
    obtain ⟨parts, -, nodes, wrappers, isSection, layers⟩ := files text done
    obtain ⟨_, _, layer, ⟨⟩, isLayers⟩ := List.forall₂_cons_left_iff.mp layers
    obtain ⟨name, family, outs, body, isName, isFamily, isBody, rfl, keys⟩ := layer
    obtain rfl : "BASE_NIGHT" = name := Document.text.inj isName
    obtain ⟨_, _, key, ⟨⟩, rfl⟩ := List.forall₂_cons_left_iff.mp keys
    have isAlternate : predecessors commaSettings.keycodes refs commaMapping "&kp COMMA" = [.word "A"] := by
      decide
    obtain rfl : some commaMapping = family :=
      Except.ok.inj ((show _ = Except.ok (some commaMapping) from rfl).symm.trans isFamily)
    obtain ⟨out, rfl, tapsGuard⟩ := key commaMapping .left "LGUI" "COMMA" rfl rfl (by decide)
      (by rw [show "&kp " ++ "COMMA" = "&kp COMMA" from rfl, isAlternate]; exact List.cons_ne_nil _ _)
    refine ⟨parts, nodes, wrappers, out, body, isSection (by simp), isLayers, isBody, isAlternate, fun taps => ?_⟩
    exact absurd (names "COMMA" (tapsGuard.mp taps).1) (by decide)
  · intro generated
    obtain ⟨outcomes, -⟩ := home_row_keys_trained_iff (s := homeRowSource "&hml LGUI N1")
      (show commaSettings.magicTraining = true from rfl) rfl rfl (by decide) translate start
    obtain ⟨key, _, isKey, -⟩ := (outcomes.mp generated).2 _ (.head _) commaMapping rfl (by decide) _ (.head _)
      ⟨"&hml LGUI N1", .left, "LGUI", "N1"⟩ rfl
    have unread : (plainKey commaSettings.keycodes "N1").toOption.isSome = false := by decide
    rw [show plainKey commaSettings.keycodes "N1" = .ok key from isKey] at unread
    cases unread

end Keymap.Zmk
