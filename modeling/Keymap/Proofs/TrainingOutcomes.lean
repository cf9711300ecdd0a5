import Keymap.Proofs.KeymapOutcomes

namespace Keymap

theorem exists_anyM {α : Type} {p : α → Result Bool} {xs : List α} (h : ∀ x ∈ xs, ∃ b, p x = .ok b) :
    ∃ b, xs.anyM p = .ok b := by
  induction xs with
  | nil => exact ⟨false, rfl⟩
  | cons x xs ih =>
    obtain ⟨⟨here, hh⟩, hl⟩ := List.forall_mem_cons.mp h
    rw [List.anyM, hh]
    cases here with
    | true => exact ⟨true, rfl⟩
    | false => exact ih hl

end Keymap

namespace Keymap.Zmk

variable {name : String} {table : BehaviorTable} {d : Document} {m : MagicMapping} {f : TrainedFamily}
  {layers : List CompiledLayer}

section Hands

variable {layer : CompiledLayer}

theorem exists_has (h : IsText d) (part : String) : ∃ b, d.has part = .ok b := by
  obtain ⟨s, rfl⟩ := h
  exact ⟨_, rfl⟩

theorem exists_hasMagicAndShift {keys : List Document} (ht : ∀ key ∈ keys, IsText key)
    (positions : List Nat) : ∃ b, hasMagicAndShift keys positions = .ok b := by
  have he : ∀ key ∈ positions.filterMap fun i => keys[i]?, ∃ kind,
      (do return (← isMagicBinding key, ← isShiftBinding key) : Result (Bool × Bool)) = .ok kind := by
    intro key hmm
    obtain ⟨i, -, hk⟩ := List.mem_filterMap.mp hmm
    have h := ht key (List.mem_of_getElem? hk)
    obtain ⟨magic, hm⟩ : ∃ b, isMagicBinding key = .ok b := exists_anyM fun part _ => exists_has h part
    obtain ⟨shift, hs⟩ : ∃ b, isShiftBinding key = .ok b := exists_anyM fun part _ => exists_has h part
    exact ⟨(magic, shift), by rw [hm, hs]; rfl⟩
  obtain ⟨kinds, hkn⟩ := exists_mapM_eq_ok.mpr he
  exact ⟨_, bind_eq_ok.mpr ⟨kinds, hkn, rfl⟩⟩

theorem exists_colocation (h : ∀ key ∈ layer.keycodes, IsText key) : ∃ c, colocation layer = .ok c := by
  obtain ⟨left, hl⟩ := exists_hasMagicAndShift h (thumbClusters layer.keycodes.length).1
  obtain ⟨right, hr⟩ := exists_hasMagicAndShift h (thumbClusters layer.keycodes.length).2
  refine ⟨⟨left, right⟩, ?_⟩
  rw [colocation]
  exact bind_eq_ok.mpr ⟨left, hl, bind_eq_ok.mpr ⟨right, hr, rfl⟩⟩

theorem exists_hasArgument (s start : String) : ∃ b, hasArgument (.text s) start = .ok b := by
  rw [hasArgument, exists_bind_eq_ok]
  refine ⟨Text.contains s (" " ++ start), rfl, ?_⟩
  split
  · exact ⟨true, rfl⟩
  · exact ⟨false, rfl⟩

theorem exists_letterHand (ht : ∀ key ∈ layer.keycodes, IsText key) (letter : String) :
    ∃ hand, letterHand? letter layer = .ok hand := by
  unfold letterHand?
  extract_lets hands
  refine exists_bind_eq_ok.mpr ⟨letter, rfl, ?_⟩
  extract_lets capital holds
  have h : ∀ positions : List Nat, ∃ b, positions.anyM holds = .ok b := by
    refine fun positions => exists_anyM fun i _ => ?_
    unfold holds
    split
    · rename_i key hk
      obtain ⟨s, rfl⟩ := ht key (List.mem_of_getElem? hk)
      exact exists_hasArgument s capital
    · exact ⟨false, rfl⟩
  obtain ⟨left, hl⟩ := h hands.left
  refine exists_bind_eq_ok.mpr ⟨left, hl, ?_⟩
  split
  · exact ⟨_, rfl⟩
  · obtain ⟨right, hr⟩ := h hands.right
    refine exists_bind_eq_ok.mpr ⟨right, hr, ?_⟩
    split <;> exact ⟨_, rfl⟩

theorem exists_needsStrict {c : Colocation} (ht : ∀ key ∈ layer.keycodes, IsText key)
    (previous : List Field) : ∃ strict, needsStrict (some (layer, c)) previous = .ok strict := by
  refine exists_anyM fun p _ => ?_
  cases p with
  | number _ => exact ⟨false, rfl⟩
  | word s =>
    dsimp only
    split
    · obtain ⟨hand, h⟩ := exists_letterHand ht s
      exact ⟨_, map_eq_ok.mpr ⟨hand, h, rfl⟩⟩
    · exact ⟨false, rfl⟩

end Hands

section Training

variable {keycodes : Entries} {refs : MacroRefs} {entries : Entries}

def AllTexts (layers : List CompiledLayer) : Prop :=
  ∀ layer ∈ layers, ∀ key ∈ layer.keycodes, IsText key

theorem exists_compiledBase (h : AllTexts layers) : ∃ base, compiledBase layers m = .ok base ∧
    ∀ previous, ∃ strict, needsStrict base previous = .ok strict := by
  rw [compiledBase]
  split
  · rename_i layer hf
    have h := h layer (List.mem_of_find?_eq_some hf)
    obtain ⟨c, hc⟩ := exists_colocation h
    exact ⟨_, map_eq_ok.mpr ⟨c, hc, rfl⟩, fun previous => exists_needsStrict h previous⟩
  · exact ⟨none, rfl, fun previous => ⟨false, rfl⟩⟩

/-- A mapping whose keys the firmware has names for: what the magic key itself takes. -/
structure Translated (keycodes : Entries) (refs : MacroRefs) (m : MagicMapping) (entries : Entries) : Prop where
  isRecord : m.mappings = .record entries
  isNamed : ∃ name, m.baseLayer = .text name
  previous : ∀ e ∈ entries, ∃ key, (do bareKey (← simpleKey keycodes e.1.toDocument)) = .ok key
  alternate : ∀ e ∈ entries, ∃ binding, alternateBinding keycodes refs m.baseLayer e.1 e.2 = .ok binding
  limit : entries ≠ [] → ∃ limit, timeLimit m.timeout = .ok limit

theorem translated_of_trigger {e : Field × Document} {trigger : Trigger}
    (h : magicTrigger keycodes refs m e.1 e.2 = .ok trigger) :
    (∃ key, (do bareKey (← simpleKey keycodes e.1.toDocument)) = .ok key) ∧
    (∃ binding, alternateBinding keycodes refs m.baseLayer e.1 e.2 = .ok binding) ∧
    ∃ limit, timeLimit m.timeout = .ok limit := by
  obtain ⟨raw, hr, h⟩ := bind_eq_ok.mp h
  obtain ⟨binding, hb, h⟩ := bind_eq_ok.mp h
  obtain ⟨key, hk, h⟩ := bind_eq_ok.mp h
  refine ⟨⟨key, bind_eq_ok.mpr ⟨raw, hr, hk⟩⟩, ⟨binding, hb⟩, ?_⟩
  split at h
  · cases h
  · obtain ⟨limit, hl, -⟩ := bind_eq_ok.mp h
    exact ⟨limit, hl⟩

theorem entries_eq_ok (h : d.entries = .ok entries) : d = .record entries := by
  cases d with
  | record es => rw [Except.ok.inj h]
  | null | flag _ | whole _ | decimal _ | list _ | text _ => cases h

theorem translated_of_magicKeyLines {lines : List String}
    (h : magicKeyLines keycodes table refs m = .ok lines) : ∃ entries, Translated keycodes refs m entries := by
  obtain ⟨family, hf, h⟩ := bind_eq_ok.mp h
  obtain ⟨node, hn, -⟩ := bind_eq_ok.mp h
  obtain ⟨_, -, hn⟩ := bind_eq_ok.mp hn
  obtain ⟨_, -, hn⟩ := bind_eq_ok.mp hn
  obtain ⟨entries, het, hn⟩ := bind_eq_ok.mp hn
  obtain ⟨triggers, ht, -⟩ := bind_eq_ok.mp hn
  obtain ⟨name, hnm, -⟩ := map_eq_ok.mp hf
  have he : ∀ e ∈ entries, ∃ trigger, magicTrigger keycodes refs m e.1 e.2 = .ok trigger :=
    exists_mapM_eq_ok.mp ⟨triggers, ht⟩
  refine ⟨entries, entries_eq_ok het, ⟨name, word_yields _ _ _ hnm⟩, fun e hm => ?_,
    fun e hm => ?_, fun hp => ?_⟩
  · obtain ⟨trigger, h⟩ := he e hm
    exact (translated_of_trigger h).1
  · obtain ⟨trigger, h⟩ := he e hm
    exact (translated_of_trigger h).2.1
  · obtain ⟨e, hm⟩ := List.exists_mem_of_ne_nil entries hp
    obtain ⟨trigger, h⟩ := he e hm
    exact (translated_of_trigger h).2.2

theorem exists_trainingKey {base : Option (CompiledLayer × Colocation)} {family : String}
    {group : List (Field × Document)} (hs : ∃ strict, needsStrict base (group.map (·.1)) = .ok strict)
    (hb : ∃ alternate, groupBinding keycodes refs m.baseLayer group = .ok (.text alternate))
    (h : ∀ e ∈ group, ∃ key, (do bareKey (← simpleKey keycodes e.1.toDocument)) = .ok key)
    (hl : ∃ limit, timeLimit m.timeout = .ok limit) :
    ∃ pair, trainingKey keycodes refs base m family group = .ok pair := by
  obtain ⟨strict, hs⟩ := hs
  obtain ⟨alternate, hb⟩ := hb
  obtain ⟨limit, hl⟩ := hl
  have h : ∃ keys, ((group.map (·.1)).mapM fun p => do bareKey (← simpleKey keycodes p.toDocument)) =
      .ok keys :=
    exists_mapM_eq_ok.mpr (List.forall_mem_map.mpr h)
  obtain ⟨keys, h⟩ := h
  rw [trainingKey, hb]
  refine exists_bind_eq_ok.mpr ⟨.text alternate, rfl, exists_bind_eq_ok.mpr ⟨alternate, rfl, ?_⟩⟩
  refine exists_bind_eq_ok.mpr ⟨keys, h, exists_bind_eq_ok.mpr ⟨strict, hs, ?_⟩⟩
  exact exists_bind_eq_ok.mpr ⟨limit, hl, _, rfl⟩

def AlternatesTranslate (keycodes : Entries) (m : MagicMapping) : Prop :=
  ∀ e ∈ m.mappings.entries?.getD [], ∃ text, simpleKey keycodes e.2 = .ok (.text text)

theorem Translated.coded (translated : Translated keycodes refs m entries)
    (ha : AlternatesTranslate keycodes m) : Coded keycodes refs m entries := by
  refine ⟨translated.isRecord, fun e hm => ?_⟩
  rw [AlternatesTranslate, translated.isRecord] at ha
  obtain ⟨text, ht⟩ := ha e hm
  rw [codeOf]
  cases h : macroRef? refs m.baseLayer e.1 with
  | some name =>
    rw [bindingOf_of_ref h, alternateBinding, h]
    rfl
  | none =>
    rw [bindingOf_of_key h ht, alternateBinding, h]
    exact ht

theorem Coded.groupedAlternates_eq (h : Coded keycodes refs m entries) : groupedAlternates keycodes refs m =
      .ok (asBindings (grouped (entries.map fun e => (codeOf keycodes refs m e, e)))) := by
  rw [← h.groups_eq, groupedAlternates, h.isRecord]
  refine bind_eq_ok.mpr ⟨entries, rfl, bind_eq_ok.mpr ⟨_, ?_, rfl⟩⟩
  rw [mapM_eq_ok, List.forall₂_map_right_iff, List.forall₂_same]
  intro e hm
  rw [h.bindingOf_eq hm]
  exact bind_eq_ok.mpr ⟨_, h.isCode e hm, bind_eq_ok.mpr ⟨_, rfl, rfl⟩⟩

theorem exists_magicTraining (ht : AllTexts layers) (h : Translated keycodes refs m entries)
    (ha : AlternatesTranslate keycodes m) : ∃ found, magicTraining keycodes refs layers m = .ok found := by
  have hc := h.coded ha
  obtain ⟨base, hb, hs⟩ : ∃ base, compiledBase layers m = .ok base ∧
    ∀ previous, ∃ strict, needsStrict base previous = .ok strict := exists_compiledBase ht
  rw [AlternatesTranslate, h.isRecord] at ha
  rw [magicTraining_eq, hb, ok_bind, hc.groupedAlternates_eq, ok_bind]
  split
  · exact ⟨none, rfl⟩
  obtain ⟨name, hn⟩ := h.isNamed
  refine exists_bind_eq_ok.mpr ⟨familyLabel name, by rw [familyOf, hn]; rfl, ?_⟩
  refine exists_bind_eq_ok.mpr ?_
  have hec : ∀ g ∈ asBindings (grouped (entries.map fun e => (codeOf keycodes refs m e, e))), ∃ pair,
      trainingKey keycodes refs base m (familyLabel name) g.2 = .ok pair := by
    intro g hm
    obtain ⟨g, hgr, rfl⟩ := List.mem_map.mp hm
    obtain ⟨hg, -, hp⟩ := hc.mem_group hgr
    obtain ⟨first, hf⟩ := Option.isSome_iff_exists.mp (List.isSome_head?.mpr hp)
    obtain ⟨last, hl⟩ := Option.isSome_iff_exists.mp (List.getLast?_isSome.mpr hp)
    have he := (hg last (List.mem_of_getLast? hl)).1
    refine exists_trainingKey (hs _) ?_ (fun e hm => h.previous e (hg e hm).1) (h.limit (List.ne_nil_of_mem he))
    rw [groupBinding_eq_ok hf hl]
    split
    · exact ⟨_, rfl⟩
    · exact ha last he
  obtain ⟨keys, hk⟩ := exists_mapM_eq_ok.mpr hec
  exact ⟨keys, hk, _, rfl⟩

end Training

section Families

variable {keycodes : Entries} {refs : MacroRefs} {magic : MagicConfig}
  {found : List (Option TrainedFamily)}

theorem exists_forFamily (h : ∀ m ∈ magic, ∃ base, m.baseLayer = .text base) :
    ∃ family, MagicConfig.forFamily? (.text name) magic = .ok family := by
  induction magic with
  | nil => exact ⟨none, rfl⟩
  | cons m rest ih =>
    obtain ⟨⟨base, hb⟩, ho⟩ := List.forall_mem_cons.mp h
    rw [MagicConfig.forFamily?, hb]
    refine exists_bind_eq_ok.mpr ⟨name, rfl, exists_bind_eq_ok.mpr ⟨base, rfl, ?_⟩⟩
    dsimp only
    split
    · exact ⟨some m, rfl⟩
    · exact ih ho

theorem exists_forLayer (h : ∀ m ∈ magic, ∃ base, m.baseLayer = .text base) :
    ∃ family, magic.forLayer? (.text name) = .ok family := by
  refine exists_bind_eq_ok.mpr ⟨_, rfl, ?_⟩
  split
  · exact ⟨_, rfl⟩
  · exact exists_forFamily h

def nodesOf (families : List TrainedFamily) : List AdaptiveKey :=
  families.flatMap fun f => f.2.map (·.1)

theorem mem_nodesOf {families : List TrainedFamily} (h : f ∈ families)
    {pair : AdaptiveKey × Trained} (hf : pair ∈ f.2) : pair.1 ∈ nodesOf families :=
  List.mem_flatMap.mpr ⟨f, h, List.mem_map_of_mem hf⟩

def trainedOf (found : List (Option TrainedFamily)) : List (String × List Trained) :=
  (found.filterMap id).map fun f => (f.1, f.2.map (·.2))

variable (related : List.Forall₂ (fun m f => magicTraining keycodes refs layers m = .ok f) magic found)

include related

theorem exists_groups (member : f ∈ found.filterMap id) :
    ∃ m ∈ magic, ∃ entries layer, GroupsTrained keycodes refs layers m entries layer (some f) := by
  obtain ⟨some, hf, hs⟩ := List.mem_filterMap.mp member
  obtain rfl : some = Option.some f := hs
  obtain ⟨m, hm, h⟩ := forall₂_mem_right related hf
  exact ⟨m, hm, magicTraining_groups h⟩

theorem exists_trainedAs {e : String × List Trained} (ht : e ∈ trainedOf found) {t : Trained}
    (member : t ∈ e.2) : ∃ m ∈ magic, ∃ code, t = trainedAs m code := by
  obtain ⟨f, h, rfl⟩ := List.mem_map.mp ht
  obtain ⟨pair, hf, rfl⟩ := List.mem_map.mp member
  obtain ⟨m, hm, _, _, htr⟩ := exists_groups related h
  exact ⟨m, hm, _, (htr.pair_eq hf).2⟩

theorem exists_base_of_trainedOf (there : name ∈ (trainedOf found).map (·.1)) :
    ∃ m ∈ magic, m.baseLayer = .text name := by
  obtain ⟨e, ht, rfl⟩ := List.mem_map.mp there
  obtain ⟨f, h, rfl⟩ := List.mem_map.mp ht
  obtain ⟨m, hm, _, _, htr⟩ := exists_groups related h
  exact ⟨m, hm, htr.isName f rfl⟩

theorem lookup_trainedOf (h : DistinctBases magic) (hm : m ∈ magic) {base : String}
    (hb : m.baseLayer = .text base) {f : Option TrainedFamily}
    (hd : magicTraining keycodes refs layers m = .ok f) :
    (trainedOf found).lookup base = f.map fun f => f.2.map (·.2) := by
  induction related with
  | nil => cases hm
  | @cons x y magic found hh htl ih =>
    obtain ⟨ha, h⟩ := List.pairwise_cons.mp h
    obtain ⟨_, _, ht⟩ := magicTraining_groups hh
    rcases List.mem_cons.mp hm with rfl | hl
    · obtain rfl := Except.ok.inj (hh.symm.trans hd)
      cases y with
      | none =>
        -- A base layer without alternates must not get the bindings of a namesake.
        change (trainedOf found).lookup base = none
        rw [lookup_eq_none_iff_not_mem]
        intro hth
        obtain ⟨other, hr, hs⟩ := exists_base_of_trainedOf htl hth
        exact baseLayer_ne (ha other hr) hb hs
      | some f =>
        have hn := ht.isName f rfl
        rw [hb] at hn
        change List.lookup base ((f.1, f.2.map (·.2)) :: trainedOf found) = _
        rw [Document.text.inj hn, List.lookup_cons_self]
        rfl
    · cases y with
      | none => exact ih h hl
      | some f =>
        have other : base ≠ f.1 := by
          rintro rfl
          exact baseLayer_ne (ha m hl) (ht.isName f rfl) hb
        change List.lookup base ((f.1, f.2.map (·.2)) :: trainedOf found) = _
        rw [List.lookup_cons, beq_false_of_ne other]
        exact ih h hl

end Families

section Wrapping

variable {keycodes : Entries} {kind : String}

def TapReads (keycodes : Entries) (tap : String) : Prop :=
  ∃ key field, plainKey keycodes tap = .ok key ∧ key.asField = .ok field

theorem exists_homeRowKey (code : String) : ∃ found, homeRowKey? (.text code) = .ok found := by
  refine exists_bind_eq_ok.mpr ⟨code, rfl, ?_⟩
  extract_lets hand
  split <;> exact ⟨_, rfl⟩

theorem exists_wrapBinding {trained : List Trained} {code : String} :
    (∃ w, wrapBinding keycodes table kind trained (.text code) = .ok w) ↔
      ∀ k, homeRowKey? (.text code) = .ok (some k) → TapReads keycodes k.tap := by
  obtain ⟨found, hfn⟩ := exists_homeRowKey code
  rw [wrapBinding, hfn, ok_bind]
  cases found with
  | none =>
    refine ⟨fun _ k h => ?_, fun _ => ⟨none, rfl⟩⟩
    cases h
  | some k =>
    constructor
    · rintro ⟨w, hd⟩ k' h
      obtain rfl := Option.some.inj (Except.ok.inj h)
      obtain ⟨key, h, hd⟩ := bind_eq_ok.mp hd
      obtain ⟨field, hf, -⟩ := bind_eq_ok.mp hd
      exact ⟨key, field, h, hf⟩
    · intro hr
      obtain ⟨key, field, h, hf⟩ := hr k rfl
      exact exists_bind_eq_ok.mpr ⟨key, h, exists_bind_eq_ok.mpr ⟨field, hf, _, rfl⟩⟩

theorem exists_wrapLayers {family : CompiledLayer → Result (Option (String × List Trained))} :
    (∃ wrapped, wrapLayers keycodes table kind family layers = .ok wrapped) ↔
      ∀ layer ∈ layers, ∃ found, family layer = .ok found ∧ ∀ name trained, found = some (name, trained) →
        ∀ key ∈ layer.keycodes, ∃ w, wrapBinding keycodes table kind trained key = .ok w := by
  rw [wrapLayers, exists_bind_pure, exists_mapM_eq_ok]
  refine forall₂_congr fun layer _ => ?_
  rw [exists_bind_eq_ok]
  refine exists_congr fun found => and_congr_right fun _ => ?_
  cases found with
  | none =>
    refine ⟨fun _ name trained hf => ?_, fun _ => ⟨[], rfl⟩⟩
    cases hf
  | some f =>
    rw [exists_bind_pure, exists_mapM_eq_ok]
    refine ⟨fun h name trained hf => ?_, fun h => h f.1 f.2 rfl⟩
    obtain rfl := Option.some.inj hf
    exact h

end Wrapping

section Tables

variable {r : Replacements} {keys : List Document}

def TextTables (r : Replacements) : Prop :=
  ∀ g ∈ r, ∃ table, g.2 = asBindings table

theorem TextTables.lookup (h : TextTables r) (name : String) :
    ∃ table, (r.lookup name).getD [] = asBindings table := by
  cases found : r.lookup name with
  | none => exact ⟨[], rfl⟩
  | some table => exact h (name, table) (mem_of_lookup found)

theorem textTables_replacementsOf {trained : List (String × List Trained)}
    (he : ∀ e ∈ trained, ∀ t ∈ e.2, IsText t.binding) : TextTables (replacementsOf trained) := by
  intro g hm
  obtain ⟨e, ht, rfl⟩ := List.mem_map.mp hm
  have htb : e.2.map (fun t => (t.binding, "&" ++ t.behavior)) =
      asBindings (e.2.map fun t => (t.binding.text?.getD "", "&" ++ t.behavior)) := by
    rw [asBindings, List.map_map]
    refine List.map_congr_left fun t htr => ?_
    obtain ⟨code, h⟩ := he e ht t htr
    rw [h, Function.comp_apply, h]
    rfl
  exact ⟨_, (congrArg _ htb).trans (replaceAllBy_asBindings [] _)⟩

theorem TextTables.withWrapped (h : TextTables r) (wrapped : List (String × Wrapped)) :
    TextTables (withWrapped wrapped r) := by
  induction wrapped generalizing r with
  | nil => exact h
  | cons w rest ih =>
    refine ih fun g hm => ?_
    rcases mem_assign hm with rfl | old
    · obtain ⟨table, ht⟩ := h.lookup w.1
      exact ⟨_, by rw [ht, replaceBy_asBindings]⟩
    · exact h g old

theorem exists_replaceBindings (table : List (String × String)) :
    (∃ outs, replaceBindings (asBindings table) keys = .ok outs ∧ ∀ out ∈ outs, IsText out) ↔
      ∀ key ∈ keys, IsText key := by
  constructor
  · rintro ⟨outs, h, ht⟩ key hm
    obtain ⟨out, ho, h⟩ := forall₂_mem_right (mapM_eq_ok.mp h).flip hm
    obtain ⟨_, -, h⟩ := bind_eq_ok.mp h
    obtain rfl := pure_eq_ok.mp h
    cases found : (asBindings table).find? fun e => e.1.same key with
    | none =>
      have htx := ht _ ho
      rw [found] at htx
      exact htx
    | some e =>
      obtain ⟨entry, -, rfl⟩ := List.mem_map.mp (List.mem_of_find?_eq_some found)
      have hs : (Document.text entry.1).same key := by
        apply List.find?_some found
      exact ⟨entry.1, Document.eq_text_of_text_same hs⟩
  · intro ht
    have he : ∀ key ∈ keys, ∃ out, (do
        let _ ← key.asField
        return (((asBindings table).find? fun e => e.1.same key).map fun e => Document.text e.2).getD key :
          Result Document) = .ok out := by
      intro key hm
      obtain ⟨code, rfl⟩ := ht key hm
      exact ⟨_, rfl⟩
    obtain ⟨outs, h⟩ := exists_mapM_eq_ok.mpr he
    refine ⟨outs, h, fun out hm => ?_⟩
    obtain ⟨key, hk, h⟩ := forall₂_mem_right (mapM_eq_ok.mp h) hm
    obtain ⟨_, -, h⟩ := bind_eq_ok.mp h
    obtain rfl := pure_eq_ok.mp h
    cases (asBindings table).find? fun e => e.1.same key with
    | none => exact ht key hk
    | some e => exact ⟨e.2, rfl⟩

theorem exists_foldlM_replaceBindings {tables : List (List (Document × String))}
    (ht : ∀ t ∈ tables, ∃ table, t = asBindings table) :
    (∃ outs, tables.foldlM (fun keys table => replaceBindings table keys) keys = .ok outs ∧
      ∀ out ∈ outs, IsText out) ↔ ∀ key ∈ keys, IsText key := by
  induction tables generalizing keys with
  | nil =>
    refine ⟨?_, fun h => ⟨keys, rfl, h⟩⟩
    rintro ⟨outs, hd, h⟩
    obtain rfl := pure_eq_ok.mp hd
    exact h
  | cons t tables ih =>
    obtain ⟨⟨table, rfl⟩, ho⟩ := List.forall_mem_cons.mp ht
    rw [← exists_replaceBindings table]
    constructor
    · rintro ⟨outs, hd, h⟩
      obtain ⟨mids, hm, hd⟩ := bind_eq_ok.mp hd
      exact ⟨mids, hm, (ih ho).mp ⟨outs, hd, h⟩⟩
    · rintro ⟨mids, hm, h⟩
      obtain ⟨outs, hd, h⟩ := (ih ho).mpr h
      exact ⟨outs, bind_eq_ok.mpr ⟨mids, hm, hd⟩, h⟩

theorem exists_trainedKeys (texts : TextTables r) {magic : MagicConfig}
    (h : ∃ family, magic.forLayer? (.text name) = .ok family) :
    (∃ outs, trainedKeys r (some magic) name keys = .ok outs ∧ ∀ out ∈ outs, IsText out) ↔
      ∀ key ∈ keys, IsText key := by
  rw [trainedKeys]
  split
  · refine ⟨?_, fun ht => ⟨keys, rfl, ht⟩⟩
    rintro ⟨outs, hd, ht⟩
    obtain rfl := pure_eq_ok.mp hd
    exact ht
  · obtain ⟨tables, htb, he⟩ : ∃ tables, applicable r (some magic) name = .ok tables ∧
        ∀ t ∈ tables, ∃ table, t = asBindings table := by
      obtain ⟨family, h⟩ := h
      rw [applicable, h, ok_bind]
      cases family with
      | none => exact ⟨_, rfl, List.forall_mem_map.mpr texts⟩
      | some m =>
        refine ⟨_, rfl, fun t hm => ?_⟩
        obtain ⟨base, -, found⟩ := Option.bind_eq_some_iff.mp (Option.mem_toList.mp hm)
        exact texts (base, t) (mem_of_lookup found)
    rw [htb, ok_bind]
    exact exists_foldlM_replaceBindings he

end Tables

section Files

variable {settings : Settings} {s : Source} {magic : MagicConfig} {start : Progress} {layer : CompiledLayer}
  {size : LayoutSize} {refs : MacroRefs} {made : String × Replacements}

def TapsRead (keycodes : Entries) (magic : MagicConfig) (layers : List CompiledLayer) : Prop :=
  ∀ layer ∈ layers, ∀ m, magic.forLayer? layer.name = .ok (some m) → m.mappings.entries?.getD [] ≠ [] →
    ∀ key ∈ layer.keycodes, ∀ k, homeRowKey? key = .ok (some k) → TapReads keycodes k.tap

def trainingOf (magic : MagicConfig) (trained : List (String × List Trained)) (layer : CompiledLayer) :
    Result (Option (String × List Trained)) := do
  let base := (← magic.forLayer? layer.name).bind fun m => m.baseLayer.text?
  return base.bind fun name => (trained.lookup name).map fun ts => (name, ts)

theorem magicTrainingSection_eq {keycodes : Entries} :
    magicTrainingSection keycodes table refs magic layers = do
      let found ← magic.mapM (magicTraining keycodes refs layers)
      let wrapped ← wrapLayers keycodes table "train" (trainingOf magic (trainedOf found)) layers
      return (magicTrainingText (nodesOf (found.filterMap id)) (distinctNodes wrapped),
        withWrapped wrapped (replacementsOf (trainedOf found))) := rfl

section Sections

variable {keycodes : Entries}

theorem textTables_of_made (h : magicTrainingSection keycodes table refs magic layers = .ok made) :
    TextTables made.2 := by
  rw [magicTrainingSection_eq] at h
  obtain ⟨found, hf, h⟩ := bind_eq_ok.mp h
  obtain ⟨wrapped, -, h⟩ := bind_eq_ok.mp h
  obtain rfl := pure_eq_ok.mp h
  refine TextTables.withWrapped (textTables_replacementsOf fun e ht t hm => ?_) wrapped
  obtain ⟨m, -, code, rfl⟩ := exists_trainedAs (mapM_eq_ok.mp hf) ht hm
  exact ⟨code, rfl⟩

theorem trainingOf_family (hs : DistinctBases magic) {found : List (Option TrainedFamily)}
    (isFound : magic.mapM (magicTraining keycodes refs layers) = .ok found)
    (hn : layer.name = .text name) (hf : magic.forLayer? layer.name = .ok (some m))
    {f : Option TrainedFamily} (isTrained : magicTraining keycodes refs layers m = .ok f) :
    trainingOf magic (trainedOf found) layer = .ok (f.map fun f => (m.title, f.2.map (·.2))) := by
  rw [hn] at hf
  obtain ⟨hm, base, h⟩ := forLayer?_eq_ok hf
  have ht : m.title = base := by
    rw [MagicMapping.title, h]
    rfl
  rw [trainingOf, hn, hf, ok_bind, ht]
  dsimp only [Option.bind_some]
  rw [h]
  change Except.ok ((((trainedOf found).lookup base)).map fun ts => (base, ts)) = _
  rw [lookup_trainedOf (mapM_eq_ok.mp isFound) hs hm h isTrained, Option.map_map]
  rfl

theorem tapsRead_of_made (hs : DistinctBases magic)
    (h : magicTrainingSection keycodes table refs magic layers = .ok made) (texts : AllTexts layers)
    (named : ∀ layer ∈ layers, IsText layer.name) : TapsRead keycodes magic layers := by
  rw [magicTrainingSection_eq] at h
  obtain ⟨found, hfn, h⟩ := bind_eq_ok.mp h
  obtain ⟨wrapped, hw, -⟩ := bind_eq_ok.mp h
  intro layer hl m hf hp key hk k hky
  obtain ⟨name, hn⟩ := named layer hl
  obtain ⟨code, rfl⟩ := texts layer hl key hk
  have hm := (forLayer?_eq_ok (hn ▸ hf)).1
  obtain ⟨f, ht⟩ := exists_mapM_eq_ok.mp ⟨found, hfn⟩ m hm
  obtain ⟨entries, base, htr⟩ := magicTraining_groups ht
  obtain ⟨f, rfl⟩ := Option.ne_none_iff_exists'.mp (mt htr.eq_none_iff.mp hp)
  obtain ⟨family, hfm, hwr⟩ := exists_wrapLayers.mp ⟨wrapped, hw⟩ layer hl
  rw [trainingOf_family hs hfn hn hf ht] at hfm
  exact exists_wrapBinding.mp (hwr _ _ (Except.ok.inj hfm).symm _ hk) k hky

theorem exists_magicTrainingSection (single : DistinctBases magic)
    (h : ∀ m ∈ magic, ∃ entries, Translated keycodes refs m entries)
    (ha : ∀ m ∈ magic, AlternatesTranslate keycodes m)
    (texts : AllTexts layers) (named : ∀ layer ∈ layers, IsText layer.name)
    (hr : TapsRead keycodes magic layers) :
    ∃ made, magicTrainingSection keycodes table refs magic layers = .ok made := by
  have htr : ∀ m ∈ magic, ∃ f, magicTraining keycodes refs layers m = .ok f := by
    intro m hm
    obtain ⟨entries, h⟩ := h m hm
    exact exists_magicTraining texts h (ha m hm)
  have hb : ∀ m ∈ magic, ∃ base, m.baseLayer = .text base := by
    intro m hm
    obtain ⟨entries, h⟩ := h m hm
    exact h.isNamed
  obtain ⟨found, hfn⟩ := exists_mapM_eq_ok.mpr htr
  rw [magicTrainingSection_eq, hfn, ok_bind, exists_bind_pure, exists_wrapLayers]
  intro layer hl
  obtain ⟨name, hn⟩ := named layer hl
  obtain ⟨family, hf⟩ : ∃ family, magic.forLayer? (.text name) = .ok family := exists_forLayer hb
  rw [← hn] at hf
  cases family with
  | none =>
    refine ⟨none, by rw [trainingOf, hf]; rfl, fun _ _ hs => ?_⟩
    cases hs
  | some m =>
    have hmg := (forLayer?_eq_ok (hn ▸ hf)).1
    obtain ⟨f, ht⟩ := htr m hmg
    refine ⟨_, trainingOf_family single hfn hn hf ht, fun base ts hs key hk => ?_⟩
    obtain ⟨code, rfl⟩ := texts layer hl key hk
    obtain ⟨entries, _, htn⟩ := magicTraining_groups ht
    refine exists_wrapBinding.mpr (hr layer hl m hf (fun he => ?_) _ hk)
    rw [htn.eq_none_iff.mpr he] at hs
    cases hs

end Sections

def magicOf (settings : Settings) (s : Source) (start : Progress) : Result (List String) :=
  magicPart settings (withHomeRow settings.behaviors s.board.layoutSize start.table)
    (magicRefs (s.magic.getD [])) s

def magicTrainingOf (settings : Settings) (s : Source) (start : Progress) :
    Result (List String × Replacements) :=
  magicTrainingPart settings (withHomeRow settings.behaviors s.board.layoutSize start.table)
    (magicRefs (s.magic.getD [])) s

theorem exists_layerNodes (noCombos : s.combos = []) : (∃ nodes, layerNodes settings s start = .ok nodes) ↔
    (∃ texts, magicOf settings s start = .ok texts) ∧ (∃ texts, morphPart settings s = .ok texts) ∧
    ∃ training, magicTrainingOf settings s start = .ok training ∧
      ∀ layer ∈ s.layers, ∃ text, layerNode s.board.layoutSize training.2 s.magic layer = .ok text := by
  have hc : ∀ table, comboTrainingPart settings table s = .ok ([], []) := by
    intro table
    rw [comboTrainingPart, noCombos]
    rfl
  rw [layerNodes, behaviorSections_eq, hc, magicOf, magicTrainingOf]
  constructor
  · rintro ⟨nodes, hd⟩
    obtain ⟨sections, h, hl⟩ := bind_eq_ok.mp hd
    obtain ⟨magic, hm, h⟩ := bind_eq_ok.mp h
    obtain ⟨training, ht, h⟩ := bind_eq_ok.mp h
    rw [ok_bind] at h
    obtain ⟨morphs, hmr, h⟩ := bind_eq_ok.mp h
    obtain rfl := pure_eq_ok.mp h
    exact ⟨⟨magic, hm⟩, ⟨morphs, hmr⟩, training, ht, exists_mapM_eq_ok.mp ⟨nodes, hl⟩⟩
  · rintro ⟨⟨magic, hm⟩, ⟨morphs, hmr⟩, training, ht, he⟩
    obtain ⟨nodes, hl⟩ := exists_mapM_eq_ok.mpr he
    rw [hm, ok_bind, ht, ok_bind, ok_bind, hmr, ok_bind]
    exact ⟨nodes, hl⟩

theorem translated_of_magicPart (isMagic : s.magic = some magic) {texts : List String}
    (h : magicPart settings table refs s = .ok texts) :
    ∀ m ∈ magic, ∃ entries, Translated settings.keycodes refs m entries := by
  intro m hm
  rw [magicPart, isMagic, Option.getD_some, if_neg (by simpa using List.ne_nil_of_mem hm)] at h
  obtain ⟨text, h, -⟩ := map_eq_ok.mp h
  rw [magicSection, if_neg (by simpa using List.ne_nil_of_mem hm)] at h
  obtain ⟨nodes, hn, -⟩ := bind_eq_ok.mp h
  obtain ⟨lines, h⟩ := exists_mapM_eq_ok.mp ⟨nodes, hn⟩ m hm
  exact translated_of_magicKeyLines h

theorem exists_layerNode_untrained {config : Option MagicConfig} :
    (∃ text, layerNode size [] config layer = .ok text) ↔
      IsText layer.name ∧ ∀ key ∈ layer.keycodes, IsText key := by
  rw [exists_layerNode]
  constructor
  · rintro ⟨name, outs, h, ho, ht⟩
    obtain rfl := pure_eq_ok.mp ho
    exact ⟨⟨name, h⟩, ht⟩
  · rintro ⟨⟨name, h⟩, ht⟩
    exact ⟨name, layer.keycodes, h, rfl, ht⟩

theorem exists_layerNode_trained {r : Replacements} (ht : TextTables r)
    (hb : ∀ m ∈ magic, ∃ base, m.baseLayer = .text base) :
    (∃ text, layerNode size r (some magic) layer = .ok text) ↔
      IsText layer.name ∧ ∀ key ∈ layer.keycodes, IsText key := by
  rw [exists_layerNode]
  constructor
  · rintro ⟨name, outs, hn, ho, h⟩
    exact ⟨⟨name, hn⟩, (exists_trainedKeys ht (exists_forLayer hb)).mp ⟨outs, ho, h⟩⟩
  · rintro ⟨⟨name, hn⟩, h⟩
    obtain ⟨outs, ho, h⟩ := (exists_trainedKeys ht (exists_forLayer hb)).mpr h
    exact ⟨name, outs, hn, ho, h⟩

/-- Training keeps a file from being generated only by a home-row key whose tap cannot be read. -/
theorem generates_training_iff (training : settings.magicTraining) (hc : s.combos = [])
    (isMagic : s.magic = some magic) (hs : DistinctBases magic)
    (ha : ∀ m ∈ magic, AlternatesTranslate settings.keycodes m) :
    Generates settings s start ↔ Generates { settings with magicTraining := false } s start ∧
      TapsRead settings.keycodes magic s.layers := by
  rw [generates_iff hc, generates_iff hc, and_assoc]
  refine and_congr_right fun _ => ?_
  rw [exists_layerNodes hc, exists_layerNodes hc, and_assoc, and_assoc]
  refine and_congr_right fun hmd => and_congr_right fun _ => ?_
  obtain ⟨texts, hmd⟩ := hmd
  have ht := translated_of_magicPart isMagic hmd
  have hb : ∀ m ∈ magic, ∃ base, m.baseLayer = .text base := fun m h =>
    (ht m h).elim fun _ ht => ht.isNamed
  have hpl : (∃ made, magicTrainingOf { settings with magicTraining := false } s start = .ok made ∧
        ∀ layer ∈ s.layers, ∃ text, layerNode s.board.layoutSize made.2 s.magic layer = .ok text) ↔
      ∀ layer ∈ s.layers, IsText layer.name ∧ ∀ key ∈ layer.keycodes, IsText key := by
    have hn : magicTrainingOf { settings with magicTraining := false } s start = .ok ([], []) :=
      if_pos (by simp)
    rw [hn]
    constructor
    · rintro ⟨made, hm, he⟩ layer h
      obtain rfl := Except.ok.inj hm
      exact exists_layerNode_untrained.mp (he layer h)
    · exact fun he => ⟨_, rfl, fun layer h => exists_layerNode_untrained.mpr (he layer h)⟩
  rw [hpl, magicTrainingOf, magicTrainingPart, training]
  rw [isMagic, Option.getD_some] at ht ⊢
  by_cases hep : magic = []
  · subst hep
    constructor
    · rintro ⟨made, hm, he⟩
      obtain rfl := pure_eq_ok.mp hm
      refine ⟨fun layer h => exists_layerNode_untrained.mp (he layer h), fun layer _ m hf => ?_⟩
      obtain ⟨_, -, hf⟩ := bind_eq_ok.mp hf
      cases hf
    · rintro ⟨texts, -⟩
      exact ⟨_, rfl, fun layer h => exists_layerNode_untrained.mpr (texts layer h)⟩
  · rw [if_neg (by simpa using hep)]
    constructor
    · rintro ⟨part, hp, he⟩
      obtain ⟨made, hm, rfl⟩ := map_eq_ok.mp hp
      have texts := fun layer h =>
        (exists_layerNode_trained (textTables_of_made hm) hb).mp (he layer h)
      exact ⟨texts, tapsRead_of_made hs hm (fun layer h => (texts layer h).2) fun layer h => (texts layer h).1⟩
    · rintro ⟨texts, hr⟩
      obtain ⟨made, hm⟩ := exists_magicTrainingSection hs ht ha
        (fun layer h => (texts layer h).2) (fun layer h => (texts layer h).1) hr
      exact ⟨_, map_eq_ok.mpr ⟨made, hm, rfl⟩, fun layer h =>
        (exists_layerNode_trained (textTables_of_made hm) hb).mpr (texts layer h)⟩

end Files

end Keymap.Zmk
