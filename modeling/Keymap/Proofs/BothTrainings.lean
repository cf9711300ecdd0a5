import Keymap.Proofs.ComboTraining
import Keymap.Proofs.HomeRowTraining
import Mathlib.Data.List.Nodup

namespace Keymap.Zmk

open List

variable {names : List String} {code name : String} {second first : List TrainedFamily} {a b : Replacements}
  {seen : List String} {m : MagicMapping} {f : TrainedFamily} {family : Option MagicMapping}
  {wrapped : List (String × Wrapped)} {node : AdaptiveKey}

section Guards

variable {families : List TrainedFamily}

/-- The node that the families of a name have for a key, the last one if there are several. -/
def guardOf (families : List TrainedFamily) (name code : String) : Option AdaptiveKey :=
  (((families.filter fun f => f.1 == name).flatMap (·.2)).filter fun p =>
    p.2.binding.same (.text code)).getLast?.map (·.1)

theorem guardOf_append (first second : List TrainedFamily) (name code : String) :
    guardOf (first ++ second) name code = (guardOf second name code).or (guardOf first name code) := by
  rw [guardOf, filter_append, flatMap_append, filter_append, getLast?_append, Option.map_or]
  rfl

theorem mem_of_guardOf (found : guardOf families name code = some node) :
    ∃ f ∈ families, f.1 = name ∧ ∃ pair ∈ f.2, pair.2.binding = .text code ∧ pair.1 = node := by
  obtain ⟨pair, hl, hnd⟩ := Option.map_eq_some_iff.mp found
  obtain ⟨h, hb⟩ := mem_filter.mp (mem_of_getLast? hl)
  obtain ⟨f, hk, hf⟩ := mem_flatMap.mp h
  obtain ⟨hfm, hn⟩ := mem_filter.mp hk
  exact ⟨f, hfm, eq_of_beq hn, pair, hf, Document.eq_text_of_same hb, hnd⟩

theorem guardOf_eq_none (h : name ∉ families.map (·.1)) : guardOf families name code = none := by
  cases found : guardOf families name code with
  | none => rfl
  | some node =>
    obtain ⟨f, hf, hn, -⟩ := mem_of_guardOf found
    rw [← hn] at h
    exact absurd (mem_map_of_mem hf) h

theorem exists_guardOf (h : f ∈ families) (hn : f.1 = name) {pair : AdaptiveKey × Trained}
    (hf : pair ∈ f.2) (hb : pair.2.binding = .text code) : ∃ node, guardOf families name code = some node := by
  have hm : pair ∈ ((families.filter fun f => f.1 == name).flatMap (·.2)).filter fun p =>
      p.2.binding.same (.text code) := by
    refine mem_filter.mpr ⟨mem_flatMap.mpr ⟨f, mem_filter.mpr ⟨h, ?_⟩, hf⟩, ?_⟩
    · exact beq_iff_eq.mpr hn
    · rw [hb, same_text, beq_self_eq_true]
  rw [guardOf, getLast?_eq_some_getLast (ne_nil_of_mem hm)]
  exact ⟨_, rfl⟩

end Guards

section Tables

variable {families : List TrainedFamily} {r : Replacements}

def Named (families : List TrainedFamily) : Prop :=
  ∀ f ∈ families, ∀ pair ∈ f.2, pair.2.behavior = pair.1.name ∧ Text.startsWith pair.1.name "ak_" = true

theorem Named.append (hn : Named first) (named' : Named second) : Named (first ++ second) :=
  fun f h => (mem_append.mp h).elim (hn f) (named' f)

theorem Named.isHomeRow_eq (named : Named families) (found : guardOf families name code = some node) :
    isHomeRow ("&" ++ node.name) = false := by
  obtain ⟨f, h, -, pair, hf, -, rfl⟩ := mem_of_guardOf found
  obtain ⟨rest, hn⟩ := isPrefixOf_iff_prefix.mp (named f h pair hf).2
  have hc : ("&" ++ pair.1.name).toList = '&' :: 'a' :: 'k' :: '_' :: rest := by
    rw [String.toList_append, ← hn]
    rfl
  rw [isHomeRow, Text.startsWith, Text.startsWith, hc]
  rfl

/-- The tables of families: they refer to the guards of the families but for keys of the home row. -/
structure Shadows (families : List TrainedFamily) (r : Replacements) : Prop where
  names : r.map (·.1) = families.map (·.1)
  distinct : (families.map (·.1)).Nodup
  single : ∀ e ∈ r, Single e.2
  each : ∀ name code, isHomeRow code = false →
    entryIn r name code = (guardOf families name code).map fun node => "&" ++ node.name

theorem entryOf_family (hn : ∀ pair ∈ f.2, pair.2.behavior = pair.1.name) (code : String) :
    entryOf (replaceAllBy [] ((f.2.map (·.2)).map fun t => (t.binding, "&" ++ t.behavior))) code =
      (guardOf [f] f.1 code).map fun node => "&" ++ node.name := by
  have ht : (f.2.map (·.2)).map (fun t => (t.binding, "&" ++ t.behavior)) =
      f.2.map fun p => (p.2.binding, "&" ++ p.1.name) := by
    rw [map_map]
    exact map_congr_left fun pair h => by rw [Function.comp_apply, hn pair h]
  have ho : [f].filter (fun g => g.1 == f.1) = [f] := by
    rw [filter_cons, if_pos (beq_self_eq_true _), filter_nil]
  rw [ht, entryOf_replaceAllBy, filter_map, getLast?_map, Option.map_map, guardOf, ho,
    flatMap_singleton, Option.map_map]
  exact Option.or_none

theorem entryIn_replacementsOf (hn : Named families) (h : (families.map (·.1)).Nodup) (name code : String) :
    entryIn (replacementsOf (families.map fun f => (f.1, f.2.map (·.2)))) name code =
      (guardOf families name code).map fun node => "&" ++ node.name := by
  induction families with
  | nil => rfl
  | cons f rest ih =>
    obtain ⟨hnm, hn⟩ := forall_mem_cons.mp hn
    obtain ⟨hf, h⟩ := nodup_cons.mp h
    have ih := ih hn h
    rw [map_cons, replacementsOf, map_cons, entryIn_cons, ← replacementsOf, ih,
      ← singleton_append, guardOf_append]
    by_cases hh : f.1 = name
    · subst hh
      rw [if_pos rfl, guardOf_eq_none hf, Option.none_or]
      exact entryOf_family (fun pair hfm => (hnm pair hfm).1) code
    · have ho : name ∉ [f].map (·.1) := fun hm => hh (mem_singleton.mp hm).symm
      rw [if_neg hh, guardOf_eq_none ho, Option.or_none]

theorem shadows_replacementsOf (hn : Named families) (h : (families.map (·.1)).Nodup) :
    Shadows families (replacementsOf (families.map fun f => (f.1, f.2.map (·.2)))) where
  names := by
    rw [replacementsOf, map_map, map_map]
    rfl
  distinct := h
  single := by
    intro e hm
    obtain ⟨trained, -, rfl⟩ := mem_map.mp hm
    have he : Single [] := fun _ => Nat.zero_le 1
    exact he.replaceAllBy _
  each := fun name code _ => entryIn_replacementsOf hn h name code

theorem Shadows.withWrapped (h : Shadows families r)
    (hh : ∀ w ∈ wrapped, isHomeRow w.2.replaced ∧ w.1 ∈ families.map (·.1)) :
    Shadows families (withWrapped wrapped r) where
  names := by
    rw [names_withWrapped fun w hm => h.names ▸ (hh w hm).2, h.names]
  distinct := h.distinct
  single := single_withWrapped wrapped h.single
  each := by
    intro name code hp
    rw [entryIn_of_unwrapped, h.each name code hp]
    rintro w hm - rfl
    rw [(hh w hm).1] at hp
    cases hp

theorem Shadows.entryIn_merge (hl : Shadows first a) (h : Shadows second b) (hp : isHomeRow code = false) :
    entryIn (mergeReplacements a b) name code =
      (guardOf (first ++ second) name code).map fun node => "&" ++ node.name := by
  rw [Zmk.entryIn_merge (h.names ▸ h.distinct) h.single, hl.each name code hp,
    h.each name code hp, guardOf_append, Option.map_or]

end Tables

section Layers

variable {families : List TrainedFamily} {r : Replacements} {magic : MagicConfig}

/-- The node that stands for a key in the end, where the tables of some names are applied in turn. -/
def bound (families : List TrainedFamily) : List String → String → Option AdaptiveKey
  | [], _ => none
  | name :: names, code =>
    match guardOf families name code with
    | none => bound families names code
    | some node => some ((bound families names ("&" ++ node.name)).getD node)

def referredTo (node : Option AdaptiveKey) (code : String) : String :=
  (node.map fun node => "&" ++ node.name).getD code

theorem mem_of_bound (found : bound families names code = some node) : node ∈ nodesOf families := by
  induction names generalizing code with
  | nil => cases found
  | cons name names ih =>
    rw [bound] at found
    split at found
    · exact ih found
    · rename_i first hfr
      cases h : bound families names ("&" ++ first.name) with
      | some last =>
        rw [h, Option.getD_some] at found
        exact ih (h.trans found)
      | none =>
        rw [h] at found
        obtain ⟨f, hf, -, pair, hfm, -, rfl⟩ := mem_of_guardOf hfr
        exact Option.some.inj found ▸ mem_nodesOf hf hfm

theorem foldl_inTable (hn : Named families)
    (he : ∀ name code, isHomeRow code = false →
      entryIn r name code = (guardOf families name code).map fun node => "&" ++ node.name)
    (names : List String) (h : isHomeRow code = false) :
    names.foldl (fun code name => inTable r name code) code = referredTo (bound families names code) code := by
  induction names generalizing code with
  | nil => rfl
  | cons name names ih =>
    rw [foldl_cons, inTable_eq_entryIn, he name code h, bound]
    cases found : guardOf families name code with
    | none => exact ih h
    | some node =>
      refine (ih (hn.isHomeRow_eq found)).trans ?_
      dsimp only
      cases bound families names ("&" ++ node.name) <;> rfl

def trainersOf (families : List TrainedFamily) : Option MagicMapping → List String
  | some m => m.baseLayer.text?.toList
  | none => (families.map (·.1)).foldl (fun seen name => insertOnce name seen) []

theorem nodup_insertAll (h : seen.Nodup) :
    (names.foldl (fun seen name => insertOnce name seen) seen).Nodup := by
  induction names generalizing seen with
  | nil => exact h
  | cons first rest ih =>
    refine ih (show (insertOnce first seen).Nodup from ?_)
    unfold insertOnce
    split
    · exact h
    · rename_i ha
      rw [contains_iff_mem] at ha
      refine nodup_append.mpr ⟨h, pairwise_singleton _ _, fun old hm new hn hs => ?_⟩
      rw [hs, mem_singleton.mp hn] at hm
      exact ha hm

theorem foldl_insertOnce (hd : (seen ++ names).Nodup) :
    names.foldl (fun seen name => insertOnce name seen) seen = seen ++ names := by
  induction names generalizing seen with
  | nil => exact (append_nil seen).symm
  | cons first rest ih =>
    have h : first ∉ seen := by
      intro hm
      exact (nodup_append.mp hd).2.2 first hm first mem_cons_self rfl
    have ha : insertOnce first seen = seen ++ [first] := by
      rw [insertOnce, if_neg (by simpa using h)]
    rw [foldl_cons, ha, ih, append_assoc, singleton_append]
    rwa [append_assoc, singleton_append]

theorem foldl_tables (h : (r.map (·.1)).Nodup) (code : String) :
    (r.map (·.2)).foldl (fun code table => substitute table code) code =
      (r.map (·.1)).foldl (fun code name => inTable r name code) code := by
  rw [foldl_map, foldl_map]
  refine foldl_ext _ _ _ fun code e hm => ?_
  rw [inTable, lookup_of_mem h hm, Option.getD_some]

theorem rewritten_of_merge (left : Shadows first a) (right : Shadows second b)
    (named : Named (first ++ second)) (isFamily : magic.forLayer? (.text name) = .ok family) {keys outs : List Document}
    (h : trainedKeys (mergeReplacements a b) (some magic) name keys = .ok outs) :
    ∃ f, Rewritten f keys outs ∧ ∀ code, isHomeRow code = false →
      f code = referredTo (bound (first ++ second) (trainersOf (first ++ second) family) code) code := by
  have he : ∀ name code, isHomeRow code = false → entryIn (mergeReplacements a b) name code =
      (guardOf (first ++ second) name code).map fun node => "&" ++ node.name :=
    fun _ _ hp => left.entryIn_merge right hp
  cases family with
  | some m =>
    obtain ⟨-, base, hb⟩ := forLayer?_eq_ok isFamily
    refine ⟨_, rewritten_of_family isFamily hb h, fun code hp => ?_⟩
    rw [trainersOf, hb]
    exact foldl_inTable named he [base] hp
  | none =>
    have old : (first.map (·.1)).foldl (fun seen name => insertOnce name seen) [] = first.map (·.1) :=
      foldl_insertOnce left.distinct
    have names : (mergeReplacements a b).map (·.1) = trainersOf (first ++ second) none := by
      rw [names_merge, left.names, right.names, trainersOf, map_append, foldl_append, old]
    have hd : ((mergeReplacements a b).map (·.1)).Nodup := by
      rw [names]
      exact nodup_insertAll nodup_nil
    refine ⟨fun code => ((mergeReplacements a b).map (·.2)).foldl (fun code table => substitute table code) code,
      ?_, fun code hp => ?_⟩
    · rw [trainedKeys] at h
      split at h
      · rename_i hep
        obtain rfl := pure_eq_ok.mp h
        rw [isEmpty_iff.mp hep]
        exact .refl keys
      · obtain ⟨tables, ht, h⟩ := bind_eq_ok.mp h
        rw [applicable, isFamily, ok_bind] at ht
        obtain rfl := pure_eq_ok.mp ht
        exact foldlM_replaceBindings h
    · refine (foldl_tables hd code).trans ?_
      rw [names]
      exact foldl_inTable named he _ hp

end Layers

section Sections

variable {keycodes : Entries} {table : BehaviorTable} {refs : MacroRefs} {magic : MagicConfig}
  {combos : List Combo} {layers : List CompiledLayer} {found : List (Option TrainedFamily)} {s : Source}
  {settings : Settings} {made : List String × Replacements}

theorem startsWith_trainingName {start : String} (h : Text.startsWith start "ak_") (family key : String) :
    Text.startsWith (trainingName start family key) "ak_" := by
  obtain ⟨rest, hs⟩ := isPrefixOf_iff_prefix.mp h
  refine isPrefixOf_iff_prefix.mpr ⟨rest ++ (family ++ "_" ++ key).toList, ?_⟩
  rw [← append_assoc, hs, trainingName]
  simp only [String.toList_append, append_assoc]

theorem nodup_trainedOf (h : DistinctBases magic)
    (related : Forall₂ (fun m f => magicTraining keycodes refs layers m = .ok f) magic found) :
    ((trainedOf found).map (·.1)).Nodup := by
  induction related with
  | nil => exact .nil
  | @cons m y magic found hh ht ih =>
    obtain ⟨ha, h⟩ := pairwise_cons.mp h
    cases y with
    | none => exact ih h
    | some f =>
      obtain ⟨_, _, htr⟩ := magicTraining_groups hh
      refine nodup_cons.mpr ⟨fun there => ?_, ih h⟩
      obtain ⟨other, hr, hs⟩ := exists_base_of_trainedOf ht there
      exact baseLayer_ne (ha other hr) (htr.isName f rfl) hs

theorem named_of_magicTraining (isFound : magic.mapM (magicTraining keycodes refs layers) = .ok found) :
    Named (found.filterMap id) := by
  intro f hm pair hf
  obtain ⟨m, -, entries, layer, h⟩ := exists_groups (mapM_eq_ok.mp isFound) hm
  obtain ⟨hn, ht⟩ := h.pair_eq hf
  rw [ht, hn]
  exact ⟨rfl, startsWith_trainingName (by decide) _ _⟩

/-- What magic training gave: the keys of the base layers, and tables that refer to them. -/
structure MagicMade (keycodes : Entries) (refs : MacroRefs) (magic : MagicConfig) (layers : List CompiledLayer)
    (found : List (Option TrainedFamily)) (made : List String × Replacements) : Prop where
  isFound : magic.mapM (magicTraining keycodes refs layers) = .ok found
  isText : magic ≠ [] → ∃ wrappers, made.1 = [magicTrainingText (nodesOf (found.filterMap id)) wrappers]
  shadows : Shadows (found.filterMap id) made.2

theorem Made.shadows (made : Made keycodes table refs magic layers found wrapped)
    (single : DistinctBases magic) :
    Shadows (found.filterMap id) (withWrapped wrapped (replacementsOf (trainedOf found))) := by
  have h := nodup_trainedOf single (mapM_eq_ok.mp made.isFound)
  rw [trainedOf, map_map] at h
  refine (shadows_replacementsOf (named_of_magicTraining made.isFound) h).withWrapped fun w hm => ?_
  obtain ⟨hh, layer, -, trained, hfm⟩ := (wrapLayers_eq_ok made.isWrapped).2 w hm
  obtain ⟨f, hf, hs⟩ := mem_map.mp (mem_of_lookup (lookup_of_trainingOf hfm))
  obtain ⟨hn, -⟩ := Prod.mk.inj hs
  exact ⟨hh, hn ▸ mem_map_of_mem hf⟩

theorem shadows_nil : Shadows [] [] where
  names := rfl
  distinct := .nil
  single := fun _ h => nomatch h
  each := fun _ _ _ => rfl

theorem magicMade_of_part (ht : settings.magicTraining) (hm : s.magic = some magic)
    (hs : DistinctBases magic) (h : magicTrainingPart settings table refs s = .ok made) :
    ∃ found, MagicMade settings.keycodes refs magic s.layers found made := by
  rw [magicTrainingPart, ht, hm, Option.getD_some] at h
  by_cases he : magic = []
  · subst he
    obtain rfl := pure_eq_ok.mp h
    exact ⟨[], rfl, fun hp => absurd rfl hp, shadows_nil⟩
  · rw [if_neg (by simpa using he)] at h
    obtain ⟨result, hr, rfl⟩ := map_eq_ok.mp h
    obtain ⟨found, wrapped, made, rfl⟩ := made_of_section hr
    exact ⟨found, made.isFound, fun _ => ⟨_, rfl⟩, made.shadows hs⟩

def comboTrainingText (nodes : List AdaptiveKey) (wrappers : List HoldTap) : String :=
  trainingSection "Combo training behaviors: punish sequential typing of combo output bigrams" "" nodes wrappers

theorem isEmpty_comboTrainingText (nodes : List AdaptiveKey) (wrappers : List HoldTap) :
    (comboTrainingText nodes wrappers).isEmpty = false := by
  rw [comboTrainingText, trainingSection, append_assoc, append_assoc, Text.unlines, cons_append,
    cons_append, String.intercalate_cons_cons]
  simp

/-- What combo training gave: the keys of the layers, and tables that refer to them. -/
structure CombosMade (keycodes : Entries) (combos : List Combo) (layers : List CompiledLayer)
    (families : List TrainedFamily) (made : List String × Replacements) : Prop where
  isFamilies : comboFamilies keycodes combos layers = .ok families
  isText : families ≠ [] → ∃ wrappers, made.1 = [comboTrainingText (nodesOf families) wrappers]
  shadows : Shadows families made.2

theorem CombosTrained.named {families : List TrainedFamily}
    (ht : CombosTrained keycodes combos layers families) : Named families := by
  intro f hm pair h
  refine ⟨ht.behavior_eq hm h, ?_⟩
  rw [ht.name_eq hm h]
  exact startsWith_trainingName (by decide) _ _

theorem combosMade_of_section {result : String × Replacements}
    (h : comboTrainingSection keycodes table combos layers = .ok result) :
    ∃ families, CombosMade keycodes combos layers families (if result.1.isEmpty then [] else [result.1], result.2) := by
  obtain ⟨bigrams, hb, h⟩ := bind_eq_ok.mp h
  split at h
  · rename_i he
    obtain rfl := pure_eq_ok.mp h
    refine ⟨[], ?_, fun hp => absurd rfl hp, shadows_nil⟩
    rw [comboFamilies, hb, isEmpty_iff.mp he]
    rfl
  · obtain ⟨families, hf, h⟩ := bind_eq_ok.mp h
    obtain ⟨wrapped, hw, h⟩ := bind_eq_ok.mp h
    obtain rfl := pure_eq_ok.mp h
    have hf : comboFamilies keycodes combos layers = .ok families := bind_eq_ok.mpr ⟨bigrams, hb, hf⟩
    have htr := combosTrained_of_families hf
    refine ⟨families, hf, fun _ => ⟨distinctNodes wrapped, ?_⟩, ?_⟩
    · exact if_neg (Bool.eq_false_iff.mp (isEmpty_comboTrainingText _ _))
    · refine (shadows_replacementsOf htr.named htr.distinct).withWrapped fun w hm => ?_
      obtain ⟨hh, layer, -, ts, ho⟩ := (wrapLayers_eq_ok hw).2 w hm
      obtain ⟨field, -, ho⟩ := bind_eq_ok.mp ho
      obtain ⟨name, -, ht⟩ := Option.bind_eq_some_iff.mp (pure_eq_ok.mp ho)
      obtain ⟨ts', ht, hs⟩ := Option.map_eq_some_iff.mp ht
      obtain ⟨f, hfm, hfl⟩ := mem_map.mp (mem_of_lookup ht)
      obtain ⟨hn, -⟩ := Prod.mk.inj (hfl.trans hs)
      exact ⟨hh, hn ▸ mem_map_of_mem hfm⟩

theorem combosMade_of_part (ht : settings.comboTraining) (h : comboTrainingPart settings table s = .ok made) :
    ∃ families, CombosMade settings.keycodes s.combos s.layers families made := by
  rw [comboTrainingPart, ht] at h
  split at h
  · rename_i he
    obtain rfl := pure_eq_ok.mp h
    rw [Bool.not_true, Bool.or_false, List.isEmpty_iff] at he
    rw [he]
    exact ⟨[], rfl, fun hp => absurd rfl hp, shadows_nil⟩
  · obtain ⟨result, hr, rfl⟩ := map_eq_ok.mp h
    exact combosMade_of_section hr

end Sections

section Keys

variable (keycodes : Entries) (refs : MacroRefs) (combos : List Combo) (layers : List CompiledLayer)

def MagicGuards (m : MagicMapping) (code key : String) : Prop :=
  ∃ p ∈ predecessors keycodes refs m code, BareOf keycodes p.toDocument key

/-- What a key of a layer is to be guarded against: its predecessors in the family of the layer, and the firsts
of the bigrams that it completes on the layer. -/
def MustGuard (family : Option MagicMapping) (name code key : String) : Prop :=
  (∃ m, family = some m ∧ MagicGuards keycodes refs m code key) ∨ ComboGuards keycodes combos layers name code key

/-- A reference to nodes all of which have a key among their triggers. -/
def GuardedBy (nodes : List AdaptiveKey) (out key : String) : Prop :=
  ∃ name, out = "&" ++ name ∧ (∃ node ∈ nodes, node.name = name) ∧
    ∀ node ∈ nodes, node.name = name → HasTrigger node key

/-- The trainings of a key add up: what stands for it guards against all that it is to be guarded against. -/
def AddsUp (nodes : List AdaptiveKey) (family : Option MagicMapping) (name code out : String) : Prop :=
  ∀ key, MustGuard keycodes refs combos layers family name code key → GuardedBy nodes out key

structure TrainedByBoth (families : List TrainedFamily) (family : Option MagicMapping) (name code out : String) :
    Prop where
  /-- They add up if the one node that is bound in the end, and all nodes of its name, have all triggers. -/
  adds_up_iff : AddsUp keycodes refs combos layers (nodesOf families) family name code out ↔
    ∀ key, MustGuard keycodes refs combos layers family name code key →
      ∃ node, bound families (trainersOf families family) code = some node ∧
        ∀ other ∈ nodesOf families, other.name = node.name → HasTrigger other key
  /-- A key that its base layer trains is guarded against the firsts of bigrams on the base layer, and against
  its predecessors only if it completes no bigram there. -/
  guarded_iff : ∀ m base, family = some m → m.baseLayer = .text base →
    ((nodesOf families).map (·.name)).Nodup → TypeTexts combos →
    predecessors keycodes refs m code ≠ [] ∨ ComboTrains keycodes combos layers base code →
    ∀ key, GuardedBy (nodesOf families) out key ↔ ComboGuards keycodes combos layers base code key ∨
      ¬ ComboTrains keycodes combos layers base code ∧ MagicGuards keycodes refs m code key
  /-- On the base layer itself they add up if the key completes no bigram, or if its predecessors are all among
  the firsts of the bigrams. -/
  adds_up_base_iff : ∀ m, family = some m → m.baseLayer = .text name →
    ((nodesOf families).map (·.name)).Nodup → TypeTexts combos →
    (AddsUp keycodes refs combos layers (nodesOf families) family name code out ↔
      (ComboTrains keycodes combos layers name code → ∀ key, MagicGuards keycodes refs m code key →
        ComboGuards keycodes combos layers name code key))

variable {keycodes refs combos layers} {families : List TrainedFamily}

theorem guardedBy_iff (named : Named families) (names : List String)
    (plain : Text.startsWith code "&kp ") (key : String) :
    GuardedBy (nodesOf families) (referredTo (bound families names code) code) key ↔
      ∃ node, bound families names code = some node ∧
        ∀ other ∈ nodesOf families, other.name = node.name → HasTrigger other key := by
  cases found : bound families names code with
  | none =>
    refine ⟨fun hg => ?_, fun ⟨node, hs, _⟩ => nomatch hs⟩
    -- A key is not a reference to a node.
    obtain ⟨_, hc, ⟨node, hm, rfl⟩, -⟩ := hg
    obtain ⟨f, hf, hfm⟩ := mem_flatMap.mp hm
    obtain ⟨pair, hp, rfl⟩ := mem_map.mp hfm
    obtain ⟨rest, hn⟩ := isPrefixOf_iff_prefix.mp (named f hf pair hp).2
    obtain ⟨rest', hk⟩ := isPrefixOf_iff_prefix.mp plain
    have hsm := congrArg (fun s => s.toList[1]?) (show code = "&" ++ pair.1.name from hc)
    simp [← hk, ← hn] at hsm
  | some node =>
    constructor
    · rintro ⟨name, hn, -, h⟩
      obtain rfl : node.name = name := by simpa [referredTo, ← String.toList_inj] using hn
      exact ⟨node, rfl, h⟩
    · rintro ⟨_, hs, h⟩
      cases hs
      exact ⟨node.name, rfl, ⟨node, mem_of_bound found, rfl⟩, h⟩

theorem eq_of_name_eq (h : ((nodesOf families).map (·.name)).Nodup) {other : AdaptiveKey}
    (hm : node ∈ nodesOf families) (member' : other ∈ nodesOf families) (hs : node.name = other.name) :
    node = other :=
  inj_on_of_nodup_map h hm member' hs

theorem guardedBy_guardOf_iff (hn : Named families) (hd : ((nodesOf families).map (·.name)).Nodup)
    (base : String) (hp : Text.startsWith code "&kp ") (key : String) :
    GuardedBy (nodesOf families) (referredTo (bound families [base] code) code) key ↔
      ∃ node, guardOf families base code = some node ∧ HasTrigger node key := by
  have ho : bound families [base] code = guardOf families base code := by
    rw [bound]
    cases guardOf families base code <;> rfl
  rw [guardedBy_iff hn [base] hp, ho]
  refine exists_congr fun node => and_congr_right fun found => ?_
  have h : node ∈ nodesOf families := mem_of_bound (ho.trans found)
  refine ⟨fun he => he node h rfl, fun ht other hm hs => ?_⟩
  rwa [eq_of_name_eq hd hm h hs]

theorem Guards.hasTrigger_iff (hg : Guards keycodes refs m code node) (key : String) :
    HasTrigger node key ↔ MagicGuards keycodes refs m code key := by
  obtain ⟨keys, strict, limit, hks, ht⟩ := hg.triggers
  have hr := mapM_eq_ok.mp hks
  rw [HasTrigger, ht]
  constructor
  · rintro ⟨trigger, h, hk⟩
    rw [mem_singleton.mp h] at hk
    exact forall₂_mem_right hr hk
  · rintro ⟨p, h, hb⟩
    obtain ⟨other, hky, hd⟩ := forall₂_mem_right hr.flip h
    obtain rfl := Except.ok.inj (hd.symm.trans hb)
    exact ⟨_, mem_singleton_self _, hky⟩

section Bases

variable {magic : MagicConfig} {found : List (Option TrainedFamily)} {base : String}

theorem name_of_guardOf (isFound : magic.mapM (magicTraining keycodes refs layers) = .ok found)
    (isBase : m.baseLayer = .text base) (hg : guardOf (found.filterMap id) base code = some node) :
    node.name = guardName m code := by
  obtain ⟨f, hf, hn, pair, hfm, hb, rfl⟩ := mem_of_guardOf hg
  obtain ⟨m', -, entries, layer, h⟩ := exists_groups (mapM_eq_ok.mp isFound) hf
  obtain ⟨hnd, ht⟩ := h.pair_eq hfm
  have hs : m'.baseLayer = m.baseLayer := by rw [h.isName f rfl, hn, isBase]
  rw [ht] at hb
  rw [hnd, Document.text.inj hb, guardName, guardName, MagicMapping.title, MagicMapping.title, hs]

theorem exists_guards (isFound : magic.mapM (magicTraining keycodes (magicRefs magic) layers) = .ok found)
    (inMagic : m ∈ magic) (hb : m.baseLayer = .text base) (hp : Text.startsWith code "&m" = false)
    (present : predecessors keycodes (magicRefs magic) m code ≠ []) :
    ∃ node ∈ nodesOf (found.filterMap id), Guards keycodes (magicRefs magic) m code node ∧
      node.name = guardName m code ∧ ∃ other, guardOf (found.filterMap id) base code = some other := by
  obtain ⟨f, hf, hd⟩ := forall₂_mem_right (mapM_eq_ok.mp isFound).flip inMagic
  obtain ⟨entries, layer, hg⟩ := magicTraining_groups hd
  obtain ⟨pair, h, hbn, hgr⟩ := hg.exists_guard hp present
  obtain ⟨hn, ht⟩ := hg.pair_eq h
  rw [hbn] at hn ht
  cases f with
  | none => cases h
  | some f =>
    have hm : f ∈ found.filterMap id := mem_filterMap.mpr ⟨_, hf, rfl⟩
    have hnm : f.1 = base := Document.text.inj ((hg.isName f rfl).symm.trans hb)
    exact ⟨pair.1, mem_nodesOf hm h, hgr, hn, exists_guardOf hm hnm h (by rw [ht]; rfl)⟩

/-- A key is guarded against the firsts of the bigrams that it completes on the base layer, or against its
predecessors if there are none. -/
theorem guardedBy_base_iff (isFound : magic.mapM (magicTraining keycodes (magicRefs magic) layers) = .ok found)
    (trained : CombosTrained keycodes combos layers second) (inMagic : m ∈ magic)
    (isBase : m.baseLayer = .text base) (hp : Text.startsWith code "&kp ")
    (hd : ((nodesOf (found.filterMap id ++ second)).map (·.name)).Nodup) (types : TypeTexts combos)
    (there : predecessors keycodes (magicRefs magic) m code ≠ [] ∨ ComboTrains keycodes combos layers base code)
    (key : String) : GuardedBy (nodesOf (found.filterMap id ++ second))
        (referredTo (bound (found.filterMap id ++ second) [base] code) code) key ↔
      ComboGuards keycodes combos layers base code key ∨
        ¬ ComboTrains keycodes combos layers base code ∧ MagicGuards keycodes (magicRefs magic) m code key := by
  rw [guardedBy_guardOf_iff ((named_of_magicTraining isFound).append trained.named) hd base hp, guardOf_append]
  have hsc : ∀ f ∈ second, ∀ pair ∈ f.2, pair.1 ∈ nodesOf (found.filterMap id ++ second) :=
    fun f h pair hf => mem_nodesOf (mem_append_right _ h) hf
  by_cases htn : ComboTrains keycodes combos layers base code
  · rw [or_iff_left fun hbt => hbt.1 htn]
    have hnm : ∀ f ∈ second, f.1 = base → ∀ pair ∈ f.2, pair.2.binding = .text code →
        pair.1.name = comboGuardName base code := by
      rintro f h rfl pair hf hb
      rw [trained.name_eq h hf, hb]
      rfl
    obtain ⟨first, letter, htd, hc⟩ := htn
    obtain ⟨f, h, hfm, pair, hf, hb, -⟩ := trained.exists_pair types htd hc
    obtain ⟨node, hn⟩ := exists_guardOf h hfm hf hb
    rw [hn, Option.some_or]
    obtain ⟨f, h, hfm, pair, hf, hb, rfl⟩ := mem_of_guardOf hn
    constructor
    · rintro ⟨_, hs, ht⟩
      cases hs
      exact hfm ▸ trained.guards h hf types hb ht
    · rintro ⟨first', letter', hta, hcd, hbr⟩
      obtain ⟨f', hm, hfy, pair', hfl, hbn, ht⟩ := trained.exists_pair types hta hcd
      have hsm : pair'.1 = pair.1 := by
        refine eq_of_name_eq hd (hsc f' hm pair' hfl) (hsc f h pair hf) ?_
        rw [hnm f' hm hfy pair' hfl hbn, hnm f h hfm pair hf hb]
      exact ⟨pair.1, rfl, hsm ▸ ht key hbr⟩
  · have hgd : guardOf second base code = none := by
      cases hgr : guardOf second base code with
      | none => rfl
      | some node =>
        obtain ⟨f, h, rfl, pair, hf, hb, -⟩ := mem_of_guardOf hgr
        exact absurd (trained.trains h hf hb) htn
    have hng : ¬ ComboGuards keycodes combos layers base code key := by
      rintro ⟨first, letter, htd, hc, -⟩
      exact htn ⟨first, letter, htd, hc⟩
    rw [hgd, Option.none_or, or_iff_right hng, and_iff_right htn]
    have hnt : Text.startsWith code "&m" = false := by
      obtain ⟨rest, hc⟩ := isPrefixOf_iff_prefix.mp hp
      rw [Text.startsWith, ← hc]
      rfl
    obtain ⟨guard, hfr, hg, hnm, node, hn⟩ :=
      exists_guards isFound inMagic isBase hnt (there.resolve_right htn)
    have hnd : ∀ node ∈ nodesOf (found.filterMap id), node ∈ nodesOf (found.filterMap id ++ second) := by
      intro node h
      rw [nodesOf, flatMap_append]
      exact mem_append_left _ h
    have h : node ∈ nodesOf (found.filterMap id) := by
      obtain ⟨f, h, -, pair, hf, -, rfl⟩ := mem_of_guardOf hn
      exact mem_nodesOf h hf
    obtain rfl : node = guard := by
      refine eq_of_name_eq hd (hnd node h) (hnd guard hfr) ?_
      rw [name_of_guardOf isFound isBase hn, hnm]
    rw [hn, ← hg.hasTrigger_iff]
    constructor
    · rintro ⟨_, hs, ht⟩
      exact Option.some.inj hs ▸ ht
    · exact fun ht => ⟨node, rfl, ht⟩

end Bases

end Keys

section Keymaps

variable {settings : Settings} {s : Source} {magic : MagicConfig} {combos : List Combo}
  {layers : List CompiledLayer} {keycodes : Entries}

def BothTrainedLayer (keycodes : Entries) (refs : MacroRefs) (magic : MagicConfig) (combos : List Combo)
    (layers : List CompiledLayer) (families : List TrainedFamily) (size : LayoutSize) (layer : CompiledLayer)
    (text : String) : Prop :=
  ∃ name family outs body, layer.name = .text name ∧ magic.forLayer? (.text name) = .ok family ∧
    bindingsText size outs = .ok body ∧ text = layerText name body ∧
    List.Forall₂ (fun key out => ∀ code, key = .text code → Text.startsWith code "&kp " = true →
      ∃ trained, out = .text trained ∧ TrainedByBoth keycodes refs combos layers families family name code trained)
      layer.keycodes outs

theorem isHomeRow_of_plain (hp : Text.startsWith code "&kp ") : isHomeRow code = false := by
  obtain ⟨rest, h⟩ := isPrefixOf_iff_prefix.mp hp
  rw [isHomeRow, Text.startsWith, Text.startsWith, ← h]
  rfl

theorem addsUp_iff_of_guarded {refs : MacroRefs} {nodes : List AdaptiveKey} {out : String}
    (hg : predecessors keycodes refs m code ≠ [] ∨ ComboTrains keycodes combos layers name code →
      ∀ key, GuardedBy nodes out key ↔ ComboGuards keycodes combos layers name code key ∨
        ¬ ComboTrains keycodes combos layers name code ∧ MagicGuards keycodes refs m code key) :
    AddsUp keycodes refs combos layers nodes (some m) name code out ↔
      (ComboTrains keycodes combos layers name code → ∀ key, MagicGuards keycodes refs m code key →
        ComboGuards keycodes combos layers name code key) := by
  constructor
  · intro ha ht key h
    have hgr := ha key (.inl ⟨m, rfl, h⟩)
    exact ((hg (.inr ht) key).mp hgr).resolve_right fun hb => hb.1 ht
  · rintro hw key (⟨_, hs, h⟩ | hf)
    · cases hs
      have hp : predecessors keycodes refs m code ≠ [] := h.elim fun p hb => ne_nil_of_mem hb.1
      refine (hg (.inl hp) key).mpr ?_
      by_cases ht : ComboTrains keycodes combos layers name code
      · exact .inl (hw ht key h)
      · exact .inr ⟨ht, h⟩
    · obtain ⟨first, second, htr, hc, -⟩ := id hf
      exact (hg (.inr ⟨first, second, htr, hc⟩) key).mpr (.inl hf)

theorem trainedByBoth_of_bound {found : List (Option TrainedFamily)}
    (hf : magic.mapM (magicTraining keycodes (magicRefs magic) layers) = .ok found)
    (ht : CombosTrained keycodes combos layers second)
    (isFamily : magic.forLayer? (.text name) = .ok family) (hp : Text.startsWith code "&kp ") :
    let families := found.filterMap id ++ second
    TrainedByBoth keycodes (magicRefs magic) combos layers families family name code
      (referredTo (bound families (trainersOf families family) code) code) := by
  intro families
  have hn : Named families := (named_of_magicTraining hf).append ht.named
  refine ⟨forall₂_congr fun key _ => guardedBy_iff hn _ hp key, ?_, ?_⟩
  · rintro m base rfl h hd hty there key
    rw [trainersOf, h]
    exact guardedBy_base_iff hf ht (forLayer?_eq_ok isFamily).1 h hp hd hty there key
  · rintro m rfl h hd hty
    rw [trainersOf, h]
    exact addsUp_iff_of_guarded (guardedBy_base_iff hf ht (forLayer?_eq_ok isFamily).1 h hp hd hty)

/-- In a keymap that both trainings were applied to, a key is guarded by one of them only. -/
theorem trainings_add_up_iff (magicOn : settings.magicTraining = true) (comboOn : settings.comboTraining = true)
    (isMagic : s.magic = some magic) (single : DistinctBases magic) {start : Progress} {text : String}
    (done : ((keymapFile settings s).run.run start).1 = .ok text) :
    ∃ parts : FileParts settings s start, parts.text = text ∧ ∃ found second,
      magic.mapM (magicTraining settings.keycodes (magicRefs magic) s.layers) = .ok found ∧
      comboFamilies settings.keycodes s.combos s.layers = .ok second ∧ (magic ≠ [] → ∃ wrappers,
        parts.sections.training.1 = [magicTrainingText (nodesOf (found.filterMap id)) wrappers]) ∧
      (second ≠ [] → ∃ wrappers, parts.sections.combo.1 = [comboTrainingText (nodesOf second) wrappers]) ∧
      List.Forall₂ (BothTrainedLayer settings.keycodes (magicRefs magic) magic s.combos s.layers
        (found.filterMap id ++ second) s.board.layoutSize) s.layers parts.layers := by
  obtain ⟨parts, isText⟩ := keymapFile_parts done
  obtain ⟨found, magicMade⟩ := magicMade_of_part magicOn isMagic single (parts.isTraining isMagic)
  obtain ⟨second, combosMade⟩ := combosMade_of_part comboOn parts.sections.isCombo
  have trained := combosTrained_of_families combosMade.isFamilies
  refine ⟨parts, isText, found, second, magicMade.isFound, combosMade.isFamilies, magicMade.isText,
    combosMade.isText, ?_⟩
  have named := (named_of_magicTraining magicMade.isFound).append trained.named
  have bases : ∀ m ∈ magic, ∃ base, m.baseLayer = .text base := fun m member =>
    (translated_of_magicPart isMagic parts.sections.isMagic m member).elim fun _ translated => translated.isNamed
  have isLayers : List.Forall₂ (fun layer text =>
      layerNode s.board.layoutSize parts.sections.replacements (some magic) layer = .ok text)
      s.layers parts.layers := by
    rw [← isMagic]
    exact mapM_eq_ok.mp parts.isLayers
  refine isLayers.imp fun layer text one => ?_
  obtain ⟨name, outs, body, isName, isOuts, isBody, isText⟩ := layerNode_eq_ok one
  obtain ⟨family, isFamily⟩ : ∃ family, magic.forLayer? (.text name) = .ok family := exists_forLayer bases
  obtain ⟨f, rewritten, each⟩ := rewritten_of_merge magicMade.shadows combosMade.shadows named isFamily isOuts
  refine ⟨name, family, outs, body, isName, isFamily, isBody, isText, rewritten.imp fun key out one => ?_⟩
  rintro code isCode plain
  refine ⟨f code, one code isCode, ?_⟩
  rw [each code (isHomeRow_of_plain plain)]
  exact trainedByBoth_of_bound magicMade.isFound trained isFamily plain

end Keymaps

def letterMapping : MagicMapping :=
  ⟨"BASE_NIGHT", .whole 150, .record [("A", "E")], "REPEAT"⟩

def letterCombo : Combo :=
  { name := "he", description := "he", positions := .list [.whole 1, .whole 2], action := "he",
    macroText := "he", layers := .list ["BASE_NIGHT"], training := .flag true }

def bothSettings : Settings where
  keycodes := [("A", .record [("zmk", "&kp A")]), ("E", .record [("zmk", "&kp E")]),
    ("H", .record [("zmk", "&kp H")])]
  magicTraining := true

def bothSource : Source where
  board := { id := "both", name := "Both", firmware := .zmk }
  layers := [⟨"BASE_NIGHT", ["&kp E"]⟩]
  combos := [letterCombo]
  magic := some [letterMapping]

/-- The key must be guarded against both other keys, and what stands for it guards against one. -/
theorem combo_guard_hides_magic_guard :
    let keycodes := bothSettings.keycodes
    let refs := magicRefs [letterMapping]
    ∃ parts : FileParts bothSettings bothSource (.start bothSettings none), ∃ found second wrappers wrappers' out body,
      parts.sections.training.1 = [magicTrainingText (nodesOf found) wrappers] ∧
      parts.sections.combo.1 = [comboTrainingText (nodesOf second) wrappers'] ∧
      parts.layers = [layerText "BASE_NIGHT" body] ∧ bindingsText .split36 [.text out] = .ok body ∧
      (∀ key ∈ ["A", "H"], MustGuard keycodes refs [letterCombo] bothSource.layers (some letterMapping) "BASE_NIGHT"
        "&kp E" key) ∧
      GuardedBy (nodesOf (found ++ second)) out "H" ∧ ¬ GuardedBy (nodesOf (found ++ second)) out "A" := by
  intro keycodes refs
  obtain ⟨text, done⟩ : ∃ text, ((keymapFile bothSettings bothSource).run.run (.start bothSettings none)).1 =
      .ok text := exists_eq_ok (by decide +kernel)
  obtain ⟨parts, -, found, second, isFound, isSecond, isMagicText, isComboText, layers⟩ :=
    trainings_add_up_iff rfl rfl rfl (by decide) done
  obtain ⟨_, _, layer, ⟨⟩, isLayers⟩ := List.forall₂_cons_left_iff.mp layers
  obtain ⟨name, family, outs, body, isName, isFamily, isBody, rfl, keys⟩ := layer
  obtain rfl : "BASE_NIGHT" = name := Document.text.inj isName
  obtain rfl : some letterMapping = family :=
    Except.ok.inj ((show _ = Except.ok (some letterMapping) from rfl).symm.trans isFamily)
  obtain ⟨_, _, key, ⟨⟩, rfl⟩ := List.forall₂_cons_left_iff.mp keys
  obtain ⟨out, rfl, trained⟩ := key "&kp E" rfl (by decide)
  have magicNames : (nodesOf (found.filterMap id)).map (·.name) = ["ak_train_night_e"] := by
    have names : ([letterMapping].mapM (magicTraining keycodes refs bothSource.layers)).toOption.map
        (fun found => (nodesOf (found.filterMap id)).map (·.name)) = some ["ak_train_night_e"] := by decide +kernel
    rw [isFound] at names
    exact Option.some.inj names
  have comboNames : (nodesOf second).map (·.name) = ["ak_combo_train_night_e"] := by
    have names : (comboFamilies keycodes bothSource.combos bothSource.layers).toOption.map
        (fun second => (nodesOf second).map (·.name)) = some ["ak_combo_train_night_e"] := by decide +kernel
    rw [isSecond] at names
    exact Option.some.inj names
  have distinct : ((nodesOf (found.filterMap id ++ second)).map (·.name)).Nodup := by
    rw [nodesOf, List.flatMap_append, List.map_append, ← nodesOf, ← nodesOf, magicNames, comboNames]
    decide
  have isBigram : letterCombo.bigram? = .ok (some ("h", "e")) := rfl
  have isTrained : TrainedOn [letterCombo] bothSource.layers "BASE_NIGHT" "h" "e" :=
    ⟨letterCombo, .head _, isBigram, _, rfl, .head _⟩
  have trains : ComboTrains keycodes [letterCombo] bothSource.layers "BASE_NIGHT" "&kp E" :=
    ⟨"h", "e", isTrained, rfl⟩
  have guardsH : ComboGuards keycodes [letterCombo] bothSource.layers "BASE_NIGHT" "&kp E" "H" :=
    ⟨"h", "e", isTrained, rfl, rfl⟩
  have guarded := trained.guarded_iff letterMapping "BASE_NIGHT" rfl rfl distinct
    (fun combo member => .inr ⟨"he", by rw [List.mem_singleton.mp member]; rfl⟩) (.inr trains)
  obtain ⟨wrappers, isMagicText⟩ := isMagicText (by simp)
  obtain ⟨wrappers', isComboText⟩ := isComboText (by rintro rfl; cases comboNames)
  refine ⟨parts, found.filterMap id, second, wrappers, wrappers', out, body, isMagicText, isComboText, isLayers,
    isBody, ?_, (guarded "H").mpr (.inl guardsH), fun isGuarded => ?_⟩
  · intro key member
    rcases List.mem_cons.mp member with rfl | member
    · exact .inl ⟨letterMapping, rfl, .word "A", by decide +kernel, rfl⟩
    · rw [List.mem_singleton.mp member]
      exact .inr guardsH
  · rcases (guarded "A").mp isGuarded with ⟨first, letter, ⟨combo, member, isBigram', -⟩, -, isBare⟩ | ⟨untrained, -⟩
    · rw [List.mem_singleton.mp member, isBigram] at isBigram'
      cases isBigram'
      exact absurd (Except.ok.inj isBare) (by decide)
    · exact untrained trains

end Keymap.Zmk
