import Keymap.Proofs.TrainingNodes

namespace Keymap.Zmk

open List

variable {r : Replacements} {m : MagicMapping} {name code : String} {table : BehaviorTable}
  {keycodes : Entries} {refs : MacroRefs} {family : Option MagicMapping} {before : MagicConfig}
  {found : List (Option TrainedFamily)}

section Chains

def standIn (keycodes : Entries) (refs : MacroRefs) (m : MagicMapping) (code : String) : String :=
  if predecessors keycodes refs m code = [] then code else "&" ++ guardName m code

theorem standIn_eq_self (h : predecessors keycodes refs m code = []) :
    standIn keycodes refs m code = code := if_pos h

theorem standIn_eq_guard (h : predecessors keycodes refs m code ≠ []) :
    standIn keycodes refs m code = "&" ++ guardName m code := if_neg h

theorem isHomeRow_standIn (h : isHomeRow code = false) : isHomeRow (standIn keycodes refs m code) = false := by
  rw [standIn]
  split
  · exact h
  · simp [isHomeRow, Text.startsWith, guardName, trainingName, isPrefixOf]

theorem count_lt_guard (m : MagicMapping) (code : String) :
    code.toList.count 'n' < ("&" ++ guardName m code).toList.count 'n' := by
  have h : "&ak_train_".toList.count 'n' = 1 := by decide
  have hl := count_le_labelOf code
  have hw : "&" ++ guardName m code = "&ak_train_" ++ (familyLabel m.title ++ "_" ++ labelOf code) := by
    simp [guardName, trainingName, ← String.toList_inj]
  rw [hw, String.toList_append, String.toList_append, count_append, count_append, h]
  omega

def standIns (keycodes : Entries) (refs : MacroRefs) (ms : MagicConfig) (code : String) : String :=
  ms.foldl (fun code m => standIn keycodes refs m code) code

/-- A key goes through untouched, or ends as the node of some key that comes after it. -/
theorem standIns_cases (ms : MagicConfig) (code : String) :
    (standIns keycodes refs ms code = code ∧ ∀ m ∈ ms, predecessors keycodes refs m code = []) ∨
    ∃ m ∈ ms, ∃ key, predecessors keycodes refs m key ≠ [] ∧ code.toList.count 'n' ≤ key.toList.count 'n' ∧
      standIns keycodes refs ms code = "&" ++ guardName m key := by
  -- On the base layers, for any key: what one of them puts in goes through the rest in its place.
  induction ms generalizing code with
  | nil => exact .inl ⟨rfl, by simp⟩
  | cons m ms ih =>
    have hu : standIns keycodes refs (m :: ms) code =
      standIns keycodes refs ms (standIn keycodes refs m code) := rfl
    rw [hu]
    by_cases h : predecessors keycodes refs m code = []
    · rw [standIn_eq_self h]
      rcases ih code with ⟨hk, ho⟩ | ⟨x, hm, key, hp, hl, hs⟩
      · exact .inl ⟨hk, forall_mem_cons.mpr ⟨h, ho⟩⟩
      · exact .inr ⟨x, mem_cons_of_mem _ hm, key, hp, hl, hs⟩
    · rw [standIn_eq_guard h]
      have hmr := count_lt_guard m code
      rcases ih ("&" ++ guardName m code) with ⟨hk, -⟩ | ⟨x, hm, key, hp, hl, hs⟩
      · exact .inr ⟨m, mem_cons_self, code, h, Nat.le_refl _, hk⟩
      · exact .inr ⟨x, mem_cons_of_mem _ hm, key, hp, by omega, hs⟩

theorem standIns_of_none (hn : ∀ x ∈ before, predecessors keycodes refs x code = []) (ms : MagicConfig) :
    standIns keycodes refs (before ++ ms) code = standIns keycodes refs ms code := by
  induction before with
  | nil => rfl
  | cons x before ih =>
    obtain ⟨h, hl⟩ := forall_mem_cons.mp hn
    rw [← ih hl, cons_append, standIns, foldl_cons, standIn_eq_self h]
    rfl

theorem standIns_eq_self {ms : MagicConfig} (h : ∀ m ∈ ms, predecessors keycodes refs m code = []) :
    standIns keycodes refs ms code = code := by
  rw [← append_nil ms, standIns_of_none h]
  rfl

end Chains

section Tables

def DistinctBases (magic : MagicConfig) : Prop :=
  magic.Pairwise fun a b => a.baseLayer.same b.baseLayer = false

instance (magic : MagicConfig) : Decidable (DistinctBases magic) :=
  inferInstanceAs (Decidable (List.Pairwise _ _))

theorem baseLayer_ne {a b : MagicMapping} (h : a.baseLayer.same b.baseLayer = false)
    (hn : a.baseLayer = .text name) : b.baseLayer ≠ .text name := by
  intro hs
  rw [hn, hs, same_text, beq_self_eq_true] at h
  cases h

/-- Tables that do to all keys but those of the home row what the training of the base layers does.
A base layer without alternates has none. -/
inductive Replaces (keycodes : Entries) (refs : MacroRefs) : MagicConfig → Replacements → Prop
  | nil : Replaces keycodes refs [] []
  | skip {m : MagicMapping} {ms : MagicConfig} {r : Replacements}
      (none : ∀ code, predecessors keycodes refs m code = []) (rest : Replaces keycodes refs ms r) :
      Replaces keycodes refs (m :: ms) r
  | take {m : MagicMapping} {ms : MagicConfig} {r : Replacements} {name : String}
      {table : List (Document × String)} (isName : m.baseLayer = .text name)
      (each : ∀ code, isHomeRow code = false → substitute table code = standIn keycodes refs m code)
      (rest : Replaces keycodes refs ms r) : Replaces keycodes refs (m :: ms) ((name, table) :: r)

theorem substitute_trained {keys : List (AdaptiveKey × Trained)} (ht : TrainsAll keycodes refs m keys)
    (code : String) :
    substitute (replaceAllBy [] ((keys.map (·.2)).map fun t => (t.binding, "&" ++ t.behavior))) code =
      standIn keycodes refs m code := by
  have htb : (keys.map (·.2)).map (fun t => (t.binding, "&" ++ t.behavior)) =
      (keys.map fun pair => pair.2.binding.text?.getD "").map fun s =>
        (Document.text s, "&" ++ guardName m s) := by
    rw [map_map, map_map]
    apply map_congr_left
    intro pair h
    obtain ⟨key, -, hk, hb, -⟩ := ht.each pair h
    simp only [Function.comp_apply, hk, hb]
    rfl
  have ha : code ∈ (keys.map fun pair => pair.2.binding.text?.getD "") ↔
      predecessors keycodes refs m code ≠ [] := by
    rw [mem_map]
    constructor
    · rintro ⟨pair, h, rfl⟩
      obtain ⟨key, hp, hk, -⟩ := ht.each pair h
      rwa [hk]
    · intro hp
      obtain ⟨pair, h, hk⟩ := ht.all code hp
      exact ⟨pair, h, by rw [hk]; rfl⟩
  rw [htb, substitute_replaceAllBy fun s => "&" ++ guardName m s]
  by_cases hp : predecessors keycodes refs m code = []
  · rw [standIn_eq_self hp, if_neg (fun h => ha.mp h hp)]
  · rw [standIn_eq_guard hp, if_pos (ha.mpr hp)]

namespace Replaces

variable {ms : MagicConfig}

theorem of_trains (ht : Forall₂ (Trains keycodes refs) ms found) :
    Replaces keycodes refs ms (replacementsOf ((found.filterMap id).map fun f => (f.1, f.2.map (·.2)))) := by
  induction ht with
  | nil => exact .nil
  | @cons m family ms found h _ ih =>
    cases family with
    | none =>
      refine .skip (fun code => ?_) ih
      by_contra hp
      obtain ⟨pair, hm, -⟩ := h.keys.all code hp
      cases hm
    | some f => exact .take (h.isName f rfl) (fun code _ => substitute_trained h.keys code) ih

theorem exists_base (replaces : Replaces keycodes refs ms r) (hm : name ∈ r.map (·.1)) :
    ∃ m ∈ ms, m.baseLayer = .text name := by
  induction replaces with
  | nil => cases hm
  | skip _ _ ih =>
    obtain ⟨m, hr, h⟩ := ih hm
    exact ⟨m, mem_cons_of_mem _ hr, h⟩
  | take h _ _ ih =>
    rcases mem_cons.mp hm with rfl | hl
    · exact ⟨_, mem_cons_self, h⟩
    · obtain ⟨m, hr, h⟩ := ih hl
      exact ⟨m, mem_cons_of_mem _ hr, h⟩

theorem nodup_names (replaces : Replaces keycodes refs ms r) (h : DistinctBases ms) : (r.map (·.1)).Nodup := by
  induction replaces with
  | nil => exact nodup_nil
  | skip _ _ ih => exact ih (pairwise_cons.mp h).2
  | take hn _ hrs ih =>
    obtain ⟨hf, h⟩ := pairwise_cons.mp h
    refine nodup_cons.mpr ⟨fun hm => ?_, ih h⟩
    obtain ⟨m, hr, hs⟩ := hrs.exists_base hm
    exact baseLayer_ne (hf m hr) hn hs

theorem update (hr : Replaces keycodes refs ms r)
    (change : String × List (Document × String) → List (Document × String))
    (h : ∀ g ∈ r, ∀ code, isHomeRow code = false → substitute (change g) code = substitute g.2 code) :
    Replaces keycodes refs ms (r.map fun g => (g.1, change g)) := by
  induction hr with
  | nil => exact .nil
  | skip hnn _ ih => exact .skip hnn (ih h)
  | take hn he _ ih =>
    obtain ⟨hh, hl⟩ := forall_mem_cons.mp h
    exact .take hn (fun code hp => (hh code hp).trans (he code hp)) (ih hl)

theorem addReplacement (hr : Replaces keycodes refs ms r) (h : (r.map (·.1)).Nodup)
    {replaced : String} (ht : name ∈ r.map (·.1)) (homeRow : isHomeRow replaced) (replacement : String) :
    Replaces keycodes refs ms (addReplacement name (.text replaced) replacement r) := by
  have hm : Zmk.addReplacement name (.text replaced) replacement r = r.map fun g =>
      (g.1, if g.1 == name then replaceBy (.text replaced) replacement g.2 else g.2) := by
    rw [Zmk.addReplacement, assign_of_mem h ht]
    apply map_congr_left
    intro g hmm
    by_cases hh : g.1 = name
    · subst hh
      simp [lookup_of_mem h hmm]
    · simp [hh]
  rw [hm]
  -- The text that is replaced is a home-row key, so no other key is affected.
  refine hr.update _ fun g _ code hp => ?_
  split
  · refine substitute_replaceBy (fun hs => ?_) _ _
    rw [hs, homeRow] at hp
    cases hp
  · rfl

theorem withWrapped {wrapped : List (String × Wrapped)} (hr : Replaces keycodes refs ms r)
    (hs : DistinctBases ms)
    (ht : ∀ w ∈ wrapped, w.1 ∈ r.map (·.1)) (h : ∀ w ∈ wrapped, isHomeRow w.2.replaced) :
    Replaces keycodes refs ms (withWrapped wrapped r) := by
  induction wrapped generalizing r with
  | nil => exact hr
  | cons first rest ih =>
    obtain ⟨hth, ht⟩ := forall_mem_cons.mp ht
    obtain ⟨hh, h⟩ := forall_mem_cons.mp h
    refine ih (hr.addReplacement (hr.nodup_names hs) hth hh _) (fun w hm => ?_) h
    exact exists_mem_assign _ _ _ _ (.inr (ht w hm))

theorem lookup (replaces : Replaces keycodes refs ms r) (h : DistinctBases ms) (hm : m ∈ ms)
    {base : String} (hb : m.baseLayer = .text base) (hp : isHomeRow code = false) :
    substitute ((r.lookup base).getD []) code = standIn keycodes refs m code := by
  induction replaces with
  | nil => cases hm
  | @skip x ms r hnn hr ih =>
    obtain ⟨hf, h⟩ := pairwise_cons.mp h
    rcases mem_cons.mp hm with rfl | hl
    · -- A base layer without a table must not get that of a namesake.
      have hab : r.lookup base = Option.none := by
        rw [lookup_eq_none_iff_not_mem]
        intro ht
        obtain ⟨other, hrs, hs⟩ := hr.exists_base ht
        exact baseLayer_ne (hf other hrs) hb hs
      rw [hab, standIn_eq_self (hnn code)]
      rfl
    · exact ih h hl
  | @take x ms r name table hn he hr ih =>
    obtain ⟨hf, h⟩ := pairwise_cons.mp h
    rw [lookup_cons]
    rcases mem_cons.mp hm with rfl | hl
    · rw [hb] at hn
      rw [Document.text.inj hn, beq_self_eq_true]
      exact he code hp
    · have ha := hf m hl
      rw [hn, hb, same_text] at ha
      rw [ha]
      exact ih h hl

theorem foldl (hr : Replaces keycodes refs ms r) (h : isHomeRow code = false) :
    (r.map (·.2)).foldl (fun code table => substitute table code) code = standIns keycodes refs ms code := by
  induction hr generalizing code with
  | nil => rfl
  | skip hn _ ih =>
    rw [ih h, standIns, standIns, foldl_cons, standIn_eq_self (hn code)]
  | take _ he _ ih =>
    rw [map_cons, foldl_cons, he code h, ih (isHomeRow_standIn h)]
    rfl

end Replaces

end Tables

section Layers

variable {outs keys : List Document} {magic : MagicConfig}

def Rewritten (f : String → String) (keys outs : List Document) : Prop :=
  List.Forall₂ (fun key out => ∀ code, key = .text code → out = .text (f code)) keys outs

theorem Rewritten.refl (keys : List Document) : Rewritten id keys keys :=
  forall₂_same.mpr fun _ _ _ h => h

theorem Rewritten.comp {f g : String → String} {mids : List Document} (hf : Rewritten f keys mids)
    (h : Rewritten g mids outs) : Rewritten (g ∘ f) keys outs := by
  induction hf generalizing outs with
  | nil =>
    cases h
    exact .nil
  | cons hh _ ih =>
    cases h with
    | cons hhd ht => exact .cons (fun code hc => hhd _ (hh code hc)) (ih ht)

theorem replaceBindings_eq_ok {table : List (Document × String)}
    (h : replaceBindings table keys = .ok outs) : Rewritten (substitute table) keys outs := by
  refine (mapM_eq_ok.mp h).imp fun key out one code hc => ?_
  obtain ⟨_, -, one⟩ := bind_eq_ok.mp one
  obtain rfl := pure_eq_ok.mp one
  subst hc
  rw [substitute]
  cases table.find? fun e => e.1.same (.text code) <;> rfl

theorem foldlM_replaceBindings {tables : List (List (Document × String))}
    (h : tables.foldlM (fun keys table => replaceBindings table keys) keys = .ok outs) :
    Rewritten (fun code => tables.foldl (fun code table => substitute table code) code) keys outs := by
  induction tables generalizing keys with
  | nil =>
    obtain rfl := pure_eq_ok.mp h
    exact .refl keys
  | cons table tables ih =>
    obtain ⟨mids, hm, h⟩ := bind_eq_ok.mp h
    exact (replaceBindings_eq_ok hm).comp (ih h)

theorem forFamily?_eq_ok {name : Document} (found : MagicConfig.forFamily? name magic = .ok (some m)) :
    m ∈ magic ∧ ∃ base, m.baseLayer = .text base := by
  induction magic with
  | nil => cases found
  | cons first rest ih =>
    obtain ⟨_, -, found⟩ := bind_eq_ok.mp found
    obtain ⟨base, h, found⟩ := bind_eq_ok.mp found
    extract_lets family at found
    split at found
    · cases pure_eq_ok.mp found
      exact ⟨mem_cons_self, base, word_yields _ _ _ h⟩
    · obtain ⟨hm, ht⟩ := ih found
      exact ⟨mem_cons_of_mem _ hm, ht⟩

theorem forLayer?_eq_ok (found : magic.forLayer? (.text name) = .ok (some m)) :
    m ∈ magic ∧ ∃ base, m.baseLayer = .text base := by
  obtain ⟨_, -, found⟩ := bind_eq_ok.mp found
  split at found
  · rename_i own h
    cases pure_eq_ok.mp found
    have hs : m.baseLayer.same (.text name) := by
      apply find?_some h
    exact ⟨mem_of_find?_eq_some h, name, Document.eq_text_of_same hs⟩
  · exact forFamily?_eq_ok found

def trainers (magic : MagicConfig) (family : Option MagicMapping) : MagicConfig :=
  family.elim magic ([·])

theorem trainedKeys_eq_ok (replaces : Replaces keycodes refs magic r) (single : DistinctBases magic)
    (isFamily : magic.forLayer? (.text name) = .ok family) (done : trainedKeys r (some magic) name keys = .ok outs) :
    ∃ f, Rewritten f keys outs ∧ ∀ code, isHomeRow code = false →
      f code = standIns keycodes refs (trainers magic family) code := by
  have one : ∀ m, family = some m → ∀ code, isHomeRow code = false →
      substitute ((m.baseLayer.text?.bind fun base => r.lookup base).getD []) code =
        standIns keycodes refs (trainers magic family) code := by
    rintro m rfl code h
    obtain ⟨hm, base, hb⟩ := forLayer?_eq_ok isFamily
    rw [hb]
    exact replaces.lookup single hm hb h
  rw [trainedKeys] at done
  split at done
  · rename_i he
    obtain rfl := pure_eq_ok.mp done
    refine ⟨id, .refl keys, fun code h => ?_⟩
    rw [List.isEmpty_iff] at he
    subst he
    cases family with
    | none => exact replaces.foldl h
    | some m =>
      rw [← one m rfl code h]
      cases m.baseLayer.text? <;> rfl
  · obtain ⟨tables, ht, done⟩ := bind_eq_ok.mp done
    have hrw := foldlM_replaceBindings done
    refine ⟨_, hrw, fun code h => ?_⟩
    obtain ⟨_, hfn, ht⟩ := bind_eq_ok.mp ht
    cases hfn.symm.trans isFamily
    cases family with
    | none =>
      obtain rfl := pure_eq_ok.mp ht
      exact replaces.foldl h
    | some m =>
      obtain rfl := pure_eq_ok.mp ht
      rw [← one m rfl code h]
      cases m.baseLayer.text?.bind fun base => r.lookup base <;> rfl

end Layers

section Sections

variable {magic : MagicConfig}

structure HasNodes (keycodes : Entries) (refs : MacroRefs) (magic : MagicConfig) (nodes : List AdaptiveKey) :
    Prop where
  each : ∀ node ∈ nodes, ∃ m ∈ magic, ∃ key, predecessors keycodes refs m key ≠ [] ∧
    node.name = guardName m key ∧ Guards keycodes refs m key node
  all : ∀ m ∈ magic, ∀ key, predecessors keycodes refs m key ≠ [] →
    ∃ node ∈ nodes, node.name = guardName m key ∧ Guards keycodes refs m key node

theorem HasNodes.of_trains (trains : Forall₂ (Trains keycodes refs) magic found) :
    HasNodes keycodes refs magic ((found.filterMap id).flatMap fun f => f.2.map (·.1)) := by
  constructor
  · intro node hmm
    obtain ⟨f, hfm, hfl⟩ := mem_flatMap.mp hmm
    obtain ⟨pair, h, rfl⟩ := mem_map.mp hfl
    obtain ⟨family, hf, rfl⟩ := mem_filterMap.mp hfm
    obtain ⟨m, hm, ht⟩ := forall₂_mem_right trains hf
    obtain ⟨key, hp, -, -, hn, hg⟩ := ht.keys.each pair h
    exact ⟨m, hm, key, hp, hn, hg⟩
  · intro m hm key hp
    obtain ⟨family, hf, ht⟩ := forall₂_mem_right trains.flip hm
    obtain ⟨pair, h, hk⟩ := ht.keys.all key hp
    obtain ⟨key', -, hky, -, hn, hg⟩ := ht.keys.each pair h
    obtain rfl := Document.text.inj (hk.symm.trans hky)
    cases family with
    | none => cases h
    | some f =>
      refine ⟨pair.1, mem_flatMap.mpr ⟨f, ?_, mem_map_of_mem h⟩, hn, hg⟩
      exact mem_filterMap.mpr ⟨some f, hf, rfl⟩

def magicTrainingText (nodes : List AdaptiveKey) (wrappers : List HoldTap) : String :=
  trainingSection "Magic training behaviors: punish direct bigrams with '#'"
    "  // Disable training for shifted predecessors" nodes wrappers

theorem magicTrainingSection_eq_ok {layers : List CompiledLayer} {made : String × Replacements}
    (single : DistinctBases magic) (ha : ∀ m ∈ magic, LabelsApart keycodes refs m)
    (hd : magicTrainingSection keycodes table refs magic layers = .ok made) :
    (∃ nodes wrappers, made.1 = magicTrainingText nodes wrappers ∧ HasNodes keycodes refs magic nodes) ∧
    Replaces keycodes refs magic made.2 ∧
    ∀ layer ∈ layers, ∃ family, magic.forLayer? layer.name = .ok family := by
  obtain ⟨found, hfn, hd⟩ := bind_eq_ok.mp hd
  obtain ⟨wrapped, hw, hd⟩ := bind_eq_ok.mp hd
  obtain rfl := pure_eq_ok.mp hd
  have ht : Forall₂ (Trains keycodes refs) magic found :=
    ((forall₂_and_left _ _).mpr ⟨ha, mapM_eq_ok.mp hfn⟩).imp fun _ _ one =>
      magicTraining_eq_ok one.1 one.2
  obtain ⟨hf, he⟩ := wrapLayers_eq_ok hw
  refine ⟨⟨_, _, rfl, .of_trains ht⟩, ?_, fun layer hm => ?_⟩
  · refine (Replaces.of_trains ht).withWrapped single (fun w hm => ?_) fun w hm => (he w hm).1
    obtain ⟨-, layer, -, trained, h⟩ := he w hm
    obtain ⟨_, -, h⟩ := bind_eq_ok.mp h
    obtain ⟨name, -, h⟩ := Option.bind_eq_some_iff.mp (pure_eq_ok.mp h)
    obtain ⟨ts, htr, hs⟩ := Option.map_eq_some_iff.mp h
    rw [← (Prod.mk.inj hs).1, replacementsOf, map_map]
    exact mem_map_of_mem (mem_of_lookup htr)
  · obtain ⟨_, h⟩ := hf layer hm
    obtain ⟨family, h, -⟩ := bind_eq_ok.mp h
    exact ⟨family, h⟩

end Sections

section Keys

variable (keycodes) (refs)

def RefersToGuard (nodes : List AdaptiveKey) (m : MagicMapping) (code out : String) : Prop :=
  ∃ name, out = "&" ++ name ∧ (∃ node ∈ nodes, node.name = name) ∧
    ∀ node ∈ nodes, node.name = name → Guards keycodes refs m code node

/-- No base layer gives the name of a key's node to the node of another key, or to one with other
triggers. -/
def Unclashed (magic : MagicConfig) (m : MagicMapping) (code : String) : Prop :=
  ∀ m' ∈ magic, ∀ key, predecessors keycodes refs m' key ≠ [] → guardName m' key = guardName m code →
    key = code ∧ triggerKeys keycodes refs m' key = triggerKeys keycodes refs m code

/-- What training does to a key: nothing unless a trainer has it as an alternate. Otherwise a reference
to a node takes its place, and this is the guard of the first such trainer exactly if the name of the
node is taken by no other, and no later trainer has the reference itself as an alternate. -/
structure TrainedKey (magic : MagicConfig) (nodes : List AdaptiveKey) (trainers : MagicConfig)
    (code out : String) : Prop where
  kept : (∀ m ∈ trainers, predecessors keycodes refs m code = []) → out = code
  replaced : ∀ before m after, trainers = before ++ m :: after →
    (∀ x ∈ before, predecessors keycodes refs x code = []) → predecessors keycodes refs m code ≠ [] →
      out ≠ code ∧ (∃ node ∈ nodes, out = "&" ++ node.name) ∧
        (RefersToGuard keycodes refs nodes m code out ↔ Unclashed keycodes refs magic m code ∧
            ∀ x ∈ after, predecessors keycodes refs x ("&" ++ guardName m code) = [])

variable {keycodes refs} {magic : MagicConfig} {nodes : List AdaptiveKey}

theorem Guards.triggerKeys_eq {m' : MagicMapping} {node : AdaptiveKey}
    (hg : Guards keycodes refs m code node) (guards' : Guards keycodes refs m' code node) :
    triggerKeys keycodes refs m code = triggerKeys keycodes refs m' code := by
  obtain ⟨keys, strict, limit, hk, ht⟩ := hg.triggers
  obtain ⟨keys', strict', limit', hky, h⟩ := guards'.triggers
  rw [ht, cons.injEq, Trigger.mk.injEq] at h
  rw [hk, hky, h.1.2.1]

theorem refersToGuard_guard (hn : HasNodes keycodes refs magic nodes) (member : m ∈ magic)
    (present : predecessors keycodes refs m code ≠ []) :
    RefersToGuard keycodes refs nodes m code ("&" ++ guardName m code) ↔ Unclashed keycodes refs magic m code := by
  constructor
  · rintro ⟨name, hr, -, hgd⟩ m' hm key hp hnm
    obtain rfl := (String.append_right_inj _).mp hr
    obtain ⟨node, h, hnn, hg⟩ := hn.all m' hm key hp
    have hh := hgd node h (hnn.trans hnm)
    obtain rfl : key = code := hg.binding.symm.trans hh.binding
    exact ⟨rfl, hg.triggerKeys_eq hh⟩
  · intro hu
    obtain ⟨node, h, hnn, hg⟩ := hn.all m member code present
    refine ⟨guardName m code, rfl, ⟨node, h, hnn⟩, fun other h hnm => ?_⟩
    obtain ⟨m', hm, key, hp, ho, hgr⟩ := hn.each other h
    obtain ⟨rfl, ha⟩ := hu m' hm key hp (ho.symm.trans hnm)
    refine ⟨hgr.binding, ?_⟩
    rw [← ha]
    exact hgr.triggers

theorem trainedKey_standIns (hasNodes : HasNodes keycodes refs magic nodes) {trainers : MagicConfig}
    (hw : ∀ m ∈ trainers, m ∈ magic) (code : String) :
    TrainedKey keycodes refs magic nodes trainers code (standIns keycodes refs trainers code) := by
  constructor
  · exact standIns_eq_self
  · rintro before m after rfl hnn hp
    have hmr := count_lt_guard m code
    rw [standIns_of_none hnn, standIns, foldl_cons, standIn_eq_guard hp, ← standIns]
    rcases standIns_cases after ("&" ++ guardName m code) with
      ⟨hk, hu⟩ | ⟨x, ha, key, hpr, hl, hg⟩
    · have hm : m ∈ magic := hw m (by simp)
      obtain ⟨node, h, hn, -⟩ := hasNodes.all m hm code hp
      rw [hk]
      refine ⟨fun hs => ?_, ⟨node, h, by rw [hn]⟩, ?_⟩
      · rw [hs] at hmr
        exact Nat.lt_irrefl _ hmr
      · rw [refersToGuard_guard hasNodes hm hp]
        exact ⟨fun hun => ⟨hun, hu⟩, fun hbt => hbt.1⟩
    · obtain ⟨node, h, hn, hgd⟩ := hasNodes.all x (hw x (by simp [ha])) key hpr
      have hf := count_lt_guard x key
      rw [hg]
      refine ⟨fun hs => ?_, ⟨node, h, by rw [hn]⟩, ⟨?_, ?_⟩⟩
      · rw [hs] at hf
        omega
      · -- The node that the reference leads to stands for a key with more letters `n` than this one.
        rintro ⟨name, hr, -, hgr⟩
        obtain rfl := (String.append_right_inj _).mp hr
        have hb := hgd.binding.symm.trans (hgr node h hn).binding
        rw [hb] at hl
        omega
      · rintro ⟨-, hu⟩
        rw [← hg, standIns_eq_self hu] at hf
        omega

end Keys

section Keymaps

variable {text : String} {size : LayoutSize} {layer : CompiledLayer}

def layerText (name body : String) : String :=
  Text.unlines [s!"        {Text.lower name}_layer \x7b", "            bindings = <", body,
    "            >;", "        \x7d;"]

theorem layerNode_eq_ok {magic : Option MagicConfig} (h : layerNode size r magic layer = .ok text) :
    ∃ name keys body, layer.name = .text name ∧ trainedKeys r magic name layer.keycodes = .ok keys ∧
      bindingsText size keys = .ok body ∧ text = layerText name body := by
  obtain ⟨name, hn, h⟩ := bind_eq_ok.mp h
  obtain ⟨keys, hk, h⟩ := bind_eq_ok.mp h
  obtain ⟨body, hb, h⟩ := bind_eq_ok.mp h
  exact ⟨name, keys, body, word_yields _ _ _ hn, hk, hb, (pure_eq_ok.mp h).symm⟩

/-- The node of a layer whose keys have been trained; what becomes of those of the home row is left
open. -/
def TrainedLayer (keycodes : Entries) (refs : MacroRefs) (magic : MagicConfig) (nodes : List AdaptiveKey)
    (size : LayoutSize) (layer : CompiledLayer) (text : String) : Prop :=
  ∃ name family outs body, layer.name = .text name ∧ magic.forLayer? (.text name) = .ok family ∧
    bindingsText size outs = .ok body ∧ text = layerText name body ∧
    List.Forall₂ (fun key out => ∀ code, key = .text code → isHomeRow code = false →
      ∃ trained, out = .text trained ∧
        TrainedKey keycodes refs magic nodes (trainers magic family) code trained) layer.keycodes outs

variable {settings : Settings} {s : Source} {magic : MagicConfig}

theorem trainedLayer_of_layerNode {nodes : List AdaptiveKey} (hasNodes : HasNodes keycodes refs magic nodes)
    (hr : Replaces keycodes refs magic r) (hs : DistinctBases magic)
    (h : magic.forLayer? layer.name = .ok family) (hd : layerNode size r (some magic) layer = .ok text) :
    TrainedLayer keycodes refs magic nodes size layer text := by
  obtain ⟨name, outs, body, hn, ho, hb, ht⟩ := layerNode_eq_ok hd
  rw [hn] at h
  obtain ⟨f, hrw, htr⟩ := trainedKeys_eq_ok hr hs h ho
  refine ⟨name, family, outs, body, hn, h, hb, ht, ?_⟩
  refine hrw.imp fun key out one code hc hp => ⟨f code, one code hc, ?_⟩
  rw [htr code hp]
  refine trainedKey_standIns hasNodes (fun m hm => ?_) code
  cases family with
  | none => exact hm
  | some own =>
    obtain rfl := mem_singleton.mp hm
    exact (forLayer?_eq_ok h).1

theorem magicTrainingPart_eq_ok {made : List String × Replacements}
    (htr : settings.magicTraining) (hm : s.magic = some magic)
    (single : DistinctBases magic) (ha : ∀ m ∈ magic, LabelsApart settings.keycodes (magicRefs magic) m)
    (h : magicTrainingPart settings table (magicRefs magic) s = .ok made) :
    (∃ nodes wrappers, (magic ≠ [] → made.1 = [magicTrainingText nodes wrappers]) ∧
      HasNodes settings.keycodes (magicRefs magic) magic nodes) ∧
    Replaces settings.keycodes (magicRefs magic) magic made.2 ∧
    ∀ layer ∈ s.layers, ∀ name, layer.name = .text name →
      ∃ family, magic.forLayer? layer.name = .ok family := by
  rw [magicTrainingPart, hm, htr, Option.getD_some, Bool.not_true, Bool.or_false] at h
  split at h
  · rename_i he
    obtain rfl := pure_eq_ok.mp h
    obtain rfl := isEmpty_iff.mp he
    refine ⟨⟨[], [], fun hp => absurd rfl hp, by simp, by simp⟩, .nil, fun layer _ name hnm => ?_⟩
    exact ⟨none, by rw [hnm]; rfl⟩
  · obtain ⟨whole, hs, rfl⟩ := map_eq_ok.mp h
    obtain ⟨⟨nodes, wrappers, ht, hn⟩, hr, hf⟩ := magicTrainingSection_eq_ok single ha hs
    refine ⟨⟨nodes, wrappers, fun _ => by rw [ht], hn⟩, hr, fun layer hmm _ _ => ?_⟩
    exact hf layer hmm

/-- Magic training without combos: what becomes of the keys on every layer of a keymap file. -/
theorem trained_keys_refer_to_guards_iff (training : settings.magicTraining = true) (noCombos : s.combos = [])
    (isMagic : s.magic = some magic) (single : DistinctBases magic)
    (apart : ∀ m ∈ magic, LabelsApart settings.keycodes (magicRefs magic) m) {start : Progress} {text : String}
    (done : ((keymapFile settings s).run.run start).1 = .ok text) :
    ∃ parts : FileParts settings s start, parts.text = text ∧ ∃ nodes wrappers,
      (magic ≠ [] → parts.sections.training.1 = [magicTrainingText nodes wrappers]) ∧
      List.Forall₂ (TrainedLayer settings.keycodes (magicRefs magic) magic nodes s.board.layoutSize)
        s.layers parts.layers := by
  obtain ⟨parts, isText⟩ := keymapFile_parts done
  have isRefs : magicRefs magic = magicRefs (s.magic.getD []) := by
    rw [isMagic]
    rfl
  have isTraining : magicTrainingPart settings (withHomeRow settings.behaviors s.board.layoutSize start.table)
      (magicRefs magic) s = .ok parts.sections.training := by
    rw [isRefs]
    exact parts.sections.isTraining
  obtain ⟨⟨nodes, wrappers, isSection, hasNodes⟩, replaces, families⟩ :=
    magicTrainingPart_eq_ok training isMagic single apart isTraining
  have noCombo : parts.sections.combo = ([], []) := by
    have isCombo := parts.sections.isCombo
    rw [comboTrainingPart, noCombos] at isCombo
    exact (pure_eq_ok.mp isCombo).symm
  have isReplacements : parts.sections.replacements = parts.sections.training.2 := by
    rw [SectionParts.replacements, noCombo]
    rfl
  refine ⟨parts, isText, nodes, wrappers, isSection, ?_⟩
  have isLayers : List.Forall₂ (fun layer text =>
      layerNode s.board.layoutSize parts.sections.training.2 (some magic) layer = .ok text)
      s.layers parts.layers := by
    rw [← isMagic, ← isReplacements]
    exact mapM_eq_ok.mp parts.isLayers
  refine ((List.forall₂_and_left _ _).mpr ⟨families, isLayers⟩).imp fun layer text one => ?_
  obtain ⟨name, _, _, isName, -⟩ := layerNode_eq_ok one.2
  obtain ⟨family, isFamily⟩ := one.1 name isName
  exact trainedLayer_of_layerNode hasNodes replaces single isFamily one.2

end Keymaps

def dayMapping : MagicMapping :=
  ⟨"BASE_DAY", .whole 150, .record [("A", "B")], "REPEAT"⟩

def nightMapping : MagicMapping :=
  ⟨"BASE_NIGHT", .whole 150, .record [("A", "T")], "REPEAT"⟩

def chainedSettings : Settings where
  keycodes := [("A", .record [("zmk", "&kp A")]), ("B", .record [("zmk", "&kp B")]),
    ("T", .record [("zmk", "&ak_train_day_b")])]
  magicTraining := true

def chainedSource : Source where
  board := { id := "chained", name := "Chained", firmware := .zmk }
  layers := [⟨"NAV", ["&kp B"]⟩]
  magic := some [dayMapping, nightMapping]

theorem labelsApart_of_single {e : Field × Document} (hr : m.mappings = .record [e]) :
    LabelsApart keycodes refs m := by
  intro first h second hs key key' hk hky _
  rw [hr] at h hs
  obtain rfl := mem_singleton.mp h
  obtain rfl := mem_singleton.mp hs
  exact ⟨Document.text.inj (Except.ok.inj (hk.symm.trans hky)), rfl⟩

/-- The key is an alternate of the day, but what stands for it is not the guard of the day. -/
theorem chained_key_unguarded :
    let refs := magicRefs [dayMapping, nightMapping]
    ∃ parts : FileParts chainedSettings chainedSource (.start chainedSettings none), ∃ nodes wrappers out body,
      parts.sections.training.1 = [magicTrainingText nodes wrappers] ∧
      parts.layers = [layerText "NAV" body] ∧ bindingsText .split36 [.text out] = .ok body ∧
      predecessors chainedSettings.keycodes refs dayMapping "&kp B" = [.word "A"] ∧ out ≠ "&kp B" ∧
      ¬ RefersToGuard chainedSettings.keycodes refs nodes dayMapping "&kp B" out := by
  intro refs
  obtain ⟨text, done⟩ : ∃ text, ((keymapFile chainedSettings chainedSource).run.run
      (.start chainedSettings none)).1 = .ok text := exists_eq_ok (by decide +kernel)
  obtain ⟨parts, -, nodes, wrappers, isSection, layers⟩ := trained_keys_refer_to_guards_iff rfl rfl rfl
    (by decide) (by rintro m (_ | ⟨_, _ | ⟨_, ⟨⟩⟩⟩) <;> exact labelsApart_of_single rfl) done
  obtain ⟨_, _, layer, ⟨⟩, isLayers⟩ := List.forall₂_cons_left_iff.mp layers
  obtain ⟨name, family, outs, body, isName, isFamily, isBody, rfl, keys⟩ := layer
  obtain rfl : "NAV" = name := Document.text.inj isName
  obtain rfl : none = family := Except.ok.inj ((show _ = Except.ok none from rfl).symm.trans isFamily)
  obtain ⟨_, _, key, ⟨⟩, rfl⟩ := List.forall₂_cons_left_iff.mp keys
  obtain ⟨out, rfl, trained⟩ := key "&kp B" rfl (by decide)
  have ofDay : predecessors chainedSettings.keycodes refs dayMapping "&kp B" = [.word "A"] := by decide
  have ofNight : predecessors chainedSettings.keycodes refs nightMapping
      ("&" ++ guardName dayMapping "&kp B") = [.word "A"] := by
    decide
  obtain ⟨changed, -, isGuard⟩ := trained.replaced [] dayMapping [nightMapping] rfl (by simp)
    (by rw [ofDay]; exact List.cons_ne_nil _ _)
  refine ⟨parts, nodes, wrappers, out, body, isSection (by simp), isLayers, isBody, ofDay, changed, ?_⟩
  intro refers
  have untouched := (isGuard.mp refers).2 nightMapping (by simp)
  rw [ofNight] at untouched
  cases untouched

end Keymap.Zmk
