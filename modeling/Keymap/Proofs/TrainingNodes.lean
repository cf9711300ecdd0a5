import Keymap.Proofs.TrainedKeys
import Keymap.Proofs.ZmkKeymap

namespace Keymap.Zmk

open List

section Guards

variable (keycodes : Entries) (refs : MacroRefs)

def predecessors (m : MagicMapping) (key : String) : List Field :=
  ((m.mappings.entries?.getD []).filter fun e =>
    (alternateBinding keycodes refs m.baseLayer e.1 e.2).toOption.any (·.isWord key)).map (·.1)

def triggerKeys (m : MagicMapping) (key : String) : Result (List String) :=
  (predecessors keycodes refs m key).mapM fun p => do bareKey (← simpleKey keycodes p.toDocument)

def guardName (m : MagicMapping) (key : String) : String :=
  trainingName "ak_train_" (familyLabel m.title) (labelOf key)

/-- A node that types a key, but `#` after one of its predecessors. -/
structure Guards (m : MagicMapping) (key : String) (node : AdaptiveKey) : Prop where
  binding : node.binding = key
  triggers : ∃ keys strict limit, triggerKeys keycodes refs m key = .ok keys ∧
    node.triggers = [⟨"guard_trigger", keys, "&kp HASH", strict, limit⟩]

/-- Different alternates of a base layer have different labels, and none is at once a key and a text. -/
def LabelsApart (m : MagicMapping) : Prop :=
  ∀ e ∈ m.mappings.entries?.getD [], ∀ e' ∈ m.mappings.entries?.getD [], ∀ key key',
    alternateBinding keycodes refs m.baseLayer e.1 e.2 = .ok (.text key) →
    alternateBinding keycodes refs m.baseLayer e'.1 e'.2 = .ok (.text key') →
    labelOf key = labelOf key' →
      key = key' ∧ (macroRef? refs m.baseLayer e.1).isSome = (macroRef? refs m.baseLayer e'.1).isSome

structure TrainsAll (m : MagicMapping) (keys : List (AdaptiveKey × Trained)) : Prop where
  each : ∀ pair ∈ keys, ∃ key, predecessors keycodes refs m key ≠ [] ∧ pair.2.binding = .text key ∧
    pair.2.behavior = guardName m key ∧ pair.1.name = guardName m key ∧ Guards keycodes refs m key pair.1
  all : ∀ key, predecessors keycodes refs m key ≠ [] → ∃ pair ∈ keys, pair.2.binding = .text key

end Guards

section Training

variable {keycodes : Entries} {refs : MacroRefs} {m : MagicMapping} {alternate : String}
  {e : Field × Document} {entries : Entries} {found : Option TrainedFamily}
  {layer : Option (CompiledLayer × Colocation)} {groups : List AlternateGroup}
  {group : List (Field × Document)}

theorem trainingKey_eq_ok {family : String} {pair : AdaptiveKey × Trained}
    (h : trainingKey keycodes refs layer m family group = .ok pair) :
    ∃ alternate keys strict limit, groupBinding keycodes refs m.baseLayer group = .ok (.text alternate) ∧
      ((group.map (·.1)).mapM fun p => do bareKey (← simpleKey keycodes p.toDocument)) = .ok keys ∧
      needsStrict layer (group.map (·.1)) = .ok strict ∧
      let name := trainingName "ak_train_" family (labelOf alternate)
      pair = (⟨name, alternate, [⟨"guard_trigger", keys, "&kp HASH", strict, limit⟩]⟩,
        ⟨.text alternate, family, labelOf alternate, name⟩) := by
  obtain ⟨binding, hb, h⟩ := bind_eq_ok.mp h
  obtain ⟨alternate, ht, h⟩ := bind_eq_ok.mp h
  obtain ⟨keys, hk, h⟩ := bind_eq_ok.mp h
  obtain ⟨strict, hs, h⟩ := bind_eq_ok.mp h
  obtain ⟨limit, -, h⟩ := bind_eq_ok.mp h
  have hsm := pure_eq_ok.mp h
  refine ⟨alternate, keys, strict, limit, ?_, hk, hs, hsm.symm⟩
  rw [hb, word_yields _ _ _ ht]

def bindingOf (keycodes : Entries) (refs : MacroRefs) (m : MagicMapping) (e : Field × Document) : Document :=
  (alternateBinding keycodes refs m.baseLayer e.1 e.2).toOption.getD .null

def Bound (keycodes : Entries) (refs : MacroRefs) (m : MagicMapping) (entries : Entries) : Prop :=
  ∀ e ∈ entries, alternateBinding keycodes refs m.baseLayer e.1 e.2 = .ok (bindingOf keycodes refs m e)

theorem groupedAlternates_eq_ok (h : groupedAlternates keycodes refs m = .ok groups) :
    ∃ entries, m.mappings = .record entries ∧ Bound keycodes refs m entries ∧
      groups = groupBy (entries.map fun e => (bindingOf keycodes refs m e, e)) := by
  obtain ⟨entries, he, h⟩ := bind_eq_ok.mp h
  obtain ⟨pairs, hp, h⟩ := bind_eq_ok.mp h
  have hr : m.mappings = .record entries := by
    cases hm : m.mappings with
    | record es =>
      rw [hm] at he
      rw [Except.ok.inj he]
    | _ =>
      rw [hm] at he
      cases he
  have hec : Forall₂ (fun e p => alternateBinding keycodes refs m.baseLayer e.1 e.2 =
      .ok (bindingOf keycodes refs m e) ∧ (bindingOf keycodes refs m e, e) = p) entries pairs := by
    refine (mapM_eq_ok.mp hp).imp fun e p one => ?_
    obtain ⟨binding, hb, one⟩ := bind_eq_ok.mp one
    obtain ⟨_, -, one⟩ := bind_eq_ok.mp one
    have hs : bindingOf keycodes refs m e = binding := by
      rw [bindingOf, hb]
      rfl
    exact ⟨hs ▸ hb, by rw [hs]; exact pure_eq_ok.mp one⟩
  refine ⟨entries, hr, fun e hmm => ?_, ?_⟩
  · obtain ⟨_, -, hbn, -⟩ := forall₂_mem_right hec.flip hmm
    exact hbn
  · have hmp : entries.map (fun e => (bindingOf keycodes refs m e, e)) = pairs := by
      rw [← forall₂_eq_eq_eq, forall₂_map_left_iff]
      exact hec.imp fun _ _ one => one.2
    rw [hmp]
    exact (pure_eq_ok.mp h).symm

theorem bindingOf_of_ref {name : String} (found : macroRef? refs m.baseLayer e.1 = some name) :
    bindingOf keycodes refs m e = .text name := by
  rw [bindingOf, alternateBinding, found]
  rfl

theorem bindingOf_of_key (none : macroRef? refs m.baseLayer e.1 = none) {binding : Document}
    (h : simpleKey keycodes e.2 = .ok binding) : bindingOf keycodes refs m e = binding := by
  rw [bindingOf, alternateBinding, none]
  simp only [h]
  rfl

theorem groupBinding_eq_ok {first last : Field × Document} (h : group.head? = some first)
    (hl : group.getLast? = some last) :
    groupBinding keycodes refs m.baseLayer group = match macroRef? refs m.baseLayer first.1 with
      | some name => .ok (.text name)
      | none => simpleKey keycodes last.2 := by
  rw [groupBinding, h, hl]
  rfl

theorem bindingOf_of_mem {key : Document}
    (hm : (key, e) ∈ entries.map fun e => (bindingOf keycodes refs m e, e)) :
    bindingOf keycodes refs m e = key := by
  obtain ⟨_, -, hs⟩ := mem_map.mp hm
  obtain ⟨h, rfl⟩ := Prod.mk.inj hs
  exact h

theorem exists_text_of_group {g : AlternateGroup}
    (hg : Gathers (entries.map fun e => (bindingOf keycodes refs m e, e)) g)
    (h : groupBinding keycodes refs m.baseLayer g.2 = .ok (.text alternate)) : ∃ key, g.1 = .text key := by
  -- The macro of the first alternate counts if it has one, and the key of the last otherwise. Either
  -- way some alternate of the group has a text for its binding.
  obtain ⟨first, hf, hp⟩ := hg.first
  have hfk := bindingOf_of_mem hp
  obtain ⟨last, hl⟩ : ∃ last, g.2.getLast? = some last :=
    Option.isSome_iff_exists.mp (by rw [getLast?_isSome]; rintro none; simp [none] at hf)
  rw [groupBinding_eq_ok hf hl] at h
  cases hm : macroRef? refs m.baseLayer first.1 with
  | some name => exact ⟨name, by rw [← hfk, bindingOf_of_ref hm]⟩
  | none =>
    rw [hm] at h
    have ht : ∃ key, bindingOf keycodes refs m last = .text key := by
      cases hlm : macroRef? refs m.baseLayer last.1 with
      | some name => exact ⟨name, bindingOf_of_ref hlm⟩
      | none => exact ⟨alternate, bindingOf_of_key hlm h⟩
    obtain ⟨key, ht⟩ := ht
    obtain ⟨_, hp, -, hs⟩ := hg.each last (mem_of_getLast? hl)
    obtain rfl := (bindingOf_of_mem hp).symm.trans ht
    exact ⟨key, hs.elim Eq.symm Document.eq_text_of_same⟩

def codeOf (keycodes : Entries) (refs : MacroRefs) (m : MagicMapping) (e : Field × Document) : String :=
  (bindingOf keycodes refs m e).text?.getD ""

structure Coded (keycodes : Entries) (refs : MacroRefs) (m : MagicMapping) (entries : Entries) : Prop where
  isRecord : m.mappings = .record entries
  isCode : ∀ e ∈ entries,
    alternateBinding keycodes refs m.baseLayer e.1 e.2 = .ok (.text (codeOf keycodes refs m e))

theorem coded_of_groups (hr : m.mappings = .record entries) (hb : Bound keycodes refs m entries)
    (trained : ∀ g ∈ groupBy (entries.map fun e => (bindingOf keycodes refs m e, e)),
      ∃ alternate, groupBinding keycodes refs m.baseLayer g.2 = .ok (.text alternate)) :
    Coded keycodes refs m entries := by
  refine ⟨hr, fun e hm => ?_⟩
  have h := grouped_groupBy (entries.map fun e => (bindingOf keycodes refs m e, e))
  obtain ⟨g, hg, -, hs⟩ := h.found _ (mem_map_of_mem hm)
  obtain ⟨alternate, hd⟩ := trained g hg
  obtain ⟨key, ht⟩ := exists_text_of_group (h.gathers g hg) hd
  rw [ht] at hs
  have hk : bindingOf keycodes refs m e = .text key := hs.elim id Document.eq_text_of_text_same
  rw [hb e hm, codeOf, hk]
  rfl

namespace Coded

variable (coded : Coded keycodes refs m entries)

include coded

variable {g : String × Entries}

theorem bindingOf_eq (h : e ∈ entries) : bindingOf keycodes refs m e = .text (codeOf keycodes refs m e) := by
  rw [bindingOf, coded.isCode e h]
  rfl

theorem groups_eq : groupBy (entries.map fun e => (bindingOf keycodes refs m e, e)) =
    asBindings (grouped (entries.map fun e => (codeOf keycodes refs m e, e))) := by
  rw [← groupBy_asBindings, asBindings, map_map]
  congr 1
  apply map_congr_left
  intro e h
  rw [coded.bindingOf_eq h]
  rfl

theorem predecessors_eq (key : String) : predecessors keycodes refs m key =
    (entries.filter fun e => key == codeOf keycodes refs m e).map (·.1) := by
  rw [predecessors, coded.isRecord]
  congr 1
  apply filter_congr
  intro e h
  rw [coded.isCode e h]
  exact BEq.comm

theorem mem_group (hm : g ∈ grouped (entries.map fun e => (codeOf keycodes refs m e, e))) :
    (∀ e ∈ g.2, e ∈ entries ∧ codeOf keycodes refs m e = g.1) ∧
      g.2.map (·.1) = predecessors keycodes refs m g.1 ∧ g.2 ≠ [] := by
  obtain ⟨hg, hp⟩ := mem_grouped hm
  rw [filter_map, map_map] at hg
  have hf : g.2 = entries.filter fun e => g.1 == codeOf keycodes refs m e := by
    rw [hg]
    exact map_id _
  refine ⟨fun e h => ?_, ?_, hp⟩
  · rw [hf, mem_filter] at h
    exact ⟨h.1, (beq_iff_eq.mp h.2).symm⟩
  · rw [coded.predecessors_eq, ← hf]

theorem exists_group {key : String} (h : predecessors keycodes refs m key ≠ []) :
    ∃ group, (key, group) ∈ grouped (entries.map fun e => (codeOf keycodes refs m e, e)) := by
  rw [coded.predecessors_eq] at h
  obtain ⟨e, hm⟩ := exists_mem_of_ne_nil _ (mt map_eq_nil_iff.mpr h)
  obtain ⟨he, hk⟩ := mem_filter.mp hm
  rw [beq_iff_eq.mp hk]
  exact exists_mem_grouped (mem_map.mpr ⟨e, he, rfl⟩)

theorem groupBinding_of_alike (member : g ∈ grouped (entries.map fun e => (codeOf keycodes refs m e, e)))
    (alike : ∀ e ∈ g.2, ∀ e' ∈ g.2, (macroRef? refs m.baseLayer e.1).isSome = (macroRef? refs m.baseLayer e'.1).isSome)
    (done : groupBinding keycodes refs m.baseLayer g.2 = .ok (.text alternate)) : alternate = g.1 := by
  obtain ⟨hg, -, hp⟩ := coded.mem_group member
  obtain ⟨first, hf⟩ := Option.isSome_iff_exists.mp (isSome_head?.mpr hp)
  obtain ⟨last, hl⟩ := Option.isSome_iff_exists.mp (getLast?_isSome.mpr hp)
  obtain ⟨hfe, hfc⟩ := hg first (mem_of_head? hf)
  obtain ⟨hle, hlc⟩ := hg last (mem_of_getLast? hl)
  rw [groupBinding_eq_ok hf hl] at done
  cases hm : macroRef? refs m.baseLayer first.1 with
  | some name =>
    rw [hm] at done
    have h : bindingOf keycodes refs m first = .text name := bindingOf_of_ref hm
    rw [coded.bindingOf_eq hfe, hfc] at h
    exact (Document.text.inj (Except.ok.inj done)).symm.trans (Document.text.inj h).symm
  | none =>
    rw [hm] at done
    have alike := alike first (mem_of_head? hf) last (mem_of_getLast? hl)
    rw [hm, eq_comm, Option.isSome_none, Option.isSome_eq_false_iff, Option.isNone_iff_eq_none] at alike
    have h := bindingOf_of_key alike done
    rw [coded.bindingOf_eq hle, hlc] at h
    exact (Document.text.inj h).symm

theorem groupBinding_eq (ha : LabelsApart keycodes refs m)
    (h : g ∈ grouped (entries.map fun e => (codeOf keycodes refs m e, e)))
    (hd : groupBinding keycodes refs m.baseLayer g.2 = .ok (.text alternate)) : alternate = g.1 := by
  have he : m.mappings.entries?.getD [] = entries := by rw [coded.isRecord]; rfl
  refine coded.groupBinding_of_alike h (fun e hg e' hgr => ?_) hd
  obtain ⟨het, hc⟩ := (coded.mem_group h).1 e hg
  obtain ⟨hey, hcd⟩ := (coded.mem_group h).1 e' hgr
  exact (ha e (he ▸ het) e' (he ▸ hey) _ _ (coded.isCode e het) (coded.isCode e' hey) (by rw [hc, hcd])).2

end Coded

section Groups

variable {layers : List CompiledLayer}

def compiledBase (layers : List CompiledLayer) (m : MagicMapping) :
    Result (Option (CompiledLayer × Colocation)) :=
  match layers.find? fun l => l.name.same m.baseLayer with
  | some layer => (colocation layer).map fun c => some (layer, c)
  | none => .ok none

/-- The alternates of a base layer in groups, each with the key that it is trained by. -/
structure GroupsTrained (keycodes : Entries) (refs : MacroRefs) (layers : List CompiledLayer)
    (m : MagicMapping) (entries : Entries) (layer : Option (CompiledLayer × Colocation))
    (found : Option TrainedFamily) : Prop where
  coded : Coded keycodes refs m entries
  isLayer : compiledBase layers m = .ok layer
  isName : ∀ f, found = some f → m.baseLayer = .text f.1
  present : found ≠ none → entries ≠ []
  each : List.Forall₂ (fun g pair => trainingKey keycodes refs layer m (familyLabel m.title) g.2 = .ok pair)
    (grouped (entries.map fun e => (codeOf keycodes refs m e, e))) ((found.map (·.2)).getD [])

theorem groupsTrained_of_keys (isLayer : compiledBase layers m = .ok layer)
    (isGroups : groupedAlternates keycodes refs m = .ok groups) (found : Option TrainedFamily)
    (isName : ∀ f, found = some f → m.baseLayer = .text f.1) (present : found ≠ none → groups ≠ [])
    (isKeys : groups.mapM (fun g => trainingKey keycodes refs layer m (familyLabel m.title) g.2) =
      .ok ((found.map (·.2)).getD [])) :
    ∃ entries, GroupsTrained keycodes refs layers m entries layer found := by
  obtain ⟨entries, hr, hb, rfl⟩ := groupedAlternates_eq_ok isGroups
  have h := mapM_eq_ok.mp isKeys
  have coded : Coded keycodes refs m entries := by
    refine coded_of_groups hr hb fun g hm => ?_
    obtain ⟨pair, -, hd⟩ := forall₂_mem_right h.flip hm
    obtain ⟨alternate, _, _, _, ha, -⟩ := trainingKey_eq_ok hd
    exact ⟨alternate, ha⟩
  rw [coded.groups_eq, asBindings, forall₂_map_left_iff] at h
  refine ⟨entries, coded, isLayer, isName, fun some he => present some ?_, h⟩
  rw [he]
  rfl

theorem magicTraining_eq : magicTraining keycodes refs layers m = do
    let layer ← compiledBase layers m
    let groups ← groupedAlternates keycodes refs m
    if groups.isEmpty then return none
    let family ← familyOf m
    let keys ← groups.mapM fun g => trainingKey keycodes refs layer m family g.2
    return some (m.title, keys) := by
  unfold magicTraining compiledBase
  cases layers.find? fun l => l.name.same m.baseLayer with
  | none => rfl
  | some layer =>
    dsimp only
    cases colocation layer <;> rfl

theorem magicTraining_groups (h : magicTraining keycodes refs layers m = .ok found) :
    ∃ entries layer, GroupsTrained keycodes refs layers m entries layer found := by
  rw [magicTraining_eq] at h
  obtain ⟨layer, hl, h⟩ := bind_eq_ok.mp h
  obtain ⟨groups, hg, h⟩ := bind_eq_ok.mp h
  split at h
  · rename_i he
    obtain rfl := pure_eq_ok.mp h
    obtain rfl := isEmpty_iff.mp he
    obtain ⟨entries, ht⟩ := groupsTrained_of_keys hl hg none (by simp) (by simp) rfl
    exact ⟨entries, layer, ht⟩
  · rename_i hne
    obtain ⟨family, hf, h⟩ := bind_eq_ok.mp h
    obtain ⟨keys, hk, h⟩ := bind_eq_ok.mp h
    obtain rfl := pure_eq_ok.mp h
    obtain ⟨layerName, hn, -⟩ := map_eq_ok.mp hf
    obtain rfl := familyOf_yields m family hf
    obtain ⟨entries, ht⟩ := groupsTrained_of_keys hl hg (some (m.title, keys))
      (by rintro f ⟨⟩; rw [MagicMapping.title, word_yields _ _ _ hn]; rfl)
      (fun _ => mt isEmpty_iff.mpr hne) hk
    exact ⟨entries, layer, ht⟩

structure Trains (keycodes : Entries) (refs : MacroRefs) (m : MagicMapping) (found : Option TrainedFamily) :
    Prop where
  isName : ∀ f, found = some f → m.baseLayer = .text f.1
  keys : TrainsAll keycodes refs m ((found.map (·.2)).getD [])

theorem magicTraining_eq_ok (ha : LabelsApart keycodes refs m)
    (h : magicTraining keycodes refs layers m = .ok found) : Trains keycodes refs m found := by
  obtain ⟨entries, layer, ht⟩ := magicTraining_groups h
  have htr : ∀ g ∈ grouped (entries.map fun e => (codeOf keycodes refs m e, e)), ∀ pair,
      trainingKey keycodes refs layer m (familyLabel m.title) g.2 = .ok pair →
        predecessors keycodes refs m g.1 ≠ [] ∧ pair.2.binding = .text g.1 ∧
          pair.2.behavior = guardName m g.1 ∧ pair.1.name = guardName m g.1 ∧
          Guards keycodes refs m g.1 pair.1 := by
    intro g hm pair h
    obtain ⟨alternate, triggers, strict, limit, hal, htg, -, rfl⟩ := trainingKey_eq_ok h
    obtain rfl := ht.coded.groupBinding_eq ha hm hal
    obtain ⟨-, hpr, hp⟩ := ht.coded.mem_group hm
    rw [hpr] at htg
    refine ⟨?_, rfl, rfl, rfl, rfl, triggers, strict, limit, htg, rfl⟩
    rw [← hpr]
    exact mt map_eq_nil_iff.mp hp
  refine ⟨ht.isName, fun pair hm => ?_, fun key hp => ?_⟩
  · obtain ⟨g, hg, h⟩ := forall₂_mem_right ht.each hm
    exact ⟨g.1, htr g hg pair h⟩
  · obtain ⟨group, hg⟩ := ht.coded.exists_group hp
    obtain ⟨pair, hm, h⟩ := forall₂_mem_right ht.each.flip hg
    exact ⟨pair, hm, (htr _ hg pair h).2.1⟩

end Groups

end Training

end Keymap.Zmk
