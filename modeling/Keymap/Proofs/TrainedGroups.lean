import Keymap.Proofs.MagicTraining

namespace Keymap.Zmk

open List

section Alternates

theorem names_assign {β : Type} (name : String) (value : β) (table : List (String × β)) :
    (assign name value table).map (·.1) = insertOnce name (table.map (·.1)) := by
  induction table with
  | nil => rfl
  | cons first rest ih =>
    rw [assign, insertOnce] at *
    by_cases h : first.1 = name
    · simp [h]
    · by_cases hl : name ∈ rest.map (·.1)
      · simp_all
      · have ha : name ∉ (first :: rest).map (·.1) := by
          rw [map_cons, mem_cons, not_or]
          exact ⟨Ne.symm h, hl⟩
        simp_all

theorem names_grouped {β : Type} (pairs : List (String × β)) :
    (grouped pairs).map (·.1) = pairs.foldl (fun seen p => insertOnce p.1 seen) [] := by
  have h : ∀ table : List (String × List β),
      (pairs.foldl (fun table p => assign p.1 ((table.lookup p.1).getD [] ++ [p.2]) table) table).map (·.1) =
        pairs.foldl (fun seen p => insertOnce p.1 seen) (table.map (·.1)) := by
    induction pairs with
    | nil => exact fun _ => rfl
    | cons first rest ih =>
      intro table
      rw [foldl_cons, foldl_cons, ih, names_assign]
  exact h []

def alternates (keycodes : Entries) (refs : MacroRefs) (m : MagicMapping) : List String :=
  (m.mappings.entries?.getD []).foldl (fun seen e => insertOnce (codeOf keycodes refs m e) seen) []

theorem Coded.names_groups {keycodes : Entries} {refs : MacroRefs} {m : MagicMapping} {entries : Entries}
    (h : Coded keycodes refs m entries) :
    (grouped (entries.map fun e => (codeOf keycodes refs m e, e))).map (·.1) = alternates keycodes refs m := by
  rw [names_grouped, foldl_map, alternates, h.isRecord]
  rfl

end Alternates

section Groups

variable {keycodes : Entries} {refs : MacroRefs} {m : MagicMapping} {layers : List CompiledLayer}
  {layer : Option (CompiledLayer × Colocation)} {entries : Entries} {found : Option TrainedFamily}

def trainedAs (m : MagicMapping) (code : String) : Trained where
  binding := .text code
  family := familyLabel m.title
  key := labelOf code
  behavior := guardName m code

theorem GroupsTrained.pair_eq (ht : GroupsTrained keycodes refs layers m entries layer found)
    {pair : AdaptiveKey × Trained} (hm : pair ∈ (found.map (·.2)).getD []) :
    pair.1.name = guardName m pair.1.binding ∧ pair.2 = trainedAs m pair.1.binding := by
  obtain ⟨g, -, h⟩ := forall₂_mem_right ht.each hm
  obtain ⟨alternate, _, _, _, -, -, -, rfl⟩ := trainingKey_eq_ok h
  exact ⟨rfl, rfl⟩

theorem GroupsTrained.eq_none_iff (h : GroupsTrained keycodes refs layers m entries layer found) :
    found = none ↔ m.mappings.entries?.getD [] = [] := by
  rw [h.coded.isRecord]
  refine ⟨fun none => ?_, fun hep => ?_⟩
  · have he := h.each
    rw [none] at he
    have hgr := forall₂_nil_right_iff.mp he
    refine eq_nil_iff_forall_not_mem.mpr fun e hm => ?_
    have hp : (codeOf keycodes refs m e, e) ∈ entries.map fun e => (codeOf keycodes refs m e, e) :=
      mem_map_of_mem hm
    obtain ⟨values, hg⟩ := exists_mem_grouped hp
    rw [hgr] at hg
    cases hg
  · by_contra hs
    exact h.present hs hep

theorem macroRef?_start {magic : MagicConfig} {base : Document} {previous : Field} {name : String}
    (found : macroRef? (magicRefs magic) base previous = some name) : Text.startsWith name "&m" := by
  obtain ⟨ref, h, rfl⟩ := Option.map_eq_some_iff.mp found
  obtain ⟨place, -, h⟩ := Option.bind_eq_some_iff.mp h
  have hs := (requested_of_magicRefs h).1
  obtain ⟨rest, hr⟩ := head?_eq_some_iff.mp hs
  simp [Text.startsWith, hr, isPrefixOf]

theorem GroupsTrained.exists_guard {magic : MagicConfig}
    (ht : GroupsTrained keycodes (magicRefs magic) layers m entries layer found) {code : String}
    (hp : Text.startsWith code "&m" = false) (present : predecessors keycodes (magicRefs magic) m code ≠ []) :
    ∃ pair ∈ (found.map (·.2)).getD [], pair.1.binding = code ∧
      Guards keycodes (magicRefs magic) m code pair.1 := by
  obtain ⟨group, hg⟩ := ht.coded.exists_group present
  obtain ⟨pair, h, hd⟩ := forall₂_mem_right ht.each.flip hg
  obtain ⟨alternate, keys, strict, limit, ha, hk, -, rfl⟩ := trainingKey_eq_ok hd
  obtain ⟨hgr, hpr, -⟩ := ht.coded.mem_group hg
  have hmc : ∀ e ∈ group, macroRef? (magicRefs magic) m.baseLayer e.1 = none := by
    intro e h
    by_contra hs
    obtain ⟨name, hm⟩ := Option.ne_none_iff_exists'.mp hs
    obtain ⟨he, hc⟩ := hgr e h
    have hn := ht.coded.bindingOf_eq he
    rw [bindingOf_of_ref hm, hc] at hn
    obtain rfl : name = code := Document.text.inj hn
    rw [macroRef?_start hm] at hp
    cases hp
  obtain rfl : alternate = code := ht.coded.groupBinding_of_alike hg
    (fun e h e' hmm => by rw [hmc e h, hmc e' hmm]) ha
  rw [hpr] at hk
  exact ⟨_, h, rfl, rfl, keys, strict, limit, hk, rfl⟩

end Groups

end Keymap.Zmk
