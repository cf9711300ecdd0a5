import Keymap.Proofs.ZmkNodes

namespace Keymap.Zmk

open Devicetree List

variable {known : String → Prop} {keycodes : Entries} {names texts defined : List String}
  {magic : MagicConfig} {name : String} {place : String × String} {requests : List (Result MacroRequest)}
  {typed : Document}

theorem Macro.name_ofDocument (name : String) (typed : Document) :
    Yields (Macro.ofDocument keycodes name typed) fun m => m.name = name := by
  refine Yields.trivial.bind fun pieces _ => ?_
  refine Yields.bind (q := fun m : Macro => m.name = name) ?_ fun m h => ?_
  · exact Yields.trivial.bind fun keys _ => .ok rfl
  · exact Yields.trivial.bind fun _ _ => .ok h

theorem defineMacros_cons {request : Result MacroRequest} {rest : List (Result MacroRequest)}
    (h : defineMacros keycodes defined (request :: rest) = (.ok texts, names)) :
    ∃ name typed, request = .ok (name, typed) ∧
      ((name ∈ defined ∧ defineMacros keycodes defined rest = (.ok texts, names)) ∨
        ∃ m others, Macro.ofDocument keycodes (.text name) typed = .ok m ∧ texts = m.render :: others ∧
          defineMacros keycodes (defined ++ [name]) rest = (.ok others, names)) := by
  cases request with
  | error fault => cases (Prod.mk.inj h).1
  | ok request =>
    obtain ⟨name, typed⟩ := request
    refine ⟨name, typed, rfl, ?_⟩
    rw [defineMacros] at h
    split at h
    · rename_i ht
      exact .inl ⟨contains_iff_mem.mp ht, h⟩
    · cases hm : Macro.ofDocument keycodes (.text name) typed with
      | error fault => rw [hm] at h; cases (Prod.mk.inj h).1
      | ok m =>
        rw [hm] at h
        cases hl : defineMacros keycodes (defined ++ [name]) rest with
        | mk result names' =>
          simp only [hl, Prod.mk.injEq, map_eq_ok] at h
          obtain ⟨⟨others, rfl, rfl⟩, rfl⟩ := h
          exact .inr ⟨m, others, rfl, rfl, rfl⟩

theorem defineMacros_names (hd : defineMacros keycodes defined requests = (.ok texts, names)) :
    (∀ request ∈ requests, ∃ name typed, request = .ok (name, typed) ∧ name ∈ names) ∧
      (∀ name ∈ defined, name ∈ names) ∧ ∀ name ∈ names, name ∈ defined ∨
        (Text.IsIdentifier name → name ≠ "" → Defines texts name) := by
  induction requests generalizing defined texts with
  | nil =>
    obtain ⟨-, rfl⟩ := Prod.mk.inj hd
    exact ⟨fun _ h => (not_mem_nil h).elim, fun _ => id, fun _ => .inl⟩
  | cons request rest ih =>
    obtain ⟨asked, typed, hrq, hs⟩ := defineMacros_cons hd
    rcases hs with ⟨ht, hl⟩ | ⟨m, others, hm, rfl, hl⟩
    · obtain ⟨hr, hk, ha⟩ := ih hl
      refine ⟨fun r h => ?_, hk, ha⟩
      rcases mem_cons.mp h with rfl | hl
      · exact ⟨asked, typed, hrq, hk _ ht⟩
      · exact hr r hl
    · obtain ⟨hr, hk, ha⟩ := ih hl
      refine ⟨fun r h => ?_, fun name h => ?_, fun name h => ?_⟩
      · rcases mem_cons.mp h with rfl | hl
        · exact ⟨asked, typed, hrq, hk _ (mem_append_right _ mem_cons_self)⟩
        · exact hr r hl
      · exact hk name (mem_append_left _ h)
      · rcases ha name h with old | new
        · rcases mem_append.mp old with old | hh
          · exact .inl old
          · obtain rfl := mem_singleton.mp hh
            refine .inr fun hn hp => ⟨m.render, mem_cons_self, ?_⟩
            rw [← Macro.name_ofDocument name typed m hm] at hn hp ⊢
            exact Macro.mem_labels_render hn hp
        · refine .inr fun hn hp => ?_
          obtain ⟨s, h, hf⟩ := new hn hp
          exact ⟨s, mem_cons_of_mem _ h, hf⟩

theorem defineMacros_within (base : KnowsOthers known) (table : TidyTable known keycodes)
    (isNames : ∀ name typed, .ok (name, typed) ∈ requests → Text.IsIdentifier name)
    (done : defineMacros keycodes defined requests = (.ok texts, names)) : AllWithin known texts := by
  induction requests generalizing defined texts with
  | nil =>
    obtain ⟨hs, -⟩ := Prod.mk.inj done
    cases hs
    exact .nil
  | cons request rest ih =>
    have ho := fun name typed hmm => isNames name typed (mem_cons_of_mem _ hmm)
    obtain ⟨asked, typed, rfl, hst⟩ := defineMacros_cons done
    rcases hst with ⟨-, h⟩ | ⟨m, texts, hm, rfl, h⟩
    · exact ih ho h
    · have hnm := isNames asked typed mem_cons_self
      have hc := (Macro.ofDocument_closed base table hnm typed m hm).2
      exact .cons (hc.render base) (ih ho h)

theorem isIdentifier_of_comboRequests {combos : List Combo}
    (isNames : ∀ combo ∈ combos, Text.IsIdentifier combo.title)
    (hm : .ok (name, typed) ∈ comboRequests combos) : Text.IsIdentifier name := by
  obtain ⟨combo, hk, h⟩ := mem_map.mp hm
  obtain ⟨word, hw, h⟩ := bind_eq_ok.mp h
  obtain ⟨rfl, -⟩ := Prod.mk.inj (pure_eq_ok.mp h)
  have hn := isNames combo (mem_filter.mp hk).1
  rw [Combo.title, word_yields _ _ word hw] at hn
  exact Text.IsIdentifier.lower hn

theorem isIdentifier_magicMacroName {layer : String} (hn : Text.IsIdentifier layer)
    (previous : String) : Text.IsIdentifier (magicMacroName layer previous) := by
  unfold magicMacroName
  extract_lets fragment fragment'
  have h : Text.IsIdentifier fragment' := by
    simp only [fragment']
    split
    · refine Text.isIdentifier_append.mpr ⟨by decide, ?_⟩
      refine Text.isIdentifier_join (by decide) fun s hm => ?_
      obtain ⟨c, -, rfl⟩ := mem_map.mp hm
      exact Text.isIdentifier_toString c.toNat
    · exact isIdentifier_labelOf previous
  change Text.IsIdentifier ("magic_" ++ familyLabel layer ++ "_" ++ fragment')
  simp only [Text.isIdentifier_append]
  exact ⟨⟨⟨by decide, isIdentifier_familyLabel hn⟩, by decide⟩, h⟩

theorem textsOf_yields (m : MagicMapping) :
    Yields (textsOf m) fun texts => ∀ text ∈ texts, m.baseLayer = .text text.1.1 := by
  refine (word_yields m.baseLayer "lower").bind fun layer hl => ?_
  refine Yields.trivial.bind fun entries _ => .ok fun text hm => ?_
  obtain ⟨entry, -, h⟩ := mem_filterMap.mp hm
  obtain ⟨previous, alternate⟩ := entry
  dsimp only at h
  split at h
  · cases h
  · cases h
    exact hl

theorem mem_magicTexts {pieces : List String} (h : .ok (place, pieces) ∈ magicTexts magic) :
    ∃ m ∈ magic, m.baseLayer = .text place.1 := by
  induction magic with
  | nil => cases h
  | cons m rest ih =>
    rw [magicTexts] at h
    split at h
    · rename_i texts htx
      rcases mem_append.mp h with hh | hl
      · obtain ⟨text, ht, hs⟩ := mem_map.mp hh
        cases hs
        exact ⟨m, mem_cons_self, textsOf_yields m texts htx _ ht⟩
      · obtain ⟨m', hr, hb⟩ := ih hl
        exact ⟨m', mem_cons_of_mem _ hr, hb⟩
    · cases mem_singleton.mp h

theorem isIdentifier_of_magicRequests (isNames : ∀ m ∈ magic, Text.IsIdentifier m.title)
    (member : .ok (name, typed) ∈ magicRequests magic) : Text.IsIdentifier name := by
  obtain ⟨text, ht, h⟩ := mem_map.mp member
  obtain ⟨⟨place, pieces⟩, rfl, h⟩ := bind_eq_ok.mp h
  obtain ⟨rfl, -⟩ := Prod.mk.inj (Except.ok.inj h)
  obtain ⟨m, hm, hb⟩ := mem_magicTexts ht
  have hn := isNames m hm
  rw [MagicMapping.title, hb] at hn
  exact isIdentifier_magicMacroName hn _

theorem head?_magicMacroName (layer previous : String) :
    (magicMacroName layer previous).toList.head? = some 'm' := by
  unfold magicMacroName
  extract_lets fragment fragment'
  change ("magic_" ++ familyLabel layer ++ "_" ++ fragment').toList.head? = some 'm'
  simp [String.toList_append]

theorem requested_of_magicRefs (hf : (magicRefs magic).lookup place = some name) :
    name.toList.head? = some 'm' ∧ ∃ typed, .ok (name, typed) ∈ magicRequests magic := by
  rcases mem_assignAll (mem_of_lookup hf) with hn | hm
  · cases hn
  · obtain ⟨text, ht, h⟩ := mem_filterMap.mp hm
    cases text with
    | error fault => cases h
    | ok text =>
      cases h
      exact ⟨head?_magicMacroName _ _, _, mem_map.mpr ⟨_, ht, rfl⟩⟩

end Keymap.Zmk
