import Keymap.Proofs.ZmkTraining
import Keymap.Zmk.Layers

namespace Keymap.Zmk

open Devicetree List

variable {known : String → Prop} {replacements : Replacements} {keys : List Document} {size : LayoutSize}

theorem mem_of_mem_splitRows {α : Type} {widths : List Nat} {xs row : List α} {x : α}
    (h : row ∈ splitRows widths xs) (hm : x ∈ row) : x ∈ xs := by
  induction widths generalizing xs with
  | nil => cases h
  | cons width rest ih =>
    rcases mem_cons.mp h with rfl | hl
    · exact mem_of_mem_take hm
    · exact mem_of_mem_drop (ih hl)

theorem mem_of_mem_bindingRows {α : Type} {keys row : List α} {key : α}
    (h : row ∈ bindingRows size keys) (hm : key ∈ row) : key ∈ keys := by
  unfold bindingRows at h
  split at h
  · exact mem_of_mem_splitRows h hm
  · exact mem_of_mem_splitRows h hm
  · exact mem_of_mem_splitRows h hm
  · exact mem_of_mem_chunks h hm
  · exact mem_of_mem_chunks h hm

theorem joinTexts_within (hw : KeysWithin known keys) :
    Yields (Document.joinTexts " " keys) (Within known) := by
  have texts : ∀ i, Yields (Document.checkTextsFrom i keys) fun texts => AllWithin known texts := by
    induction keys with
    | nil => exact fun i => .ok .nil
    | cons key rest ih =>
      intro i
      have ho := ih fun key hl => hw key (mem_cons_of_mem _ hl)
      have hh := hw key mem_cons_self
      cases key with
      | text s => exact .map ((ho (i + 1)).mono fun texts h => .cons hh h)
      | null | flag _ | whole _ | decimal _ | list _ | record _ => exact .error
  exact .map ((texts 0).mono fun texts h => within_join " " (by decide) (by decide) (by decide) h)

theorem bindingsText_within (hw : KeysWithin known keys) : Yields (bindingsText size keys) (Within known) := by
  refine Yields.bind (.mapM_all fun row hrw => joinTexts_within fun key h =>
    hw key (mem_of_mem_bindingRows hrw h)) fun rows he => .ok ?_
  apply within_unlines
  intro s h
  obtain ⟨row, hr, rfl⟩ := mem_map.mp h
  exact (he row hr).quiet_append (by decide)

theorem replaceBindings_within {r : List (Document × String)} (h : ∀ e ∈ r, Within known e.2)
    (hw : KeysWithin known keys) : Yields (replaceBindings r keys) (KeysWithin known) := by
  refine .mapM_all fun key hm => Yields.trivial.bind fun _ _ => .ok ?_
  cases hf : r.find? fun e => e.1.same key with
  | none => exact hw key hm
  | some e => exact h e (mem_of_find?_eq_some hf)

theorem applicable_within (hw : ReplacementsWithin known replacements) (magic : Option MagicConfig)
    (layer : String) :
    Yields (applicable replacements magic layer) fun groups =>
      ∀ group ∈ groups, ∀ e ∈ group, Within known e.2 := by
  have hn : ∀ (name : Option String) group,
      group ∈ (name.bind fun name => replacements.lookup name).toList →
        ∀ e ∈ group, Within known e.2 := by
    intro name group h
    obtain ⟨name, -, hf⟩ := Option.bind_eq_some_iff.mp (Option.mem_toList.mp h)
    exact hw _ (mem_of_lookup hf)
  unfold applicable
  split
  · refine Yields.trivial.bind fun mapping _ => ?_
    split
    · exact .ok (hn _)
    · apply Yields.ok
      intro group h
      obtain ⟨entry, ht, rfl⟩ := mem_map.mp h
      exact hw entry ht
  · exact .ok (hn (some layer))

theorem trainedKeys_within (within : ReplacementsWithin known replacements) (magic : Option MagicConfig)
    (name : String) (h : KeysWithin known keys) :
    Yields (trainedKeys replacements magic name keys) (KeysWithin known) := by
  unfold trainedKeys
  split
  · exact .ok h
  · refine (applicable_within within magic name).bind fun groups he => ?_
    -- The groups are applied one after the other, each to what the ones before it left.
    induction groups generalizing keys with
    | nil => exact .ok h
    | cons group rest ih =>
      rw [foldlM_cons]
      refine (replaceBindings_within (he group mem_cons_self) h).bind fun replaced hw => ?_
      exact ih hw fun group hl => he group (mem_cons_of_mem _ hl)

theorem layerNode_within (hw : ReplacementsWithin known replacements) {magic : Option MagicConfig}
    {layer : CompiledLayer} (hn : Text.IsIdentifier layer.name.toText) (h : KeysWithin known layer.keycodes) :
    Yields (layerNode size replacements magic layer) (Within known) := by
  refine (word_yields _ _).bind fun name ht => ?_
  refine (trainedKeys_within hw magic name h).bind fun keys h => ?_
  refine (bindingsText_within h).bind fun text htw => .ok ?_
  rw [ht] at hn
  refine within_unlines (.cons ?_ (.literal (by decide) (.cons htw ?_)))
  · apply Lacks.within
    simp only [lacks_append]
    exact ⟨⟨lacks_literal (by decide), lacks_of_isIdentifier (Text.IsIdentifier.lower hn)⟩,
      lacks_literal (by decide)⟩
  · exact .literal (by decide) (.literal (by decide) .nil)

end Keymap.Zmk
