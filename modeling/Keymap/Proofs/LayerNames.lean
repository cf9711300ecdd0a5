import Keymap.Proofs.BoardFiles
import Keymap.Proofs.Enumerations
import Keymap.Proofs.ReadingOrder

namespace Keymap

open List

variable {b : Board} {config : KeymapConfig}

theorem Text.isBlank_of_isAlphanumeric {c : Char} (hn : isAlphanumeric c) : isBlank c = false := by
  -- The blanks are few enough to go through all of them.
  have all : ∀ r ∈ blankRanges, ∀ k < r.2 + 1 - r.1, isAlphanumeric (Char.ofNat (r.1 + k)) = false := by
    decide +kernel
  by_contra h
  rw [Bool.not_eq_false, isBlank, inRanges, any_eq_true] at h
  obtain ⟨r, hrn, hr⟩ := h
  simp only [Bool.and_eq_true, decide_eq_true_iff] at hr
  have ho := all r hrn (c.toNat - r.1) (by omega)
  rw [Nat.add_sub_cancel' hr.1, Char.ofNat_toNat, hn] at ho
  cases ho

theorem Layer.isWord_of_isName {name : String} (h : isName name) : Text.IsWord name := by
  simp only [isName, Bool.and_eq_true, Bool.not_eq_true', all_eq_true] at h
  obtain ⟨⟨-, hpr⟩, hp⟩ := h
  constructor
  · rintro rfl
    exact absurd hpr (by decide)
  · intro c hmm
    -- Underscores are taken out before the characters are looked at.
    by_cases hu : c = '_'
    · subst hu
      decide
    · have hk : c ∈ (Text.replace "_" "" name).toList := by
        simpa [Text.replace] using Text.mem_replaceFrom_of_ne hmm hu
      have hn := hp c hk
      refine ⟨Text.isBlank_of_isAlphanumeric hn, fun hm => ?_⟩
      simp only [mem_cons, not_mem_nil, or_false] at hm
      rcases hm with rfl | rfl | rfl | rfl <;> exact absurd hn (by decide)

structure Layer.Checked (layer : Layer) : Prop where
  keys : layer.core ≠ none ∨ layer.fullLayout ≠ none
  core : ∀ grid, layer.core = some grid → grid.flatten.length = 36
  name : ∃ name, layer.name = .text name ∧ Layer.isName name = true

theorem Layer.checked_of_validate {layer : Layer} (h : layer.validate = .ok ()) :
    layer.Checked := by
  unfold Layer.validate at h
  obtain ⟨hp, h⟩ := check_eq_ok.mp h
  have hk : layer.core ≠ none ∨ layer.fullLayout ≠ none := by
    simpa [Classical.or_iff_not_imp_left] using hp
  have hn : ∀ {message : String}, (do
      let name ← layer.name.word "isupper"
      if (!isName name) = true then invalid message else pure ()) = .ok () →
      ∃ name, layer.name = .text name ∧ isName name := by
    intro message hch
    obtain ⟨name, ht, hch⟩ := bind_eq_ok.mp hch
    refine ⟨name, ?_, ?_⟩
    · cases hd : layer.name with
      | text other =>
        rw [hd] at ht
        rw [Except.ok.inj ht]
      | _ => rw [hd] at ht; cases ht
    · by_contra bad
      rw [Bool.not_eq_true] at bad
      simp [bad, invalid] at hch
  cases hc : layer.core with
  | none =>
    simp only [hc] at h
    refine ⟨hk, fun grid some => ?_, hn h⟩
    cases hc.symm.trans some
  | some grid =>
    simp only [hc] at h
    obtain ⟨hs, h⟩ := check_eq_ok.mp h
    refine ⟨hk, fun other some => ?_, hn h⟩
    obtain rfl := Option.some.inj (hc.symm.trans some)
    simpa using hs

namespace KeymapConfig

def Named (config : KeymapConfig) : Prop :=
  ∀ layer ∈ config.layers, ∃ name, layer.name = .text name ∧ Text.IsWord name

theorem checked_of_validate (h : config.validate = .ok ()) : ∀ layer ∈ config.layers, layer.Checked := by
  intro layer hm
  obtain ⟨_, -, h⟩ := bind_eq_ok.mp h
  exact Layer.checked_of_validate (forM_eq_ok.mp h layer hm)

theorem named_of_validate (hd : config.validate = .ok ()) : config.Named := by
  intro layer hm
  obtain ⟨name, ht, h⟩ := (checked_of_validate hd layer hm).name
  exact ⟨name, ht, Layer.isWord_of_isName h⟩

end KeymapConfig

namespace Reading

variable {d : Document} {name : Field} {new : Layer}

theorem optional_eq_some {α : Type} {field : String} {read : Document → Result α} {a : α}
    (h : optional d field read = .ok (some a)) :
    (∃ fields, d = .record fields) ∧ ∃ value, read value = .ok a := by
  obtain ⟨given, -, h⟩ := bind_eq_ok.mp h
  cases given with
  | false => cases h
  | true =>
    obtain ⟨value, hv, h⟩ := bind_eq_ok.mp h
    obtain ⟨_, hr, hs⟩ := bind_eq_ok.mp h
    obtain rfl := Option.some.inj (pure_eq_ok.mp hs)
    refine ⟨?_, value, hr⟩
    cases d with
    | record fields => exact ⟨fields, rfl⟩
    | _ => cases hv

theorem layer_eq_ok (h : layer name d = .ok new) : (∃ fields, d = .record fields) ∧ new.name = name.toDocument ∧
      optional d "core" (core name.text) = .ok new.core ∧
      optional d "full_layout" (fullLayout name.text) = .ok new.fullLayout ∧
      (optional d "extensions" extensions).map (·.getD []) = .ok new.extensions := by
  obtain ⟨grid, hc, h⟩ := bind_eq_ok.mp h
  obtain ⟨full, hf, h⟩ := bind_eq_ok.mp h
  obtain ⟨hp, h⟩ := check_eq_ok.mp h
  obtain ⟨added, ha, h⟩ := bind_eq_ok.mp h
  obtain rfl := pure_eq_ok.mp h
  refine ⟨?_, rfl, hc, hf, by rw [ha]; rfl⟩
  cases grid with
  | some _ => exact (optional_eq_some hc).1
  | none =>
    cases full with
    | some _ => exact (optional_eq_some hf).1
    | none => exact absurd rfl hp

theorem extensions_validated (hd : layer name d = .ok new) : ∀ e ∈ new.extensions, e.validate = .ok () := by
  obtain ⟨-, -, -, -, h⟩ := layer_eq_ok hd
  obtain ⟨added, h, he⟩ := map_eq_ok.mp h
  rw [← he]
  cases added with
  | none => simp
  | some read =>
    obtain ⟨-, value, hr⟩ := optional_eq_some h
    obtain ⟨entries, -, hr⟩ := bind_eq_ok.mp hr
    intro e hm
    obtain ⟨entry, -, one⟩ := forall₂_mem_right (mapM_eq_ok.mp hr) hm
    obtain ⟨_, hc, hs⟩ := bind_eq_ok.mp one
    rw [← pure_eq_ok.mp hs]
    exact hc

theorem keymap_parts {overlay : Option Document} {shared : Sharing} (h : keymap d overlay shared = .ok config) :
    ∃ layers entries, d.get? "layers" = some layers ∧
      applyOverlay shared.layers layers overlay = .ok (.record entries) ∧
      Forall₂ (fun e l => layer e.1 e.2 = .ok l) entries config.layers ∧
      config.validate = .ok () ∧ d.findD "metadata" (.record []) = .ok config.metadata ∧
      (d.findD "behaviors" (.record []) >>= Behaviors.ofDocument) = .ok config.behaviors := by
  obtain ⟨layers, hl, h⟩ := bind_eq_ok.mp h
  obtain ⟨changed, hch, h⟩ := bind_eq_ok.mp h
  obtain ⟨entries, he, h⟩ := bind_eq_ok.mp h
  obtain ⟨read, hr, h⟩ := bind_eq_ok.mp h
  obtain ⟨_, -, h⟩ := bind_eq_ok.mp h
  obtain ⟨metadata, hm, h⟩ := bind_eq_ok.mp h
  obtain ⟨_, hg, h⟩ := bind_eq_ok.mp h
  obtain ⟨behaviors, hb, h⟩ := bind_eq_ok.mp h
  obtain ⟨_, hc, h⟩ := bind_eq_ok.mp h
  obtain rfl := pure_eq_ok.mp h
  cases changed with
  | record _ =>
    obtain rfl := Except.ok.inj he
    exact ⟨layers, _, requireSection_eq_ok.mp hl, hch, mapM_eq_ok.mp hr, hc, hm, bind_eq_ok.mpr ⟨_, hg, hb⟩⟩
  | _ => cases he

end Reading

theorem OneShot.named_addShadows {result : KeymapConfig} (named : config.Named)
    (h : addShadows config = .ok result) : result.Named := by
  obtain ⟨targets, -, h⟩ := bind_eq_ok.mp h
  obtain ⟨_, -, h⟩ := bind_eq_ok.mp h
  obtain ⟨_, -, h⟩ := bind_eq_ok.mp h
  obtain rfl := pure_eq_ok.mp h
  intro layer hm
  rcases mem_append.mp hm with ho | hs
  · obtain ⟨source, hc, rfl⟩ := mem_map.mp ho
    exact named source hc
  · obtain ⟨source, ht, rfl⟩ := mem_map.mp hs
    obtain ⟨name, htx, hp, hsl⟩ := named source (mem_filter.mp ht).1
    refine ⟨shadowName source.title, rfl, ?_, ?_⟩
    · simp [shadowName]
    · have he : Text.IsWord "_SHADOW" := by decide
      have htt : source.title = name := by
        rw [Layer.title, htx]
        rfl
      intro c hn
      rw [shadowName, htt, String.toList_append, mem_append] at hn
      rcases hn with hf | hed
      · exact hsl c hf
      · exact he.2 c hed

namespace Generate

def layersFor (b : Board) (keymap : KeymapConfig) : List Document :=
  (keymap.layers.filter (included b)).map (·.name)

theorem compileLayers_names {verbose : Bool} {layers : List Layer} {s s' : Session}
    {compiled : List CompiledLayer} (h : (compileLayers verbose b layers).run.run s = (.ok compiled, s')) :
    compiled.map (·.name) = (layers.filter (included b)).map (·.name) := by
  have hn := (compileLayers_included h).imp fun _ _ he => he.1.symm
  rw [← forall₂_eq_eq_eq, forall₂_map_left_iff, forall₂_map_right_iff]
  exact hn.flip.imp fun _ _ hs => hs.symm

theorem readBoard_returns {c : Configuration} (options : Options) {P : KeymapConfig → Prop}
    (reads : ∀ found lost, Returns (boardKeymap c b found lost) P) :
    Returns (readBoard c options b) fun keymap =>
      ∃ source, P source ∧ OneShot.addShadows source = .ok keymap := by
  have h : ∀ found lost, Returns (Run.work (boardKeymap c b found lost) >>= fun source =>
      liftM (OneShot.addShadows source)) fun keymap =>
        ∃ source, P source ∧ OneShot.addShadows source = .ok keymap := by
    intro found lost
    have hr : Returns (Run.work (boardKeymap c b found lost)) P := fun s => reads found lost s.workspace
    exact hr.bind fun source hh => .lifted fun keymap hd => ⟨source, hh, hd⟩
  unfold readBoard
  refine Returns.any.bind fun _ _ => .ite ?_ (h _ _)
  exact Returns.any.bind fun _ _ => h _ _

section Reading

variable {c : Configuration} (valid : c.keymap.validate = .ok ()) (b)

include valid

theorem boardKeymap_validate (found lost : Work Unit) :
    Returns (boardKeymap c b found lost) fun keymap => keymap.validate = .ok () := by
  have h : ∀ d upper shared, Returns (liftM (Reading.keymap d upper shared) : Work KeymapConfig)
      fun keymap => keymap.validate = .ok () :=
    fun d upper shared => .lifted fun keymap hd => by
      obtain ⟨_, _, -, -, -, valid, -⟩ := Reading.keymap_parts hd
      exact valid
  have own : ∀ path, Returns (Reading.keymapFile (some path))
      fun keymap => keymap.validate = .ok () := by
    intro path
    refine Returns.any.bind fun _ _ => Returns.any.bind fun d _ => Returns.any.bind fun shared _ => ?_
    refine Returns.any.bind fun there _ => .ite ?_ (h d _ _)
    exact Returns.any.bind fun _ _ => Returns.any.bind fun _ _ => h d _ _
  unfold boardKeymap
  refine .ite (Returns.any.bind fun path _ => Returns.any.bind fun there _ => ?_) (.pure valid)
  exact .ite (Returns.any.bind fun _ _ => own path) (Returns.any.bind fun _ _ => .pure valid)

theorem readBoard_named (options : Options) : Returns (readBoard c options b) fun keymap => keymap.Named := by
  intro s keymap hd
  obtain ⟨source, h, hs⟩ := readBoard_returns options (boardKeymap_validate b valid) s keymap hd
  exact OneShot.named_addShadows (KeymapConfig.named_of_validate h) hs

end Reading

theorem makeFiles_layers {c : Configuration} {options : Options} {keymap : KeymapConfig} {s s' : Session}
    {made : Generated} (h : (makeFiles c options b keymap).run.run s = (.ok (some made), s')) :
    made.layers = layersFor b keymap := by
  obtain ⟨layers, _, _, -, hc, hl, -⟩ := makeFiles_eq_some h
  rw [hl, layersFor, compileLayers_names hc]

end Generate

end Keymap
