import Keymap.Proofs.OneShotKeys

namespace Keymap

open List

namespace KeymapConfig

/-- A one-shot key names a layer of the keymap by a text without a colon. All other keys are sound. -/
def SoundKey (config : KeymapConfig) (code : String) : Prop :=
  ∀ rest, code = "osl:" ++ rest → (rest ≠ "" ∧ ':' ∉ rest.toList) ∧ config.IsLayer rest

/-- All keys are sound, and the names of the shadows are free. -/
def Clear (config : KeymapConfig) : Prop :=
  (∀ layer ∈ config.layers, ∀ code, layer.HasKey code → config.SoundKey code) ∧
    ∀ name, config.NeedsShadow name → ¬ config.IsLayer (name ++ "_SHADOW")

/-- On the layer at index `i`, a key that reads `old` is to read `new`: one-shot keys that hold that
layer or an earlier one are pointed at its shadow. -/
def Redirected (config : KeymapConfig) (i : Nat) (old new : String) : Prop :=
  (∃ name, old = "osl:" ++ name ∧ config.IsUpTo i name ∧ new = "osl:" ++ name ++ "_SHADOW") ∨
    (¬ ∃ name, old = "osl:" ++ name ∧ config.IsUpTo i name) ∧ new = old

/-- As before, but a list of keys that several layers have may be rewritten for any of them. -/
def Rewritten (config : KeymapConfig) (i : Nat) (old new : String) : Prop :=
  (∃ name, old = "osl:" ++ name ∧ config.NeedsShadow name ∧ new = "osl:" ++ name ++ "_SHADOW") ∨
    (¬ ∃ name, old = "osl:" ++ name ∧ config.IsUpTo i name) ∧ new = old

/-- The layers in their order, each of them rewritten, and then the shadows. -/
structure ShadowsAdded (config result : KeymapConfig) (R : Nat → String → String → Prop) : Prop where
  behaviors : result.behaviors = config.behaviors
  metadata : result.metadata = config.metadata
  layers : ∃ originals targets shadows, result.layers = originals ++ shadows ∧
    originals.length = config.layers.length ∧
    (∀ (i : Nat) (old new : Layer), config.layers[i]? = some old → originals[i]? = some new →
      old.Reads (R i) new) ∧
    List.Sublist targets config.layers ∧
    (∀ layer ∈ config.layers, layer ∈ targets ↔ ∃ name, layer.name = .text name ∧ config.NeedsShadow name) ∧
    List.Forall₂ (fun target shadow : Layer => ∃ name, target.name = .text name ∧
      shadow = { target with name := .text (name ++ "_SHADOW") }) targets shadows

namespace ShadowsAdded

variable {config result : KeymapConfig} {R : Nat → String → String → Prop}

theorem original (ha : config.ShadowsAdded result R) {i : Nat} {old : Layer}
    (hf : config.layers[i]? = some old) : ∃ new, result.layers[i]? = some new ∧ old.Reads (R i) new := by
  obtain ⟨originals, targets, shadows, hr, hs, hrd, -, -, -⟩ := ha.layers
  have h : i < originals.length := by
    rw [hs]
    exact (List.getElem?_eq_some_iff.mp hf).1
  have ht : originals[i]? = some originals[i] := getElem?_eq_getElem h
  exact ⟨originals[i], by rw [hr, getElem?_append_left h, ht],
    hrd i old _ hf ht⟩

theorem shadow (ha : config.ShadowsAdded result R) {layer : Layer} {name : String}
    (hm : layer ∈ config.layers) (h : layer.name = .text name)
    (needed : config.NeedsShadow name) : ∃ i ≥ config.layers.length,
      result.layers[i]? = some { layer with name := .text (name ++ "_SHADOW") } := by
  obtain ⟨originals, targets, shadows, hr, hsz, -, -, htr, hc⟩ := ha.layers
  have ht := (htr layer hm).mpr ⟨name, h, needed⟩
  obtain ⟨shadow, hs, name', hn, rfl⟩ := forall₂_mem_right hc.flip ht
  obtain rfl := Document.text.inj (h.symm.trans hn)
  obtain ⟨k, hp⟩ := mem_iff_getElem?.mp hs
  refine ⟨originals.length + k, by omega, ?_⟩
  rw [hr, getElem?_append_right (by omega), Nat.add_sub_cancel_left, hp]

theorem layer_cases (ha : config.ShadowsAdded result R) {i : Nat} {new : Layer}
    (h : result.layers[i]? = some new) : (∃ old, config.layers[i]? = some old ∧ old.Reads (R i) new) ∨
      config.layers.length ≤ i ∧ ∃ layer ∈ config.layers, ∃ name, layer.name = .text name ∧
        config.NeedsShadow name ∧ new = { layer with name := .text (name ++ "_SHADOW") } := by
  by_cases hb : i < config.layers.length
  · obtain ⟨new', hf, hrd⟩ := ha.original (getElem?_eq_getElem hb)
    obtain rfl := Option.some.inj (h.symm.trans hf)
    exact .inl ⟨_, getElem?_eq_getElem hb, hrd⟩
  · obtain ⟨originals, targets, shadows, hr, hs, -, sub, htr, hc⟩ := ha.layers
    rw [hr, getElem?_append_right (by omega)] at h
    obtain ⟨layer, ht, name, hn, hcp⟩ := forall₂_mem_right hc (mem_of_getElem? h)
    have hm := sub.subset ht
    obtain ⟨name', hnm, hnd⟩ := (htr layer hm).mp ht
    obtain rfl := Document.text.inj (hn.symm.trans hnm)
    exact .inr ⟨by omega, layer, hm, name, hn, hnd, hcp⟩

end ShadowsAdded

/-- Every one-shot key holds a layer that comes after the one it is on. -/
def CollisionFree (config : KeymapConfig) : Prop :=
  ∀ (i : Nat) (source : Layer) (name : String), config.layers[i]? = some source →
    source.HasKey ("osl:" ++ name) →
    ∃ j > i, ∃ layer, config.layers[j]? = some layer ∧ layer.name = .text name

end KeymapConfig

namespace OneShot

variable {config result : KeymapConfig} {i : Nat} {layer source : Layer} {targets : List String} {code : String}

theorem oneShot_inj {a b : String} : "osl:" ++ a = "osl:" ++ b ↔ a = b := by
  rw [← String.toList_inj, ← String.toList_inj, String.toList_append, String.toList_append,
    append_cancel_left_eq]

theorem collisionsIn_requires (wf : config.WellFormed) (hf : config.layers[i]? = some source)
    (codes : List String) : Requires (∀ code ∈ codes, config.SoundKey code)
      (collisionsIn (config.layers.map (·.name)) source.name codes)
      fun names => ∀ name, name ∈ names ↔ "osl:" ++ name ∈ codes ∧ config.IsUpTo i name := by
  induction codes with
  | nil => exact (Requires.ok_of rfl (by simp)).congr (by simp)
  | cons code rest ih =>
    by_cases ho : isOneShot code
    · obtain ⟨name, rfl⟩ := isOneShot_iff.mp ho
      have hsn : config.SoundKey ("osl:" ++ name) ↔
          (name ≠ "" ∧ ':' ∉ name.toList) ∧ config.IsLayer name := by
        constructor
        · exact fun hsn => hsn name rfl
        · intro hg other hs
          rwa [← oneShot_inj.mp hs]
      simp only [collisionsIn, ho, if_true]
      refine ((target_requires source.name name).bind fun other hhl =>
        ih.bind fun others hc => Requires.ok_of rfl ?_).congr ?_
      · obtain ⟨rfl, hl⟩ := hhl
        intro name
        have hh := collides_iff wf hf hl
        split
        · rename_i hcl
          rw [mem_cons, mem_cons, hc, oneShot_inj]
          constructor
          · rintro (rfl | ⟨hm, h⟩)
            · exact ⟨.inl rfl, hh.mp hcl⟩
            · exact ⟨.inr hm, h⟩
          · rintro ⟨rfl | hm, h⟩
            · exact .inl rfl
            · exact .inr ⟨hm, h⟩
        · rename_i hfr
          rw [mem_cons, hc, oneShot_inj]
          constructor
          · exact fun ⟨hm, h⟩ => ⟨.inr hm, h⟩
          · rintro ⟨rfl | hm, h⟩
            · exact absurd (hh.mpr h) hfr
            · exact ⟨hm, h⟩
      · simp [hsn]
    · have hp : ∀ name, code ≠ "osl:" ++ name :=
        fun name hs => ho (isOneShot_iff.mpr ⟨name, hs⟩)
      have hsn : config.SoundKey code := fun name hs => absurd hs (hp name)
      simp only [collisionsIn, ho]
      refine (ih.congr (by simp [hsn])).mono fun names hc name => ?_
      rw [hc, mem_cons]
      constructor
      · exact fun ⟨hm, h⟩ => ⟨.inr hm, h⟩
      · rintro ⟨hs | hm, h⟩
        · exact absurd hs.symm (hp name)
        · exact ⟨hm, h⟩

theorem collisions_requires (wf : config.WellFormed) (hf : config.layers[i]? = some source) :
    Requires (∀ code, source.HasKey code → config.SoundKey code)
      (collisions (config.layers.map (·.name)) source) fun names => ∀ name, name ∈ names ↔
        source.HasKey ("osl:" ++ name) ∧ config.IsUpTo i name := by
  have hr := wf.records source (mem_of_getElem? hf)
  have hec : ∀ e ∈ source.extensions,
      Requires (∀ codes, e.codes = .ok codes → ∀ code ∈ codes, config.SoundKey code)
        (do collisionsIn (config.layers.map (·.name)) source.name (← e.codes))
        fun names => ∀ name, name ∈ names ↔
          (∃ codes, e.codes = .ok codes ∧ "osl:" ++ name ∈ codes) ∧ config.IsUpTo i name := by
    intro e h
    obtain ⟨entries, hrc⟩ := hr e h
    obtain ⟨codes, hd, -⟩ := Extension.mem_codes e entries "" hrc
    have hsc := collisionsIn_requires wf hf codes
    rw [hd]
    refine (hsc.congr ?_).mono fun names hc name => ?_
    · simp
    · rw [hc]
      simp
  refine ((collisionsIn_requires wf hf _).bind fun inGrids hc =>
    (Requires.mapM hec).bind fun inExtensions ho => Requires.ok_of rfl ?_).congr ?_
  · intro name
    rw [mem_append, hc, mem_flatten_of_forall₂ ho, Layer.hasKey_iff hr]
    constructor
    · rintro (⟨inGrids, hu⟩ | ⟨e, h, he, hu⟩)
      · exact ⟨.inl inGrids, hu⟩
      · exact ⟨.inr ⟨e, h, he⟩, hu⟩
    · rintro ⟨inGrids | ⟨e, h, he⟩, hu⟩
      · exact .inl ⟨inGrids, hu⟩
      · exact .inr ⟨e, h, he, hu⟩
  · simp only [Layer.hasKey_iff hr, and_true]
    constructor
    · rintro ⟨inGrids, inExtensions⟩ code (hm | ⟨e, h, codes, hd, hm⟩)
      · exact inGrids code hm
      · exact inExtensions e h codes hd code hm
    · intro hs
      exact ⟨fun code hm => hs code (.inl hm), fun e h codes hd code hm => hs code (.inr ⟨e, h, codes, hd, hm⟩)⟩

theorem targets_requires (wf : config.WellFormed) :
    Requires (∀ layer ∈ config.layers, ∀ code, layer.HasKey code → config.SoundKey code)
      (config.layers.mapM (collisions (config.layers.map (·.name))))
      fun lists => ∀ name, name ∈ lists.flatten ↔ config.NeedsShadow name := by
  have he : ∀ layer ∈ config.layers,
      Requires (∀ code, layer.HasKey code → config.SoundKey code)
        (collisions (config.layers.map (·.name)) layer)
        fun names => ∀ name, name ∈ names ↔ ∃ i, config.layers[i]? = some layer ∧
          layer.HasKey ("osl:" ++ name) ∧ config.IsUpTo i name := by
    intro layer hm
    obtain ⟨i, h⟩ := mem_iff_getElem?.mp hm
    refine (collisions_requires wf h).mono fun names hc name => ?_
    rw [hc]
    constructor
    · exact fun ⟨key, hu⟩ => ⟨i, h, key, hu⟩
    · rintro ⟨j, hf, key, hu⟩
      obtain rfl : i = j := by rw [← findIdx_same wf h, findIdx_same wf hf]
      exact ⟨key, hu⟩
  refine (Requires.mapM he).mono fun lists hr name => ?_
  rw [mem_flatten_of_forall₂ hr]
  constructor
  · rintro ⟨layer, -, i, h, key, hu⟩
    exact ⟨i, layer, h, key, hu⟩
  · rintro ⟨i, layer, h, key, hu⟩
    exact ⟨layer, mem_of_getElem? h, i, h, key, hu⟩

theorem checkFree_requires (name : String) : Requires (¬ config.IsLayer (name ++ "_SHADOW"))
      (checkFree (config.layers.map (·.name)) name) fun _ => True := by
  by_cases ht : isNamed (config.layers.map (·.name)) (shadowName name)
  · have hp : config.IsLayer (name ++ "_SHADOW") := isNamed_iff.mp ht
    refine ⟨fun hf => absurd hp hf, fun _ => ?_⟩
    simp only [checkFree, ht, if_true]
    exact ⟨_, rfl⟩
  · have ha : ¬ config.IsLayer (name ++ "_SHADOW") := fun h => ht (isNamed_iff.mpr h)
    refine (Requires.ok_of (a := ()) ?_ trivial).congr (by simp [ha])
    simp only [checkFree, ht]
    rfl

section Redirecting

variable {names holders : List Document} {holder : Document} {name : String}

theorem redirect_oneShot (good : name ≠ "" ∧ ':' ∉ name.toList) :
    redirect names targets holder ("osl:" ++ name) =
      if isNamed names name && targets.contains name && collides names holder name then
        "osl:" ++ shadowName name else "osl:" ++ name := by
  simp [redirect, target?_oneShot_eq_some.mpr ⟨rfl, good⟩, isOneShot_iff.mpr ⟨name, rfl⟩]

theorem redirect_of_unnamed (unnamed : isNamed names name = false) :
    redirect names targets holder ("osl:" ++ name) = "osl:" ++ name := by
  rw [redirect]
  split
  · rename_i isTarget
    obtain ⟨rfl, -⟩ := target?_oneShot_eq_some.mp isTarget
    simp [unnamed]
  · rfl

theorem redirect_of_not_oneShot (other : ¬ isOneShot code) : redirect names targets holder code = code := by
  rw [redirect]
  split
  · simp [other]
  · rfl

theorem redirectAll_of_fixed (fixed : ∀ holder, redirect names targets holder code = code) :
    redirectAll names targets holders code = code := by
  induction holders with
  | nil => rfl
  | cons holder rest ih => rwa [redirectAll, foldl_cons, fixed]

theorem redirectAll_oneShot (good : name ≠ "" ∧ ':' ∉ name.toList)
    (free : name ∈ targets → isNamed names (shadowName name) = false) :
    redirectAll names targets holders ("osl:" ++ name) =
      if isNamed names name && targets.contains name && holders.any (collides names · name) then
        "osl:" ++ shadowName name else "osl:" ++ name := by
  induction holders with
  | nil => simp [redirectAll]
  | cons holder rest ih =>
    rw [redirectAll, foldl_cons, redirect_oneShot good, ← redirectAll]
    by_cases turned : isNamed names name && targets.contains name && collides names holder name
    · -- Once redirected, a key stays as it is, for no layer has the name of the shadow.
      simp only [Bool.and_eq_true, contains_iff_mem] at turned
      rw [if_pos (by simpa using turned), redirectAll_of_fixed fun _ => redirect_of_unnamed (free turned.1.2),
        if_pos (by simp [turned])]
    · rw [if_neg turned, ih, any_cons]
      simp only [Bool.and_eq_true, contains_iff_mem] at turned
      by_cases named : isNamed names name ∧ name ∈ targets
      · simp [named, mt (And.intro named) turned]
      · rw [if_neg (by simp; tauto), if_neg (by simp; tauto)]

end Redirecting

theorem mem_sharers_self {α : Type} [BEq α] [LawfulBEq α] (groups : List (List α)) (a : α) :
    a ∈ sharers groups a := by
  rw [sharers]
  cases found : groups.find? fun group => group.contains a with
  | none => exact mem_singleton_self a
  | some group => simpa using find?_some found

theorem title_of_wellFormed (wf : config.WellFormed) (member : layer ∈ config.layers) :
    layer.name = .text layer.title := by
  obtain ⟨name, named⟩ := wf.named layer member
  rw [Layer.title, named]
  rfl

section Rewriting

variable {sources : List Document} (targeted : ∀ name, name ∈ targets ↔ config.NeedsShadow name)

include targeted

theorem mem_needShadow : layer ∈ needShadow config targets ↔
      layer ∈ config.layers ∧ ∃ name, layer.name = .text name ∧ config.NeedsShadow name := by
  rw [needShadow, mem_filter, and_congr_right_iff]
  intro member
  simp only [any_eq_true, isWord_iff, targeted]
  exact exists_congr fun name => and_comm

theorem checkFree_all_requires (wf : config.WellFormed) :
    Requires (∀ name, config.NeedsShadow name → ¬ config.IsLayer (name ++ "_SHADOW"))
      ((needShadow config targets).forM fun layer => checkFree (config.layers.map (·.name)) layer.title)
      fun _ => True := by
  refine (Requires.forM fun layer _ => checkFree_requires layer.title).congr ?_
  simp only [mem_needShadow targeted]
  constructor
  · intro each name needed
    obtain ⟨layer, member, named⟩ := needed.isLayer
    have title := Document.text.inj ((title_of_wellFormed wf member).symm.trans named)
    exact title ▸ each layer ⟨member, name, named, needed⟩
  · rintro each layer ⟨member, name, named, needed⟩
    rw [Document.text.inj ((title_of_wellFormed wf member).symm.trans named)]
    exact each name needed

theorem shadowsAdded_withShadows (wf : config.WellFormed) {R : Nat → String → String → Prop}
    (reads : ∀ (i : Nat) (layer : Layer), config.layers[i]? = some layer →
      layer.Reads (R i) (rewrite config (config.layers.map (·.name)) targets layer)) :
    config.ShadowsAdded (withShadows config targets) R := by
  refine ⟨rfl, rfl, _, needShadow config targets, _, rfl, length_map _, ?_, filter_sublist, ?_, ?_⟩
  · intro i old new before after
    rw [getElem?_map, before] at after
    obtain rfl := Option.some.inj after
    exact reads i old before
  · intro layer member
    rw [mem_needShadow targeted, and_iff_right member]
  · refine forall₂_map_right_iff.mpr (forall₂_same.mpr fun layer member => ?_)
    exact ⟨_, title_of_wellFormed wf ((mem_needShadow targeted).mp member).1, rfl⟩

variable (free : ∀ name, config.NeedsShadow name → ¬ config.IsLayer (name ++ "_SHADOW"))

include free

theorem redirectAll_cases (sources : List Document) (sound : config.SoundKey code) :
    (∃ name, code = "osl:" ++ name ∧ config.NeedsShadow name ∧
      (∃ source ∈ sources, collides (config.layers.map (·.name)) source name) ∧
      redirectAll (config.layers.map (·.name)) targets sources code = "osl:" ++ name ++ "_SHADOW") ∨
    (∀ name, code = "osl:" ++ name → config.NeedsShadow name →
      ∀ source ∈ sources, ¬ collides (config.layers.map (·.name)) source name) ∧
      redirectAll (config.layers.map (·.name)) targets sources code = code := by
  by_cases oneShot : isOneShot code
  · obtain ⟨name, rfl⟩ := isOneShot_iff.mp oneShot
    obtain ⟨good, isLayer⟩ := sound name rfl
    have unnamed : name ∈ targets → isNamed (config.layers.map (·.name)) (shadowName name) = false := by
      intro needed
      rw [← Bool.not_eq_true, isNamed_iff]
      exact free name ((targeted name).mp needed)
    rw [redirectAll_oneShot good unnamed, isNamed_iff.mpr isLayer, Bool.true_and]
    by_cases turned : name ∈ targets ∧ ∃ source ∈ sources, collides (config.layers.map (·.name)) source name
    · refine .inl ⟨name, rfl, (targeted name).mp turned.1, turned.2, ?_⟩
      rw [if_pos (by simpa using turned), shadowName, String.append_assoc]
    · refine .inr ⟨?_, if_neg (by simpa using turned)⟩
      intro other same needed source member hit
      rw [oneShot_inj] at same
      subst same
      exact turned ⟨(targeted name).mpr needed, source, member, hit⟩
  · refine .inr ⟨fun name same => ?_, redirectAll_of_fixed fun _ => redirect_of_not_oneShot oneShot⟩
    exact absurd (isOneShot_iff.mpr ⟨name, same⟩) oneShot

theorem rewritten_redirectAll (wf : config.WellFormed) (hf : config.layers[i]? = some source)
    (key : source.HasKey code) (sound : config.SoundKey code) (own : source.name ∈ sources) :
    config.Rewritten i code (redirectAll (config.layers.map (·.name)) targets sources code) := by
  rcases redirectAll_cases targeted free sources sound with
    ⟨name, rfl, needed, -, new⟩ | ⟨stays, new⟩
  · exact .inl ⟨name, rfl, needed, new⟩
  · refine .inr ⟨?_, new⟩
    rintro ⟨name, rfl, upTo⟩
    exact stays name rfl ⟨i, source, hf, key, upTo⟩ _ own ((collides_iff wf hf upTo.isLayer).mpr upTo)

theorem redirected_redirect (wf : config.WellFormed) (hf : config.layers[i]? = some source)
    (key : source.HasKey code) (sound : config.SoundKey code) :
    config.Redirected i code (redirect (config.layers.map (·.name)) targets source.name code) := by
  change config.Redirected i code (redirectAll _ targets [source.name] code)
  rcases redirectAll_cases targeted free [source.name] sound with
    ⟨name, rfl, -, ⟨_, own, hit⟩, new⟩ | ⟨stays, same⟩
  · rw [mem_singleton.mp own, collides_iff wf hf (sound name rfl).2] at hit
    exact .inl ⟨name, rfl, hit, new⟩
  · refine .inr ⟨?_, same⟩
    rintro ⟨name, rfl, upTo⟩
    exact stays name rfl ⟨i, source, hf, key, upTo⟩ _ (mem_singleton_self _)
      ((collides_iff wf hf upTo.isLayer).mpr upTo)

end Rewriting

theorem mem_sources_own (layer : Layer) (place : KeyPlace) : layer.name ∈ sources config layer place :=
  mem_map.mpr ⟨place, mem_sharers_self _ place, if_pos (beq_self_eq_true place)⟩

theorem addShadows_eq_ok (wf : config.WellFormed) (done : addShadows config = .ok result) :
    config.Clear ∧ config.ShadowsAdded result config.Rewritten := by
  obtain ⟨lists, isLists, done⟩ := bind_eq_ok.mp done
  obtain ⟨sound, targeted⟩ := (targets_requires wf).of_eq_ok isLists
  obtain ⟨_, isFree, done⟩ := bind_eq_ok.mp done
  have free := ((checkFree_all_requires targeted wf).of_eq_ok isFree).1
  obtain ⟨_, -, done⟩ := bind_eq_ok.mp done
  obtain rfl := pure_eq_ok.mp done
  refine ⟨⟨sound, free⟩, shadowsAdded_withShadows targeted wf fun i layer place => ?_⟩
  have member := mem_of_getElem? place
  apply Layer.reads_mapCodes layer (wf.records layer member)
  · intro code key
    exact rewritten_redirectAll targeted free wf place key (sound layer member code key) (mem_singleton_self _)
  · intro kind spot keys found code key
    have key := found.hasKey key
    exact rewritten_redirectAll targeted free wf place key (sound layer member code key) (mem_sources_own layer _)

theorem obstructed_iff : config.Obstructed ↔ ¬ config.Clear := by
  constructor
  · rintro (⟨h, key, bad⟩ | ⟨h, key, hm⟩ | ⟨hn, hp⟩) ⟨hs, hfr⟩
    · have hg := (hs _ h _ key _ rfl).1
      rcases bad with he | hcl
      · exact hg.1 he
      · exact hg.2 hcl
    · exact hm (hs _ h _ key _ rfl).2
    · exact hfr _ hn hp
  · intro hf
    by_contra hc
    refine hf ⟨fun layer h code key rest hsm => ?_, fun name hn hp => hc (.taken hn hp)⟩
    subst hsm
    by_contra hu
    rw [not_and_or, not_and_or, not_not, not_not] at hu
    rcases hu with bad | hm
    · exact hc (.malformed h key bad)
    · exact hc (.unknown h key hm)

theorem checkShared_of_unshared (unshared : config.shared = []) (names : List Document) (targets : List String)
    (layer : Layer) : checkShared config names targets layer = .ok () := by
  have first (place : KeyPlace) : earlierSources config layer place = [] := by
    simp [earlierSources, unshared, sharers]
  refine forM_eq_ok.mpr fun e _ => forM_eq_ok.mpr fun entry _ => ?_
  simp only [first]
  rfl

/-- Where no list of keys stands in two places, adding shadows fails exactly on an obstructed keymap. On
all others it gives the keymap with the shadows that it needs: its layers in their order with the
colliding keys redirected, then the copies of the layers that are held by such keys. -/
theorem addShadows_obstructed_or_added (config : KeymapConfig) (wf : config.WellFormed)
    (unshared : config.shared = []) :
    ((∃ message, addShadows config = .error (.invalid message)) ↔ config.Obstructed) ∧ (¬ config.Obstructed →
        ∃ result, addShadows config = .ok result ∧ config.ShadowsAdded result config.Redirected) := by
  have check : Requires config.Clear (addShadows config)
      fun result => config.ShadowsAdded result config.Redirected := by
    refine ((targets_requires wf).keep.bind fun lists ⟨sound, targeted⟩ =>
      (checkFree_all_requires targeted wf).keep.bind fun _ ⟨free, _⟩ => Requires.ok_of ?_
        (shadowsAdded_withShadows targeted wf fun i layer position => ?_)).congr (by rw [and_true, KeymapConfig.Clear])
    · rw [forM_eq_ok.mpr fun layer _ => checkShared_of_unshared unshared _ _ layer]
      rfl
    · have member := List.mem_of_getElem? position
      have redirected (code : String) (key : layer.HasKey code) :=
        redirected_redirect targeted free wf position key (sound layer member code key)
      have alone (place : KeyPlace) : sources config layer place = [layer.name] := by
        simp [sources, unshared, sharers, sourceAt]
      apply Layer.reads_mapCodes layer (wf.records layer member) redirected
      intro kind place keys found code key
      rw [alone]
      exact redirected code (found.hasKey key)
  refine ⟨check.error_iff.trans obstructed_iff.symm, fun clear => ?_⟩
  rw [obstructed_iff, not_not] at clear
  exact check.1 clear

def oneRow (name : String) (codes : List String) : Layer :=
  { name := .text name, core := some ⟨[codes.map Entry.key]⟩ }

def crossing : KeymapConfig where
  layers := [oneRow "BASE" ["osl:NUM", "osl:NAV"], oneRow "NUM" ["N1", "osl:SYM"],
    oneRow "SYM" ["EXLM"], oneRow "NAV" ["osl:NUM"]]

theorem crossing_wellFormed : crossing.WellFormed where
  named := by simp [crossing, oneRow]
  distinct := by simp [crossing, oneRow]
  records := by simp [crossing, oneRow]

theorem crossing_done : ∃ result, addShadows crossing = .ok result :=
  exists_eq_ok (by decide +kernel)

theorem crossing_shadowsAdded : crossing.WellFormed ∧ ¬ crossing.Obstructed ∧
    ∃ result, addShadows crossing = .ok result ∧ crossing.ShadowsAdded result crossing.Redirected := by
  obtain ⟨refused, added⟩ := addShadows_obstructed_or_added crossing crossing_wellFormed rfl
  obtain ⟨result, done⟩ := crossing_done
  have clear : ¬ crossing.Obstructed := by
    intro obstructed
    obtain ⟨message, failed⟩ := refused.mpr obstructed
    rw [done] at failed
    cases failed
  exact ⟨crossing_wellFormed, clear, added clear⟩

def pinky (name : String) : Layer :=
  { name := .text name, extensions := [⟨"3x6_3", .record [("outer_pinky_left", .list ["osl:BASE"])]⟩] }

def twins : KeymapConfig where
  layers := [pinky "BASE", pinky "NAV"]

example : (addShadows twins).toOption.isSome := by
  decide +kernel

/-- If the two layers have one list, it is redirected for the first of them. The second then has a key
for a layer that is not there. -/
example : (addShadows { twins with shared :=
    [[("BASE", "3x6_3", "outer_pinky_left"), ("NAV", "3x6_3", "outer_pinky_left")]] }).toOption.isNone := by
  decide +kernel

/-- After shadows were added, collisions are left exactly if a layer with a shadow has a one-shot
key itself: the shadow keeps that key as it was, and comes after all that the key can name. -/
theorem collisionFree_iff_shadowed_plain (wf : config.WellFormed) {result : KeymapConfig}
    (done : addShadows config = .ok result) : result.CollisionFree ↔
      ∀ layer ∈ config.layers, ∀ name, layer.name = .text name → config.NeedsShadow name →
        ∀ other, ¬ layer.HasKey ("osl:" ++ other) := by
  obtain ⟨⟨sound, free⟩, added⟩ := addShadows_eq_ok wf done
  constructor
  · intro collisionFree layer member name named needed other key
    obtain ⟨i, shadowed, place⟩ := added.shadow member named needed
    obtain ⟨j, later, held, place', isHeld⟩ := collisionFree i _ other place (Layer.hasKey_rename.mpr key)
    -- What comes after a shadow is a shadow, and no layer had the name of one.
    rcases added.layer_cases place' with
      ⟨old, before, -⟩ | ⟨-, target, inKeymap, name', isTarget, needed', rfl⟩
    · have := (List.getElem?_eq_some_iff.mp before).1
      omega
    · obtain rfl := Document.text.inj isHeld
      exact free name' needed' (sound layer member _ key _ rfl).2
  · intro plain i source name found key
    rcases added.layer_cases found with
      ⟨old, before, reads⟩ | ⟨-, layer, member, target, named, needed, rfl⟩
    · obtain ⟨code, oldKey, redirected⟩ := reads.source key
      rcases redirected with ⟨target, rfl, needed, shadow⟩ | ⟨stays, rfl⟩
      · obtain ⟨layer, member, named⟩ := needed.isLayer
        obtain ⟨j, shadowed, place⟩ := added.shadow member named needed
        rw [String.append_assoc, oneShot_inj] at shadow
        have := (List.getElem?_eq_some_iff.mp before).1
        exact ⟨j, by omega, _, place, by rw [shadow]⟩
      · obtain ⟨layer, member, named⟩ := (sound old (List.mem_of_getElem? before) _ oldKey _ rfl).2
        obtain ⟨j, there⟩ := List.mem_iff_getElem?.mp member
        obtain ⟨new, place, same⟩ := added.original there
        refine ⟨j, ?_, new, place, same.name.trans named⟩
        by_contra upTo
        exact stays ⟨name, rfl, j, by omega, layer, there, named⟩
    · exact absurd (Layer.hasKey_rename.mp key) (plain layer member target named needed name)

/-- The shadow of `NUM` comes last and still has the key for `SYM`. -/
theorem crossing_collision_left : crossing.WellFormed ∧
    ∃ result, addShadows crossing = .ok result ∧ ¬ result.CollisionFree := by
  obtain ⟨result, done⟩ := crossing_done
  refine ⟨crossing_wellFormed, result, done, fun collisionFree => ?_⟩
  rw [collisionFree_iff_shadowed_plain crossing_wellFormed done] at collisionFree
  have needed : crossing.NeedsShadow "NUM" :=
    ⟨3, _, rfl, .core rfl List.mem_cons_self List.mem_cons_self, 1, by omega, _, rfl, rfl⟩
  refine collisionFree (oneRow "NUM" ["N1", "osl:SYM"]) (by simp [crossing]) "NUM" rfl needed "SYM" ?_
  exact .core rfl List.mem_cons_self (List.mem_cons_of_mem _ List.mem_cons_self)

end OneShot

end Keymap
