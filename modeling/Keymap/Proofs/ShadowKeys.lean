import Keymap.Proofs.CompiledValues
import Keymap.Proofs.MagicFamilies
import Keymap.Proofs.Shadows
import Mathlib.Data.Prod.Basic

namespace Keymap

open List

variable {layer layer' : Document} {new : Layer} {keys : List String} {board : Board}

theorem Alias.argumentsFor_congr (rule : Alias) {said : List String}
    {read read' : Document → String → Result Document}
    (hs : ∀ param, ∀ text ∈ said, read param text = read' param text) :
    rule.argumentsFor said read = rule.argumentsFor said read' := by
  unfold argumentsFor
  apply bind_congr
  intro params
  apply foldlM_congr
  rintro ⟨param, text⟩ h args
  simp only [hs param text (of_mem_zip h).2]

namespace Zmk

variable {t : Encoder} {key wrapper hold : String}

theorem argument_congr {index : Document} {said : String}
    (hs : said = "MAGIC" → magicKey t layer = magicKey t layer') (param : Document) :
    argument t ⟨layer, index⟩ param said = argument t ⟨layer', index⟩ param said := by
  have hw : (Document.text said).isWord "MAGIC" = decide (said = "MAGIC") := rfl
  by_cases h : said = "MAGIC"
  · simp only [argument, keyArgument, hs h]
  · simp only [argument, keyArgument, hw, h, decide_false, Bool.false_eq_true, if_false]

/-- Two layers on which the magic key is the same, alone and as a tap. -/
def SameMagic (t : Encoder) (layer layer' : Document) : Prop :=
  magicKey t layer = magicKey t layer' ∧ ∀ index wrapper hold,
    magicTap t ⟨layer, index⟩ wrapper hold = magicTap t ⟨layer', index⟩ wrapper hold

def UsesMagic (v : Vocabulary) (key : String) : Prop :=
  key = "MAGIC" ∨ v.keycode? key = none ∧ "MAGIC" ∈ (Vocabulary.parts key).tail

theorem composite_congr (index : Document)
    (same : "MAGIC" ∈ (Vocabulary.parts key).tail → SameMagic t layer layer') :
    composite t ⟨layer, index⟩ key = composite t ⟨layer', index⟩ key := by
  unfold composite
  cases isParts : Vocabulary.parts key with
  | nil => rfl
  | cons name arguments =>
    rw [isParts, tail_cons] at same
    have read : ∀ rule : Alias, rule.argumentsFor arguments (argument t ⟨layer, index⟩) =
        rule.argumentsFor arguments (argument t ⟨layer', index⟩) := by
      intro rule
      apply rule.argumentsFor_congr
      intro param text member
      exact argument_congr (fun isMagic => (same (isMagic ▸ member)).1) param
    have hand : homeRowMod t ⟨layer, index⟩ = homeRowMod t ⟨layer', index⟩ := rfl
    split
    · rfl
    · rfl
    · rename_i name' arguments' _ _ split
      obtain ⟨rfl, rfl⟩ := cons.inj split
      split
      · rfl
      · apply bind_congr
        intro supported
        split
        · rfl
        · apply bind_congr
          intro _
          split
          · exact (same (by simp)).2 _ _ _
          · exact (same (by simp)).2 _ _ _
          · rw [read, hand]
    · rfl

theorem value_congr (index : Document) (h : UsesMagic t.vocabulary key → SameMagic t layer layer') :
    value t ⟨layer, index⟩ key = value t ⟨layer', index⟩ key := by
  unfold value
  split
  · rename_i hm
    rw [(h (.inl hm)).1]
  · cases hk : t.vocabulary.keycode? key with
    | some entry => rfl
    | none => rw [composite_congr index fun hi => h (.inr ⟨hk, hi⟩)]

structure TapsMagic (v : Vocabulary) (key wrapper hold : String) : Prop where
  other : v.keycode? key = none
  parts : Vocabulary.parts key = [wrapper, hold, "MAGIC"]
  known : wrapper = "lt" ∨ wrapper = "mt"
  supported : ∃ rule, findAlias? v.aliases wrapper = some rule ∧ rule.supports "zmk" = .ok true

namespace TapsMagic

theorem isComposite {v : Vocabulary} (ht : TapsMagic v key wrapper hold) : Vocabulary.isComposite key := by
  by_contra hp
  have hs : Vocabulary.parts key = [key] := Text.split_of_not_mem fun h => hp (contains_iff_mem.mpr h)
  have hsz := congrArg length (hs.symm.trans ht.parts)
  simp at hsz

theorem value_eq_ok {place : Place} {code : Document} (h : TapsMagic t.vocabulary key wrapper hold)
    (hd : value t place key = .ok code) : (magicTap t place wrapper hold).map .text = .ok code := by
  have hc := h.isComposite
  have hn : key ≠ "MAGIC" := by
    rintro rfl
    exact absurd hc (by decide)
  obtain ⟨rule, hf, hs⟩ := h.supported
  simp only [value, if_neg hn, h.other, hc, if_true] at hd
  obtain ⟨text, ht, rfl⟩ := map_eq_ok.mp hd
  rw [composite, h.parts] at ht
  have hp : (do
      Vocabulary.checkCount rule wrapper [hold, "MAGIC"]
      magicTap t place wrapper hold) = .ok text := by
    rcases h.known with rfl | rfl
    · simpa [hf, hs, ok_bind] using ht
    · simpa [hf, hs, ok_bind] using ht
  obtain ⟨_, -, htp⟩ := bind_eq_ok.mp hp
  rw [htp]
  rfl

end TapsMagic

end Zmk

namespace Compile

theorem keys_rename {layer : Layer} (name : Document) (h : Compile.keys layer board = .ok keys) :
    Compile.keys { layer with name := name } board = .ok keys := by
  unfold Compile.keys at h ⊢
  cases hf : layer.fullLayout with
  | none =>
    simp only [hf] at h
    exact h
  | some grid =>
    simp only [hf] at h ⊢
    split at h
    · rename_i hr
      rw [if_pos hr]
      cases hc : layer.core with
      | none => simp [hc, invalid] at h
      | some grid => simpa [hc] using h
    · rename_i hp
      rw [if_neg hp]
      exact h

end Compile

namespace Compiler

theorem Encodes.eq_of_rename {c : Compiler} {layer : Layer} {name : Document}
    {original copy : CompiledLayer} (he : c.Encodes board layer original)
    (encoded' : c.Encodes board { layer with name := name } copy) (h : Compile.keys layer board = .ok keys)
    (hs : ∀ key ∈ keys, ∀ i, c.valueAt board name i key = c.valueAt board layer.name i key) :
    copy.keycodes = original.keycodes := by
  obtain ⟨-, keys', hk, hv⟩ := he
  obtain ⟨-, keys'', hky, hvl⟩ := encoded'
  obtain rfl := Except.ok.inj (h.symm.trans hk)
  obtain rfl := Except.ok.inj ((Compile.keys_rename name h).symm.trans hky)
  have heq : (keys.zipIdx.mapM fun entry => c.valueAt board name entry.2 entry.1) =
      keys.zipIdx.mapM fun entry => c.valueAt board layer.name entry.2 entry.1 := by
    apply mapM_congr
    intro entry hm
    exact hs _ (fst_mem_of_mem_zipIdx hm) _
  exact Except.ok.inj (hvl.symm.trans (heq.trans hv))

end Compiler

namespace OneShot

variable {config result : KeymapConfig} {layer : Layer} {name : String}

theorem eq_original (wf : config.WellFormed) (done : addShadows config = .ok result)
    (h : layer ∈ config.layers) (named : layer.name = .text name)
    (plain : ∀ other, ¬ layer.HasKey ("osl:" ++ other)) (there : new ∈ result.layers)
    (same : new.name = .text name) : new = layer := by
  obtain ⟨⟨-, hf⟩, ha⟩ := addShadows_eq_ok wf done
  obtain ⟨i, hp⟩ := mem_iff_getElem?.mp there
  rcases ha.layer_cases hp with ⟨old, hb, hr⟩ | ⟨-, target, -, name', -, hnd, rfl⟩
  · obtain rfl : old = layer := by
      apply inj_on_of_nodup_map wf.distinct (mem_of_getElem? hb) h
      rw [named, ← same, hr.name]
    apply hr.eq_of_fixed
    intro code key code' hrd
    rcases hrd with ⟨other, rfl, -⟩ | ⟨-, rfl⟩
    · exact absurd key (plain other)
    · rfl
  · obtain rfl := Document.text.inj same
    exact absurd ⟨layer, h, named⟩ (hf name' hnd)

theorem eq_shadow (wf : config.WellFormed) (hd : addShadows config = .ok result)
    (hm : layer ∈ config.layers) (named : layer.name = .text name) (needed : config.NeedsShadow name)
    (there : new ∈ result.layers) (h : new.name = .text (name ++ "_SHADOW")) :
    new = { layer with name := .text (name ++ "_SHADOW") } := by
  obtain ⟨⟨-, hf⟩, ha⟩ := addShadows_eq_ok wf hd
  obtain ⟨i, hp⟩ := mem_iff_getElem?.mp there
  rcases ha.layer_cases hp with
    ⟨old, hb, hr⟩ | ⟨-, target, ht, name', hn, -, rfl⟩
  · have htk : config.IsLayer (name ++ "_SHADOW") := ⟨old, mem_of_getElem? hb, hr.name.symm.trans h⟩
    exact absurd htk (hf name needed)
  · have hs : name' = name := by
      have htx := Document.text.inj h
      rwa [← String.toList_inj, String.toList_append, String.toList_append,
        append_cancel_right_eq, String.toList_inj] at htx
    subst hs
    obtain rfl := inj_on_of_nodup_map wf.distinct ht hm (hn.trans named.symm)
    rfl

theorem sameMagic_of_unmapped {t : Zmk.Encoder} (hn : name ≠ "BASE") (h : Zmk.mappedBase? t name = none)
    (hu : Zmk.mappedBase? t (name ++ "_SHADOW") = none) :
    Zmk.SameMagic t (.text (name ++ "_SHADOW")) (.text name) := by
  refine ⟨Zmk.magicKey_eq_of_unmapped (Zmk.startsWith_shadow hn) hu h, ?_⟩
  intro index wrapper hold
  rw [Zmk.magicTap_text, Zmk.magicTap_text, h, hu]

theorem text_eq_iff {x y : Result String} {a b : Document} (h : x.map .text = .ok a)
    (ht : y.map .text = .ok b) : a = b ↔ x = y := by
  obtain ⟨s, rfl, rfl⟩ := map_eq_ok.mp h
  obtain ⟨s', rfl, rfl⟩ := map_eq_ok.mp ht
  simp

/-- When a shadow has the bindings of its layer. Away from magic keys it always has; a magic key differs
if the shadow's name leads to another base layer, and as a tap already if either name leads to one. -/
theorem shadow_keycodes_eq_iff_magic {verbose : Bool} {board : Board} {session after : Generate.Session}
    {compiled : List CompiledLayer} {original shadow : CompiledLayer}
    (wf : config.WellFormed) (added : addShadows config = .ok result)
    (done : (Generate.compileLayers verbose board result.layers).run.run session = (.ok compiled, after))
    (member : layer ∈ config.layers) (named : layer.name = .text name)
    (needed : config.NeedsShadow name) (plain : ∀ other, ¬ layer.HasKey ("osl:" ++ other))
    (isOriginal : original ∈ compiled ∧ original.name = .text name)
    (isShadow : shadow ∈ compiled ∧ shadow.name = .text (name ++ "_SHADOW")) :
    let t := session.compiler.zmk
    ∃ keys, Compile.keys layer board = .ok keys ∧
      (board.firmware.isZmk = false → shadow.keycodes = original.keycodes) ∧
      (name ≠ "BASE" → Zmk.mappedBase? t name = none →
        Zmk.mappedBase? t (name ++ "_SHADOW") = none → shadow.keycodes = original.keycodes) ∧
      (board.firmware.isZmk = true → ∀ (i : Nat) (key : String), keys[i]? = some key →
        (¬ Zmk.UsesMagic t.vocabulary key → shadow.keycodes[i]? = original.keycodes[i]?) ∧
        (key = "MAGIC" → (shadow.keycodes[i]? = original.keycodes[i]? ↔
          Zmk.magicKey t (.text (name ++ "_SHADOW")) = Zmk.magicKey t (.text name))) ∧
        ∀ wrapper hold, Zmk.TapsMagic t.vocabulary key wrapper hold →
          (shadow.keycodes[i]? = original.keycodes[i]? ↔ Zmk.mappedBase? t name = none ∧
            Zmk.mappedBase? t (name ++ "_SHADOW") = none)) := by
  intro t
  obtain ⟨source, there, encoded⟩ := Generate.compileLayers_encodes done _ isOriginal.1
  obtain ⟨source', there', encoded'⟩ := Generate.compileLayers_encodes done _ isShadow.1
  obtain rfl := eq_original wf added member named plain there (encoded.1.symm.trans isOriginal.2)
  obtain rfl := eq_shadow wf added member named needed there' (encoded'.1.symm.trans isShadow.2)
  obtain ⟨keys, isKeys, -⟩ := encoded.2
  have isKeys' := Compile.keys_rename (.text (name ++ "_SHADOW")) isKeys
  refine ⟨keys, isKeys, fun other => ?_, fun notBare unmapped unmapped' => ?_, ?_⟩
  · apply encoded.eq_of_rename encoded' isKeys
    intro key _ i
    simp only [Compiler.valueAt, other, Bool.false_eq_true, if_false]
  · apply encoded.eq_of_rename encoded' isKeys
    intro key _ i
    simp only [Compiler.valueAt, named]
    split
    · rfl
    · split
      · exact Zmk.value_congr _ fun _ => sameMagic_of_unmapped notBare unmapped unmapped'
      · rfl
  · intro zmk i key place
    have notQmk : board.firmware.isQmk = false := by
      cases firmware : board.firmware <;> simp_all [Firmware.isZmk, Firmware.isQmk]
    obtain ⟨code, isCode, isValue⟩ := encoded.getElem? isKeys place
    obtain ⟨code', isCode', isValue'⟩ := encoded'.getElem? isKeys' place
    simp only [Compiler.valueAt, notQmk, zmk, Bool.false_eq_true, if_false, if_true, named] at isValue isValue'
    rw [isCode, isCode', Option.some.injEq]
    refine ⟨fun magicless => ?_, ?_, ?_⟩
    · have same : Zmk.value t ⟨.text (name ++ "_SHADOW"), .whole i⟩ key =
          Zmk.value t ⟨.text name, .whole i⟩ key :=
        Zmk.value_congr _ fun uses => absurd uses magicless
      exact Except.ok.inj (isValue'.symm.trans (same.trans isValue))
    · rintro rfl
      exact text_eq_iff isValue' isValue
    · intro wrapper hold taps
      rw [text_eq_iff (taps.value_eq_ok isValue') (taps.value_eq_ok isValue)]
      exact Zmk.magicTap_shadow_iff taps.known

theorem mem_of_hasKey_oneRow {codes : List String} {code : String}
    (key : (oneRow name codes).HasKey code) : code ∈ codes := by
  cases key with
  | core hc hg hr =>
    obtain rfl := Option.some.inj hc
    obtain rfl := mem_singleton.mp hg
    simpa using hr
  | full hf => cases hf
  | listed h => cases h
  | single h => cases h

def duskNumbers : Layer :=
  oneRow "NUM_DUSK" ["MAGIC", "lt:NAV:MAGIC"]

def dusk : KeymapConfig where
  layers := [duskNumbers, oneRow "NAV" ["osl:NUM_DUSK"]]

def duskBoard : Board where
  id := "dusk"
  name := "Dusk"
  firmware := .zmk

def duskSession : Generate.Session where
  workspace := default
  compiler := { zmk := {
    vocabulary := { aliases := [
      ⟨"lt", "", .list ["layer", "key"], "", .text "&lt \x7blayer\x7d \x7bkey\x7d", .list ["zmk"]⟩,
      ⟨"osl", "", .list ["layer"], "", .text "&sl \x7blayer\x7d", .list ["zmk"]⟩] }
    magic := some [⟨"BASE_DAWN", .whole 0, .record [], "REPEAT"⟩,
      ⟨"BASE_DUSK", .whole 0, .record [], "REPEAT"⟩] } }

def duskShadowed : KeymapConfig :=
  (addShadows dusk).toOption.getD dusk

def duskCompiled : Result (List CompiledLayer) × Generate.Session :=
  (Generate.compileLayers false duskBoard duskShadowed.layers).run.run duskSession

def duskLayers : List CompiledLayer :=
  duskCompiled.1.toOption.getD []

theorem dusk_wellFormed : dusk.WellFormed where
  named := by simp [dusk, duskNumbers, oneRow]
  distinct := by simp [dusk, duskNumbers, oneRow]
  records := by simp [dusk, duskNumbers, oneRow]

theorem exists_compiled {layers : List CompiledLayer} {name : String}
    (hf : (layers.find? fun one => one.name.isWord name).isSome) :
    ∃ one, one ∈ layers ∧ one.name = .text name := by
  obtain ⟨one, h⟩ := Option.isSome_iff_exists.mp hf
  have hn := find?_some h
  exact ⟨one, mem_of_find?_eq_some h, isWord_iff.mp hn⟩

/-- The magic keys of the shadow are those of another family, or none. -/
theorem dusk_shadow_differs : dusk.WellFormed ∧ addShadows dusk = .ok duskShadowed ∧
    duskCompiled = (.ok duskLayers, duskCompiled.2) ∧ ∃ original shadow,
      (original ∈ duskLayers ∧ original.name = .text "NUM_DUSK") ∧
      (shadow ∈ duskLayers ∧ shadow.name = .text "NUM_DUSK_SHADOW") ∧
      shadow.keycodes[0]? ≠ original.keycodes[0]? ∧ shadow.keycodes[1]? ≠ original.keycodes[1]? := by
  have added : addShadows dusk = .ok duskShadowed := eq_ok_getD (by decide +kernel)
  have done : duskCompiled = (.ok duskLayers, duskCompiled.2) :=
    Prod.fst_eq_iff.mp (eq_ok_getD (by decide +kernel))
  obtain ⟨original, isOriginal⟩ : ∃ one, one ∈ duskLayers ∧ one.name = .text "NUM_DUSK" :=
    exists_compiled (by decide +kernel)
  obtain ⟨shadow, isShadow⟩ : ∃ one, one ∈ duskLayers ∧ one.name = .text "NUM_DUSK_SHADOW" :=
    exists_compiled (by decide +kernel)
  have needed : dusk.NeedsShadow "NUM_DUSK" :=
    ⟨1, _, rfl, .core rfl List.mem_cons_self List.mem_cons_self, 0, by omega, _, rfl, rfl⟩
  have plain : ∀ other, ¬ duskNumbers.HasKey ("osl:" ++ other) := by
    intro other key
    have oneShots : ∀ code ∈ ["MAGIC", "lt:NAV:MAGIC"], ¬ isOneShot code = true := by decide
    exact oneShots _ (mem_of_hasKey_oneRow key) (isOneShot_iff.mpr ⟨other, rfl⟩)
  have member : duskNumbers ∈ dusk.layers := List.mem_cons_self
  obtain ⟨keys, isKeys, -, -, differ⟩ :=
    shadow_keycodes_eq_iff_magic dusk_wellFormed added done member rfl needed plain isOriginal isShadow
  obtain rfl : ["MAGIC", "lt:NAV:MAGIC"] = keys := Except.ok.inj isKeys
  refine ⟨dusk_wellFormed, added, done, original, shadow, isOriginal, isShadow, ?_, ?_⟩
  · rw [Ne, (differ rfl 0 "MAGIC" rfl).2.1 rfl]
    intro same
    have bases : (Zmk.magicKey duskSession.compiler.zmk (.text "NUM_DUSK")).toOption ≠
        (Zmk.magicKey duskSession.compiler.zmk (.text "NUM_DUSK_SHADOW")).toOption := by decide +kernel
    exact bases (congrArg Except.toOption same.symm)
  · have taps : Zmk.TapsMagic duskSession.compiler.zmk.vocabulary "lt:NAV:MAGIC" "lt" "NAV" :=
      ⟨rfl, by decide +kernel, .inl rfl, _, rfl, rfl⟩
    rw [Ne, (differ rfl 1 "lt:NAV:MAGIC" rfl).2.2 "lt" "NAV" taps]
    have mapped : Zmk.mappedBase? duskSession.compiler.zmk "NUM_DUSK" ≠ none := by decide +kernel
    exact fun unmapped => mapped unmapped.1

end OneShot

end Keymap
