import Keymap.Proofs.BoardOutcomes
import Keymap.Proofs.ShadowKeys

namespace Keymap

open List

variable {target : Layer} {own : String}

namespace OneShot

variable {config result : KeymapConfig} {new : Layer} {held : String}

/-- The layer that a one-shot key names is a layer of the keymap or the shadow of one. -/
def Designates (config : KeymapConfig) (held own : String) : Prop :=
  held = own ∨ held = own ++ "_SHADOW" ∧ config.NeedsShadow own

theorem exists_designated (wf : config.WellFormed) (hd : addShadows config = .ok result)
    (there : new ∈ result.layers) (key : new.HasKey ("osl:" ++ held)) :
    ∃ target ∈ config.layers, ∃ own, target.name = .text own ∧ Designates config held own := by
  obtain ⟨⟨hsn, -⟩, ha⟩ := addShadows_eq_ok wf hd
  have hnm : ∀ layer ∈ config.layers, layer.HasKey ("osl:" ++ held) →
      ∃ target ∈ config.layers, ∃ own, target.name = .text own ∧ Designates config held own := by
    intro layer h key
    obtain ⟨target, ht, hn⟩ := (hsn layer h _ key held rfl).2
    exact ⟨target, ht, held, hn, .inl rfl⟩
  obtain ⟨i, hp⟩ := mem_iff_getElem?.mp there
  rcases ha.layer_cases hp with ⟨old, hb, hr⟩ | ⟨-, target, h, name, -, -, rfl⟩
  · obtain ⟨code, hk, hrd⟩ := hr.source key
    have h := mem_of_getElem? hb
    rcases hrd with ⟨own, rfl, needed, hs⟩ | ⟨-, rfl⟩
    · obtain ⟨target, ht, hn⟩ := needed.isLayer
      refine ⟨target, ht, own, hn, .inr ⟨?_, needed⟩⟩
      rwa [String.append_assoc, oneShot_inj] at hs
    · exact hnm old h hk
  · -- A shadow has the keys of its layer as they were.
    exact hnm target h (Layer.hasKey_rename.mp key)

theorem fullLayout_of_designated (wf : config.WellFormed) (done : addShadows config = .ok result)
    (member : target ∈ config.layers) (named : target.name = .text own)
    (designated : Designates config held own) (there : new ∈ result.layers)
    (h : new.name = .text held) : new.fullLayout.isNone = target.fullLayout.isNone := by
  obtain ⟨⟨-, hf⟩, ha⟩ := addShadows_eq_ok wf done
  rcases designated with rfl | ⟨rfl, hnd⟩
  · obtain ⟨i, hp⟩ := mem_iff_getElem?.mp there
    rcases ha.layer_cases hp with ⟨old, before, hr⟩ | ⟨-, other, -, name, -, hnd, rfl⟩
    · obtain rfl : old = target := by
        apply inj_on_of_nodup_map wf.distinct (mem_of_getElem? before) member
        rw [named, ← h, hr.name]
      have hg := hr.fullLayout
      generalize old.fullLayout = before, new.fullLayout = after at hg
      cases hg with
      | none => rfl
      | some _ => rfl
    · obtain rfl := Document.text.inj h
      exact absurd ⟨target, member, named⟩ (hf name hnd)
  · rw [eq_shadow wf done member named hnd there h]

theorem exists_held (wf : config.WellFormed) (done : addShadows config = .ok result)
    (hm : target ∈ config.layers) (hn : target.name = .text own)
    (hd : Designates config held own) : ∃ new ∈ result.layers, new.name = .text held := by
  obtain ⟨-, ha⟩ := addShadows_eq_ok wf done
  rcases hd with rfl | ⟨rfl, hnd⟩
  · obtain ⟨i, h⟩ := mem_iff_getElem?.mp hm
    obtain ⟨new, ht, hr⟩ := ha.original h
    exact ⟨new, mem_of_getElem? ht, hr.name.trans hn⟩
  · obtain ⟨i, -, h⟩ := ha.shadow hm hn hnd
    exact ⟨_, mem_of_getElem? h, rfl⟩

end OneShot

namespace Generate

theorem included_iff {b : Board} {layer : Layer} : included b layer ↔
    layer.fullLayout.isNone ∨ b.keymapFile.isPresent ∨ b.extraLayers.holds layer.name = .ok true := by
  rw [included, includes]
  by_cases h : (layer.fullLayout.isNone || b.keymapFile.isPresent)
  · rw [if_pos h]
    simp only [Bool.or_eq_true] at h
    exact iff_of_true rfl (or_assoc.mp (.inl h))
  · rw [if_neg h]
    simp only [Bool.or_eq_true, not_or] at h
    simp only [h.1, h.2]
    cases b.extraLayers.holds layer.name with
    | error fault => simp [Except.toOption]
    | ok answer => simp [Except.toOption]

theorem mem_layersFor_iff {b : Board} {config result : KeymapConfig} {held : String}
    (wf : config.WellFormed) (done : OneShot.addShadows config = .ok result)
    (hm : target ∈ config.layers) (hn : target.name = .text own) (hd : OneShot.Designates config held own) :
    .text held ∈ layersFor b result ↔ target.fullLayout = none ∨ b.keymapFile.isPresent ∨
      b.extraLayers.holds (.text held) = .ok true := by
  have ha : ∀ new ∈ result.layers, new.name = .text held → (included b new ↔
      target.fullLayout = none ∨ b.keymapFile.isPresent ∨ b.extraLayers.holds (.text held) = .ok true) := by
    intro new ht h
    rw [included_iff, h, OneShot.fullLayout_of_designated wf done hm hn hd ht h, Option.isNone_iff_eq_none]
  rw [layersFor, mem_map]
  constructor
  · rintro ⟨new, hi, h⟩
    obtain ⟨ht, hin⟩ := mem_filter.mp hi
    exact (ha new ht h).mp hin
  · intro hc
    obtain ⟨new, ht, h⟩ := OneShot.exists_held wf done hm hn hd
    exact ⟨new, mem_filter.mpr ⟨ht, (ha new ht h).mpr hc⟩, h⟩

def holdText (b : Board) (held : String) : String :=
  if b.firmware.isQmk then "OSL(" ++ held ++ ")" else "&sl " ++ held

def HoldsLayer (b : Board) (layer : Layer) (compiled : CompiledLayer) (held : String) : Prop :=
  layer.HasKey ("osl:" ++ held) ∧ ∃ (keys : List String) (i : Nat), Compile.keys layer b = .ok keys ∧
    keys[i]? = some ("osl:" ++ held) ∧ compiled.keycodes[i]? = some (.text (holdText b held))

/-- Every one-shot binding of a board leads to a layer of its keymap or to the shadow of one. The board
gets that layer exactly if the original has no full layout, or the board has a keymap of its own, or it
asks for the layer by the name in the binding. -/
theorem oneShot_target_emitted_iff {c : Configuration} {options : Options} {id : Document} {b : Board}
    {s s' : Session} (found : c.inventory.find? id = some b)
    (done : (board c options id).run.run s = (.ok true, s')) : ∃ source keymap made layers, ∃ rules : Compiler,
      (b.keymapFile.isPresent = false → source = c.keymap) ∧ OneShot.addShadows source = .ok keymap ∧
      s.compiler.SameRules rules ∧ produced c options id s = some made ∧ made.layers = layers.map (·.name) ∧
      Made c options b keymap layers made.files ∧
      List.Forall₂ (rules.Encodes b) (keymap.layers.filter (included b)) layers ∧
      (source.WellFormed → ∀ layer compiled held,
        (layer, compiled) ∈ (keymap.layers.filter (included b)).zip layers → HoldsLayer b layer compiled held →
        ∃ target ∈ source.layers, ∃ own, target.name = .text own ∧ OneShot.Designates source held own ∧
          (.text held ∈ made.layers ↔ target.fullLayout = none ∨ b.keymapFile.isPresent = true ∨
            b.extraLayers.holds (.text held) = .ok true)) := by
  have reads : ∀ found lost, Returns (boardKeymap c b found lost) fun source =>
      b.keymapFile.isPresent = false → source = c.keymap := by
    intro found lost
    unfold boardKeymap
    split
    · rename_i own
      intro _ source _ common
      simp [common] at own
    · exact .pure fun _ => rfl
  obtain ⟨made, _, _, isMade, -, -⟩ := board_eq_true found done
  have isProduced := (produced_eq_some found).mpr (by rw [isMade])
  obtain ⟨keymap, middle, isRead, isMade⟩ := run_bind_eq_ok.mp isMade
  obtain ⟨source, common, shadowed⟩ := readBoard_returns options reads s keymap (by rw [isRead])
  obtain ⟨layers, t, _, prepared, isCompiled, isLayers, isFiles⟩ := makeFiles_eq_some isMade
  have rules : s.KeepsRules t := by
    have reading := (quiet_readBoard c options b s).1
    have preparing := (quiet_prepare b middle).1
    rw [isRead] at reading
    rw [prepared] at preparing
    exact trans_of Session.KeepsRules reading preparing
  refine ⟨source, keymap, made, layers, t.compiler, common, shadowed, rules, isProduced, isLayers, isFiles,
    compileLayers_included isCompiled, fun wf layer compiled held paired holds => ?_⟩
  have there := (List.mem_filter.mp (List.of_mem_zip paired).1).1
  obtain ⟨target, member, own, named, designated⟩ := OneShot.exists_designated wf shadowed there holds.1
  refine ⟨target, member, own, named, designated, ?_⟩
  rw [makeFiles_layers isMade, mem_layersFor_iff wf shadowed member named designated]

def gamer : Board :=
  keyboard "gamer" ["GAME"]

/-- The layer `BASE` holds the layer `GAME`, which stands before it and has a full layout. -/
def tempting : Configuration where
  keymap := { layers := [{ name := "GAME", fullLayout := some ⟨[List.replicate 36 (.key "NONE")]⟩ },
    { name := "BASE", core := some ⟨[.key "osl:GAME" :: List.replicate 35 (.key "NONE")]⟩ }] }
  inventory := { boards := [gamer] }
  aliases := [⟨"osl", "", .list ["layer"], "OSL(\x7blayer\x7d)", .null, .list ["qmk"]⟩]
  combos := []
  magic := []
  keycodes := [("NONE", .record [("qmk", "KC_NO")])]

def temptingSession : Session :=
  ⟨emptyWorkspace, tempting.compiler⟩

def temptingShadowed : KeymapConfig :=
  (OneShot.addShadows tempting.keymap).toOption.getD tempting.keymap

theorem tempting_wellFormed : tempting.keymap.WellFormed where
  named := by simp [tempting]
  distinct := by simp [tempting]
  records := by simp [tempting]

theorem tempting_shadowed : OneShot.addShadows tempting.keymap = .ok temptingShadowed :=
  eq_ok_getD (by decide +kernel)

theorem tempting_succeeds : ((board tempting {} "gamer").run.run temptingSession).1 = .ok true :=
  eq_ok_of_toOption (by decide +kernel)

/-- The board asks for `GAME`, but its one-shot key holds the shadow of that layer, which it does not
get. -/
theorem gamer_holds_absent_layer : ∃ made layer compiled,
    produced tempting {} "gamer" temptingSession = some made ∧ layer ∈ temptingShadowed.layers ∧
      HoldsLayer gamer layer compiled "GAME_SHADOW" ∧ .text "GAME_SHADOW" ∉ made.layers := by
  have found : tempting.inventory.find? "gamer" = some gamer := rfl
  obtain ⟨source, keymap, made, layers, rules, common, shadowed, same, isProduced, -, -, encoded, emitted⟩ :=
    oneShot_target_emitted_iff found (Prod.fst_eq_iff.mp tempting_succeeds)
  obtain rfl := common rfl
  obtain rfl := Except.ok.inj (tempting_shadowed.symm.trans shadowed)
  have second : ((temptingShadowed.layers.filter (included gamer))[1]?.map fun layer =>
      (layer.core, (Compile.keys layer gamer).toOption)) =
      some (some ⟨[.key "osl:GAME_SHADOW" :: List.replicate 35 (.key "NONE")]⟩,
        some ("osl:GAME_SHADOW" :: List.replicate 35 "NONE")) := by
    decide +kernel
  obtain ⟨layer, place, parts⟩ := Option.map_eq_some_iff.mp second
  obtain ⟨isCore, isKeys⟩ := Prod.mk.inj parts
  obtain ⟨sameLength, encodes⟩ := List.forall₂_iff_zip.mp encoded
  have bound : 1 < layers.length := sameLength ▸ (List.getElem?_eq_some_iff.mp place).1
  have paired : (layer, layers[1]) ∈ (temptingShadowed.layers.filter (included gamer)).zip layers :=
    List.mem_of_getElem? (List.getElem?_zip_eq_some.mpr ⟨place, List.getElem?_eq_getElem bound⟩)
  have holds : HoldsLayer gamer layer layers[1] "GAME_SHADOW" := by
    have key : ("osl:GAME_SHADOW" :: List.replicate 35 "NONE")[0]? = some "osl:GAME_SHADOW" := rfl
    obtain ⟨code, isPlace, value⟩ := (encodes paired).getElem? (eq_ok_of_toOption isKeys) key
    have isHeld : (Qmk.value temptingSession.compiler.qmk "osl:GAME_SHADOW").toOption.bind Document.text? =
        some (holdText gamer "GAME_SHADOW") := by
      decide +kernel
    replace value : Qmk.value rules.qmk "osl:GAME_SHADOW" = .ok code := value
    rw [← same.qmk, value] at isHeld
    obtain rfl := Document.text?_eq_some.mp isHeld
    exact ⟨.core isCore List.mem_cons_self List.mem_cons_self, _, 0, eq_ok_of_toOption isKeys, key, isPlace⟩
  obtain ⟨target, member, own, named, designated, iff⟩ :=
    emitted tempting_wellFormed layer layers[1] "GAME_SHADOW" paired holds
  have isGame : target.fullLayout ≠ none := by
    rcases List.mem_cons.mp member with rfl | member
    · exact Option.some_ne_none _
    · obtain rfl := List.mem_singleton.mp member
      obtain rfl := Document.text.inj named
      rcases designated with same | ⟨same, -⟩
      · exact absurd same (by decide)
      · exact absurd same (by decide)
  refine ⟨made, layer, layers[1], isProduced, (List.mem_filter.mp (List.mem_of_getElem? place)).1, holds, ?_⟩
  rw [iff]
  rintro (noFull | own | asked)
  · exact isGame noFull
  · cases own
  · have unasked : (gamer.extraLayers.holds (.text "GAME_SHADOW")).toOption = some false := by
      decide +kernel
    rw [asked] at unasked
    cases unasked

end Generate

end Keymap
