import Keymap.Proofs.BoardOutcomes
import Keymap.Proofs.QmkKeymap
import Keymap.Proofs.StoppedRuns

namespace Keymap

open List

variable {text : String} {s : Session} {names : List String}

namespace Qmk

theorem Enumerator.writtenAll_join (words : ∀ name ∈ names, Text.IsWord name) :
    WrittenAll (names.map fun name => ⟨name, none⟩)
      ("\n    ".toList ++ (Text.join ",\n    " names).toList ++ ['\n']) := by
  induction names with
  | nil => exact .none (all_eq_true.mp (by decide))
  | cons name rest ih =>
    obtain ⟨hw, ho⟩ := forall_mem_cons.mp words
    cases rest with
    | nil =>
      have h : Padded name ("\n    ".toList ++ name.toList ++ ['\n']) :=
        ⟨hw.isPiece, _, _, rfl, all_eq_true.mp (by decide), all_eq_true.mp (by decide)⟩
      simpa [Text.join] using WrittenAll.last (.plain h)
    | cons next rest =>
      have h : Padded name ("\n    ".toList ++ name.toList ++ []) :=
        ⟨hw.isPiece, _, _, rfl, all_eq_true.mp (by decide), by simp⟩
      have hb := WrittenAll.cons (.plain h) (ih ho)
      rw [map_cons, Text.join, String.intercalate_cons_cons]
      simpa [Text.join] using hb

def Defines (text : String) (names : List String) : Prop :=
  ∃ before after definitions, text = before ++ Text.unlines [
      "const uint16_t PROGMEM keymaps[][MATRIX_ROWS][MATRIX_COLS] = \x7b",
      Text.unlines definitions, "\x7d;"] ++ after ∧
    List.Forall₂ (fun name definition => ∃ call : String, definition = s!"    [{name}] = {call},")
      names definitions

theorem defines_layers {settings : Settings} {s : Source} (h : keymapFile settings s = .ok text)
    (hn : s.layers.map (·.name) = names.map .text) : Defines text names := by
  obtain ⟨parts, rfl⟩ := keymapFile_parts h
  obtain ⟨before, after, ht⟩ := parts.layers_infix
  refine ⟨before, after, parts.definitions, ht, ?_⟩
  have htt : names = s.layers.map (·.name.toText) := by
    have htx := congrArg (map Document.toText) hn
    simpa [map_map, Function.comp_def, Document.toText] using htx.symm
  rw [htt, forall₂_map_left_iff]
  refine (mapM_eq_ok.mp parts.isDefinitions).imp fun layer definition one => ?_
  obtain ⟨call, -, one⟩ := bind_eq_ok.mp one
  obtain rfl := pure_eq_ok.mp one
  exact ⟨call, rfl⟩

end Qmk

namespace Generate

open Qmk (Enumerator Defines)

variable {b : Board}

def headerOpening : String :=
  Text.unlines ["// AUTO-GENERATED - DO NOT EDIT",
    "// Generated from config/keymap.yaml by scripts/generate.py",
    "",
    "#pragma once",
    "",
    "// Layer definitions",
    "// NOTE: Order must match config/keymap.yaml",
    "enum layers "]

theorem layersHeader_chars (h : layersHeader (names.map .text) = .ok text) : text.toList =
      headerOpening.toList ++ '\x7b' :: ("\n    ".toList ++ (Text.join ",\n    " names).toList ++ ['\n']) ++
        '\x7d' :: ";\n".toList := by
  rw [layersHeader, Document.joinTexts, checkTextsFrom_text] at h
  have ht := pure_eq_ok.mp h
  have ho : "enum layers \x7b".toList = "enum layers ".toList ++ ['\x7b'] := rfl
  have hc : "\x7d;".toList = ['\x7d', ';'] := rfl
  have hn : "\n".toList = ['\n'] := rfl
  have hi : "\n    ".toList = '\n' :: "    ".toList := rfl
  have he : ";\n".toList = [';', '\n'] := rfl
  simp only [← ht, headerOpening, Text.unlines, String.intercalate_cons_cons,
    String.intercalate_singleton, String.toList_append, ho, hc, hn, hi, he,
    String.toList_empty, append_assoc, cons_append, nil_append, append_nil]

theorem read_layersHeader (hw : ∀ name ∈ names, Text.IsWord name)
    (h : layersHeader (names.map .text) = .ok text) :
    Enumerator.read text = names.map fun name => ⟨name, none⟩ := by
  have hu : '\x7b' ∉ headerOpening.toList := by
    simp only [headerOpening, Text.unlines, String.intercalate_cons_cons, String.intercalate_singleton,
      String.toList_append, mem_append]
    decide
  exact (Enumerator.writtenAll_join hw).read_eq (layersHeader_chars h) hu

section Board

variable {c : Configuration} {options : Options} {s' : Session} {made : Generated}

theorem makeBoard_common (h : b.keymapFile.isPresent = false)
    (hd : (makeBoard c options b).run.run s = (.ok (some made), s')) {keymap : KeymapConfig}
    (hk : OneShot.addShadows c.keymap = .ok keymap) : made.layers = layersFor b keymap := by
  have hrd : ∀ found lost, Returns (boardKeymap c b found lost) fun source => source = c.keymap := by
    intro found lost
    rw [boardKeymap, if_neg (by simp [h])]
    exact .pure rfl
  obtain ⟨read, middle, hr, hm⟩ := run_bind_eq_ok.mp hd
  obtain ⟨_, rfl, hs⟩ := readBoard_returns options hrd s read (by rw [hr])
  obtain rfl := Except.ok.inj (hk.symm.trans hs)
  exact makeFiles_layers hm

theorem makeBoard_defines (hq : b.firmware.isQmk)
    (h : (makeBoard c options b).run.run s = (.ok (some made), s')) (hn : made.layers = names.map .text) :
    ∃ text, ("keymap.c", text) ∈ made.files ∧ Defines text names := by
  obtain ⟨keymap, middle, hr, hm⟩ := run_bind_eq_ok.mp h
  obtain ⟨layers, _, _, -, hc, hl, hf⟩ := makeFiles_eq_some hm
  cases hf with
  | zmk hz => simp [hz, Firmware.isQmk] at hq
  | qmk _ h =>
    obtain ⟨text, ht, h⟩ := bind_eq_ok.mp h
    obtain ⟨readme, -, h⟩ := bind_eq_ok.mp h
    have hf := pure_eq_ok.mp h
    refine ⟨text, by simp [← hf], Qmk.defines_layers ht ?_⟩
    exact hl.symm.trans hn

end Board

/-- In a run for all boards, a board is generated at its turn. -/
inductive Reported (c : Configuration) (options : Options) (w : Workspace) (b : Board)
    (later : List Board) (made : Generated) : Prop
  | atTurn {earlier : List Board} {results : List Bool} {s : Session}
      (split : c.inventory.boards = earlier ++ b :: later)
      (reached : (boards c options earlier).run.run ⟨w, c.compiler⟩ = (.ok results, s))
      (reported : ((turn c options b).run.run s).1 = .ok true)
      (isProduced : produced c options b.id s = some made)

theorem Reported.of_turn {c : Configuration} {options : Options} {w : Workspace}
    {earlier later : List Board} (accepted : checkBoardsStrictly c.inventory.boards = .ok ())
    (hs : c.inventory.boards = earlier ++ b :: later) {results : List Bool}
    (hr : (boards c options earlier).run.run ⟨w, c.compiler⟩ = (.ok results, s))
    (h : ((turn c options b).run.run s).1 = .ok true) : ∃ made, Reported c options w b later made := by
  have hf := Inventory.find?_of_accepted accepted (b := b) (by simp [hs])
  obtain ⟨made, -, -, -, -, -, -, -, hp⟩ := turn_eq_true hf (Prod.ext h rfl)
  exact ⟨made, .atTurn hs hr h hp⟩

section Header

variable {w w' : Workspace} {layers : List Document}

theorem HasHeader.congr (h : w'.home = w.home)
    (hs : w'.disk.node? (w.home ++ header) = w.disk.node? (w.home ++ header))
    (has : HasHeader w layers) : HasHeader w' layers := by
  obtain ⟨text, ht, hw⟩ := has
  exact ⟨text, ht, by rw [h, hs, hw]⟩

theorem HasHeader.kept (inside : b.Inside) (ho : b.firmware.isQmk = false) (h : w.Kept (zone b) w')
    (has : HasHeader w layers) : HasHeader w' layers := by
  refine has.congr h.home (h.unchanged (not_covers_header inside prefix_rfl)
    (header_not_above inside) fun hm => ?_)
  simp [zone, ho] at hm

theorem HasHeader.outputs (h : w.Kept outputs w') (has : HasHeader w layers) : HasHeader w' layers :=
  has.congr h.home (unchanged_by_outputs_of_head h (.inl rfl) _)

end Header

section Accepted

variable {c : Configuration} (options : Options) {w : Workspace} {later : List Board}
  {made : Generated} (accepted : checkBoardsStrictly c.inventory.boards = .ok ())
  (inside : ∀ a ∈ c.inventory.boards, a.Inside)

include accepted

theorem Reported.isMade (hr : Reported c options w b later made) :
    ∃ s s', (makeBoard c options b).run.run s = (.ok (some made), s') := by
  obtain ⟨hs, -, hg, hp⟩ := hr
  have h := Inventory.find?_of_accepted accepted (b := b) (by simp [hs])
  obtain ⟨other, ready, middle, -, -, hm, -, -, ho⟩ := turn_eq_true h (Prod.ext hg rfl)
  obtain rfl := Option.some.inj (ho.symm.trans hp)
  exact ⟨ready, middle, hm⟩

include inside

theorem Reported.holds (ht : w.disk.Tidy) (reported : Reported c options w b later made)
    (h : ∀ a ∈ later, Apart a b) :
    ((all c options).run.run ⟨w, c.compiler⟩).2.workspace.Holds b.outputDirectory made.files := by
  obtain ⟨hs, hr, hg, hp⟩ := reported
  obtain ⟨other, ho, hh⟩ := holds_of_generated options accepted inside ht hs h hr (Prod.ext hg rfl)
  obtain rfl := Option.some.inj (ho.symm.trans hp)
  exact hh

theorem Reported.hasHeader (ht : w.disk.Tidy) (reported : Reported c options w b later made)
    (hq : b.firmware.isQmk) (others : ∀ a ∈ later, a.firmware.isQmk = false) :
    HasHeader ((all c options).run.run ⟨w, c.compiler⟩).2.workspace made.layers := by
  obtain ⟨hs, hr, hg, hp⟩ := reported
  rename_i earlier results s
  have hm : b ∈ c.inventory.boards := by simp [hs]
  have hi := inside b hm
  have hf := Inventory.find?_of_accepted accepted hm
  have he : earlier ⊆ c.inventory.boards := by simp [hs]
  have hl : later ⊆ c.inventory.boards := fun a ha => by simp [hs, ha]
  let Good := fun s : Session => s.workspace.disk.Tidy ∧ HasHeader s.workspace made.layers
  -- At its turn the board writes the header.
  have h : Good ((turn c options b).run.run s).2 := by
    have htt : s.workspace.disk.Tidy := by
      simpa [hr] using tidy_boards options accepted inside he (s := ⟨w, c.compiler⟩) ht
    obtain ⟨other, ready, middle, stored, hqt, hmd, hst, hsm, ho⟩ := turn_eq_true hf (Prod.ext hg rfl)
    obtain rfl := Option.some.inj (ho.symm.trans hp)
    have htm : middle.workspace.disk.Tidy := by rwa [hqt.2.1]
    have hw := (storeFiles_holdsOnly hi (proper_makeBoard hi hmd) htm hst).2 hq
    refine ⟨(within_turn options accepted inside hm s htt).tidy, ?_⟩
    exact hw.congr (congrArg Path.names hsm.2) (by rw [hsm.1])
  -- Nobody writes it later.
  have hb : Effects (Session.Keeps Good) (boards c options later) := by
    refine keeps_boards options accepted inside (fun s h => h.1) hl ?_
    intro a ha s s' h hk _
    exact ⟨hk.tidy, h.2.kept (inside a (hl ha)) (others a ha) hk⟩
  have hfk (results : List Bool) : Effects (Session.Keeps Good) (Run.work (finish options results)) := by
    refine ⟨fun s h => ?_⟩
    have hk := touches_finish options results s.workspace h.1
    exact ⟨hk.tidy, h.2.outputs hk⟩
  rw [all_run hs hr (Prod.ext hg rfl)]
  exact (hb.bind (fun _ => inferInstance) _ h).2

end Accepted

/-- After a run for all boards, the header reads as the list of the layers of the last QMK board that was
generated. It fits another one, whose keymap designates its own layers in order, exactly if that board
has the same layers. -/
theorem header_fits_iff_same_layers (c : Configuration) (options : Options) (w : Workspace)
    (tidy : w.disk.Tidy) (valid : c.keymap.validate = .ok ())
    (accepted : checkBoardsStrictly c.inventory.boards = .ok ())
    (inside : ∀ a ∈ c.inventory.boards, a.Inside) {last : Board} {after : List Board} {made : Generated}
    (reported : Reported c options w last after made) (isQmk : last.firmware.isQmk = true)
    (others : ∀ a ∈ after, a.firmware.isQmk = false) :
    let final := ((all c options).run.run ⟨w, c.compiler⟩).2.workspace
    ∃ text, final.disk.node? (final.home ++ header) = some (.file (.text text)) ∧
      ∀ b later own, Reported c options w b later own → b.firmware.isQmk = true →
        ∃ names keymap, own.layers = names.map .text ∧ ("keymap.c", keymap) ∈ own.files ∧
          Defines keymap names ∧
          ((Enumerator.read text = names.map fun name => ⟨name, none⟩) ↔ own.layers = made.layers) ∧
          (b.keymapFile.isPresent = false → last.keymapFile.isPresent = false →
            ∀ k, OneShot.addShadows c.keymap = .ok k →
              (own.layers = made.layers ↔ layersFor b k = layersFor last k)) ∧
          ((∀ a ∈ later, Apart a b) → final.Holds b.outputDirectory own.files) := by
  intro final
  obtain ⟨text, isText, written⟩ := reported.hasHeader options accepted inside tidy isQmk others
  obtain ⟨_, _, isMade⟩ := reported.isMade options accepted
  obtain ⟨keymap, named, isLayers⟩ := makeBoard_layers valid isMade
  obtain ⟨enumerated, isEnumerated, words⟩ := exists_names (b := last) named
  rw [← isLayers] at isEnumerated
  rw [isEnumerated] at isText
  have isRead := read_layersHeader words isText
  refine ⟨text, written, fun b later own reportedOwn isQmkOwn => ?_⟩
  obtain ⟨_, _, isOwn⟩ := reportedOwn.isMade options accepted
  obtain ⟨keymapOwn, namedOwn, isLayersOwn⟩ := makeBoard_layers valid isOwn
  obtain ⟨names, isNames, -⟩ := exists_names (b := b) namedOwn
  rw [← isLayersOwn] at isNames
  obtain ⟨keymapText, member, defines⟩ := makeBoard_defines isQmkOwn isOwn isNames
  refine ⟨names, keymapText, isNames, member, defines, ?_, fun common commonLast k isKeymap => ?_,
    reportedOwn.holds options accepted inside tidy⟩
  · rw [isRead, isNames, isEnumerated]
    have injective : Function.Injective fun name : String => (⟨name, none⟩ : Enumerator) :=
      fun _ _ same => (Enumerator.mk.inj same).1
    have texts : Function.Injective Document.text := fun _ _ same => Document.text.inj same
    rw [(List.map_injective_iff.mpr injective).eq_iff, (List.map_injective_iff.mpr texts).eq_iff, eq_comm]
  · rw [makeBoard_common common isOwn isKeymap, makeBoard_common commonLast isMade isKeymap]

theorem playful_accepted : checkBoardsStrictly playful.inventory.boards = .ok () :=
  eq_ok_of_toOption (by decide)

theorem playful_overlays : OverlaysInside playful := by
  intro b h path hp
  simp only [playful, mem_cons, not_mem_nil, or_false] at h
  rcases h with rfl | rfl <;> cases hp

theorem playful_unstopped : ∀ b ∈ playful.inventory.boards, ¬ Stops playful {} emptyWorkspace b := by
  have hr : ∀ b ∈ playful.inventory.boards, ((precompile playful b >>= fun _ =>
      readBoard playful {} b).run.run playfulSession).1.toOption.isSome := by decide +kernel
  intro b h
  exact not_stops (Inventory.find?_of_accepted playful_accepted h) (hr b h)

theorem playful_apart : Apart (keyboard "gamer" ["GAME"]) (keyboard "plain" []) := by decide

theorem gamer_succeeds : ((board playful {} "gamer").run.run playfulSession).1 = .ok true :=
  eq_ok_of_toOption (by decide +kernel)

theorem playful_turn (h : b ∈ playful.inventory.boards) (fresh : LikeFresh playful emptyWorkspace s)
    (hr : Ready b emptyWorkspace → Ready b s.workspace)
    (ha : ((board playful {} b.id).run.run playfulSession).1 = .ok true) :
    ∃ t, (turn playful {} b).run.run s = (.ok true, t) := by
  have hf := Inventory.find?_of_accepted playful_accepted h
  have hi := inside_playful b h
  exact fresh.turn_of_alone hf hi tidy_emptyWorkspace
    (hr (ready_of_alone hf hi tidy_emptyWorkspace ha)) ha (playful_unstopped b h)

theorem plain_turn : ∃ t, (turn playful {} (keyboard "plain" [])).run.run playfulSession = (.ok true, t) :=
  playful_turn mem_cons_self (.start tidy_emptyWorkspace) id plain_succeeds

theorem plain_reported :
    ∃ made, Reported playful {} emptyWorkspace (keyboard "plain" []) [keyboard "gamer" ["GAME"]] made := by
  obtain ⟨t, h⟩ := plain_turn
  have hs : (boards playful {} []).run.run ⟨emptyWorkspace, playful.compiler⟩ = (.ok [], playfulSession) := rfl
  exact Reported.of_turn playful_accepted rfl hs (by rw [h])

theorem gamer_reported : ∃ made, Reported playful {} emptyWorkspace (keyboard "gamer" ["GAME"]) [] made := by
  obtain ⟨t, hg⟩ := plain_turn
  have hr : (boards playful {} [keyboard "plain" []]).run.run playfulSession = (.ok [true], t) := by
    rw [boards_cons]
    exact run_bind_eq_ok.mpr ⟨true, t, hg, run_bind_eq_ok.mpr ⟨[], t, rfl, rfl⟩⟩
  have h : keyboard "plain" [] ∈ playful.inventory.boards := mem_cons_self
  have hs : keyboard "gamer" ["GAME"] ∈ playful.inventory.boards := by simp [playful]
  have hk := within_turn {} playful_accepted inside_playful h playfulSession tidy_emptyWorkspace
  have hrl : Effects Session.KeepsRules (turn playful {} (keyboard "plain" [])) := rules_turn _
  have hkr := hrl playfulSession
  rw [hg] at hk hkr
  have hf : LikeFresh playful emptyWorkspace t :=
    LikeFresh.step inside_playful playful_overlays h (.start tidy_emptyWorkspace) hk hkr
  obtain ⟨u, hgn⟩ := playful_turn hs hf
    (ready_kept (inside_playful _ h) (inside_playful _ hs)
      (fun ha => absurd ha playful_apart.2) hk) gamer_succeeds
  exact Reported.of_turn playful_accepted rfl hr (by rw [hgn])

/-- Both boards are generated, but the header tells a layer that the first one has not got. -/
theorem plain_header_unfit :
    let final := ((all playful {}).run.run ⟨emptyWorkspace, playful.compiler⟩).2.workspace
    ∃ text, ∃ own : Generated, ∃ names keymap, final.disk.node? (final.home ++ header) = some (.file (.text text)) ∧
      final.Holds (keyboard "plain" []).outputDirectory own.files ∧ ("keymap.c", keymap) ∈ own.files ∧
      Defines keymap names ∧ Enumerator.read text ≠ names.map fun name => ⟨name, none⟩ := by
  intro final
  obtain ⟨made, gamer⟩ := gamer_reported
  obtain ⟨own, plain⟩ := plain_reported
  obtain ⟨text, written, fits⟩ := header_fits_iff_same_layers playful {} emptyWorkspace
    tidy_emptyWorkspace playful_valid playful_accepted inside_playful gamer rfl (by simp)
  obtain ⟨names, keymap, -, member, defines, fits, same, holds⟩ := fits _ _ own plain rfl
  have counts : (OneShot.addShadows playful.keymap).toOption.map (fun k =>
      ((layersFor (keyboard "plain" []) k).length, (layersFor (keyboard "gamer" ["GAME"]) k).length)) =
      some (1, 2) := by decide
  obtain ⟨k, isKeymap⟩ : ∃ k, OneShot.addShadows playful.keymap = .ok k := exists_eq_ok (by decide)
  have apart : ∀ a ∈ [keyboard "gamer" ["GAME"]], Apart a (keyboard "plain" []) := by
    simp [playful_apart]
  refine ⟨text, own, names, keymap, written, holds apart, member, defines, fun isRead => ?_⟩
  have equal := (same rfl rfl k isKeymap).mp (fits.mp isRead)
  rw [isKeymap] at counts
  simp [Except.toOption, equal] at counts
  omega

end Generate

end Keymap
