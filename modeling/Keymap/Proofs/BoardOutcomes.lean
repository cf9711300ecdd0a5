import Keymap.Proofs.LayerNames
import Keymap.Proofs.SeparateBoards

namespace Keymap

open List

variable {fault : Fault} {w w' : Workspace}

inductive Fault.OfFiles : Fault → Prop
  | refused (cause : SystemCause) (shown : String) : OfFiles (.system cause shown)
  | noPath : OfFiles (.malformed "embedded null byte")

namespace Work

variable (path : String)

theorem ofFiles_pathCheck (h : pathCheck w path = .error fault) : fault.OfFiles := by
  unfold pathCheck at h
  split at h
  · cases h
    exact .noPath
  · split at h
    · cases h
      exact .refused _ _
    · cases h

theorem ofFiles_checked {ε : Type} {x : Except ε (Disk Content)} {report : ε → Fault}
    (hr : ∀ e, (report e).OfFiles)
    (h : (settle w (pathCheck w path >>= fun _ => x.mapError report)).1 = .error fault) :
    fault.OfFiles := by
  cases hc : pathCheck w path with
  | error other =>
    rw [hc] at h
    cases h
    exact ofFiles_pathCheck path hc
  | ok =>
    rw [hc] at h
    cases x with
    | error e =>
      cases h
      exact hr e
    | ok disk => cases h

theorem fails_makeDirectories : FailsBy Fault.OfFiles (makeDirectories path) := by
  intro w fault h
  rw [run_makeDirectories] at h
  exact ofFiles_checked path (fun _ => .refused _ _) h

theorem fails_write (content : Content) : FailsBy Fault.OfFiles (write path content) := by
  intro w fault h
  rw [write, run_change] at h
  exact ofFiles_checked path (fun _ => .refused _ _) h

theorem fails_isThere : FailsBy Fault.OfFiles (isThere path) := by
  have hc : FailsBy Fault.OfFiles (checkLength path) := by
    intro w fault h
    rw [run_checkLength] at h
    split at h
    · cases h
      exact .refused _ _
    · cases h
  unfold isThere
  refine .ite (.pure _) (hc.bind fun _ => FailsBy.get.bind fun w => ?_)
  split
  · exact .pure _
  · exact .throw (.refused _ _)
  · exact .pure _

theorem fails_clear : FailsBy Fault.OfFiles (clear path) := by
  intro w fault h
  rw [run_clear] at h
  cases ha : ((isThere path).run.run w).1 with
  | error other =>
    rw [ha] at h
    cases h
    exact fails_isThere path w fault ha
  | ok there =>
    rw [ha] at h
    cases there with
    | false => cases h
    | true =>
      cases hr : w.disk.removeTree (w.start path) (Path.names path) with
      | error cause =>
        simp only [hr] at h
        cases h
        exact .refused _ _
      | ok disk =>
        simp only [hr] at h
        cases h

theorem fails_say (text : String) : FailsBy Fault.OfFiles (say text) :=
  fun _ _ h => nomatch h

theorem fails_store (text : String) : FailsBy Fault.OfFiles (store path text) :=
  (fails_makeDirectories _).bind fun _ => fails_write path _

end Work

namespace Workspace

/-- Below a directory there are these files and the directories that they are in, and nothing else. -/
structure HoldsOnly (w : Workspace) (directory : String) (files : List (String × String)) : Prop where
  held : w.Holds directory files
  directories : ∀ tail, w.disk.node? (w.home ++ Path.names directory ++ tail) = some .directory ↔
    tail = [] ∨ ∃ f ∈ files, tail <+: Path.names f.1 ∧ tail ≠ Path.names f.1

theorem HoldsOnly.congr {directory : String} {files : List (String × String)} (hh : w'.home = w.home)
    (hs : ∀ tail, w'.disk.node? (w.home ++ Path.names directory ++ tail) =
      w.disk.node? (w.home ++ Path.names directory ++ tail))
    (h : w.HoldsOnly directory files) : w'.HoldsOnly directory files := by
  constructor
  · intro tail content
    rw [hh, hs, h.held tail content]
  · intro tail
    rw [hh, hs, h.directories tail]

end Workspace

namespace Generate

variable {b : Board} {made : Generated}

section Exact

variable {directory path name text : String} {files : List (String × String)}

theorem holdsOnly_store (h : Path.names path = Path.names directory ++ Path.names name)
    (hn : Path.names name ≠ []) (new : ∀ f ∈ files, Path.names f.1 ≠ Path.names name)
    (storable : Work.Storable w path) (hs : Work.Stored path text w w')
    (hb : w.HoldsOnly directory files) : w'.HoldsOnly directory (files ++ [(name, text)]) := by
  have hhm : w'.home = w.home := congrArg Path.names hs.root
  have hwh : ∀ tail, w.home ++ Path.names directory ++ tail = w.home ++ (Path.names directory ++ tail) :=
    fun tail => append_assoc _ _ _
  refine ⟨holds_store h new storable hs hb.held, fun tail => ?_⟩
  have hsp : (∃ f ∈ files ++ [(name, text)], tail <+: Path.names f.1 ∧ tail ≠ Path.names f.1) ↔
      (∃ f ∈ files, tail <+: Path.names f.1 ∧ tail ≠ Path.names f.1) ∨
        tail <+: Path.names name ∧ tail ≠ Path.names name := by
    simp [or_and_right, exists_or]
  rw [hhm, hsp]
  by_cases hw : tail <+: Path.names name
  · by_cases hh : tail = Path.names name
    · subst hh
      -- A directory that is there already cannot be in the place of the file.
      have hf := storable.free
      rw [h, ← hwh, ne_eq, hb.directories] at hf
      have hwr := hs.written
      rw [h, ← hwh] at hwr
      simp only [hwr, Option.some.injEq, reduceCtorEq, ne_eq, not_true_eq_false, and_false, or_false, false_iff]
      exact hf
    · have ha : Path.names directory ++ tail <+: (Path.names path).dropLast := by
        rw [h, dropLast_append_of_ne_nil hn]
        exact (prefix_append_right_inj _).mpr (Work.part_of_dropLast hw hh)
      rw [hwh, hs.directories _ ha]
      simp [hw, hh]
  · have har : ∀ t, t <+: Path.names path → w.home ++ Path.names directory ++ tail ≠ w.home ++ t := by
      intro t hp hsm
      rw [hwh] at hsm
      rw [← append_cancel_left hsm, h, prefix_append_right_inj] at hp
      exact hw hp
    rw [hs.others _ har, hb.directories]
    simp [hw]

theorem writeAll_holdsOnly (inner : Path.Inner directory) (nonempty : Path.names directory ≠ [])
    (proper : Proper files) (tidy : w.disk.Tidy)
    (done : (writeAll directory files).run.run w = (.ok (), w')) : w'.HoldsOnly directory files := by
  obtain ⟨-, middle, after, log, h, hs, rfl⟩ := writeAll_stored inner nonempty tidy done
  have hnt : middle.HoldsOnly directory [] := by
    constructor
    · intro tail content
      rw [h.node?]
      split <;> simp
    · intro tail
      rw [h.node?]
      by_cases hhr : tail = [] <;> simp [hhr]
  have hh := storeAll_invariant (P := fun before v => v.HoldsOnly directory before) inner nonempty
    holdsOnly_store (nil_append files ▸ proper) hnt hs
  exact ⟨hh.held, hh.directories⟩

end Exact

section Header

variable {names : List String}

theorem checkTextsFrom_text (i : Nat) (names : List String) :
    Document.checkTextsFrom i (names.map .text) = .ok names := by
  induction names generalizing i with
  | nil => rfl
  | cons name names ih => rw [map_cons, Document.checkTextsFrom, ih]; rfl

theorem layersHeader_text (names : List String) : ∃ text, layersHeader (names.map .text) = .ok text := by
  rw [layersHeader, Document.joinTexts, checkTextsFrom_text]
  exact ⟨_, rfl⟩

theorem exists_names {keymap : KeymapConfig} (h : keymap.Named) :
    ∃ names : List String, layersFor b keymap = names.map .text ∧ ∀ name ∈ names, Text.IsWord name := by
  have he : ∀ {layers : List Layer}, (∀ layer ∈ layers, ∃ name, layer.name = .text name ∧ Text.IsWord name) →
      ∃ names : List String, layers.map (·.name) = names.map .text ∧ ∀ name ∈ names, Text.IsWord name := by
    intro layers
    induction layers with
    | nil => exact fun _ => ⟨[], rfl, by simp⟩
    | cons layer rest ih =>
      intro h
      obtain ⟨name, ht, hw⟩ := h layer mem_cons_self
      obtain ⟨names, hn, hwr⟩ := ih fun other hm => h other (mem_cons_of_mem _ hm)
      refine ⟨name :: names, ?_, forall_mem_cons.mpr ⟨hw, hwr⟩⟩
      rw [map_cons, map_cons, ht, hn]
  exact he fun layer hm => h layer (mem_filter.mp hm).1

end Header

theorem fails_storeAll (directory : String) (files : List (String × String)) :
    FailsBy Fault.OfFiles (storeAll directory files) := by
  induction files with
  | nil => exact .pure _
  | cons f rest ih => exact (Work.fails_store _ _).bind fun _ => ih

theorem fails_storeFiles (b : Board) {text : String} (ht : layersHeader made.layers = .ok text) :
    FailsBy Fault.OfFiles (storeFiles b made) := by
  have hw : FailsBy Fault.OfFiles (writeAll b.outputDirectory made.files) := by
    rw [writeAll_eq]
    refine ((Work.fails_clear _).bind fun _ => Work.fails_makeDirectories _).bind fun _ => ?_
    exact (fails_storeAll _ _).bind fun _ => FailsBy.get.bind fun w => Work.fails_say _
  have hh : FailsBy Fault.OfFiles (liftM (layersHeader made.layers) : Work String) :=
    .lifted fun fault h => nomatch ht.symm.trans h
  rw [storeFiles_eq]
  refine hw.bind fun _ => .ite (hh.bind fun text => ?_) (.pure _)
  exact Work.fails_store layersHeaderPath text

def HasHeader (w : Workspace) (layers : List Document) : Prop :=
  ∃ text, layersHeader layers = .ok text ∧ w.disk.node? (w.home ++ header) = some (.file (.text text))

theorem storeFiles_holdsOnly (hi : b.Inside) (proper : Proper made.files) (tidy : w.disk.Tidy)
    (h : (storeFiles b made).run.run w = (.ok (), w')) :
    w'.HoldsOnly b.outputDirectory made.files ∧ (b.firmware.isQmk → HasHeader w' made.layers) := by
  have hin := (Board.outputDirectory_inner hi).1
  rw [storeFiles_eq] at h
  obtain ⟨_, middle, hwr, h⟩ := run_bind_eq_ok.mp h
  have hh := writeAll_holdsOnly hin (place_nonempty hi) proper tidy hwr
  cases hf : b.firmware.isQmk with
  | false =>
    simp only [hf, Bool.false_eq_true, if_false] at h
    obtain ⟨-, rfl⟩ := run_pure_eq_ok.mp h
    exact ⟨hh, fun hq => nomatch hq⟩
  | true =>
    simp only [hf, if_true] at h
    obtain ⟨text, _, hl, h⟩ := run_bind_eq_ok.mp h
    obtain ⟨ht, rfl⟩ := run_liftM_eq_ok.mp hl
    have hs := (Work.store_eq_ok inner_layersHeaderPath (by decide) h).2
    have hhm : w'.home = middle.home := congrArg Path.names hs.root
    have hw := hs.written
    rw [names_layersHeaderPath, ← hhm] at hw
    refine ⟨hh.congr hhm fun tail => hs.others _ fun t hp hsm => ?_, fun _ => ⟨text, ht, hw⟩⟩
    rw [append_assoc] at hsm
    rw [← append_cancel_left hsm, names_layersHeaderPath] at hp
    exact (header_apart hi).1 ((prefix_append _ _).trans hp)

section Board

variable {c : Configuration} {options : Options} {id : Document} {s s' : Session}

theorem makeBoard_layers (hv : c.keymap.validate = .ok ())
    (h : (makeBoard c options b).run.run s = (.ok (some made), s')) :
    ∃ keymap : KeymapConfig, keymap.Named ∧ made.layers = layersFor b keymap := by
  obtain ⟨keymap, middle, hr, hm⟩ := run_bind_eq_ok.mp h
  have hn := readBoard_named b hv options s keymap (by rw [hr])
  exact ⟨keymap, hn, makeFiles_layers hm⟩

theorem makeBoard_header (hv : c.keymap.validate = .ok ())
    (h : (makeBoard c options b).run.run s = (.ok (some made), s')) :
    ∃ text, layersHeader made.layers = .ok text := by
  obtain ⟨keymap, hnm, hl⟩ := makeBoard_layers hv h
  obtain ⟨names, hn, -⟩ := exists_names (b := b) hnm
  rw [hl, hn]
  exact layersHeader_text names

theorem quiet_or_unstored (hf : c.inventory.find? id = some b) {result : Result Bool}
    (h : (board c options id).run.run s = (result, s')) (failed : result ≠ .ok true) :
    s.Quiet s' ∨ ∃ made middle fault after, (makeBoard c options b).run.run s = (.ok (some made), middle) ∧
      (storeFiles b made).run.run middle.workspace = (.error fault, after) := by
  have hr := quiet_readBoard c options b s
  have he := h
  rw [board_eq c options hf, run_bind] at h
  cases hrd : (readBoard c options b).run.run s with
  | mk read t =>
    rw [hrd] at h hr
    cases read with
    | error fault =>
      obtain ⟨-, rfl⟩ := Prod.mk.inj h
      exact .inl hr
    | ok keymap =>
      have hm := trans_of Session.Quiet hr (quiet_makeFiles c options b keymap t)
      simp only [run_tryCatch, run_bind] at h
      cases hmd : (makeFiles c options b keymap).run.run t with
      | mk outcome middle =>
        rw [hmd] at h hm
        have hw : (makeBoard c options b).run.run s = (outcome, middle) := by
          rw [makeBoard, run_bind, hrd]
          exact hmd
        cases outcome with
        | error fault =>
          have hrp := quiet_reportFailure b fault middle
          simp only at h
          rw [h] at hrp
          exact .inl (trans_of Session.Quiet hm hrp)
        | ok made =>
          cases made with
          | none =>
            obtain ⟨-, rfl⟩ := Prod.mk.inj h
            exact .inl hm
          | some made =>
            cases hs : (storeFiles b made).run.run middle.workspace with
            | mk stored after =>
              cases stored with
              | error fault => exact .inr ⟨made, middle, fault, after, hw, hs⟩
              | ok =>
                obtain ⟨_, hsc, -⟩ := board_true hf hw hs
                exact absurd (Prod.mk.inj (he.symm.trans hsc)).1 failed

end Board

def StoreFails (c : Configuration) (options : Options) (id : Document) (s : Session) : Prop :=
  ∃ b made middle fault after, c.inventory.find? id = some b ∧
    (makeBoard c options b).run.run s = (.ok (some made), middle) ∧
    (storeFiles b made).run.run middle.workspace = (.error fault, after) ∧ fault.OfFiles

section Outcomes

variable {c : Configuration} {options : Options} {id : Document} {s : Session}

theorem board_of_unknown (h : c.inventory.find? id = none) : ((board c options id).run.run s).1 = .ok false ∧
      s.workspace.SameDisk ((board c options id).run.run s).2.workspace := by
  unfold board
  simp only [h]
  exact ⟨rfl, rfl, rfl⟩

theorem board_eq_true_iff (hv : c.keymap.validate = .ok ()) : ((board c options id).run.run s).1 = .ok true ↔
      (∃ made, produced c options id s = some made) ∧ ¬ StoreFails c options id s := by
  cases h : c.inventory.find? id with
  | none =>
    rw [(board_of_unknown h).1]
    simp [produced, h]
  | some b =>
    constructor
    · intro hsc
      obtain ⟨made, middle, after, hm, hs, -⟩ := board_eq_true h (Prod.ext hsc rfl)
      refine ⟨⟨made, (produced_eq_some h).mpr (by rw [hm])⟩, ?_⟩
      rintro ⟨b', made', middle', fault, after', hf, hmd, hst, -⟩
      obtain rfl := Option.some.inj (h.symm.trans hf)
      cases hm.symm.trans hmd
      cases hs.symm.trans hst
    · rintro ⟨⟨made, hm⟩, hsr⟩
      have hw : (makeBoard c options b).run.run s =
          (.ok (some made), ((makeBoard c options b).run.run s).2) :=
        Prod.ext ((produced_eq_some h).mp hm) rfl
      cases hs : (storeFiles b made).run.run ((makeBoard c options b).run.run s).2.workspace with
      | mk stored after =>
        cases stored with
        | ok =>
          obtain ⟨_, hsc, -⟩ := board_true h hw hs
          rw [hsc]
        | error fault =>
          obtain ⟨text, ht⟩ := makeBoard_header hv hw
          have hfl := fails_storeFiles b ht _ fault (by rw [hs])
          exact absurd ⟨b, made, _, fault, after, h, hw, hs, hfl⟩ hsr

theorem sameDisk_of_failed (hv : c.keymap.validate = .ok ())
    (hf : ((board c options id).run.run s).1 ≠ .ok true) :
    s.workspace.SameDisk ((board c options id).run.run s).2.workspace ∨ StoreFails c options id s := by
  cases h : c.inventory.find? id with
  | none => exact .inl (board_of_unknown h).2
  | some b =>
    rcases quiet_or_unstored h rfl hf with hq | ⟨made, middle, fault, after, hm, hs⟩
    · exact .inl hq.2
    · obtain ⟨text, ht⟩ := makeBoard_header hv hm
      have hfl := fails_storeFiles b ht _ fault (by rw [hs])
      exact .inr ⟨b, made, middle, fault, after, h, hm, hs, hfl⟩

theorem holdsOnly_of_succeeded (tidy : s.workspace.disk.Tidy) (hf : c.inventory.find? id = some b)
    (hi : b.Inside) {s' : Session} (done : (board c options id).run.run s = (.ok true, s')) :
    ∃ made, produced c options id s = some made ∧ s'.workspace.HoldsOnly b.outputDirectory made.files ∧
      (b.firmware.isQmk → HasHeader s'.workspace made.layers) := by
  obtain ⟨made, middle, after, h, hst, hd, hr⟩ := board_eq_true hf done
  have hs := (quiet_makeBoard c options b s).2
  rw [h] at hs
  have htd : middle.workspace.disk.Tidy := by rwa [hs.1]
  obtain ⟨hhl, hhd⟩ := storeFiles_holdsOnly hi (proper_makeBoard hi h) htd hst
  have hh : s'.workspace.home = after.home := congrArg Path.names hr
  refine ⟨made, (produced_eq_some hf).mpr (by rw [h]), ?_, fun hq => ?_⟩
  · exact hhl.congr hh fun tail => by rw [hd]
  · obtain ⟨text, ht, hw⟩ := hhd hq
    exact ⟨text, ht, by rw [hh, hd, hw]⟩

end Outcomes

def keyboard (id : String) (extra : List Document) : Board where
  id := .text id
  name := .text id
  firmware := .qmk
  extraLayers := .list extra
  qmkKeyboard := .text id

def playful : Configuration where
  keymap := { layers := [{ name := "GAME", fullLayout := some ⟨[List.replicate 36 (.key "NONE")]⟩ },
    { name := "BASE", core := some ⟨[List.replicate 36 (.key "NONE")]⟩ }] }
  inventory := { boards := [keyboard "plain" [], keyboard "gamer" ["GAME"]] }
  aliases := []
  combos := []
  magic := []
  keycodes := [("NONE", .record [("qmk", "KC_NO")])]

theorem playful_valid : playful.keymap.validate = .ok () :=
  eq_ok_of_toOption (by decide)

theorem inside_playful : ∀ b ∈ playful.inventory.boards, b.Inside := by decide

def playfulSession : Session :=
  ⟨emptyWorkspace, playful.compiler⟩

theorem plain_succeeds : ((board playful {} "plain").run.run playfulSession).1 = .ok true :=
  eq_ok_of_toOption (by decide +kernel)

end Generate

end Keymap
