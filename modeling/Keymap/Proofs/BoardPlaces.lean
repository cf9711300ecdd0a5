import Keymap.Proofs.BoardFiles
import Keymap.Proofs.StoredFiles

namespace Keymap

open List

namespace Board

def target (b : Board) : String :=
  match b.firmware with
  | .qmk => b.qmkKeyboard.toText
  | _ => b.zmkShield.toText

def Inside (b : Board) : Prop :=
  Path.Inner b.target

instance (b : Board) : Decidable b.Inside :=
  inferInstanceAs (Decidable (Path.Inner b.target))

def place (b : Board) : List String :=
  Path.names b.outputDirectory

def IsKeymapPlace (names : List String) : Prop :=
  ∃ rest, rest ≠ [] ∧ (names = "qmk" :: "keyboards" :: rest ∨ names = "zmk" :: "keymaps" :: rest)

theorem keyboardDirectory_inner {keyboard : String} (hi : Path.Inner keyboard) :
    Path.Inner s!"qmk/keyboards/{keyboard}/keymaps/dario" ∧
      IsKeymapPlace (Path.names s!"qmk/keyboards/{keyboard}/keymaps/dario") := by
  have hp : s!"qmk/keyboards/{keyboard}/keymaps/dario" =
      "qmk/keyboards" ++ "/" ++ (keyboard ++ "/" ++ "keymaps/dario") := by
    change "qmk/keyboards/" ++ keyboard ++ "/keymaps/dario" = _
    apply String.toList_inj.mp
    simp [String.toList_append]
  have h : Path.names (keyboard ++ "/" ++ "keymaps/dario") = Path.names keyboard ++ ["keymaps", "dario"] :=
    Path.names_slash _ _
  have top : Path.Inner "qmk/keyboards" := ⟨by decide, by decide⟩
  rw [hp]
  constructor
  · apply top.slash (by decide)
    rw [h]
    simp [hi.down]
  · refine ⟨Path.names keyboard ++ ["keymaps", "dario"], by simp, .inl ?_⟩
    rw [Path.names_slash, h]
    rfl

theorem shieldDirectory_inner {shield : String} (h : Path.Inner shield) :
    Path.Inner s!"zmk/keymaps/{shield}_dario" ∧ IsKeymapPlace (Path.names s!"zmk/keymaps/{shield}_dario") := by
  have hp : s!"zmk/keymaps/{shield}_dario" = "zmk/keymaps" ++ "/" ++ (shield ++ "_dario") := by
    change "zmk/keymaps/" ++ shield ++ "_dario" = _
    apply String.toList_inj.mp
    simp [String.toList_append]
  have hnm := h.append (by decide : '/' ∉ "_dario".toList) (by decide)
  obtain ⟨above, last, -, hn⟩ := Path.names_append (by decide : '/' ∉ "_dario".toList) (by decide) shield
  have top : Path.Inner "zmk/keymaps" := ⟨by decide, by decide⟩
  rw [hp]
  refine ⟨top.slash (by decide) hnm.down, above ++ [last ++ "_dario"], by simp, .inr ?_⟩
  rw [Path.names_slash, hn]
  rfl

theorem outputDirectory_inner {b : Board} (inside : b.Inside) :
    Path.Inner b.outputDirectory ∧ IsKeymapPlace b.place := by
  unfold Inside target at inside
  unfold place outputDirectory
  cases h : b.firmware with
  | qmk =>
    rw [h] at inside
    exact keyboardDirectory_inner inside
  | zmk | other =>
    rw [h] at inside
    exact shieldDirectory_inner inside

end Board

namespace Generate

variable {c : Configuration} {made : Generated} {w w' : Workspace} {files : List (String × String)}
  {b : Board} {options : Options} {layers : List CompiledLayer} {names : List String}
  {morphs : List ShiftMorph}

theorem proper_qmkFiles {training : Bool} {raw : List Layer}
    (h : qmkFiles c training b layers raw morphs = .ok files) : Proper files := by
  obtain ⟨keymap, -, h⟩ := bind_eq_ok.mp h
  obtain ⟨readme, -, h⟩ := bind_eq_ok.mp h
  obtain rfl := Except.ok.inj h
  refine ⟨?_, ?_, ?_⟩
  · simp only [forall_mem_cons, not_mem_nil, false_imp_iff, implies_true, and_true]
    exact ⟨⟨by decide, by decide⟩, ⟨by decide, by decide⟩, ⟨by decide, by decide⟩, by decide, by decide⟩
  · simp only [forall_mem_cons, not_mem_nil, false_imp_iff, implies_true, and_true]
    decide
  · simp only [pairwise_cons, forall_mem_cons, not_mem_nil, false_imp_iff, implies_true, and_true, Pairwise.nil]
    decide

theorem proper_zmkFiles {behaviors : Option String} (hi : Path.Inner b.zmkShield.toText)
    (h : zmkFiles c options behaviors b layers morphs = .ok files) : Proper files := by
  have hsl : '/' ∉ ".keymap".toList := by decide
  obtain ⟨above, last, -, hn⟩ := Path.names_append hsl (by decide) b.zmkShield.toText
  have hnm : Path.Inner (b.zmkShield.toText ++ ".keymap") := hi.append hsl (by decide)
  have hr : Path.names "README.md" = ["README.md"] := by decide
  have ha : Path.names (b.zmkShield.toText ++ ".keymap") ≠ Path.names "README.md" := by
    rw [hn, hr]
    intro hs
    have he := congrArg (fun names => names.getLast?.map fun name => name.toList.getLast?) hs
    simp [String.toList_append] at he
  obtain ⟨keymap, -, h⟩ := bind_eq_ok.mp h
  obtain ⟨pictures, -, h⟩ := bind_eq_ok.mp h
  obtain ⟨readme, -, h⟩ := bind_eq_ok.mp h
  have hl : files = [(b.zmkShield.toText ++ ".keymap", keymap), ("README.md", readme)] := by
    have ho : b.zmkShield.toText ++ ".keymap" ≠ "README.md" := fun hs => ha (by rw [hs])
    have hk : (b.zmkShield.toText ++ ".keymap" == "README.md") = false := by simpa using ho
    rw [← Except.ok.inj h]
    change assignAll [] [(b.zmkShield.toText ++ ".keymap", keymap), ("README.md", readme)] = _
    simp only [assignAll, foldl_cons, foldl_nil, assign, hk, Bool.false_eq_true, if_false]
  subst hl
  refine ⟨?_, ?_, ?_⟩
  · simp only [forall_mem_cons, not_mem_nil, false_imp_iff, implies_true, and_true]
    exact ⟨hnm, by decide, by decide⟩
  · simp only [forall_mem_cons, not_mem_nil, false_imp_iff, implies_true, and_true]
    exact ⟨by simp [hn], by decide⟩
  · simpa using ha

theorem proper_makeFiles {keymap : KeymapConfig} {s s' : Session} (inside : b.Inside)
    (hd : (makeFiles c options b keymap).run.run s = (.ok (some made), s')) : Proper made.files := by
  unfold Board.Inside Board.target at inside
  obtain ⟨layers, _, _, -, -, -, made⟩ := makeFiles_eq_some hd
  cases made with
  | qmk hq h => exact proper_qmkFiles h
  | zmk hz h =>
    rw [hz] at inside
    exact proper_zmkFiles inside h

def header : List String :=
  ["qmk", "users", "dario", "layers.gen.h"]

theorem names_layersHeaderPath : Path.names layersHeaderPath = header := by decide

theorem inner_layersHeaderPath : Path.Inner layersHeaderPath := ⟨by decide, by decide⟩

def zone (b : Board) : Zone where
  trees := [b.place]
  files := if b.firmware.isQmk then [header] else []

theorem mem_files_zone (h : names ∈ (zone b).files) : names = header := by
  simp only [zone] at h
  split at h
  · exact mem_singleton.mp h
  · cases h

theorem covers_zone : (zone b).Covers names ↔ b.place <+: names := by
  simp [Zone.Covers, zone]

/-- Nothing stands in the way of the files of a board. -/
structure Ready (b : Board) (w : Workspace) : Prop where
  writable : Writable b.outputDirectory w
  storable : b.firmware.isQmk = true → Work.Storable w layersHeaderPath

theorem storeFiles_eq (b : Board) (made : Generated) : storeFiles b made =
    writeAll b.outputDirectory made.files >>= fun _ =>
      if b.firmware.isQmk then liftM (layersHeader made.layers) >>= Work.store layersHeaderPath
      else pure () := rfl

variable (inside : b.Inside)

include inside

theorem place_nonempty : b.place ≠ [] := by
  obtain ⟨-, rest, -, h | h⟩ := Board.outputDirectory_inner inside
  · simp [h]
  · simp [h]

theorem header_apart : ¬ b.place <+: header ∧ ¬ header <+: b.place := by
  obtain ⟨-, rest, -, h | h⟩ := Board.outputDirectory_inner inside
  · simp [h, header]
  · simp [h, header]

theorem not_covers_header {t : List String} (hp : t <+: header) : ¬ (zone b).Covers t := by
  rw [covers_zone]
  exact fun h => (header_apart inside).1 (h.trans hp)

theorem header_not_above : ¬ (zone b).Above header := by
  rintro ⟨-, part, hm, hp, hpr⟩
  rcases mem_append.mp hm with ht | h
  · obtain rfl := mem_singleton.mp ht
    exact (header_apart inside).2 hp
  · exact hpr (mem_files_zone h).symm

theorem home_kept (hk : w.Kept (zone b) w') : w'.disk.node? w.home = w.disk.node? w.home := by
  have top : ([] : List String) <+: header := nil_prefix
  have hs := hk.unchanged (not_covers_header inside top) (fun h => h.1 rfl) fun hm => by cases mem_files_zone hm
  simpa using hs

theorem storable_header (h : w.Kept (zone b) w') (hs : Work.Storable w layersHeaderPath) :
    Work.Storable w' layersHeaderPath := by
  have ha : header.dropLast <+: header := dropLast_prefix _
  refine ⟨?_, ?_, ?_, hs.short, ?_, ?_⟩
  · rw [Work.pathCheck_congr h.root]
    exact hs.askedParent
  · rw [Work.pathCheck_congr h.root]
    exact hs.asked
  · rw [h.home, home_kept inside h]
    exact hs.root
  · have hc := hs.clear
    rw [names_layersHeaderPath] at hc ⊢
    rw [h.home]
    intro t hp
    have hw := hp.trans ha
    refine (h.inside t (not_covers_header inside hw)).noFile (fun hm => ?_) (hc t hp)
    have hsh := hp.length_le
    rw [mem_files_zone hm] at hsh
    simp [header] at hsh
  · have hf := hs.free
    rw [names_layersHeaderPath] at hf ⊢
    rw [h.home]
    exact (h.inside _ (not_covers_header inside prefix_rfl)).noDirectory (header_not_above inside) hf

theorem storable_header_before (h : w.Kept (zone b) w') (hs : Work.Storable w' layersHeaderPath) :
    Work.Storable w layersHeaderPath := by
  have ha : header.dropLast <+: header := dropLast_prefix _
  refine ⟨?_, ?_, ?_, hs.short, ?_, ?_⟩
  · rw [← Work.pathCheck_congr h.root]
    exact hs.askedParent
  · rw [← Work.pathCheck_congr h.root]
    exact hs.asked
  · rw [← home_kept inside h, ← h.home]
    exact hs.root
  · have hc := hs.clear
    rw [names_layersHeaderPath, h.home] at hc
    rw [names_layersHeaderPath]
    intro t hp
    exact (h.inside t (not_covers_header inside (hp.trans ha))).noFile_before (hc t hp)
  · have hf := hs.free
    rw [names_layersHeaderPath, h.home] at hf
    rw [names_layersHeaderPath]
    exact (h.inside _ (not_covers_header inside prefix_rfl)).noDirectory_before hf

theorem touches_storeAll (h : Proper files) :
    Effects (Workspace.Touches (zone b)) (storeAll b.outputDirectory files) := by
  have hi := (Board.outputDirectory_inner inside).1
  induction files with
  | nil => exact inferInstanceAs (Effects _ (pure _))
  | cons f rest ih =>
    obtain ⟨name, text⟩ := f
    have hm : (name, text) ∈ (name, text) :: rest := mem_cons_self
    have hnm := Path.names_join b.outputDirectory (h.inner _ hm).relative
    have hn := h.some _ hm
    have ha : (zone b).Admits (Path.names (Path.join b.outputDirectory name)) := by
      rw [hnm]
      refine ⟨?_, ?_, .inl (covers_zone.mpr (prefix_append _ _))⟩
      · exact append_ne_nil_of_right_ne_nil _ hn
      · intro top
        have hs := mem_singleton.mp top
        exact hn (by simpa [Board.place] using hs)
    exact (Work.touches_store (hi.join (place_nonempty inside) (h.inner _ hm)) ha text).bind fun _ => ih h.tail

theorem touches_writeAll (hp : Proper files) :
    Effects (Workspace.Touches (zone b)) (writeAll b.outputDirectory files) := by
  have hi := (Board.outputDirectory_inner inside).1
  have h : (zone b).Covers (Path.names b.outputDirectory) := covers_zone.mpr prefix_rfl
  have hc := Work.touches_clear hi h
  have hm : Effects (Workspace.Touches (zone b)) (Work.makeDirectories b.outputDirectory) :=
    Work.touches_makeDirectories hi (.inl h)
  have hs := touches_storeAll inside hp
  rw [writeAll_eq]
  infer_instance

theorem touches_storeFiles (hp : Proper made.files) :
    Effects (Workspace.Touches (zone b)) (storeFiles b made) := by
  rw [storeFiles_eq]
  refine (touches_writeAll inside hp).bind fun _ => ?_
  cases h : b.firmware.isQmk with
  | false => exact inferInstanceAs (Effects _ (pure _))
  | true =>
    refine Effects.bind inferInstance fun text => Work.touches_store inner_layersHeaderPath ?_ text
    rw [names_layersHeaderPath]
    refine ⟨by decide, fun top => ?_, .inr (by simp [zone, h])⟩
    have ht := mem_singleton.mp top
    exact (header_apart inside).1 (ht ▸ prefix_rfl)

theorem storeFiles_eq_ok (proper : Proper made.files) (ht : w.disk.Tidy)
    (h : (storeFiles b made).run.run w = (.ok (), w')) : Ready b w ∧ w'.Holds b.outputDirectory made.files := by
  have hi := (Board.outputDirectory_inner inside).1
  have htc := touches_writeAll inside proper w
  rw [storeFiles_eq] at h
  obtain ⟨_, middle, hw, h⟩ := run_bind_eq_ok.mp h
  rw [hw] at htc
  obtain ⟨hwr, hh⟩ := writeAll_eq_ok hi (place_nonempty inside) proper ht hw
  cases hf : b.firmware.isQmk with
  | false =>
    simp only [hf, Bool.false_eq_true, if_false] at h
    obtain ⟨-, rfl⟩ := run_pure_eq_ok.mp h
    exact ⟨⟨hwr, fun hq => by rw [hf] at hq; cases hq⟩, hh⟩
  | true =>
    simp only [hf, if_true] at h
    obtain ⟨text, _, htx, h⟩ := run_bind_eq_ok.mp h
    obtain ⟨-, rfl⟩ := run_liftM_eq_ok.mp htx
    have hs := Work.store_eq_ok inner_layersHeaderPath (by decide) h
    refine ⟨⟨hwr, fun _ => storable_header_before inside (htc ht) hs.1⟩, ?_⟩
    have hhm : w'.home = middle.home := congrArg Path.names hs.2.root
    intro tail content
    rw [hhm, ← hh tail content]
    have ho := hs.2.others
    rw [names_layersHeaderPath] at ho
    rw [ho]
    intro t hp hsm
    rw [append_assoc] at hsm
    rw [← append_cancel_left hsm] at hp
    exact (header_apart inside).1 ((prefix_append _ _).trans hp)

theorem storeFiles_again {v : Workspace} (hp : Proper made.files) (tidy : w.disk.Tidy)
    (tidy' : v.disk.Tidy) (same : v.root = w.root) (h : (storeFiles b made).run.run w = (.ok (), w'))
    (hr : Ready b v) : ∃ v', (storeFiles b made).run.run v = (.ok (), v') := by
  have hi := (Board.outputDirectory_inner inside).1
  rw [storeFiles_eq] at h ⊢
  obtain ⟨_, middle, hwr, h⟩ := run_bind_eq_ok.mp h
  obtain ⟨next, hw⟩ := writeAll_again hi (place_nonempty inside) hp tidy tidy' same hwr hr.writable
  have htc := touches_writeAll inside hp v
  rw [hw] at htc
  cases hf : b.firmware.isQmk with
  | false =>
    simp only [hf, Bool.false_eq_true, if_false] at h ⊢
    exact ⟨next, run_bind_eq_ok.mpr ⟨(), next, hw, rfl⟩⟩
  | true =>
    simp only [hf, if_true] at h ⊢
    obtain ⟨text, _, ht, -⟩ := run_bind_eq_ok.mp h
    obtain ⟨ht, -⟩ := run_liftM_eq_ok.mp ht
    have hst := storable_header inside (htc tidy') (hr.storable hf)
    obtain ⟨after, hs⟩ := Work.store_ok inner_layersHeaderPath (by decide) text hst
    refine ⟨after, run_bind_eq_ok.mpr ⟨(), next, hw, run_bind_eq_ok.mpr ⟨text, next, ?_, hs⟩⟩⟩
    exact run_liftM_eq_ok.mpr ⟨ht, rfl⟩

end Generate

end Keymap
