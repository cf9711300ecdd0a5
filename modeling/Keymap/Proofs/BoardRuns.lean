import Keymap.Proofs.BoardPlaces
import Keymap.Proofs.History

namespace Keymap

open List

namespace Inventory

variable {inventory : Inventory}

theorem accepted_parts (h : checkBoardsStrictly inventory.boards = .ok ()) :
    repeatedIn (inventory.boards.map (·.id)) = [] ∧ ∀ b ∈ inventory.boards, ∃ id, b.id = .text id := by
  unfold checkBoardsStrictly at h
  by_cases he : inventory.boards.isEmpty
  · simp [he, invalid, Bind.bind, Except.bind] at h
  simp only [he, Bool.false_eq_true, if_false] at h
  by_cases ht : repeatedIn (inventory.boards.map (·.id)) = []
  · refine ⟨ht, fun b hm => ?_⟩
    have hc : inventory.boards.forM Board.checkStrictly = .ok () := by
      simpa [ht] using h
    have one := forM_eq_ok.mp hc b hm
    unfold Board.checkStrictly at one
    cases hi : b.id with
    | text id => exact ⟨id, rfl⟩
    | _ =>
      have hw : b.id.word "islower" = .error (.lacking b.id.kind "islower") := by rw [hi]; rfl
      rw [hw] at one
      by_cases hp : b.id.isPresent
      · simp [hp, Bind.bind, Except.bind] at one
      · simp [hp, invalid, Bind.bind, Except.bind] at one
  · cases hs : nameSet (repeatedIn (inventory.boards.map (·.id))) with
    | error fault => simp [ht, hs, Bind.bind, Except.bind] at h
    | ok names => simp [ht, hs, invalid, Bind.bind, Except.bind] at h

theorem find?_of_accepted (ha : checkBoardsStrictly inventory.boards = .ok ()) {b : Board}
    (h : b ∈ inventory.boards) : inventory.find? b.id = some b := by
  obtain ⟨ho, htx⟩ := accepted_parts ha
  obtain ⟨id, ht⟩ := htx b h
  have hi : b.id.same b.id := by
    rw [ht]
    simp [Document.same, Document.isWord]
  obtain ⟨before, after, hs⟩ := append_of_mem h
  have hsn : ¬ (inventory.boards.map (·.id)).countP (fun y => y.same b.id) > 1 := by
    intro htw
    have hl : b.id ∈ repeatedIn (inventory.boards.map (·.id)) :=
      mem_filter.mpr ⟨mem_map_of_mem h, by simpa using htw⟩
    rw [ho] at hl
    cases hl
  have hn : ∀ a ∈ before, ¬ a.id.same b.id := by
    intro a he hsm
    apply hsn
    rw [hs, map_append, countP_append, map_cons, countP_cons, if_pos hi]
    have hp : 0 < (before.map (·.id)).countP fun y => y.same b.id :=
      countP_pos_iff.mpr ⟨a.id, mem_map_of_mem he, hsm⟩
    omega
  rw [find?, hs, find?_append, find?_eq_none.mpr hn]
  simp [hi]

end Inventory

namespace Generate

def Session.Within (zone : Zone) (s s' : Session) : Prop :=
  s.workspace.Touches zone s'.workspace

instance {zone : Zone} : Std.Refl (Session.Within zone) :=
  ⟨fun s => refl_of (Workspace.Touches zone) s.workspace⟩

instance {zone : Zone} : IsTrans Session (Session.Within zone) :=
  ⟨fun _ _ _ first next => trans_of (Workspace.Touches zone) first next⟩

theorem Session.Quiet.within {zone : Zone} {s s' : Session} (h : s.Quiet s') : s.Within zone s' :=
  h.2.touches

instance (priority := low) {α : Type} {zone : Zone} {x : Run α} [quiet : Effects Session.Quiet x] :
    Effects (Session.Within zone) x :=
  quiet.mono fun _ _ => Session.Quiet.within

section Board

variable {c : Configuration} {options : Options} {id : Document} {b : Board} {made : Generated}
  {s' s : Session}

theorem reportFailure_run (b : Board) (fault : Fault) (s : Session) :
    ((reportFailure b fault).run.run s).1 = .ok false := by
  cases fault <;> rfl

def makeBoard (c : Configuration) (options : Options) (b : Board) : Run (Option Generated) :=
  readBoard c options b >>= makeFiles c options b

theorem quiet_makeBoard (c : Configuration) (options : Options) (b : Board) :
    Effects Session.Quiet (makeBoard c options b) := by
  unfold makeBoard
  infer_instance

theorem proper_makeBoard (inside : b.Inside)
    (h : (makeBoard c options b).run.run s = (.ok (some made), s')) : Proper made.files := by
  obtain ⟨keymap, middle, -, hm⟩ := run_bind_eq_ok.mp h
  exact proper_makeFiles inside hm

theorem produced_eq_some (h : c.inventory.find? id = some b) : produced c options id s = some made ↔
      ((makeBoard c options b).run.run s).1 = .ok (some made) := by
  unfold produced makeBoard
  rw [h]
  simp only [Option.bind_eq_bind, Option.bind_some]
  cases ((readBoard c options b >>= makeFiles c options b).run.run s).1 with
  | error fault => simp [Except.toOption]
  | ok made => cases made <;> simp [Except.toOption]

theorem board_eq_error (h : c.inventory.find? id = some b) {fault : Fault} :
    ((board c options id).run.run s).1 = .error fault ↔
      ((readBoard c options b).run.run s).1 = .error fault := by
  rw [board_eq c options h, run_bind]
  cases (readBoard c options b).run.run s with
  | mk result middle =>
    cases result with
    | error fault => simp
    | ok keymap =>
      simp only [run_tryCatch]
      cases (makeFiles c options b keymap >>= putFiles b).run.run middle with
      | mk result after =>
        cases result with
        | ok succeeded => simp
        | error fault => simp [reportFailure_run]

theorem quiet_of_board_error (hf : c.inventory.find? id = some b) {fault : Fault}
    (h : (board c options id).run.run s = (.error fault, s')) : s.Quiet s' := by
  have hq := quiet_readBoard c options b s
  rw [board_eq c options hf, run_bind] at h
  cases hr : (readBoard c options b).run.run s with
  | mk result middle =>
    rw [hr] at h hq
    cases result with
    | error fault =>
      obtain rfl := (Prod.mk.inj h).2
      exact hq
    | ok keymap =>
      simp only [run_tryCatch] at h
      cases hrn : (makeFiles c options b keymap >>= putFiles b).run.run middle with
      | mk result after =>
        rw [hrn] at h
        cases result with
        | ok succeeded => cases h
        | error fault =>
          have he := reportFailure_run b fault after
          simp only at h
          rw [h] at he
          cases he

theorem board_eq_true (hf : c.inventory.find? id = some b)
    (h : (board c options id).run.run s = (.ok true, s')) :
    ∃ made middle after, (makeBoard c options b).run.run s = (.ok (some made), middle) ∧
      (storeFiles b made).run.run middle.workspace = (.ok (), after) ∧ after.SameDisk s'.workspace := by
  rw [board_eq c options hf] at h
  obtain ⟨keymap, t, hrd, h⟩ := run_bind_eq_ok.mp h
  rw [run_tryCatch] at h
  cases hr : (makeFiles c options b keymap >>= putFiles b).run.run t with
  | mk result after =>
    rw [hr] at h
    cases result with
    | error fault =>
      have he := reportFailure_run b fault after
      simp only at h
      rw [h] at he
      cases he
    | ok succeeded =>
      obtain ⟨ht, rfl⟩ := Prod.mk.inj h
      obtain rfl := Except.ok.inj ht
      obtain ⟨made, middle, hm, hp⟩ := run_bind_eq_ok.mp hr
      have hw := run_bind_eq_ok.mpr ⟨keymap, t, hrd, hm⟩
      cases made with
      | none => cases (Prod.mk.inj hp).1
      | some made =>
        obtain ⟨_, stored, hst, hs⟩ := run_bind_eq_ok.mp hp
        obtain ⟨ho, rfl⟩ := Prod.mk.inj hst
        obtain rfl := (Prod.mk.inj hs).2
        exact ⟨made, middle, _, hw, Prod.ext ho rfl, rfl, rfl⟩

theorem board_true (hf : c.inventory.find? id = some b) {middle : Session} {after : Workspace}
    (h : (makeBoard c options b).run.run s = (.ok (some made), middle))
    (hs : (storeFiles b made).run.run middle.workspace = (.ok (), after)) :
    ∃ s', (board c options id).run.run s = (.ok true, s') ∧ after.SameDisk s'.workspace := by
  obtain ⟨keymap, t, hr, h⟩ := run_bind_eq_ok.mp h
  have hst : (Run.work (storeFiles b made)).run.run middle =
      (.ok (), { middle with workspace := after }) := by
    change (((storeFiles b made).run.run middle.workspace).1,
      { middle with workspace := ((storeFiles b made).run.run middle.workspace).2 }) = _
    rw [hs]
  obtain ⟨s', hp, hsm⟩ : ∃ s', (putFiles b (some made)).run.run middle = (.ok true, s') ∧
      after.SameDisk s'.workspace := by
    refine ⟨_, run_bind_eq_ok.mpr ⟨(), _, hst, rfl⟩, rfl, rfl⟩
  refine ⟨s', ?_, hsm⟩
  rw [board_eq c options hf]
  refine run_bind_eq_ok.mpr ⟨keymap, t, hr, ?_⟩
  rw [run_tryCatch, run_bind_eq_ok.mpr ⟨some made, middle, h, hp⟩]

/-- Generating for a board changes nothing but its directory and, for QMK, the header. -/
theorem within_board (hf : c.inventory.find? id = some b) (inside : b.Inside) :
    Effects (Session.Within (zone b)) (board c options id) := by
  have hp (keymap : KeymapConfig) :
      Effects (Session.Within (zone b)) (makeFiles c options b keymap >>= putFiles b) := by
    refine ⟨fun s => ?_⟩
    have h : s.Within (zone b) _ := (quiet_makeFiles c options b keymap s).within
    rw [run_bind]
    cases hm : (makeFiles c options b keymap).run.run s with
    | mk result middle =>
      rw [hm] at h
      cases result with
      | error fault => exact h
      | ok made =>
        cases made with
        | none => exact h
        | some made =>
          have hw : Effects (Session.Within (zone b)) (Run.work (storeFiles b made)) :=
            ⟨fun s => touches_storeFiles inside (proper_makeFiles inside hm) s.workspace⟩
          have hp : Effects (Session.Within (zone b)) (putFiles b (some made)) := by
            unfold putFiles
            infer_instance
          exact trans_of (Session.Within (zone b)) h (hp middle)
  rw [board_eq c options hf]
  infer_instance

end Board

def OverlaysInside (c : Configuration) : Prop :=
  ∀ b ∈ c.inventory.boards, ∀ path, b.keymapFile = .text path → Path.Inner path

theorem visit_congr {w w' : Workspace} {path : String} (h : Path.Inner path) (hr : w'.root = w.root)
    (hs : ∀ t, t <+: Path.names path →
      w'.disk.node? (w.home ++ t) = w.disk.node? (w.home ++ t)) : w'.visit path = w.visit path := by
  have hh : w'.home = w.home := congrArg Path.names hr
  have hw : w'.disk.walk w.home (Path.names path) = w.disk.walk w.home (Path.names path) :=
    Disk.walk_congr h.down fun t hp _ => hs t hp
  unfold Workspace.visit
  rw [h.start, h.start, hh, hw]
  cases hpl : w.disk.walk w.home (Path.names path) with
  | error cause => rfl
  | ok place =>
    obtain ⟨rfl, -⟩ := (Disk.walk_eq_ok h.down).mp hpl
    simp only [Except.map, hs _ prefix_rfl]

section Kept

variable {b : Board} {w w' : Workspace} (kept : w.Kept (zone b) w') (inside : b.Inside)

include kept

theorem unchanged_of_apart {names : List String} (ha : ¬ b.place <+: names)
    (notAbove : ¬ names <+: b.place) (hn : ¬ names <+: header) :
    w'.disk.node? (w.home ++ names) = w.disk.node? (w.home ++ names) := by
  apply kept.unchanged (fun hc => ha (covers_zone.mp hc))
  · rintro ⟨-, part, hm, hp, -⟩
    rcases mem_append.mp hm with ht | h
    · obtain rfl := mem_singleton.mp ht
      exact notAbove hp
    · obtain rfl := mem_files_zone h
      exact hn hp
  · intro h
    obtain rfl := mem_files_zone h
    exact hn prefix_rfl

include inside

theorem visit_config {path : String} (hi : Path.Inner path)
    (hc : ∃ rest, Path.names path = "config" :: rest) : w'.visit path = w.visit path := by
  obtain ⟨rest, hn⟩ := hc
  apply visit_congr hi kept.root
  intro t hp
  rw [hn] at hp
  cases t with
  | nil => simpa using home_kept inside kept
  | cons first t =>
    obtain ⟨rfl, -⟩ := cons_prefix_cons.mp hp
    obtain ⟨-, tail, -, h | h⟩ := Board.outputDirectory_inner inside
    · apply unchanged_of_apart kept <;> simp [h, header]
    · apply unchanged_of_apart kept <;> simp [h, header]

theorem visit_behaviors (tidy : w.disk.Tidy) : w'.visit behaviorsPath = w.visit behaviorsPath := by
  have hi : Path.Inner behaviorsPath := ⟨by decide, by decide⟩
  have hn : Path.names behaviorsPath = ["zmk", "config", "dario_behaviors.dtsi"] := by decide
  have hd : ∀ t, w'.disk.node? (w.home ++ "zmk" :: "config" :: t) =
      w.disk.node? (w.home ++ "zmk" :: "config" :: t) := by
    intro t
    obtain ⟨-, tail, -, h | h⟩ := Board.outputDirectory_inner inside
    · apply unchanged_of_apart kept <;> simp [h, header]
    · apply unchanged_of_apart kept <;> simp [h, header]
  have hr := home_kept inside kept
  have hnc : ¬ (zone b).Covers ["zmk"] := by
    rw [covers_zone]
    obtain ⟨-, tail, -, h | h⟩ := Board.outputDirectory_inner inside
    · simp [h]
    · simp [h]
  have hc := kept.inside ["zmk"] hnc
  generalize hb : w.disk.node? (w.home ++ ["zmk"]) = node at hc
  generalize ha : w'.disk.node? (w.home ++ ["zmk"]) = node' at hc
  cases hc with
  | same =>
    apply visit_congr hi kept.root
    intro t hp
    rw [hn] at hp
    rcases t with _ | ⟨first, _ | ⟨second, t⟩⟩
    · simpa using hr
    · obtain ⟨rfl, -⟩ := cons_prefix_cons.mp hp
      rw [hb, ha]
    · obtain ⟨rfl, hrs⟩ := cons_prefix_cons.mp hp
      obtain ⟨rfl, -⟩ := cons_prefix_cons.mp hrs
      exact hd t
  | made =>
    -- The directory was made on the way to a keymap, so that nothing is in it but that keymap.
    have hdr : w'.disk.node? w.home = some .directory := (kept.tidy w.home "zmk" (by simp [ha])).1
    have directory : w.disk.node? w.home = some .directory := by rw [← hr, hdr]
    have hnt : w.disk.node? (w.home ++ ["zmk", "config"]) = none := by
      by_contra ht
      have hab : w.disk.node? (w.home ++ ["zmk"] ++ ["config"]) ≠ none := by simpa using ht
      have hdc := (tidy _ _ hab).1
      rw [hb] at hdc
      cases hdc
    have hnh : w'.disk.node? (w.home ++ ["zmk"] ++ ["config"]) = none := by
      have hh := hd []
      rw [hnt] at hh
      simpa using hh
    have hdw : w.disk.step w.home "zmk" = .ok (w.home ++ ["zmk"]) :=
      (Disk.step_eq_ok (by decide)).mpr ⟨directory, by decide, rfl⟩
    have hdn : w'.disk.step w.home "zmk" = .ok (w.home ++ ["zmk"]) :=
      (Disk.step_eq_ok (by decide)).mpr ⟨hdr, by decide, rfl⟩
    have hnx : w'.disk.step (w.home ++ ["zmk"]) "config" = .ok (w.home ++ ["zmk"] ++ ["config"]) :=
      (Disk.step_eq_ok (by decide)).mpr ⟨ha, by decide, rfl⟩
    have hm : w.visit behaviorsPath = .error .absent := by
      unfold Workspace.visit
      rw [hi.start, hn, Disk.walk_cons, hdw]
      simp [Disk.walk_cons, Disk.step, hb, Bind.bind, Except.bind, Except.map]
    have hms : w'.visit behaviorsPath = .error .absent := by
      unfold Workspace.visit
      rw [hi.start, hn, kept.home, Disk.walk_cons, hdn]
      simp only [ok_bind]
      rw [Disk.walk_cons, hnx]
      simp only [ok_bind]
      rw [Disk.walk_cons, Disk.step, hnh]
      rfl
    rw [hm, hms]
  | written _ _ hf => exact absurd (mem_files_zone hf) (by decide)

theorem sameAt_of_kept {c : Configuration} (ho : OverlaysInside c) (ht : w.disk.Tidy) :
    w.SameAt (sources c) w' := by
  refine ⟨kept.root, fun path h => ?_⟩
  rcases mem_cons.mp h with rfl | h
  · exact visit_config kept inside ⟨by decide, by decide⟩ ⟨["keymap.yaml"], by decide⟩
  rcases mem_cons.mp h with rfl | h
  · exact visit_behaviors kept inside ht
  obtain ⟨a, hm, hp⟩ := mem_filterMap.mp h
  cases hf : a.keymapFile with
  | text file =>
    have hi := ho a hm file hf
    have top : Path.Inner "config" := ⟨by decide, by decide⟩
    obtain rfl : Path.join "config" file = path := by
      simpa [overlayPath, hf, Except.toOption] using hp
    refine visit_config kept inside (top.join (by decide) hi) ⟨Path.names file, ?_⟩
    rw [Path.names_join "config" hi.relative]
    rfl
  | _ => simp [overlayPath, hf, Except.toOption] at hp

end Kept

section Frame

variable {a b : Board} {w w' : Workspace}

/-- Neither of the keymaps of two boards lies in the directory of the other. -/
def Apart (a b : Board) : Prop :=
  ¬ a.place <+: b.place ∧ ¬ b.place <+: a.place

instance (a b : Board) : Decidable (Apart a b) :=
  inferInstanceAs (Decidable (_ ∧ _))

theorem unchanged_below (inside : b.Inside) (ha : Apart a b) (kept : w.Kept (zone a) w') (tail : List String) :
    w'.disk.node? (w.home ++ b.place ++ tail) = w.disk.node? (w.home ++ b.place ++ tail) := by
  have hb : b.place <+: b.place ++ tail := prefix_append _ _
  rw [append_assoc]
  apply unchanged_of_apart kept
  · intro hc
    rcases prefix_or_prefix_of_prefix hc hb with h | hbl
    · exact ha.1 h
    · exact ha.2 hbl
  · exact fun h => ha.2 (hb.trans h)
  · exact fun h => (header_apart inside).1 (hb.trans h)

/-- Generating for a board puts nothing in the way of another one, unless that one's keymap goes
somewhere into its directory. -/
theorem ready_kept (hi : a.Inside) (inside : b.Inside)
    (ha : a.place <+: b.place → a.place = b.place) (kept : w.Kept (zone a) w') (h : Ready b w) :
    Ready b w' := by
  refine ⟨⟨?_, ?_, h.writable.short, ?_⟩, fun hq => ?_⟩
  · rw [Work.pathCheck_congr kept.root]
    exact h.writable.asked
  · rw [kept.home, home_kept hi kept]
    exact h.writable.root
  · rw [kept.home]
    intro t hp
    have hcl := h.writable.clear t hp
    by_cases hc : a.place <+: t
    · have hs := ha (hc.trans hp)
      obtain rfl : a.place = t := hc.eq_of_length_le (by rw [hs]; exact hp.length_le)
      exact kept.tops a.place mem_cons_self hcl
    · refine (kept.inside t fun hcv => hc (covers_zone.mp hcv)).noFile (fun hf => ?_) hcl
      obtain rfl := mem_files_zone hf
      exact (header_apart inside).2 hp
  · exact storable_header hi kept (h.storable hq)

end Frame

end Generate

end Keymap
