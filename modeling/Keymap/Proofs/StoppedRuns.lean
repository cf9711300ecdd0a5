import Keymap.Proofs.SeparateBoards

namespace Keymap.Generate

section Stops

variable {c : Configuration} {options : Options} {w : Workspace} {s : Session} {b : Board} {fault : Fault}
  {t : Session}

/-- A board at whose turn a run for all boards ends, because compiling beforehand fails or its keymap
cannot be read. -/
def Stops (c : Configuration) (options : Options) (w : Workspace) (b : Board) : Prop :=
  ∃ fault, ((turn c options b).run.run ⟨w, c.compiler⟩).1 = .error fault

structure LikeFresh (c : Configuration) (w : Workspace) (s : Session) : Prop where
  tidy : s.workspace.disk.Tidy
  sources : w.SameAt (sources c) s.workspace
  rules : c.compiler.SameRules s.compiler

theorem LikeFresh.start (h : w.disk.Tidy) : LikeFresh c w ⟨w, c.compiler⟩ :=
  ⟨h, ⟨rfl, fun _ _ => rfl⟩, refl_of Compiler.SameRules c.compiler⟩

theorem LikeFresh.quiet (h : LikeFresh c w s) (hq : s.Quiet t) : LikeFresh c w t where
  tidy := by rw [hq.2.1]; exact h.tidy
  sources := h.sources.trans hq.2.sameAt
  rules := trans_of Compiler.SameRules h.rules hq.1

theorem ready_of_sameDisk {w' : Workspace} (h : b.Inside) (ht : w.disk.Tidy)
    (hs : w.SameDisk w') (hr : Ready b w) : Ready b w' :=
  ready_kept h h (fun _ => rfl) (hs.touches ht) hr

theorem turn_eq_error (h : c.inventory.find? b.id = some b) : ((turn c options b).run.run s).1 = .error fault ↔
      ((precompile c b >>= fun _ => readBoard c options b).run.run s).1 = .error fault := by
  unfold turn
  rw [run_bind, run_bind]
  cases (precompile c b).run.run s with
  | mk result middle =>
    cases result with
    | error fault => simp
    | ok => exact board_eq_error h

theorem LikeFresh.stops_iff (options : Options) (hf : LikeFresh c w s) (h : c.inventory.find? b.id = some b) :
    (∃ fault, ((turn c options b).run.run s).1 = .error fault) ↔ Stops c options w b := by
  have ha := readsAlike_sameAt c
  have hm := mem_of_find? h
  have har : Agree (Session.Rel (Workspace.SameAt (Generate.sources c)) Compiler.SameRules) Eq
      (precompile c b >>= fun _ => readBoard c options b)
      (precompile c b >>= fun _ => readBoard c options b) :=
    (agree_precompile ha hm).bind fun _ _ _ => agree_readBoard ha options hm
  have hs := (har ⟨w, c.compiler⟩ s ⟨hf.sources, hf.rules⟩).1.eq
  apply exists_congr
  intro fault
  rw [turn_eq_error h, turn_eq_error h, hs]

theorem quiet_of_turn_error (hf : c.inventory.find? b.id = some b)
    (h : (turn c options b).run.run s = (.error fault, t)) : s.Quiet t := by
  have hq := quiet_precompile c b s
  unfold turn at h
  rw [run_bind] at h
  cases hr : (precompile c b).run.run s with
  | mk result middle =>
    rw [hr] at h hq
    cases result with
    | error fault =>
      obtain rfl := (Prod.mk.inj h).2
      exact hq
    | ok => exact trans_of Session.Quiet hq (quiet_of_board_error hf h)

theorem ready_of_alone (hf : c.inventory.find? b.id = some b) (h : b.Inside) (tidy : w.disk.Tidy)
    (ha : ((board c options b.id).run.run ⟨w, c.compiler⟩).1 = .ok true) : Ready b w := by
  obtain ⟨made, middle, stored, hm, hs, -⟩ := board_eq_true hf (Prod.ext ha rfl)
  have hq := quiet_makeBoard c options b ⟨w, c.compiler⟩
  rw [hm] at hq
  have ht : middle.workspace.disk.Tidy := by rwa [hq.2.1]
  obtain ⟨hr, -⟩ := storeFiles_eq_ok h (proper_makeBoard h hm) ht hs
  exact ready_of_sameDisk h ht hq.2.symm hr

theorem LikeFresh.turn_of_alone (fresh : LikeFresh c w s) (h : c.inventory.find? b.id = some b)
    (isInside : b.Inside) (tidy : w.disk.Tidy) (ready : Ready b s.workspace)
    (alone : ((board c options b.id).run.run ⟨w, c.compiler⟩).1 = .ok true)
    (unstopped : ¬ Stops c options w b) : ∃ t, (turn c options b).run.run s = (.ok true, t) := by
  obtain ⟨made, middle, stored, hm, hst, -⟩ := board_eq_true h (Prod.ext alone rfl)
  have hqm := quiet_makeBoard c options b ⟨w, c.compiler⟩
  rw [hm] at hqm
  have hp : produced c options b.id ⟨w, c.compiler⟩ = some made := (produced_eq_some h).mpr (by rw [hm])
  have hq := quiet_precompile c b s
  cases hr : (precompile c b).run.run s with
  | mk result s₁ =>
    rw [hr] at hq
    cases result with
    | error fault =>
      have hfl : ((turn c options b).run.run s).1 = .error fault := by
        rw [turn, run_bind, hr]
      exact absurd ((fresh.stops_iff options h).mp ⟨fault, hfl⟩) unstopped
    | ok =>
      have now := fresh.quiet hq
      have hpn : produced c options b.id s₁ = some made := by
        have hsm : Session.Rel (Workspace.SameAt (Generate.sources c)) Compiler.SameRules
            ⟨w, c.compiler⟩ s₁ := ⟨now.sources, now.rules⟩
        rw [produced_eq (readsAlike_sameAt c) options b.id hsm, hp]
      have hmn := (produced_eq_some h).mp hpn
      have hqn := quiet_makeBoard c options b s₁
      have hs := now.quiet hqn
      have hrn := ready_of_sameDisk isInside fresh.tidy (trans_of Workspace.SameDisk hq.2 hqn.2) ready
      have hrt : ((makeBoard c options b).run.run s₁).2.workspace.root = middle.workspace.root :=
        hs.sources.root.trans hqm.2.2.symm
      have ht : middle.workspace.disk.Tidy := by rwa [hqm.2.1]
      obtain ⟨v, hsn⟩ := storeFiles_again isInside (proper_makeBoard isInside hm) ht hs.tidy hrt hst hrn
      obtain ⟨t, hd, -⟩ := board_true h (Prod.ext hmn rfl) hsn
      exact ⟨t, run_bind_eq_ok.mpr ⟨(), s₁, hr, hd⟩⟩

theorem all_of_boards_error {bs after : List Board} (hs : c.inventory.boards = bs ++ after)
    (h : (boards c options bs).run.run s = (.error fault, t)) :
    (all c options).run.run s = (.error fault, t) := by
  rw [all_eq, hs, boards_append]
  simp only [bind_assoc]
  rw [run_bind, h]

end Stops

section Stopped

variable {c : Configuration} (options : Options) {w : Workspace} {before after : List Board} {b : Board}
  (accepted : checkBoardsStrictly c.inventory.boards = .ok ())
  (inside : ∀ a ∈ c.inventory.boards, a.Inside) (overlays : OverlaysInside c)

include inside overlays in
theorem LikeFresh.step {a : Board} (hm : a ∈ c.inventory.boards) {s s' : Session}
    (h : LikeFresh c w s) (hk : s.workspace.Kept (zone a) s'.workspace) (hr : s.KeepsRules s') :
    LikeFresh c w s' where
  tidy := hk.tidy
  sources := h.sources.trans (sameAt_of_kept hk (inside a hm) overlays h.tidy)
  rules := trans_of Compiler.SameRules h.rules hr

include accepted inside overlays

theorem boards_eq_error_iff {bs : List Board} (hl : bs ⊆ c.inventory.boards) {s : Session}
    (h : LikeFresh c w s) : (∃ fault, ((boards c options bs).run.run s).1 = .error fault) ↔
      ∃ a ∈ bs, Stops c options w a := by
  induction bs generalizing s with
  | nil =>
    have ends : ((boards c options []).run.run s).1 = .ok [] := rfl
    simp [ends]
  | cons a rest ih =>
    obtain ⟨hm, hl⟩ := List.cons_subset.mp hl
    have hf := Inventory.find?_of_accepted accepted hm
    have hst := h.stops_iff options hf
    have hk := within_turn options accepted inside hm s h.tidy
    have hn := h.step inside overlays hm hk (rules_turn a s)
    rw [boards_cons, run_bind]
    cases hr : (turn c options a).run.run s with
    | mk result middle =>
      rw [hr] at hst hn
      cases result with
      | error fault =>
        have hs : Stops c options w a := hst.mp ⟨fault, rfl⟩
        simp [hs]
      | ok succeeded =>
        have hsp : ¬ Stops c options w a := fun hs => by simpa using hst.mpr hs
        have rest := ih hl hn
        simp only [List.mem_cons, exists_eq_or_imp, hsp, false_or]
        rw [← rest, run_bind]
        cases (boards c options _).run.run middle with
        | mk result after => cases result <;> simp

theorem likeFresh_boards (ht : w.disk.Tidy) {bs : List Board} (hl : bs ⊆ c.inventory.boards) :
    LikeFresh c w ((boards c options bs).run.run ⟨w, c.compiler⟩).2 := by
  refine keeps_boards options accepted inside (fun s h => h.tidy) hl ?_ _ (.start ht)
  intro a hm s s' h hk hr
  exact h.step inside overlays (hl hm) hk hr

theorem exists_turn_of_alone (h : w.disk.Tidy) (hs : c.inventory.boards = before ++ b :: after)
    (around : ∀ a ∈ before, a.place <+: b.place → a.place = b.place)
    (ha : ((board c options b.id).run.run ⟨w, c.compiler⟩).1 = .ok true)
    (hu : ∀ a ∈ before ++ [b], ¬ Stops c options w a) :
    ∃ results s t, (boards c options before).run.run ⟨w, c.compiler⟩ = (.ok results, s) ∧
      (turn c options b).run.run s = (.ok true, t) := by
  have hm : b ∈ c.inventory.boards := by simp [hs]
  have he : before ⊆ c.inventory.boards := by simp [hs]
  have hf := Inventory.find?_of_accepted accepted hm
  have hi := inside b hm
  have hrd := ready_of_alone hf hi h ha
  have hr : Ready b ((boards c options before).run.run ⟨w, c.compiler⟩).2.workspace := by
    refine (keeps_boards (P := fun s => s.workspace.disk.Tidy ∧ Ready b s.workspace) options accepted
      inside (fun s hh => hh.1) he ?_ ⟨w, c.compiler⟩ ⟨h, hrd⟩).2
    intro a hb s s' hh hk _
    exact ⟨hk.tidy, ready_kept (inside a (he hb)) hi (around a hb) hk hh.2⟩
  have hfr := likeFresh_boards options accepted inside overlays h he
  have hst := boards_eq_error_iff options accepted inside overlays he (.start h)
  cases hrn : (boards c options before).run.run ⟨w, c.compiler⟩ with
  | mk result s =>
    rw [hrn] at hfr hr hst
    cases result with
    | error fault =>
      obtain ⟨a, hb, hsp⟩ := hst.mp ⟨fault, rfl⟩
      exact absurd hsp (hu a (List.mem_append_left _ hb))
    | ok results =>
      obtain ⟨t, hd⟩ := hfr.turn_of_alone hf hi h hr ha (hu b (by simp))
      exact ⟨results, s, t, rfl, hd⟩

omit overlays in
theorem spared_of_boards_error (he : before ⊆ c.inventory.boards) (hm : b ∈ c.inventory.boards)
    (ha : ∀ a ∈ before, Apart a b) {s : Session} (spared : Spared b w s) {fault : Fault}
    (h : ((boards c options (before ++ [b])).run.run s).1 = .error fault) :
    Spared b w ((boards c options (before ++ [b])).run.run s).2 := by
  have hf := Inventory.find?_of_accepted accepted hm
  have hl := spares_boards options accepted inside (inside b hm) he ha s spared
  rw [boards_append, run_bind] at h ⊢
  cases hr : (boards c options before).run.run s with
  | mk result s₁ =>
    rw [hr] at hl h
    cases result with
    | error fault => exact hl
    | ok results =>
      have hsn : boards c options [b] = turn c options b >>= fun succeeded => pure [succeeded] := by
        rw [boards_cons]
        simp [boards]
      simp only [hsn, bind_assoc, pure_bind] at h ⊢
      rw [run_bind] at h ⊢
      cases ht : (turn c options b).run.run s₁ with
      | mk result t =>
        rw [ht] at h
        cases result with
        | ok succeeded => cases h
        | error fault =>
          have hs := (quiet_of_turn_error hf ht).2
          exact hl.sameDisk hs

end Stopped

/-- A board that is generated on its own has its files after a run for all boards if no board up to it
stops the run. If one does then the run ends in a fault, and the directory of the board is left as it
was. The other boards are to go elsewhere: the later ones, which would remove the files, and the
earlier ones, whose files would be in the way. -/
theorem files_written_unless_stopped (c : Configuration) (options : Options) (w : Workspace)
    (tidy : w.disk.Tidy) (accepted : checkBoardsStrictly c.inventory.boards = .ok ())
    (inside : ∀ a ∈ c.inventory.boards, a.Inside) (overlays : OverlaysInside c)
    {before after : List Board} {b : Board} (split : c.inventory.boards = before ++ b :: after)
    (alone : ((board c options b.id).run.run ⟨w, c.compiler⟩).1 = .ok true) :
    let run := (all c options).run.run ⟨w, c.compiler⟩
    ∃ made, produced c options b.id ⟨w, c.compiler⟩ = some made ∧
      ((∀ a ∈ before ++ [b], ¬ Stops c options w a) →
        (∀ a ∈ before, a.place <+: b.place → a.place = b.place) → (∀ a ∈ after, Apart a b) →
          run.2.workspace.Holds b.outputDirectory made.files) ∧
      ((∃ a ∈ before ++ [b], Stops c options w a) → (∃ fault, run.1 = .error fault) ∧
        ((∀ a ∈ before, Apart a b) → ∀ tail, run.2.workspace.disk.node? (w.home ++ b.place ++ tail) =
          w.disk.node? (w.home ++ b.place ++ tail))) := by
  intro run
  have member : b ∈ c.inventory.boards := by simp [split]
  have earlier : before ⊆ c.inventory.boards := by simp [split]
  have upTo : before ++ [b] ⊆ c.inventory.boards := by
    intro a isBefore
    simp only [List.mem_append, List.mem_singleton] at isBefore
    simp only [split, List.mem_append, List.mem_cons]
    tauto
  have found := Inventory.find?_of_accepted accepted member
  obtain ⟨made, middle, stored, isMade, -, -⟩ := board_eq_true found (Prod.ext alone rfl)
  have isProduced : produced c options b.id ⟨w, c.compiler⟩ = some made :=
    (produced_eq_some found).mpr (by rw [isMade])
  refine ⟨made, isProduced, fun unstopped around apart => ?_, fun stopped => ?_⟩
  · obtain ⟨results, s, t, reached, generated⟩ :=
      exists_turn_of_alone options accepted inside overlays tidy split around alone unstopped
    obtain ⟨made', isProduced', holds⟩ :=
      holds_of_generated options accepted inside tidy split apart reached generated
    have fresh := likeFresh_boards options accepted inside overlays tidy earlier
    rw [reached] at fresh
    have same : Session.Rel (Workspace.SameAt (sources c)) Compiler.SameRules ⟨w, c.compiler⟩ s :=
      ⟨fresh.sources, fresh.rules⟩
    rw [produced_eq (readsAlike_sameAt c) options b.id same, isProduced] at isProduced'
    cases isProduced'
    exact holds
  · obtain ⟨fault, failed⟩ :=
      (boards_eq_error_iff options accepted inside overlays upTo (.start tidy)).mpr stopped
    have whole : c.inventory.boards = (before ++ [b]) ++ after := by simp [split]
    have ended : run = (.error fault, _) := all_of_boards_error whole (Prod.ext failed rfl)
    rw [ended]
    refine ⟨⟨fault, rfl⟩, fun apart tail => ?_⟩
    have spared := spared_of_boards_error options accepted inside earlier member apart (.start tidy _) failed
    exact spared.below tail

def customBoard : Board :=
  { bareBoard "custom" with layoutSize := .custom "9" }

theorem not_stops {c : Configuration} {options : Options} {w : Workspace} {b : Board}
    (found : c.inventory.find? b.id = some b)
    (h : ((precompile c b >>= fun _ => readBoard c options b).run.run ⟨w, c.compiler⟩).1.toOption.isSome =
      true) : ¬ Stops c options w b := by
  rintro ⟨fault, hf⟩
  rw [(turn_eq_error found).mp hf] at h
  cases h

def stopping : Configuration :=
  unbound [customBoard, shieldBoard]

def going : Configuration :=
  unbound [shieldBoard, customBoard]

/-- The order of the boards decides whether the one with a shield is generated. -/
theorem custom_board_stops_later_ones :
    ((∃ fault, ((all stopping {}).run.run ⟨emptyWorkspace, stopping.compiler⟩).1 = .error fault) ∧
      ∀ tail, ((all stopping {}).run.run ⟨emptyWorkspace, stopping.compiler⟩).2.workspace.disk.node?
          (emptyWorkspace.home ++ shieldBoard.place ++ tail) =
        emptyWorkspace.disk.node? (emptyWorkspace.home ++ shieldBoard.place ++ tail)) ∧
    ∃ made, produced going {} shieldBoard.id ⟨emptyWorkspace, going.compiler⟩ = some made ∧
      ((all going {}).run.run ⟨emptyWorkspace, going.compiler⟩).2.workspace.Holds
        shieldBoard.outputDirectory made.files := by
  have overlays : OverlaysInside stopping := by
    intro b member path isPath
    simp only [stopping, unbound, List.mem_cons, List.not_mem_nil, or_false] at member
    rcases member with rfl | rfl <;> cases isPath
  have overlays' : OverlaysInside going := by
    intro b member path isPath
    simp only [going, unbound, List.mem_cons, List.not_mem_nil, or_false] at member
    rcases member with rfl | rfl <;> cases isPath
  have stops : Stops stopping {} emptyWorkspace customBoard := exists_eq_error (by decide +kernel)
  have apart : ∀ a ∈ [customBoard], Apart a shieldBoard := by decide +kernel
  have accepted : checkBoardsStrictly stopping.inventory.boards = .ok () :=
    eq_ok_of_toOption (by decide +kernel)
  have accepted' : checkBoardsStrictly going.inventory.boards = .ok () := eq_ok_of_toOption (by decide +kernel)
  have unstops : ∀ a ∈ [shieldBoard], ¬ Stops going {} emptyWorkspace a := by
    intro a member
    rw [List.mem_singleton.mp member]
    exact not_stops (Inventory.find?_of_accepted accepted' List.mem_cons_self) (by decide +kernel)
  have inside : ∀ a ∈ stopping.inventory.boards, a.Inside := by decide +kernel
  have inside' : ∀ a ∈ going.inventory.boards, a.Inside := by decide +kernel
  have alone : ((board stopping {} shieldBoard.id).run.run ⟨emptyWorkspace, stopping.compiler⟩).1 =
      .ok true := eq_ok_of_toOption (by decide +kernel)
  have alone' : ((board going {} shieldBoard.id).run.run ⟨emptyWorkspace, going.compiler⟩).1 =
      .ok true := eq_ok_of_toOption (by decide +kernel)
  have split : stopping.inventory.boards = [customBoard] ++ shieldBoard :: [] := rfl
  have split' : going.inventory.boards = [] ++ shieldBoard :: [customBoard] := rfl
  obtain ⟨-, -, -, whenStopped⟩ := files_written_unless_stopped stopping {} emptyWorkspace
    tidy_emptyWorkspace accepted inside overlays split alone
  obtain ⟨made, isProduced, whenNot, -⟩ := files_written_unless_stopped going {} emptyWorkspace
    tidy_emptyWorkspace accepted' inside' overlays' split' alone'
  obtain ⟨faulty, spared⟩ := whenStopped ⟨customBoard, by simp, stops⟩
  have holds := whenNot unstops (by simp) apart
  exact ⟨⟨faulty, spared apart⟩, made, isProduced, holds⟩

end Keymap.Generate
