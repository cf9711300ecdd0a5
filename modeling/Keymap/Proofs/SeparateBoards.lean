import Keymap.Proofs.DrawnFiles

namespace Keymap

variable {files : List (String × String)} {paths : List String}

namespace Workspace

variable {w w' : Workspace}

theorem SameDisk.sameAt (h : w.SameDisk w') : w.SameAt paths w' := by
  refine ⟨h.2, fun path _ => ?_⟩
  unfold visit start home
  rw [h.1, h.2]

theorem SameDisk.holds (h : w.SameDisk w') {directory : String} (hh : w.Holds directory files) :
    w'.Holds directory files := by
  intro tail content
  unfold home
  rw [h.1, h.2]
  exact hh tail content

theorem SameAt.trans {w'' : Workspace} (h : w.SameAt paths w') (hn : w'.SameAt paths w'') :
    w.SameAt paths w'' :=
  ⟨hn.root.trans h.root, fun path hl => (hn.visits path hl).trans (h.visits path hl)⟩

end Workspace

namespace Generate

variable {t s : Session} {bs : List Board} {s' : Session} {results : List Bool} {b : Board}

def turn (c : Configuration) (options : Options) (b : Board) : Run Bool := do
  precompile c b
  board c options b.id

section Turns

variable {c : Configuration} {options : Options}

theorem boards_cons (b : Board) (rest : List Board) : boards c options (b :: rest) = (do
    let succeeded ← turn c options b
    return succeeded :: (← boards c options rest)) := by
  simp [boards, turn]

theorem boards_append (first second : List Board) : boards c options (first ++ second) = (do
    let results ← boards c options first
    return results ++ (← boards c options second)) := by
  induction first with
  | nil => simp [boards]
  | cons b first ih => simp [boards_cons, ih]

theorem all_eq : all c options = (do
    let results ← boards c options c.inventory.boards
    Run.work (finish options results) return !results.contains false) := rfl

theorem all_run {before after : List Board} (hs : c.inventory.boards = before ++ b :: after)
    {s₀ : Session} {succeeded : Bool} (hr : (boards c options before).run.run s₀ = (.ok results, s))
    (h : (turn c options b).run.run s = (.ok succeeded, t)) :
    (all c options).run.run s₀ = (boards c options after >>= fun more =>
      Run.work (finish options (results ++ succeeded :: more)) >>= fun _ =>
        pure !(results ++ succeeded :: more).contains false : Run Bool).run.run t := by
  rw [all_eq, hs, boards_append, boards_cons]
  simp only [bind_assoc, pure_bind]
  rw [run_bind, hr]
  simp only
  rw [run_bind, h]

theorem effects_boards {T : Session → Session → Prop} [Std.Refl T] [IsTrans Session T]
    (h : ∀ b ∈ bs, Effects T (turn c options b)) : Effects T (boards c options bs) := by
  induction bs with
  | nil => exact inferInstanceAs (Effects T (pure _))
  | cons b rest ih =>
    have hf := h b List.mem_cons_self
    have hl := ih fun a hm => h a (List.mem_cons_of_mem _ hm)
    rw [boards_cons]
    infer_instance

theorem rules_turn (b : Board) : Effects Session.KeepsRules (turn c options b) := by
  unfold turn
  infer_instance

theorem turn_eq_true (hf : c.inventory.find? b.id = some b)
    (hg : (turn c options b).run.run s = (.ok true, t)) : ∃ made ready middle stored, s.Quiet middle ∧
      (makeBoard c options b).run.run ready = (.ok (some made), middle) ∧
      (storeFiles b made).run.run middle.workspace = (.ok (), stored) ∧ stored.SameDisk t.workspace ∧
      produced c options b.id s = some made := by
  obtain ⟨_, ready, hp, hgn⟩ := run_bind_eq_ok.mp hg
  obtain ⟨made, middle, stored, h, hs, hsm⟩ := board_eq_true hf hgn
  have hq : s.Quiet ready := by simpa [hp] using quiet_precompile c b s
  have hqm : ready.Quiet middle := by simpa [h] using quiet_makeBoard c options b ready
  refine ⟨made, ready, middle, stored, trans_of _ hq hqm, h, hs, hsm, ?_⟩
  rw [← produced_eq (readsAlike_sameAt c) options b.id ⟨hq.2.sameAt, hq.1⟩]
  exact (produced_eq_some hf).mpr (by rw [h])

end Turns

def Session.Keeps (P : Session → Prop) (s s' : Session) : Prop :=
  P s → P s'

instance {P : Session → Prop} : Std.Refl (Session.Keeps P) := ⟨fun _ => id⟩

instance {P : Session → Prop} : IsTrans Session (Session.Keeps P) := ⟨fun _ _ _ first next => next ∘ first⟩

structure Spared (b : Board) (w : Workspace) (s : Session) : Prop where
  tidy : s.workspace.disk.Tidy
  root : s.workspace.root = w.root
  below : ∀ tail, s.workspace.disk.node? (w.home ++ b.place ++ tail) = w.disk.node? (w.home ++ b.place ++ tail)

namespace Spared

variable {w w' : Workspace}

theorem home (h : Spared b w s) : s.workspace.home = w.home :=
  congrArg Path.names h.root

theorem holds (hs : Spared b w s) (holds : w.Holds b.outputDirectory files) :
    s.workspace.Holds b.outputDirectory files := by
  intro tail content
  have h := hs.below tail
  rw [Board.place] at h
  rw [hs.home, h]
  exact holds tail content

theorem step {zone : Zone} (h : Spared b w s) (hk : s.workspace.Kept zone s'.workspace)
    (hu : ∀ tail, s'.workspace.disk.node? (s.workspace.home ++ b.place ++ tail) =
      s.workspace.disk.node? (s.workspace.home ++ b.place ++ tail)) :
    Spared b w s' := by
  refine ⟨hk.tidy, hk.root.trans h.root, fun tail => ?_⟩
  rw [← h.below tail, ← h.home]
  exact hu tail

theorem start (h : w.disk.Tidy) (compiler : Compiler) : Spared b w ⟨w, compiler⟩ :=
  ⟨h, rfl, fun _ => rfl⟩

theorem sameDisk (hs : Spared b w s) (h : s.workspace.SameDisk s'.workspace) : Spared b w s' := by
  refine ⟨by rw [h.1]; exact hs.tidy, h.2.trans hs.root, fun tail => ?_⟩
  rw [h.1]
  exact hs.below tail

theorem finish {options : Options} (hi : b.Inside) (results : List Bool) :
    Effects (Session.Keeps (Spared b w)) (Run.work (finish options results)) := by
  refine ⟨fun s hs => ?_⟩
  have h := touches_finish options results s.workspace hs.tidy
  exact hs.step h (unchanged_by_outputs hi h)

end Spared

section Accepted

variable {c : Configuration} (options : Options) {w : Workspace} {before after : List Board}
  (accepted : checkBoardsStrictly c.inventory.boards = .ok ())
  (inside : ∀ a ∈ c.inventory.boards, a.Inside)

include accepted inside

theorem within_turn (h : b ∈ c.inventory.boards) : Effects (Session.Within (zone b)) (turn c options b) := by
  have hg : Effects (Session.Within (zone b)) (board c options b.id) :=
    within_board (Inventory.find?_of_accepted accepted h) (inside b h)
  unfold turn
  infer_instance

theorem keeps_boards {P : Session → Prop} (ht : ∀ s, P s → s.workspace.disk.Tidy) (hl : bs ⊆ c.inventory.boards)
    (he : ∀ a ∈ bs, ∀ s s', P s → s.workspace.Kept (zone a) s'.workspace → s.KeepsRules s' → P s') :
    Effects (Session.Keeps P) (boards c options bs) := by
  refine effects_boards fun a hm => ⟨fun s h => ?_⟩
  have hk := within_turn options accepted inside (hl hm) s (ht s h)
  exact he a hm s _ h hk (rules_turn a s)

theorem tidy_boards (hl : bs ⊆ c.inventory.boards) (ht : s.workspace.disk.Tidy) :
    ((boards c options bs).run.run s).2.workspace.disk.Tidy :=
  keeps_boards options accepted inside (fun _ => id) hl (fun _ _ _ _ _ h _ => h.tidy) s ht

theorem spares_boards (hi : b.Inside) (hl : bs ⊆ c.inventory.boards)
    (ha : ∀ a ∈ bs, Apart a b) : Effects (Session.Keeps (Spared b w)) (boards c options bs) := by
  refine keeps_boards options accepted inside (fun s h => h.tidy) hl ?_
  intro a hm s s' h hk _
  exact h.step hk (unchanged_below hi (ha a hm) hk)

theorem holds_of_generated (tidy : w.disk.Tidy) (split : c.inventory.boards = before ++ b :: after)
    (apart : ∀ a ∈ after, Apart a b) (reached : (boards c options before).run.run ⟨w, c.compiler⟩ = (.ok results, s))
    (generated : (turn c options b).run.run s = (.ok true, t)) : ∃ made, produced c options b.id s = some made ∧
      ((all c options).run.run ⟨w, c.compiler⟩).2.workspace.Holds b.outputDirectory made.files := by
  have hm : b ∈ c.inventory.boards := by simp [split]
  have he : before ⊆ c.inventory.boards := by simp [split]
  have hl : after ⊆ c.inventory.boards := by
    intro a haf
    simp [split, haf]
  have hf := Inventory.find?_of_accepted accepted hm
  have h := inside b hm
  have htt : s.workspace.disk.Tidy := by
    simpa [reached] using tidy_boards options accepted inside he (s := ⟨w, c.compiler⟩) tidy
  obtain ⟨made, ready, middle, stored, hq, hmd, hst, hsm, hp⟩ := turn_eq_true hf generated
  have htm : middle.workspace.disk.Tidy := by rwa [hq.2.1]
  obtain ⟨-, hh⟩ := storeFiles_eq_ok h (proper_makeBoard h hmd) htm hst
  have hsp : Spared b t.workspace t := by
    have hk := within_turn options accepted inside hm s htt
    rw [generated] at hk
    exact .start hk.tidy _
  refine ⟨made, hp, ?_⟩
  rw [all_run split reached generated]
  have hgn := spares_boards options accepted inside h hl apart (w := t.workspace)
  have hfn (results : List Bool) :
      Effects (Session.Keeps (Spared b t.workspace)) (Run.work (finish options results)) :=
    Spared.finish h results
  have hgs : Effects (Session.Keeps (Spared b t.workspace)) (boards c options after >>= fun more =>
      Run.work (finish options (results ++ true :: more)) >>= fun _ =>
        pure !(results ++ true :: more).contains false : Run Bool) := inferInstance
  exact (hgs t hsp).holds (hsm.holds hh)

end Accepted

def SameFiles (files files' : List (String × String)) : Prop :=
  ∀ tail content, (∃ f ∈ files, tail = Path.names f.1 ∧ content = Content.text f.2) ↔
    ∃ f ∈ files', tail = Path.names f.1 ∧ content = Content.text f.2

/-- After a run for all boards, however it ends, the directory of a board that was generated at its turn
holds exactly the files that were made for it, provided that no later board goes into that directory or
around it. Every other board with the same directory has lost its files, if they are not the same. -/
theorem directory_holds_generated (c : Configuration) (options : Options) (w : Workspace)
    (tidy : w.disk.Tidy) (accepted : checkBoardsStrictly c.inventory.boards = .ok ())
    (inside : ∀ a ∈ c.inventory.boards, a.Inside) {before after : List Board} {b : Board}
    (split : c.inventory.boards = before ++ b :: after) (apart : ∀ a ∈ after, Apart a b)
    {results : List Bool} {s : Session}
    (reached : (boards c options before).run.run ⟨w, c.compiler⟩ = (.ok results, s))
    (reported : ((turn c options b).run.run s).1 = .ok true) :
    let final := ((all c options).run.run ⟨w, c.compiler⟩).2.workspace
    ∃ made, produced c options b.id s = some made ∧ final.Holds b.outputDirectory made.files ∧
      ∀ a : Board, a.place = b.place → ∀ files,
        final.Holds a.outputDirectory files ↔ SameFiles files made.files := by
  intro final
  obtain ⟨made, isProduced, holds⟩ := holds_of_generated options accepted inside tidy split apart reached
    (Prod.ext reported rfl)
  refine ⟨made, isProduced, holds, fun a same files => ?_⟩
  have isDirectory : Path.names a.outputDirectory = Path.names b.outputDirectory := same
  constructor
  · intro others tail content
    rw [← others tail content, isDirectory]
    exact holds tail content
  · intro equal tail content
    rw [isDirectory, holds tail content, equal tail content]

def bareBoard (id : String) : Board where
  id := .text id
  name := .text id
  firmware := .zmk
  zmkBoard := "nice_nano"

def shieldBoard : Board where
  id := "totem"
  name := "Totem"
  firmware := .zmk
  zmkShield := "totem"

def unbound (boards : List Board) : Configuration where
  keymap := { layers := [{ name := "BASE", core := some ⟨[List.replicate 36 (.key "NONE")]⟩ }] }
  inventory := { boards }
  aliases := []
  combos := []
  magic := []
  keycodes := [("NONE", .record [("zmk", "&none")])]

theorem tidy_emptyWorkspace : emptyWorkspace.disk.Tidy := by
  intro place name h
  rw [Disk.node?_of_ne_nil _ (by simp)] at h
  exact absurd rfl h

def shared : Configuration :=
  unbound [bareBoard "left", bareBoard "right", shieldBoard]

def sharedSession : Session :=
  ((boards shared {} [bareBoard "left"]).run.run ⟨emptyWorkspace, shared.compiler⟩).2

/-- Both boards without a shield are generated, but only the second one has its files in the end. -/
theorem second_board_replaces_first :
    let final := ((all shared {}).run.run ⟨emptyWorkspace, shared.compiler⟩).2.workspace
    (boards shared {} [bareBoard "left"]).run.run ⟨emptyWorkspace, shared.compiler⟩ =
      (.ok [true], sharedSession) ∧
    ∃ made, produced shared {} (bareBoard "right").id sharedSession = some made ∧
      final.Holds (bareBoard "right").outputDirectory made.files ∧
      ∀ files, final.Holds (bareBoard "left").outputDirectory files ↔ SameFiles files made.files := by
  intro final
  have first : (boards shared {} [bareBoard "left"]).run.run ⟨emptyWorkspace, shared.compiler⟩ =
      (.ok [true], sharedSession) := by
    apply Prod.ext
    · exact eq_ok_of_toOption (by decide +kernel)
    · dsimp only
      rw [sharedSession]
  have reported : ((turn shared {} (bareBoard "right")).run.run sharedSession).1 = .ok true :=
    eq_ok_of_toOption (by decide +kernel)
  have accepted : checkBoardsStrictly shared.inventory.boards = .ok () := eq_ok_of_toOption (by decide +kernel)
  have inside : ∀ a ∈ shared.inventory.boards, a.Inside := by decide +kernel
  have split : shared.inventory.boards = [bareBoard "left"] ++ bareBoard "right" :: [shieldBoard] := rfl
  have apart : ∀ a ∈ [shieldBoard], Apart a (bareBoard "right") := by decide +kernel
  have samePlace : (bareBoard "left").place = (bareBoard "right").place := by decide +kernel
  obtain ⟨made, isProduced, holds, others⟩ := directory_holds_generated shared {} emptyWorkspace
    tidy_emptyWorkspace accepted inside split apart first reported
  exact ⟨first, made, isProduced, holds, others _ samePlace⟩

end Generate

end Keymap
