import Keymap.Proofs.Sources
import Keymap.Proofs.Touches

namespace Keymap.Generate

section Reads

open Workspace (SameDisk)

instance (overlay : Option String) : Effects SameDisk (Reading.keymapFile overlay) := by
  have words : Effects SameDisk (modify fun w => { w with mode := .words } : Work PUnit) :=
    ⟨fun _ => ⟨rfl, rfl⟩⟩
  cases overlay <;> (unfold Reading.keymapFile; infer_instance)

instance (c : Configuration) (b : Board) (found lost : Work Unit) [Effects SameDisk found]
    [Effects SameDisk lost] : Effects SameDisk (boardKeymap c b found lost) := by
  unfold boardKeymap
  infer_instance

instance : Effects SameDisk behaviorsText := by
  unfold behaviorsText
  infer_instance

set_option synthInstance.maxSize 1000 in
instance (b : Board) : Effects SameDisk (describeBoard b) := by
  dsimp only [describeBoard]
  infer_instance

end Reads

inductive Step where
  | generate (options : Options) (id : Document)
  | precompile (board : Board)

def Step.run (c : Configuration) : Step → Run Unit
  | .generate options id => discard (Generate.board c options id)
  | .precompile board => Generate.precompile c board

def afterSteps (c : Configuration) (steps : List Step) (session : Session) : Session :=
  steps.foldl (fun s step => ((step.run c).run.run s).2) session

def Session.KeepsRules (s s' : Session) : Prop :=
  s.compiler.SameRules s'.compiler

def Session.Quiet (s s' : Session) : Prop :=
  s.KeepsRules s' ∧ s.workspace.SameDisk s'.workspace

instance : Std.Refl Session.KeepsRules := ⟨fun s => refl_of Compiler.SameRules s.compiler⟩

instance : IsTrans Session Session.KeepsRules :=
  ⟨fun _ _ _ first next => trans_of Compiler.SameRules first next⟩

instance : Std.Refl Session.Quiet :=
  ⟨fun s => ⟨refl_of Session.KeepsRules s, refl_of Workspace.SameDisk s.workspace⟩⟩

instance : IsTrans Session Session.Quiet :=
  ⟨fun _ _ _ first next => ⟨trans_of Session.KeepsRules first.1 next.1,
    trans_of Workspace.SameDisk first.2 next.2⟩⟩

section Quiet

open Session (KeepsRules Quiet)

variable {α : Type} (c : Configuration) (options : Options) (board : Board)

instance {x : Work α} [reads : Effects Workspace.SameDisk x] : Effects Quiet (Run.work x) :=
  ⟨fun s => ⟨refl_of Compiler.SameRules s.compiler, reads s.workspace⟩⟩

instance (text : String) : Effects Quiet (Run.say text) :=
  inferInstanceAs (Effects Quiet (Run.work _))

instance (condition : Bool) (text : String) : Effects Quiet (Run.sayIf condition text) := by
  unfold Run.sayIf
  infer_instance

instance quiet_prepare : Effects Quiet (Run.prepare board) := by
  refine ⟨fun s => ⟨?_, rfl, rfl⟩⟩
  change s.compiler.SameRules (if board.firmware.isQmk then { s.compiler with qmkMorphs := [] }
    else { s.compiler with
      zmkMorphs := [], zmk := { s.compiler.zmk with layoutSize := board.layoutSize } })
  split
  · exact ⟨rfl, rfl, rfl⟩
  · exact ⟨rfl, rfl, rfl⟩

instance (verbose : Bool) (layers : List Layer) :
    Effects Quiet (compileLayers verbose board layers) := by
  have one (layer : Layer) : Effects Quiet (Run.compile layer board) :=
    ⟨fun s => ⟨s.compiler.compile_sameRules layer board, rfl, rfl⟩⟩
  induction layers with
  | nil => exact inferInstanceAs (Effects Quiet (pure _))
  | cons layer rest ih =>
    rw [compileLayers]
    infer_instance

instance quiet_makeFiles (keymap : KeymapConfig) :
    Effects Quiet (makeFiles c options board keymap) := by
  unfold makeFiles compileFiles
  cases board.firmware <;> infer_instance

instance quiet_readBoard : Effects Quiet (readBoard c options board) := by
  unfold readBoard
  infer_instance

instance quiet_reportFailure (fault : Fault) : Effects Quiet (reportFailure board fault) := by
  unfold reportFailure
  cases fault <;> infer_instance

instance quiet_precompile : Effects Quiet (precompile c board) := by
  unfold precompile
  infer_instance

instance (priority := low) {x : Run α} [quiet : Effects Quiet x] : Effects KeepsRules x :=
  quiet.mono fun _ _ => And.left

instance rules_board (id : Document) : Effects KeepsRules (Generate.board c options id) := by
  have writes (x : Work Unit) : Effects KeepsRules (Run.work x) := ⟨fun s => refl_of KeepsRules s⟩
  have puts (b : Board) (made : Option Generated) : Effects KeepsRules (putFiles b made) := by
    cases made <;> (unfold putFiles; infer_instance)
  cases found : c.inventory.find? id with
  | none =>
    unfold Generate.board
    simp only [found]
    infer_instance
  | some b =>
    rw [board_eq c options found]
    infer_instance

end Quiet

theorem rules_afterSteps (c : Configuration) (steps : List Step) (session : Session) :
    session.KeepsRules (afterSteps c steps session) := by
  induction steps generalizing session with
  | nil => exact refl_of Session.KeepsRules session
  | cons step rest ih =>
    have one : Effects Session.KeepsRules (step.run c) := by
      cases step <;> (unfold Step.run; infer_instance)
    exact trans_of Session.KeepsRules (one session) (ih _)

/-- Whatever a session has done before, failures included, it generates for a board as a fresh session
does: with the same result and the same files, all of them the same on the same workspace, and the same
files also in any other workspace that has the same sources. -/
theorem board_ignores_history (c : Configuration) (options : Options) (steps : List Step)
    (w : Workspace) (id : Document) :
    let used := afterSteps c steps ⟨w, c.compiler⟩
    let fresh : Session := ⟨used.workspace, c.compiler⟩
    ((Generate.board c options id).run.run used).1 = ((Generate.board c options id).run.run fresh).1 ∧
    ((Generate.board c options id).run.run used).2.workspace =
      ((Generate.board c options id).run.run fresh).2.workspace ∧
    ∀ w' : Workspace, w'.SameAt (sources c) used.workspace →
      produced c options id used = produced c options id ⟨w', c.compiler⟩ := by
  intro used fresh
  have rules : c.compiler.SameRules used.compiler := rules_afterSteps c steps ⟨w, c.compiler⟩
  obtain ⟨outcomes, after⟩ := agree_board c options id fresh used ⟨rfl, rules⟩
  refine ⟨outcomes.eq.symm, after.1.symm, fun w' same => ?_⟩
  exact produced_eq (readsAlike_sameAt c) options id ⟨same, rules⟩

def morphBoard : Board where
  id := "morph"
  name := "Morph"
  firmware := .zmk

def morphs : Configuration where
  keymap := { layers := [{ name := "BASE", core := some ⟨[[.key "sm:A:B"]]⟩ }] }
  inventory := { boards := [morphBoard] }
  aliases := []
  combos := []
  magic := []
  keycodes := []

def emptyWorkspace : Workspace where
  root := ""

def morphSession : Session :=
  afterSteps morphs [.precompile morphBoard, .generate {} "gone"] ⟨emptyWorkspace, morphs.compiler⟩

/-- The morph that is left behind makes no difference. -/
theorem morphs_ignored : morphSession.compiler.zmkMorphs = [("A", "B")] ∧
    emptyWorkspace.SameAt (sources morphs) morphSession.workspace ∧ produced morphs {} "morph" morphSession =
      produced morphs {} "morph" ⟨emptyWorkspace, morphs.compiler⟩ := by
  obtain ⟨-, -, files⟩ := board_ignores_history morphs {}
    [.precompile morphBoard, .generate {} "gone"] emptyWorkspace "morph"
  have same : emptyWorkspace.SameAt (sources morphs) morphSession.workspace := ⟨rfl, fun path _ => rfl⟩
  exact ⟨by decide +kernel, same, files emptyWorkspace same⟩

end Keymap.Generate
