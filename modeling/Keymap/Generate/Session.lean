import Keymap.Compile
import Keymap.Workspace

namespace Keymap.Generate

/-- The layer and the key that are being encoded and the numbers of the layers are arguments of the
encoders, and so no part of what one board leaves to the next. -/
structure Session where
  workspace : Workspace
  compiler : Compiler
  deriving Inhabited

abbrev Run := ExceptT Fault (StateM Session)

namespace Run

def work {α : Type} (step : Work α) : Run α :=
  ExceptT.mk fun session =>
    let (result, workspace) := step.run.run session.workspace
    (result, { session with workspace })

def say (text : String) : Run Unit :=
  work (Work.say text)

def sayIf (condition : Bool) (text : String) : Run Unit :=
  if condition then say text else pure ()

def compile (layer : Layer) (board : Board) : Run CompiledLayer := do
  let session ← get
  let (result, compiler) := session.compiler.compile layer board
  set { session with compiler }
  liftM result

def prepare (board : Board) : Run Unit :=
  modify fun session =>
    let c := session.compiler
    { session with
      compiler :=
        if board.firmware.isQmk then { c with qmkMorphs := [] }
        else { c with zmkMorphs := [], zmk := { c.zmk with layoutSize := board.layoutSize } } }

end Run

end Keymap.Generate
