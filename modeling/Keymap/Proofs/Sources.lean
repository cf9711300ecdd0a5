import Keymap.Proofs.BoardFiles

namespace Keymap

open List

namespace Workspace

def visit (w : Workspace) (path : String) : Except SystemCause (Option (Node Content)) :=
  (w.disk.walk (w.start path) (Path.names path)).map w.disk.node?

structure SameAt (paths : List String) (w w' : Workspace) : Prop where
  root : w'.root = w.root
  visits : ∀ path ∈ paths, w'.visit path = w.visit path

end Workspace

namespace Work

open Workspace (SameAt)

variable {path : String}

theorem isThere_eq (path : String) : Work.isThere path = (do
    if !isPath path then return false
    checkLength path
    let w ← get
    match w.visit path with
    | .ok found => return found.isSome
    | .error .longName => throw (.atPath .longName (w.shown path))
    | .error _ => return false) := by
  unfold isThere
  split
  · rfl
  · apply bind_congr
    intro _
    apply bind_congr
    intro w
    unfold Workspace.visit
    cases w.disk.walk (w.start path) (Path.names path) with
    | ok place => rfl
    | error cause => cases cause <;> rfl

theorem read_visit (w : Workspace) (path : String) :
    Disk.read w.disk (w.start path) (Path.names path) = (w.visit path >>= fun found =>
      match found with
      | some (.file content) => .ok content
      | some .directory => .error .directory
      | none => .error .absent) := by
  unfold Disk.read Workspace.visit
  cases w.disk.walk (w.start path) (Path.names path) with
  | error cause => rfl
  | ok place =>
    simp only [Except.map, ok_bind]
    cases w.disk.node? place with
    | none => rfl
    | some node => cases node <;> rfl

theorem agree_say {paths : List String} (text : String) :
    Agree (SameAt paths) Eq (Work.say text) (Work.say text) :=
  .modified fun _ _ h => ⟨h.root, h.visits⟩

variable {paths : List String} {R : Workspace → Workspace → Prop}
  (within : ∀ w w', R w w' → SameAt paths w w')

include within

theorem agree_checkLength (path : String) : Agree R Eq (checkLength path) (checkLength path) := by
  unfold checkLength
  apply Agree.get.bind
  intro w w' h
  rw [Workspace.shown, Workspace.shown, (within w w' h).root]
  exact .ite (.throw _) (.pure rfl)

theorem agree_isThere (hl : path ∈ paths) : Agree R Eq (Work.isThere path) (Work.isThere path) := by
  rw [isThere_eq]
  apply Agree.ite (.pure rfl)
  apply (agree_checkLength within path).bind
  intro _ _ _
  apply Agree.get.bind
  intro w w' hr
  have h := within w w' hr
  rw [h.visits path hl, Workspace.shown, Workspace.shown, h.root]
  cases w.visit path with
  | ok found => exact .pure rfl
  | error cause =>
    cases cause with
    | longName => exact .throw _
    | absent | present | notDirectory | directory | notEmpty => exact .pure rfl

theorem agree_read (hl : path ∈ paths) : Agree R Eq (Work.read path) (Work.read path) := by
  unfold Work.read ask checkPath
  have hr : Agree R Eq (throw (.malformed "embedded null byte") : Work Unit)
      (throw (.malformed "embedded null byte")) := .throw _
  have h := agree_checkLength within path
  apply (Agree.ite (hr.bind fun _ _ _ => h) h).bind
  intro _ _ _
  apply Agree.get.bind
  intro w w' hrl
  have hs := within w w' hrl
  rw [read_visit, read_visit, hs.visits path hl, Workspace.shown, Workspace.shown, hs.root]
  split
  · exact .pure rfl
  · exact .throw _

theorem agree_readDocument (hm : ∀ w w', R w w' → w'.mode = w.mode) (h : path ∈ paths) :
    Agree R Eq (readDocument path) (readDocument path) := by
  unfold readDocument
  apply (agree_read within h).bind
  rintro content _ rfl
  cases content with
  | text s => exact .ite (.pure rfl) (.throw _)
  | document d explicit shared =>
    apply Agree.get.bind
    intro w w' hr
    rw [hm w w' hr]
    exact .pure rfl

theorem agree_readText (h : path ∈ paths) : Agree R Eq (readText path) (readText path) := by
  unfold readText
  apply (agree_read within h).bind
  rintro content _ rfl
  cases content with
  | text s => exact .pure rfl
  | document d explicit shared => exact .throw _

theorem agree_readSharing (h : path ∈ paths) : Agree R Eq (readSharing path) (readSharing path) := by
  unfold readSharing
  apply (agree_read within h).bind
  rintro content _ rfl
  cases content <;> exact .pure rfl

end Work

namespace Generate

open Workspace (SameAt)

def sources (c : Configuration) : List String :=
  Reading.keymapPath :: behaviorsPath :: c.inventory.boards.filterMap fun b => (overlayPath b).toOption

def overlaidKeymap (path : String) : Work KeymapConfig := do
  let d ← Work.readDocument Reading.keymapPath
  let shared ← Work.readSharing Reading.keymapPath
  if ← Work.isThere path then
    let upper ← Work.readDocument path
    liftM (Reading.keymap d (some upper) (shared.under d (← Work.readSharing path)))
  else liftM (Reading.keymap d none shared)

theorem keymapFile_eq (path : String) : Reading.keymapFile (some path) =
    modify (fun w => { w with mode := .words }) >>= fun _ => overlaidKeymap path := by
  simp [Reading.keymapFile, overlaidKeymap]

theorem agree_overlaidKeymap {paths : List String} {path : String} (main : Reading.keymapPath ∈ paths)
    (h : path ∈ paths) : Agree (fun w w' => SameAt paths w w' ∧ w'.mode = w.mode) Eq
      (overlaidKeymap path) (overlaidKeymap path) := by
  have within : ∀ w w', SameAt paths w w' ∧ w'.mode = w.mode → SameAt paths w w' := fun _ _ => And.left
  have hm : ∀ w w', SameAt paths w w' ∧ w'.mode = w.mode → w'.mode = w.mode := fun _ _ => And.right
  unfold overlaidKeymap
  apply (Work.agree_readDocument within hm main).bind
  rintro d _ rfl
  apply (Work.agree_readSharing within main).bind
  rintro shared _ rfl
  apply (Work.agree_isThere within h).bind
  rintro there _ rfl
  split
  · apply (Work.agree_readDocument within hm h).bind
    rintro upper _ rfl
    apply (Work.agree_readSharing within h).bind
    rintro sharedAbove _ rfl
    exact .lifted (.refl _)
  · exact .lifted (.refl _)

theorem agree_keymapFile {paths : List String} {path : String} (hm : Reading.keymapPath ∈ paths)
    (hl : path ∈ paths) : Agree (SameAt paths) Eq (Reading.keymapFile (some path))
      (Reading.keymapFile (some path)) := by
  intro w w' h
  obtain ⟨ho, ha⟩ := agree_overlaidKeymap hm hl { w with mode := .words }
    { w' with mode := .words } ⟨⟨h.root, h.visits⟩, rfl⟩
  rw [keymapFile_eq, run_bind, run_bind]
  exact ⟨ho, ha.1⟩

theorem agree_boardKeymap {c : Configuration} {b : Board} (member : b ∈ c.inventory.boards)
    {found lost : Work Unit} (ha : Agree (SameAt (sources c)) Eq found found)
    (agreeLost : Agree (SameAt (sources c)) Eq lost lost) :
    Agree (SameAt (sources c)) Eq (boardKeymap c b found lost) (boardKeymap c b found lost) := by
  unfold boardKeymap
  apply Agree.ite _ (.pure rfl)
  cases hp : overlayPath b with
  | error fault =>
    intro w w' hs
    exact ⟨.error fault, hs⟩
  | ok path =>
    have h : path ∈ sources c := by
      apply mem_cons_of_mem
      apply mem_cons_of_mem
      exact mem_filterMap.mpr ⟨b, member, by rw [hp]; rfl⟩
    have hm : Reading.keymapPath ∈ sources c := mem_cons_self
    apply (Work.agree_isThere (fun _ _ => id) h).bind
    rintro there _ rfl
    apply Agree.ite
    · exact ha.bind fun _ _ _ => agree_keymapFile hm h
    · exact agreeLost.bind fun _ _ _ => .pure rfl

theorem agree_behaviorsText (c : Configuration) :
    Agree (SameAt (sources c)) Eq behaviorsText behaviorsText := by
  have h : behaviorsPath ∈ sources c := mem_cons_of_mem _ mem_cons_self
  unfold behaviorsText
  apply (Work.agree_isThere (fun _ _ => id) h).bind
  rintro there _ rfl
  apply Agree.ite _ (.pure rfl)
  apply Agree.tryCatch
  · apply (Work.agree_readText (fun _ _ => id) h).bind
    rintro text _ rfl
    exact .pure rfl
  · intro fault
    apply Agree.get.bind
    intro w w' hs
    rw [Workspace.shown, Workspace.shown, hs.root]
    exact (Work.agree_say _).bind fun _ _ _ => .pure rfl

theorem readsAlike_sameAt (c : Configuration) : ReadsAlike c (SameAt (sources c)) where
  prints := Work.agree_say
  keymap _ h _ _ := agree_boardKeymap h
  behaviors := agree_behaviorsText c

end Generate

end Keymap
