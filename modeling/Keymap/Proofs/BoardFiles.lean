import Keymap.Generate.Run
import Keymap.Proofs.CompiledValues

namespace Keymap.Generate

variable {s s' : Session} {id : Document} {b : Board}

structure Generated where
  layers : List Document
  files : List (String × String)

def compileFiles (c : Configuration) (options : Options) (board : Board) (keymap : KeymapConfig) :
    Run (Option Generated) := do
  let layers ← compileLayers options.verbose board keymap.layers
  Run.sayIf options.verbose s!"  Compiled {layers.length} layers"
  match board.firmware with
  | .qmk =>
    let morphs := (← get).compiler.qmkMorphs
    let files ← liftM (qmkFiles c options.comboTraining board layers keymap.layers morphs)
    return some ⟨layers.map (·.name), files⟩
  | .zmk =>
    let morphs := (← get).compiler.zmkMorphs
    let behaviors ← Run.work behaviorsText
    let files ← liftM (zmkFiles c options behaviors board layers morphs)
    return some ⟨layers.map (·.name), files⟩
  | .other name =>
    Run.say s!"❌ Unknown firmware: {name.toText}"
    return none

def makeFiles (c : Configuration) (options : Options) (board : Board) (keymap : KeymapConfig) :
    Run (Option Generated) := do
  Run.prepare board
  compileFiles c options board keymap

def storeFiles (board : Board) (made : Generated) : Work Unit := do
  writeAll board.outputDirectory made.files
  if board.firmware.isQmk then
    Work.store layersHeaderPath (← liftM (layersHeader made.layers))

def putFiles (board : Board) : Option Generated → Run Bool
  | some made => do
    Run.work (storeFiles board made)
    Run.say s!"✅ Generated keymap for {board.name.toText}"
    return true
  | none => return false

theorem writeBoard_eq (c : Configuration) (options : Options) (board : Board) (keymap : KeymapConfig) :
    writeBoard c options board keymap = makeFiles c options board keymap >>= putFiles board := by
  unfold writeBoard makeFiles compileFiles putFiles
  cases h : board.firmware with
  | qmk => simp [writeQmk, storeFiles, h, Firmware.isQmk]
  | zmk => simp [writeZmk, storeFiles, h, Firmware.isQmk]
  | other name => simp

def readBoard (c : Configuration) (options : Options) (board : Board) : Run KeymapConfig := do
  Run.say s!"\n🔨 Generating keymap for {board.name.toText}..."
  if options.verbose then Run.work (describeBoard board)
  let file := board.keymapFile.toText
  let keymap ← Run.work (boardKeymap c board (Work.say s!"  📋 Loading board-specific keymap: {file}")
    (Work.say s!"⚠️  Warning: Board specifies keymap_file '{file}' but file not found"))
  liftM (OneShot.addShadows keymap)

theorem board_eq (c : Configuration) (options : Options) (h : c.inventory.find? id = some b) :
    Generate.board c options id = readBoard c options b >>= fun keymap =>
      tryCatch (makeFiles c options b keymap >>= putFiles b) (reportFailure b) := by
  unfold Generate.board readBoard
  cases options.verbose with
  | true => simp [h, writeBoard_eq]
  | false => simp [h, writeBoard_eq]

inductive Made (c : Configuration) (options : Options) (b : Board) (keymap : KeymapConfig)
    (layers : List CompiledLayer) (files : List (String × String)) : Prop
  | qmk (isQmk : b.firmware = .qmk) {morphs : List ShiftMorph}
      (done : qmkFiles c options.comboTraining b layers keymap.layers morphs = .ok files)
  | zmk (isZmk : b.firmware = .zmk) {behaviors : Option String} {morphs : List ShiftMorph}
      (done : zmkFiles c options behaviors b layers morphs = .ok files)

theorem makeFiles_eq_some {c : Configuration} {options : Options} {keymap : KeymapConfig} {made : Generated}
    (h : (makeFiles c options b keymap).run.run s = (.ok (some made), s')) :
    ∃ layers t t', (Run.prepare b).run.run s = (.ok (), t) ∧
      (compileLayers options.verbose b keymap.layers).run.run t = (.ok layers, t') ∧
      made.layers = layers.map (·.name) ∧ Made c options b keymap layers made.files := by
  unfold makeFiles compileFiles at h
  obtain ⟨_, t, hp, h⟩ := run_bind_eq_ok.mp h
  obtain ⟨layers, t', hc, h⟩ := run_bind_eq_ok.mp h
  obtain ⟨_, _, -, h⟩ := run_bind_eq_ok.mp h
  refine ⟨layers, t, t', hp, hc, ?_⟩
  cases hf : b.firmware with
  | qmk =>
    simp only [hf] at h
    obtain ⟨_, _, -, h⟩ := run_bind_eq_ok.mp h
    obtain ⟨files, _, hfl, h⟩ := run_bind_eq_ok.mp h
    obtain rfl := Option.some.inj (Except.ok.inj (Prod.mk.inj h).1)
    exact ⟨rfl, .qmk hf (run_liftM_eq_ok.mp hfl).1⟩
  | zmk =>
    simp only [hf] at h
    obtain ⟨_, _, -, h⟩ := run_bind_eq_ok.mp h
    obtain ⟨behaviors, _, -, h⟩ := run_bind_eq_ok.mp h
    obtain ⟨files, _, hfl, h⟩ := run_bind_eq_ok.mp h
    obtain rfl := Option.some.inj (Except.ok.inj (Prod.mk.inj h).1)
    exact ⟨rfl, .zmk hf (run_liftM_eq_ok.mp hfl).1⟩
  | other name =>
    simp only [hf] at h
    obtain ⟨_, _, -, h⟩ := run_bind_eq_ok.mp h
    cases (Prod.mk.inj h).1

def produced (c : Configuration) (options : Options) (id : Document) (session : Session) :
    Option Generated := do
  let b ← c.inventory.find? id
  (((readBoard c options b >>= makeFiles c options b).run.run session).1.toOption).join

def Session.Rel (W : Workspace → Workspace → Prop) (K : Compiler → Compiler → Prop)
    (s s' : Session) : Prop :=
  W s.workspace s'.workspace ∧ K s.compiler s'.compiler

def Prints (W : Workspace → Workspace → Prop) : Prop :=
  ∀ text, Agree W Eq (Work.say text) (Work.say text)

section Agreement

variable {α β : Type} {W : Workspace → Workspace → Prop} {K : Compiler → Compiler → Prop}
  {c : Configuration}

theorem agree_work {rel : α → β → Prop} {x : Work α} {y : Work β} (agree : Agree W rel x y) :
    Agree (Session.Rel W K) rel (Run.work x) (Run.work y) := by
  intro s s' h
  obtain ⟨ho, ha⟩ := agree _ _ h.1
  exact ⟨ho, ha, h.2⟩

theorem agree_say (h : Prints W) (text : String) : Agree (Session.Rel W K) Eq (Run.say text) (Run.say text) :=
  agree_work (h text)

theorem agree_sayIf (h : Prints W) (condition : Bool) (text : String) :
    Agree (Session.Rel W K) Eq (Run.sayIf condition text) (Run.sayIf condition text) := by
  unfold Run.sayIf
  split
  · exact agree_say h text
  · exact .pure rfl

def CompilesAlike (board : Board) (K : Compiler → Compiler → Prop)
    (rel : CompiledLayer → CompiledLayer → Prop) : Prop :=
  ∀ layer c c', K c c' → Outcomes rel (c.compile layer board).1 (c'.compile layer board).1 ∧
    K (c.compile layer board).2 (c'.compile layer board).2

theorem compilesAlike_sameFor (board : Board) : CompilesAlike board (Compiler.SameFor board) Eq := by
  intro layer c c' hs
  obtain ⟨hr, h⟩ := hs.compile layer
  exact ⟨hr ▸ .refl _, h⟩

theorem compilesAlike_sameRules (board : Board) : CompilesAlike board Compiler.SameRules fun _ _ => True := by
  intro layer c c' h
  refine ⟨h.compile_outcomes layer board, ?_⟩
  exact trans_of Compiler.SameRules (c.compile_sameRules layer board).symm
    (trans_of Compiler.SameRules h (c'.compile_sameRules layer board))

theorem agree_compileLayers (h : Prints W) (verbose : Bool) {board : Board}
    {rel : CompiledLayer → CompiledLayer → Prop} (hc : CompilesAlike board K rel)
    (layers : List Layer) : Agree (Session.Rel W K) (List.Forall₂ rel)
      (compileLayers verbose board layers) (compileLayers verbose board layers) := by
  induction layers with
  | nil => exact .pure .nil
  | cons layer rest ih =>
    have one : Agree (Session.Rel W K) rel (Run.compile layer board) (Run.compile layer board) := by
      intro s s' hs
      obtain ⟨ho, ha⟩ := hc layer _ _ hs.2
      exact ⟨ho, hs.1, ha⟩
    rw [compileLayers]
    apply (Agree.lifted (.refl _)).bind
    rintro included _ rfl
    split
    · apply (agree_sayIf h _ _).bind
      intro _ _ _
      apply one.bind
      intro first first' hh
      apply ih.bind
      intro others others' ht
      exact .pure (.cons hh ht)
    · apply (agree_sayIf h _ _).bind
      intro _ _ _
      exact ih

theorem sameFor_prepare (board : Board) (h : s.compiler.SameRules s'.compiler) :
    Compiler.SameFor board ((Run.prepare board).run.run s).2.compiler
      ((Run.prepare board).run.run s').2.compiler := by
  change Compiler.SameFor board
    (if board.firmware.isQmk then { s.compiler with qmkMorphs := [] }
      else { s.compiler with
        zmkMorphs := [], zmk := { s.compiler.zmk with layoutSize := board.layoutSize } })
    (if board.firmware.isQmk then { s'.compiler with qmkMorphs := [] }
      else { s'.compiler with
        zmkMorphs := [], zmk := { s'.compiler.zmk with layoutSize := board.layoutSize } })
  cases hf : board.firmware.isQmk with
  | true =>
    refine ⟨⟨h.qmk, h.vocabulary, h.magic⟩, fun _ => rfl, fun ho => ?_⟩
    exact absurd (hf.symm.trans ho) (by decide)
  | false =>
    refine ⟨⟨h.qmk, h.vocabulary, h.magic⟩, fun ho => ?_, fun _ => ⟨?_, rfl⟩⟩
    · exact absurd (hf.symm.trans ho) (by decide)
    · simp [h.vocabulary, h.magic]

theorem agree_compileFiles (h : Prints W) (hb : Agree W Eq behaviorsText behaviorsText)
    (c : Configuration) (options : Options) (board : Board) (keymap : KeymapConfig) :
    Agree (Session.Rel W (Compiler.SameFor board)) Eq (compileFiles c options board keymap)
      (compileFiles c options board keymap) := by
  unfold compileFiles
  apply (agree_compileLayers h _ (compilesAlike_sameFor board) _).bind
  intro layers layers' he
  obtain rfl : layers = layers' := List.forall₂_eq_eq_eq ▸ he
  apply (agree_sayIf h _ _).bind
  intro _ _ _
  cases hf : board.firmware with
  | qmk =>
    apply Agree.get.bind
    intro s s' hs
    rw [hs.2.qmkMorphs (by rw [hf]; rfl)]
    apply (Agree.lifted (.refl _)).bind
    rintro files _ rfl
    exact .pure rfl
  | zmk =>
    apply Agree.get.bind
    intro s s' hs
    rw [(hs.2.zmk (by rw [hf]; rfl)).2]
    apply (agree_work hb).bind
    rintro text _ rfl
    apply (Agree.lifted (.refl _)).bind
    rintro files _ rfl
    exact .pure rfl
  | other name =>
    apply (agree_say h _).bind
    intro _ _ _
    exact .pure rfl

theorem agree_makeFiles (hp : Prints W) (hb : Agree W Eq behaviorsText behaviorsText)
    (c : Configuration) (options : Options) (board : Board) (keymap : KeymapConfig) :
    Agree (Session.Rel W Compiler.SameRules) Eq (makeFiles c options board keymap)
      (makeFiles c options board keymap) := by
  intro s s' hs
  have hr : Session.Rel W (Compiler.SameFor board) ((Run.prepare board).run.run s).2
      ((Run.prepare board).run.run s').2 := ⟨hs.1, sameFor_prepare board hs.2⟩
  obtain ⟨ho, h⟩ := agree_compileFiles hp hb c options board keymap _ _ hr
  exact ⟨ho, h.1, h.2.rules⟩

/-- Workspaces that `W` relates are read alike for the boards of a configuration. -/
structure ReadsAlike (c : Configuration) (W : Workspace → Workspace → Prop) : Prop where
  prints : Prints W
  keymap : ∀ b ∈ c.inventory.boards, ∀ found lost : Work Unit, Agree W Eq found found →
    Agree W Eq lost lost → Agree W Eq (boardKeymap c b found lost) (boardKeymap c b found lost)
  behaviors : Agree W Eq behaviorsText behaviorsText

theorem readsAlike_eq (c : Configuration) : ReadsAlike c Eq :=
  ⟨fun _ => .self _, fun _ _ _ _ _ _ => .self _, .self _⟩

theorem agree_describeBoard (h : Prints W) (board : Board) :
    Agree W Eq (describeBoard board) (describeBoard board) := by
  unfold describeBoard
  apply (h _).bind
  intro _ _ _
  apply (h _).bind
  intro _ _ _
  apply (h _).bind
  intro _ _ _
  have hs : ∀ text, Agree W Eq (if board.zmkShield.isPresent = true then Work.say text else pure ())
      (if board.zmkShield.isPresent = true then Work.say text else pure ()) :=
    fun text => .ite (h text) (.pure rfl)
  exact .ite ((h _).bind fun _ _ _ => hs _) (hs _)

theorem agree_readBoard (h : ReadsAlike c W) (options : Options) (hm : b ∈ c.inventory.boards) :
    Agree (Session.Rel W K) Eq (readBoard c options b) (readBoard c options b) := by
  have hr : ∀ found lost, Agree (Session.Rel W K) Eq
      (Run.work (boardKeymap c b (Work.say found) (Work.say lost)) >>= fun keymap =>
        liftM (OneShot.addShadows keymap))
      (Run.work (boardKeymap c b (Work.say found) (Work.say lost)) >>= fun keymap =>
        liftM (OneShot.addShadows keymap)) := by
    intro found lost
    apply (agree_work (h.keymap b hm _ _ (h.prints found) (h.prints lost))).bind
    rintro keymap _ rfl
    exact .lifted (.refl _)
  unfold readBoard
  apply (agree_say h.prints _).bind
  intro _ _ _
  apply Agree.ite
  · exact (agree_work (agree_describeBoard h.prints b)).bind fun _ _ _ => hr _ _
  · exact hr _ _

theorem agree_precompile (h : ReadsAlike c W) (hm : b ∈ c.inventory.boards) :
    Agree (Session.Rel W Compiler.SameRules) Eq (precompile c b) (precompile c b) := by
  unfold precompile
  apply (agree_work (h.keymap b hm _ _ (.pure rfl) (.pure rfl))).bind
  rintro keymap _ rfl
  rw [discard_eq]
  apply (agree_compileLayers h.prints false (compilesAlike_sameRules b) keymap.layers).bind
  intro _ _ _
  exact .pure rfl

theorem mem_of_find? (h : c.inventory.find? id = some b) : b ∈ c.inventory.boards :=
  List.mem_of_find?_eq_some h

theorem produced_eq (h : ReadsAlike c W) (options : Options) (id : Document)
    (hs : Session.Rel W Compiler.SameRules s s') : produced c options id s' = produced c options id s := by
  unfold produced
  cases hf : c.inventory.find? id with
  | none => rfl
  | some b =>
    have ha : Agree (Session.Rel W Compiler.SameRules) Eq
        (readBoard c options b >>= makeFiles c options b)
        (readBoard c options b >>= makeFiles c options b) := by
      apply (agree_readBoard h options (mem_of_find? hf)).bind
      rintro keymap _ rfl
      exact agree_makeFiles h.prints h.behaviors c options b keymap
    simp only [Option.bind_eq_bind, Option.bind_some, (ha s s' hs).1.eq]

theorem agree_board (c : Configuration) (options : Options) (id : Document) :
    Agree (Session.Rel Eq Compiler.SameRules) Eq (Generate.board c options id)
      (Generate.board c options id) := by
  have h := readsAlike_eq c
  cases hf : c.inventory.find? id with
  | none =>
    unfold Generate.board
    simp only [hf]
    exact (agree_say h.prints _).bind fun _ _ _ => .pure rfl
  | some b =>
    rw [board_eq c options hf]
    apply (agree_readBoard h options (mem_of_find? hf)).bind
    rintro keymap _ rfl
    apply Agree.tryCatch
    · apply (agree_makeFiles h.prints h.behaviors c options b keymap).bind
      rintro made _ rfl
      cases made with
      | none => exact .pure rfl
      | some made =>
        apply (agree_work (.self _)).bind
        intro _ _ _
        exact (agree_say h.prints _).bind fun _ _ _ => .pure rfl
    · intro fault
      unfold reportFailure
      cases fault <;> exact (agree_say h.prints _).bind fun _ _ _ => .pure rfl

end Agreement

end Keymap.Generate
