import Keymap.Proofs.BoardRuns

set_option synthInstance.maxSize 10000

namespace Keymap

open List
open Workspace (SameDisk Touches)

variable {name : String} {w : Workspace}

def outputs : Zone where
  trees := [["out"], ["docs"]]
  files := [[Drawing.settingsPath]]

class IsOutput (path : String) : Prop where
  inner : Path.Inner path
  covered : outputs.Covers (Path.names path)
  deep : 1 < (Path.names path).length

instance (path : String) : Decidable (IsOutput path) :=
  decidable_of_iff (Path.Inner path ∧ (∃ tree ∈ outputs.trees, tree <+: Path.names path) ∧
      1 < (Path.names path).length)
    ⟨fun ⟨inner, covered, deep⟩ => ⟨inner, covered, deep⟩,
      fun ⟨inner, covered, deep⟩ => ⟨inner, covered, deep⟩⟩

namespace IsOutput

variable {path : String}

theorem admits (isOutput : IsOutput path) : outputs.Admits (Path.names path) := by
  have h := isOutput.deep
  refine ⟨fun he => ?_, fun ht => ?_, .inl isOutput.covered⟩
  · simp [he] at h
  · have hs : ∀ tree ∈ outputs.trees, tree.length = 1 := by decide
    have hsn := hs _ ht
    omega

section File

variable {ending : String} (isOutput : IsOutput path) (noSlash : '/' ∉ name.toList)
  (plain : '/' ∉ ending.toList ∧ 2 < ending.toList.length)

include isOutput noSlash plain

theorem file : IsOutput (path ++ "/" ++ name ++ ending) := by
  have length : 2 < (name ++ ending).toList.length := by
    rw [String.toList_append, length_append]
    omega
  have hn : Path.IsName (name ++ ending) := by
    refine ⟨?_, fun h => ?_, fun dot => ?_⟩
    · simp [String.toList_append, noSlash, plain.1]
    · simp [h] at length
    · simp [dot] at length
  have hnu : name ++ ending ≠ ".." := by
    intro up
    simp [up] at length
  have hnn : Path.names path ≠ [] := by
    intro h
    have hd := isOutput.deep
    simp [h] at hd
  have hnm : Path.names (path ++ "/" ++ name ++ ending) = Path.names path ++ [name ++ ending] := by
    rw [String.append_assoc, Path.names_slash, Path.names_of_isName hn]
  obtain ⟨tree, ht, ha⟩ := isOutput.covered
  refine ⟨?_, ⟨tree, ht, ?_⟩, ?_⟩
  · rw [String.append_assoc]
    apply isOutput.inner.slash hnn
    rw [Path.names_of_isName hn, mem_singleton]
    exact hnu.symm
  · rw [hnm]
    exact ha.trans (prefix_append _ _)
  · rw [hnm, length_append]
    have hd := isOutput.deep
    omega

theorem join : IsOutput (Path.join path (name ++ ending)) := by
  obtain ⟨⟨hr, hdw⟩, hc, hd⟩ := isOutput.file noSlash plain
  have hrl : Path.isAbsolute (name ++ ending) = false := by
    rw [Bool.eq_false_iff, Ne, Path.isAbsolute_iff, String.toList_append]
    rintro ⟨rest, hl⟩
    have hm : '/' ∈ name.toList ++ ending.toList := by simp [hl]
    exact (mem_append.mp hm).elim noSlash plain.1
  have h : Path.join path (name ++ ending) = Path.clean (path ++ "/" ++ name ++ ending) := by
    simp [Path.join, hrl, String.append_assoc]
  rw [← Path.names_clean, ← h] at hc hd hdw
  rw [← Path.isAbsolute_clean, ← h] at hr
  exact ⟨⟨hr, hdw⟩, hc, hd⟩

end File

variable [isOutput : IsOutput path]

instance (content : Content) : Effects (Touches outputs) (Work.write path content) :=
  Work.touches_write isOutput.inner isOutput.admits content

instance (text : String) : Effects (Touches outputs) (Work.writeText path text) :=
  inferInstanceAs (Effects (Touches outputs) (Work.write path (.text text)))

instance : Effects (Touches outputs) (Work.remove path) :=
  Work.touches_remove isOutput.inner isOutput.covered

instance : Effects (Touches outputs) (Work.discardFile path) :=
  Work.touches_discardFile isOutput.inner isOutput.covered

end IsOutput

section Names

theorem Layer.isName_noSlash (h : Layer.isName name) : '/' ∉ name.toList := by
  intro hs
  have hk : '/' ∈ (Text.replace "_" "" name).toList := by
    have hc : Text.replace "_" "" name = String.ofList (Text.replaceFrom ['_'] [] 0 name.toList) := rfl
    rw [hc, String.toList_ofList]
    exact Text.mem_replaceFrom_of_ne hs (by decide)
  unfold Layer.isName at h
  simp only [Bool.and_eq_true, all_eq_true] at h
  have ha := h.2 _ hk
  revert ha
  decide

theorem Layer.title_noSlash {layer : Layer} (hv : layer.validate = .ok ()) : '/' ∉ layer.title.toList := by
  have hn : Yields layer.validate fun _ => ∃ name, layer.name = .text name ∧ Layer.isName name := by
    have hc : Yields (layer.name.word "isupper" >>= fun name =>
        if !Layer.isName name then invalid s!"Invalid layer name: {layer.title}" else pure ()) fun _ =>
          ∃ name, layer.name = .text name ∧ Layer.isName name := by
      cases ht : layer.name with
      | text name =>
        cases h : Layer.isName name with
        | true => exact fun _ _ => ⟨name, rfl, h⟩
        | false =>
          intro _ hd
          simp [Document.word, h, invalid, ok_bind] at hd
      | _ => exact Yields.error.bind fun _ ha => ha
    refine .guard ?_
    cases layer.core with
    | none => exact hc
    | some core => exact .guard hc
  obtain ⟨name, ht, h⟩ := hn () hv
  simpa [title, ht, Document.toText] using isName_noSlash h

theorem Reading.keymap_noSlash (d : Document) (overlay : Option Document) (shared : Reading.Sharing) :
    Yields (Reading.keymap d overlay shared) fun config => ∀ layer ∈ config.layers, '/' ∉ layer.title.toList := by
  unfold Reading.keymap
  refine Yields.trivial.bind fun _ _ => Yields.trivial.bind fun _ _ => Yields.trivial.bind fun _ _ => ?_
  refine Yields.trivial.bind fun layers _ => Yields.trivial.bind fun _ _ => ?_
  refine Yields.trivial.bind fun _ _ => Yields.trivial.bind fun _ _ => Yields.trivial.bind fun _ _ => ?_
  refine Yields.self.bind fun _ h => .ok fun layer hm => ?_
  obtain ⟨_, -, h⟩ := bind_eq_ok.mp h
  exact Layer.title_noSlash (forM_eq_ok.mp h layer hm)

instance : Effects SameDisk Reading.families := by
  have warns (texts : List String) : Effects SameDisk (texts.forM Work.say) := .forM fun text _ => inferInstance
  unfold Reading.families
  infer_instance

theorem returns_families :
    Returns Reading.families fun families => ∀ layer ∈ families.layers, '/' ∉ layer.title.toList := by
  unfold Reading.families
  refine Returns.bind (q := fun config => ∀ layer ∈ config.layers, '/' ∉ layer.title.toList) ?_ ?_
  · unfold Reading.keymapFile
    refine Returns.any.bind fun _ _ => Returns.any.bind fun d _ => Returns.any.bind fun shared _ => ?_
    exact .lifted (Reading.keymap_noSlash d none shared)
  · intro config plain
    refine Returns.any.bind fun _ _ => Returns.any.bind fun _ _ => Returns.any.bind fun _ _ => .pure plain

theorem returns_source :
    Returns Reading.source fun source => ∀ layer ∈ source.families.layers, '/' ∉ layer.title.toList := by
  refine returns_families.bind fun families plain => ?_
  exact Returns.any.bind fun _ _ => Returns.any.bind fun _ _ => Returns.any.bind fun _ _ => .pure plain

instance (name : String) : Effects SameDisk (Reading.rowStaggerFile name) := by
  unfold Reading.rowStaggerFile
  infer_instance

instance : Effects SameDisk Reading.rowStaggerFiles := by
  unfold Reading.rowStaggerFiles
  infer_instance

theorem yields_rowStaggerFiles (ht : w.disk.Tidy) :
    Yields (Reading.rowStaggerFiles.run.run w).1 fun names => ∀ name ∈ names, '/' ∉ name.toList := by
  apply Yields.ok
  intro name hm
  have h := (mem_filter.mp hm).1
  exact (ht.isName_of_mem_namesIn (mem_mergeSort.mp h)).1

theorem stem_noSlash (noSlash : '/' ∉ name.toList) : '/' ∉ (Path.stem name).toList := by
  unfold Path.stem
  dsimp only
  split
  · exact noSlash
  · rw [String.toList_ofList, mem_reverse]
    intro hm
    have h := (dropWhile_sublist _).subset (drop_subset _ _ hm)
    exact noSlash (mem_reverse.mp h)

end Names

namespace Drawing

variable {path : String}

section Reads

instance : Effects SameDisk program := by
  refine Effects.bind inferInstance fun w => ?_
  cases w.tools.drawer <;> infer_instance

instance (output : Option String) (arguments : List String) :
    Effects SameDisk (outputOf output arguments) := by
  cases output <;> (unfold outputOf; infer_instance)

instance (config : Document) (path : String) (keymap : KeymapFile) :
    Effects SameDisk (parseKeymap config path keymap) := by
  unfold parseKeymap
  infer_instance

instance (config : Document) (keymap : String) : Effects SameDisk (drawKeymap config keymap) := by
  unfold drawKeymap
  infer_instance

instance (s : Source) (size : LayoutSize) (drawn : Option (List Layer)) :
    Effects SameDisk (drawingConfig s size drawn) := by
  have makes (name : String) : Effects SameDisk (Work.temporary name) := by
    dsimp only [Work.temporary]
    infer_instance
  unfold drawingConfig
  infer_instance

instance (subject : String) (fault : Fault) : Effects SameDisk (reportDrawing subject fault) := by
  cases fault <;> (unfold reportDrawing; infer_instance)

instance : Effects SameDisk isAvailable := by
  unfold isAvailable
  infer_instance

instance : Effects SameDisk needConverter := by
  refine Effects.bind inferInstance fun w => ?_
  cases w.tools.converter <;> infer_instance

instance : Effects SameDisk needMerger := by
  unfold needMerger
  infer_instance

instance (format : Format) (svg : String) (target : Target) :
    Effects SameDisk (convert format svg target) := by
  have counts (n : Nat) : Effects SameDisk (modify fun w => { w with conversions := n } : Work PUnit) :=
    ⟨fun _ => ⟨rfl, rfl⟩⟩
  dsimp only [convert]
  infer_instance

instance (drawing : String) (layout shown : Document) :
    Effects SameDisk (rowStaggerDrawing drawing layout shown) := by
  unfold rowStaggerDrawing
  infer_instance

end Reads

instance isOutput_drawingDirectory : IsOutput drawingDirectory := by decide

instance isOutput_splitDirectory : IsOutput splitDirectory := by decide

instance isOutput_rowStaggerOutput : IsOutput rowStaggerOutput := by decide

instance (subject : String) (draw : Work String) [Effects (Touches outputs) draw] :
    Effects (Touches outputs) (attempt subject draw) := by
  unfold attempt
  infer_instance

instance (failure : String) (make : Work String) [Effects (Touches outputs) make] :
    Effects (Touches outputs) (attemptFile failure make) := by
  unfold attemptFile
  infer_instance

instance (format : Format) (svg : String) [IsOutput path] :
    Effects (Touches outputs) (convertTo format svg path) := by
  unfold convertTo
  infer_instance

instance (s : Source) (size : LayoutSize) (drawn : Option (List Layer)) (names : Result (List String))
    [IsOutput path] (keymap : KeymapFile) :
    Effects (Touches outputs) (drawFile s size drawn names path keymap) := by
  unfold drawFile
  infer_instance

section Layers

variable (s : Source) {d : LayerDrawing}

theorem returns_draw : Returns (d.draw s) fun drawn => ∀ path ∈ drawn, path = d.path := by
  unfold LayerDrawing.draw attempt
  apply Returns.tryCatch
  · refine Returns.bind (q := fun path => path = d.path) ?_ fun path h => .pure (by simp [h])
    refine Returns.any.bind fun _ _ => Returns.any.bind fun _ _ => Returns.any.bind fun _ _ => ?_
    exact Returns.any.bind fun _ _ => Returns.any.bind fun _ _ => .pure rfl
  · exact fun fault => Returns.any.bind fun _ _ => .pure (by simp)

variable (noSlash : '/' ∉ d.fileName.toList)

include noSlash

theorem isOutput_keymapPath : IsOutput d.keymapPath :=
  isOutput_drawingDirectory.join noSlash (by decide)

theorem isOutput_path : IsOutput d.path := by
  have h : IsOutput "docs/split" := by decide
  unfold LayerDrawing.path
  split
  · exact isOutput_drawingDirectory.join noSlash (by decide)
  · exact h.join noSlash (by decide)

theorem touches_draw_bind {α : Type} {f : Option String → Work α}
    (hn : ∀ drawn : Option String, (∀ path ∈ drawn, IsOutput path) → Effects (Touches outputs) (f drawn)) :
    Effects (Touches outputs) (d.draw s >>= f) := by
  have hk := isOutput_keymapPath noSlash
  have hd := isOutput_path noSlash
  have h : Effects (Touches outputs) (d.draw s) := by
    unfold LayerDrawing.draw
    infer_instance
  refine Work.touches_bind h (fun w _ => returns_draw s w) fun drawn hdr => hn drawn ?_
  exact fun path hm => hdr path hm ▸ hd

end Layers

section Bases

variable (s : Source) (base : String)

instance [IsOutput path] : Effects (Touches outputs) (addMagicTo s base path) := by
  unfold addMagicTo
  infer_instance

theorem touches_combine (noSlash : '/' ∉ name.toList) (drawings : List String) :
    Effects (Touches outputs) (combine name drawings) := by
  have isOutput : IsOutput (Path.join splitDirectory (name ++ ".pdf")) :=
    isOutput_splitDirectory.join noSlash (by decide)
  have h (text : String) :
      Effects (Touches outputs) (Work.writeText (Path.join splitDirectory s!"{name}.pdf") text) :=
    inferInstanceAs (Effects _ (Work.writeText (Path.join splitDirectory (name ++ ".pdf")) text))
  unfold combine
  infer_instance

variable {base} (noSlash : '/' ∉ (baseFileName base).toList)

include noSlash

theorem fileName_noSlash {d : LayerDrawing} (h : d.name = some (baseFileName base)) {suffix : String}
    (hs : d.suffix = .text suffix) (plain : '/' ∉ suffix.toList) : '/' ∉ d.fileName.toList := by
  simp [LayerDrawing.fileName, h, hs, Document.toText, String.toList_append, noSlash, plain]

theorem touches_printFamily (layers : List Layer) (size : LayoutSize) :
    Effects (Touches outputs) (printFamily s base layers size) := by
  unfold printFamily
  rcases pages s base (layersByName layers) with ⟨front, back⟩
  dsimp -zeta only
  extract_lets fileName first second
  have hp : '/' ∉ first.fileName.toList := fileName_noSlash noSlash rfl rfl (by decide)
  have hps : '/' ∉ second.fileName.toList := fileName_noSlash noSlash rfl rfl (by decide)
  have hfr := isOutput_keymapPath hp
  have hsc := isOutput_keymapPath hps
  have hc := touches_combine noSlash
  refine touches_draw_bind s hp fun firstPath ho => ?_
  refine touches_draw_bind s hps fun secondPath h => ?_
  have hd : Effects (Touches outputs)
      ((firstPath.toList ++ secondPath.toList).forM Work.discardFile) := by
    refine .forM fun path hm => ?_
    have isOutput : IsOutput path := by
      rcases mem_append.mp hm with hf | hs
      · exact ho path (Option.mem_toList.mp hf)
      · exact h path (Option.mem_toList.mp hs)
    infer_instance
  cases secondPath with
  | none => infer_instance
  | some path =>
    have isOutput : IsOutput path := h path rfl
    infer_instance

theorem touches_printSingle (layer : Layer) (size : LayoutSize) :
    Effects (Touches outputs) (printSingle s base layer size) := by
  unfold printSingle
  extract_lets fileName drawing
  have plain : '/' ∉ drawing.fileName.toList := fileName_noSlash noSlash rfl rfl (by decide)
  have hk := isOutput_keymapPath plain
  have isOutput : IsOutput (Path.join splitDirectory (baseFileName base ++ "_base.pdf")) :=
    isOutput_splitDirectory.join noSlash (by decide)
  have hc (svg : String) : Effects (Touches outputs)
      (convertTo landscape svg (Path.join splitDirectory s!"{fileName}_base.pdf")) :=
    inferInstanceAs (Effects _
      (convertTo landscape svg (Path.join splitDirectory (baseFileName base ++ "_base.pdf"))))
  have ha (make : Work String) (hm : Effects (Touches outputs) make) : Effects (Touches outputs)
      (attemptFile s!"Single-layer PDF generation failed for {fileName}" make) := inferInstance
  refine ha _ (.bind inferInstance fun _ => touches_draw_bind s plain fun drawn h => ?_)
  cases drawn with
  | none => infer_instance
  | some path =>
    have hd : IsOutput path := h path rfl
    infer_instance

theorem touches_drawBase (names : List String) (size : LayoutSize) :
    Effects (Touches outputs) (drawBase s base names size) := by
  refine Effects.bind inferInstance fun keymap => ?_
  cases names.filterMap (findLayer? keymap.layers) with
  | nil => infer_instance
  | cons layer layers =>
    dsimp -zeta only
    extract_lets drawing
    have plain : '/' ∉ drawing.fileName.toList := fileName_noSlash noSlash rfl rfl (by decide)
    have hk := isOutput_keymapPath plain
    have hf := touches_printFamily s noSlash (layer :: layers) size
    have hs := touches_printSingle s noSlash layer size
    refine touches_draw_bind s plain fun drawn h => ?_
    cases drawn with
    | none => infer_instance
    | some path =>
      have hd : IsOutput path := h path rfl
      infer_instance

end Bases

theorem touches_drawBases {s : Source} (plain : ∀ layer ∈ s.families.layers, '/' ∉ layer.title.toList) :
    Effects (Touches outputs) (drawBases s) := by
  have hl : Effects (Touches outputs) (forIn s.families.all PUnit.unit fun e _ => do
      Work.say s!"  📊 Generating visualization for {e.1}"
      drawBase s e.1 e.2 .split42
      pure (.yield PUnit.unit)) := by
    refine .forIn _ ?_
    rintro ⟨base, names⟩ hm _
    obtain ⟨layer, hb, hs⟩ := mem_map.mp hm
    obtain ⟨rfl, -⟩ := Prod.mk.inj hs
    have noSlash : '/' ∉ (baseFileName layer.title).toList := by
      apply Text.not_mem_lower (by decide)
      intro h
      have hc : Text.replace "BASE_" "" layer.title =
          String.ofList (Text.replaceFrom "BASE_".toList [] 0 layer.title.toList) := rfl
      rw [hc, String.toList_ofList] at h
      rcases Text.mem_of_mem_replaceFrom h with ha | hk
      · cases ha
      · exact plain layer (mem_filter.mp hb).1 hk
    have hd := touches_drawBase s noSlash names .split42
    infer_instance
  unfold drawBases
  infer_instance

section RowStagger

variable {layout : String} (noSlash : '/' ∉ layout.toList)

instance (d : Document) [IsOutput path] : Effects (Touches outputs) (drawDocument d path) := by
  refine Effects.bind inferInstance fun _ => Effects.bind inferInstance fun drawer => ?_
  refine Effects.bind inferInstance fun _ => ?_
  cases drawer.draw <;> infer_instance

include noSlash

theorem touches_rowStaggerPrints (drawing : String) (shown : Document) :
    Effects (Touches outputs) (rowStaggerPrints drawing layout shown) := by
  have hp : IsOutput (Path.join rowStaggerOutput (layout ++ ".png")) :=
    isOutput_rowStaggerOutput.join noSlash (by decide)
  have h : IsOutput (Path.join rowStaggerOutput (layout ++ ".pdf")) :=
    isOutput_rowStaggerOutput.join noSlash (by decide)
  have hpc : Effects (Touches outputs) (rowStaggerPicture drawing (.text layout) shown) := by
    dsimp only [rowStaggerPicture, toString, Document.toText]
    infer_instance
  have hpg : Effects (Touches outputs) (rowStaggerPage drawing (.text layout) shown) := by
    dsimp only [rowStaggerPage, toString, Document.toText]
    infer_instance
  unfold rowStaggerPrints
  infer_instance

theorem touches_printGray (r : RowStagger) (info : String) :
    Effects (Touches outputs) (printGray r layout info) := by
  have plain : '/' ∉ (layout ++ "_print").toList := by
    simp [String.toList_append, noSlash]
  have hf : IsOutput (drawingDirectory ++ "/" ++ (layout ++ "_print") ++ ".yaml") :=
    isOutput_drawingDirectory.file plain (by decide)
  have h : IsOutput (drawingDirectory ++ "/" ++ (layout ++ "_print") ++ ".svg") :=
    isOutput_drawingDirectory.file plain (by decide)
  have hp := touches_rowStaggerPrints plain
  unfold printGray
  infer_instance

theorem touches_drawRowStagger (hs : Path.stem name = layout) :
    Effects (Touches outputs) (drawRowStagger name) := by
  have hi : IsOutput (drawingDirectory ++ "/" ++ layout ++ "_info.json") :=
    isOutput_drawingDirectory.file noSlash (by decide)
  have hf : IsOutput (drawingDirectory ++ "/" ++ layout ++ "_rowstagger.yaml") :=
    isOutput_drawingDirectory.file noSlash (by decide)
  have h : IsOutput "docs/rowstagger" := by decide
  have hd : IsOutput ("docs/rowstagger/" ++ layout ++ ".svg") := h.file noSlash (by decide)
  have hp := touches_rowStaggerPrints noSlash
  have hg := touches_printGray noSlash
  dsimp only [drawRowStagger, toString]
  rw [hs]
  infer_instance

end RowStagger

instance touches_drawRowStaggers : Effects (Touches outputs) drawRowStaggers := by
  refine Work.touches_bind inferInstance (fun w tidy => yields_rowStaggerFiles tidy) fun names plain => ?_
  have loop : Effects (Touches outputs) (forIn names PUnit.unit fun name _ => do
      tryCatch (drawRowStagger name) fun fault =>
        Work.say s!"  ⚠️  Error generating visualization for {name}: {fault.message}"
      pure (.yield PUnit.unit)) := by
    refine .forIn _ fun name member _ => ?_
    have draws := touches_drawRowStagger (stem_noSlash (plain name member)) rfl
    infer_instance
  infer_instance

instance : Effects (Touches outputs) updateSettings := by
  have writes (content : Content) : Effects (Touches outputs) (Work.write settingsPath content) :=
    Work.touches_write (by decide) ⟨by decide, by decide, .inr (by decide)⟩ content
  have lists (families : Families) (names : List String) : Effects (Touches outputs)
      (forIn names.zipIdx PUnit.unit fun x _ => match x with
        | (name, i) => do
          Work.say (← liftM (layerLine families name i))
          pure (.yield PUnit.unit)) := .forIn _ fun (_, _) _ _ => inferInstance
  unfold updateSettings
  infer_instance

end Drawing

namespace Generate

theorem touches_keylayout (template : String) (noSlash : '/' ∉ name.toList) :
    Effects (Touches outputs) (keylayout template name) := by
  have h : IsOutput keylayoutDirectory := by decide
  have isOutput : IsOutput (keylayoutDirectory ++ "/" ++ Path.stem name ++ ".keylayout") :=
    h.file (stem_noSlash noSlash) (by decide)
  dsimp only [keylayout, toString]
  infer_instance

instance (verbose : Bool) : Effects (Touches outputs) (keylayouts verbose) := by
  have directory : IsOutput keylayoutDirectory := by decide
  have makes : Effects (Touches outputs) (Work.makeDirectories keylayoutDirectory) :=
    Work.touches_makeDirectories directory.inner (.inl directory.covered)
  refine Work.touches_bind inferInstance (fun w tidy => yields_rowStaggerFiles tidy) fun names plain => ?_
  have writes (template : String) : Effects (Touches outputs) (names.filterM fun name => do
      if verbose then Work.say s!"  Processing {name}..."
      keylayout template name) := by
    refine .filterM fun name member => ?_
    have one := touches_keylayout template (plain name member)
    dsimp only
    infer_instance
  dsimp only
  infer_instance

instance (step : Work Unit) [steps : Effects (Touches outputs) step] :
    Effects (Touches outputs) (separately step) := by
  refine ⟨fun w tidy => ?_⟩
  obtain ⟨root, tidy', outside, inside, tops⟩ := steps { w with mode := .flags } tidy
  exact ⟨root, tidy', outside, inside, tops⟩

instance : Effects (Touches outputs) refreshSettings := by
  unfold refreshSettings
  infer_instance

theorem touches_source : Effects (Touches outputs) Reading.source := by
  have hk : Effects SameDisk Reading.drawnKeycodes := by
    unfold Reading.drawnKeycodes Reading.keycodesFile
    infer_instance
  have hmg : Effects SameDisk Reading.drawnMagic := by
    unfold Reading.drawnMagic Reading.magicFile
    infer_instance
  have h : ∀ path ∈ Reading.drawingDirectories, Path.Inner path ∧
      ∃ tree ∈ outputs.trees, tree <+: Path.names path := by
    decide
  have hmk : Effects (Touches outputs) (Reading.drawingDirectories.forM Work.makeDirectories) := by
    refine .forM fun path hm => ?_
    obtain ⟨hi, hc⟩ := h path hm
    exact Work.touches_makeDirectories hi (.inl hc)
  unfold Reading.source
  infer_instance

instance : Effects (Touches outputs) drawings := by
  refine Work.touches_bind touches_source (fun w _ => returns_source w) fun source plain => ?_
  have draws := Drawing.touches_drawBases plain
  infer_instance

def finish (options : Options) (results : List Bool) : Work Unit := do
  summary results
  keylayouts options.verbose
  refreshSettings
  drawings

theorem touches_finish (options : Options) (results : List Bool) :
    Effects (Touches outputs) (finish options results) := by
  have h : Effects (Touches outputs) (summary results) := by
    unfold summary
    infer_instance
  unfold finish
  infer_instance

theorem unchanged_by_outputs_of_head {w' : Workspace} (hk : w.Kept outputs w')
    (isFirst : name = "qmk" ∨ name = "zmk") (names : List String) :
    w'.disk.node? (w.home ++ name :: names) = w.disk.node? (w.home ++ name :: names) := by
  have hpr : ∀ part ∈ outputs.trees ++ outputs.files, ∃ top, part = [top] ∧ top ≠ "qmk" ∧ top ≠ "zmk" := by
    simp [outputs, Drawing.settingsPath]
  have ho : ∀ part ∈ outputs.trees ++ outputs.files, ¬ part <+: name :: names := by
    intro part hp h
    obtain ⟨top, rfl, hn, hnz⟩ := hpr part hp
    obtain ⟨rfl, -⟩ := cons_prefix_cons.mp h
    exact isFirst.elim hn hnz
  apply hk.unchanged
  · rintro ⟨tree, ht, h⟩
    exact ho tree (mem_append_left _ ht) h
  · rintro ⟨-, part, hp, h, -⟩
    obtain ⟨top, rfl, -⟩ := hpr part hp
    obtain ⟨rfl, -⟩ := cons_prefix_cons.mp h
    exact ho _ hp (by simp)
  · intro hf
    exact ho _ (mem_append_right _ hf) prefix_rfl

theorem unchanged_by_outputs {b : Board} {w' : Workspace} (hi : b.Inside) (hk : w.Kept outputs w')
    (tail : List String) :
    w'.disk.node? (w.home ++ b.place ++ tail) = w.disk.node? (w.home ++ b.place ++ tail) := by
  obtain ⟨-, rest, -, h⟩ := Board.outputDirectory_inner hi
  have hf : ∃ name rest, b.place ++ tail = name :: rest ∧ (name = "qmk" ∨ name = "zmk") := by
    rcases h with h | h <;> simp [h]
  obtain ⟨name, names, hn, hfr⟩ := hf
  rw [append_assoc, hn]
  exact unchanged_by_outputs_of_head hk hfr names

end Generate

end Keymap
