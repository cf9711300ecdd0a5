import Keymap.Drawing.Convert

namespace Keymap.Drawing

def rowOf {α : Type} (rows : List α) (i : Nat) : Result α :=
  Document.elementAt "list" rows i

/-- All 61 keys in rows of 14, 14, 13, 12 and 8: those outside of the layout are blank. -/
def flatKeys {α : Type} (blank : α) (top home bottom : List α) : List α :=
  List.replicate 14 blank ++ [blank] ++ top ++ [blank] ++ [blank] ++ home ++ [blank] ++
    [blank] ++ bottom ++ [blank] ++ List.replicate 8 blank

def flatLayer (layout : Document) : Result (List Document) := do
  let row := fun (i : Int) => do
    match ← layout.item i with
    | .list keys => return keys
    | d => throw (.mismatch s!"can only concatenate list (not \"{d.kind}\") to list")
  return flatKeys (.text "") (← row 0) (← row 1) (← row 2)

def fingerColours : List String :=
  ["#ff9999", "#ffbb88", "#ffee88", "#99dd99", "#88ccff", "#bb99ff", "#ffaa88", "#ff99cc"]

def fingerShades : List String :=
  ["#eeeeee", "#cccccc", "#eeeeee", "#cccccc", "#eeeeee", "#cccccc", "#eeeeee", "#cccccc"]

def fingerColour (gray : Bool) (finger : Int) : Result String :=
  let colours := if gray then fingerShades else fingerColours
  match finger with
  | .ofNat n =>
    match colours[n]? with
    | some colour => .ok colour
    | none => .error (.missing (.number finger))
  | .negSucc _ => .error (.missing (.number finger))

def fingerRules (gray : Bool) (start : Nat) (fingers : List Int) : Result (List String) :=
  fingers.zipIdx.mapM fun (finger, i) => do
    let colour ← fingerColour gray finger
    return s!".keypos-{start + i} rect \x7b fill: {colour} !important; \x7d"

def fingerStyle (gray : Bool) (fingers : List (List Int)) : Result String := do
  if fingers.isEmpty then return ""
  let top ← fingerRules gray 15 (← rowOf fingers 0)
  let home ← fingerRules gray 29 (← rowOf fingers 1)
  let bottom ← fingerRules gray 42 (← rowOf fingers 2)
  return Text.join "\n" (top ++ home ++ bottom)

def rowStaggerStyle (fingers : String) : String :=
  let lines := [
    "/* Grey out number row, modifiers, and spacebar by keypos */",
    ".keypos-0 rect, .keypos-1 rect, .keypos-2 rect, .keypos-3 rect,",
    ".keypos-4 rect, .keypos-5 rect, .keypos-6 rect, .keypos-7 rect,",
    ".keypos-8 rect, .keypos-9 rect, .keypos-10 rect, .keypos-11 rect,",
    ".keypos-12 rect, .keypos-13 rect,",
    ".keypos-14 rect, .keypos-27 rect, .keypos-28 rect, .keypos-40 rect,",
    ".keypos-41 rect, .keypos-52 rect,",
    ".keypos-53 rect, .keypos-54 rect, .keypos-55 rect, .keypos-56 rect,",
    ".keypos-57 rect, .keypos-58 rect, .keypos-59 rect, .keypos-60 rect",
    "\x7b fill: #999999 !important; \x7d",
    "/* Increase legend size */",
    ".tap \x7b font-size: 32px; font-weight: 900; \x7d",
    "/* Remove strokes from all keys by default */",
    "rect \x7b stroke: none !important; \x7d",
    "/* Home row key borders (ASDF JKL; positions) */",
    ".keypos-29 rect, .keypos-30 rect, .keypos-31 rect, .keypos-32 rect,",
    ".keypos-35 rect, .keypos-36 rect, .keypos-37 rect, .keypos-38 rect \x7b",
    "    stroke: #333333 !important;",
    "    stroke-width: 3 !important;",
    "\x7d",
    "/* Fingermap colors (per-key targeting) */",
    fingers]
  "\n" ++ String.join (lines.map fun line => Text.spaces 20 ++ line ++ "\n") ++ Text.spaces 16

def decimal (x : Float) : Document :=
  .decimal (.ofFloat x)

def rowStaggerSettings (style : String) : Document :=
  .record [("key_h", .whole 60), ("key_w", .whole 60), ("key_rx", .whole 6), ("key_ry", .whole 6),
    ("n_columns", .whole 1), ("separate_combo_diagrams", .flag false), ("combo_w", .whole 24),
    ("combo_h", .whole 22), ("inner_pad_w", .whole 2), ("inner_pad_h", .whole 2),
    ("line_spacing", decimal 1.2), ("arc_scale", decimal 1),
    ("append_colon_to_layer_header", .flag true), ("small_pad", .whole 2),
    ("legend_rel_x", .whole 0), ("legend_rel_y", .whole 0), ("glyph_tap_size", .whole 28),
    ("glyph_hold_size", .whole 20), ("glyph_shifted_size", .whole 16),
    ("svg_extra_style", .text style)]

def rowStaggerDocument (r : RowStagger) (info : String) (gray : Bool) : Result Document := do
  let fingers ← fingerStyle gray (r.fingers.getD [])
  let layer ← flatLayer (RowStagger.layoutDocument r.layout)
  return .record [("layout", .record [("qmk_info_json", .text info)]),
    ("layers", .record [("Base", .list layer)]),
    ("draw_config", rowStaggerSettings (rowStaggerStyle fingers))]

def geometryKey (x : Document) (y : Nat) (width : Option Document := none) : Document :=
  let place : Entries := [("x", x), ("y", .whole y)]
  .record (place ++ width.toList.map fun w => (Field.word "w", w))

def plainKeys (start : Float) (y n : Nat) : List Document :=
  (List.range n).map fun i => geometryKey (decimal (start + i.toFloat)) y

def rowStaggerGeometry : Document :=
  let wide := fun (x : Document) y (width : Float) => geometryKey x y (some (decimal width))
  let numbers := (List.range 13).map fun (i : Nat) => geometryKey (.whole i) 0
  let keys :=
    numbers ++ [geometryKey (.whole 13) 0 (some (.whole 2))] ++
    [wide (.whole 0) 1 1.5] ++ plainKeys 1.5 1 12 ++ [wide (decimal 13.5) 1 1.5] ++
    [wide (.whole 0) 2 1.75] ++ plainKeys 1.75 2 11 ++ [wide (decimal 12.75) 2 2.25] ++
    [wide (.whole 0) 3 2.25] ++ plainKeys 2.25 3 10 ++ [wide (decimal 12.25) 3 2.75] ++
    [wide (.whole 0) 4 1.25, wide (decimal 1.25) 4 1.25, wide (decimal 2.5) 4 1.25,
     wide (decimal 3.75) 4 6.25, wide (.whole 10) 4 1.25, wide (decimal 11.25) 4 1.25,
     wide (decimal 12.5) 4 1.25, wide (decimal 13.75) 4 1.25]
  .record [("layouts", .record [("LAYOUT_60_ansi", .record [("layout", .list keys)])])]

def drawDocument (d : Document) (path : String) : Work Bool := do
  Work.writeText path ""
  let drawer ← program
  Work.record (.drawDocument d)
  match drawer.draw with
  | some svg =>
    Work.writeText path svg
    return true
  | none => return false

def rowStaggerPrints (drawing layout : String) (shown : Document) : Work Unit := do
  discard (rowStaggerPicture drawing (.text layout) shown)
  discard (rowStaggerPage drawing (.text layout) shown)

def printGray (r : RowStagger) (layout info : String) : Work Unit := do
  let d ← liftM (rowStaggerDocument r info true)
  let name := layout ++ "_print"
  let file := s!"{drawingDirectory}/{name}.yaml"
  let drawing := s!"{drawingDirectory}/{name}.svg"
  Work.write file (.document d true)
  if ← drawDocument d drawing then
    rowStaggerPrints drawing name r.name
    Work.remove drawing
    Work.remove file

def drawRowStagger (name : String) : Work Unit := do
  let r ← Reading.rowStaggerFile name
  let layout := Path.stem name
  let info := s!"{drawingDirectory}/{layout}_info.json"
  Work.writeText info (rowStaggerGeometry.toIndentedJson 0)
  let shownInfo := (← get).shown info
  let d ← liftM (rowStaggerDocument r shownInfo false)
  let file := s!"{drawingDirectory}/{layout}_rowstagger.yaml"
  let drawing := s!"docs/rowstagger/{layout}.svg"
  Work.write file (.document d true)
  if ← drawDocument d drawing then
    Work.say s!"  ✅ {layout}.svg (rowstagger)"
    rowStaggerPrints drawing layout r.name
    printGray r layout shownInfo
    Work.discardFile info
    Work.discardFile file
  else
    Work.say s!"  ⚠️  Failed to generate {layout}.svg (rowstagger)"
    Work.say s!"      {programError}"

/-- The drawings of all row-staggered layouts. A fault ends only the layout that it concerns. -/
def drawRowStaggers : Work Unit := do
  let names ← Reading.rowStaggerFiles
  if names.isEmpty then return
  Work.say "📊 Generating row-stagger visualizations..."
  for name in names do
    tryCatch (drawRowStagger name) fun fault =>
      Work.say s!"  ⚠️  Error generating visualization for {name}: {fault.message}"

end Keymap.Drawing
