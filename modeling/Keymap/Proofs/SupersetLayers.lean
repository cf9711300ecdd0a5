import Keymap.Proofs.PaddedKeys
import Keymap.Proofs.TwoHands

namespace Keymap

open List

theorem Entry.toText_toDocument (entry : Entry) : entry.toDocument.toText = entry.text := by
  cases entry with
  | key code => rfl
  | position index =>
    have ref : Text.quote "_ref" = "'_ref'" := by decide +kernel
    have core : Text.quote "L36" = "'L36'" := by decide +kernel
    have h : Text.quote "index" = "'index'" := by decide +kernel
    show "\x7b" ++ Text.join ", " [Text.quote "_ref" ++ ": " ++ Text.quote "L36",
      Text.quote "index" ++ ": " ++ toString (index : Int)] ++ "\x7d" = _
    rw [ref, core, h]
    rfl

namespace Column

def toDocument (keys : Column Document) : Document :=
  .list [keys.top, keys.home, keys.bottom]

def texts (keys : Column Document) : Column String :=
  ⟨keys.top.toText, keys.home.toText, keys.bottom.toText⟩

theorem exists_toDocument {items : List Document} (h : items.length = 3) :
    ∃ keys : Column Document, .list items = keys.toDocument := by
  match items, h with
  | [a, b, c], _ => exact ⟨⟨a, b, c⟩, rfl⟩

end Column

namespace TwoHands

theorem widen_map_toText (h : TwoHands Document 5) (left right : Column Document) :
    (h.widen left right).map Document.toText = (h.map Document.toText).widen left.texts right.texts := by
  simp [widen, map, Column.texts]

end TwoHands

namespace Padding

theorem exists_columns {layer : Layer} (hv : ∀ e ∈ layer.extensions, e.validate = .ok ()) :
    ∃ left right : Column Document, columns layer = .ok (left.toDocument, right.toDocument) := by
  obtain ⟨left, right, h, ht, hth⟩ := columns_ok hv
  obtain ⟨outerLeft, hl⟩ := Column.exists_toDocument ht
  obtain ⟨outerRight, hr⟩ := Column.exists_toDocument hth
  exact ⟨outerLeft, outerRight, hl ▸ hr ▸ h⟩

theorem pad_columns {board : Board} (size : board.layoutSize = .split42) {layer : Layer} {left right : Column Document}
    (hc : columns layer = .ok (left.toDocument, right.toDocument)) (h : TwoHands Document 5) :
    pad board layer (h.map Document.toText).byRow = .ok ((h.widen left right).map Document.toText).byRow := by
  have hd : padTo42 layer (h.map Document.toText).byRow =
      .ok (to42 left.texts right.texts (h.map Document.toText).byRow) := by
    rw [padTo42, hc]
    rfl
  rw [pad, size]
  simp only [hd]
  rw [TwoHands.to42_byRow, TwoHands.widen_map_toText]

end Padding

namespace Drawing

variable {layer : Layer}

theorem withColumns_byHand (left right : Column Document) (h : TwoHands Document 5) :
    withColumns left.toDocument right.toDocument h.byHand = .ok (h.widen left right).byHand := by
  have hr : ∀ i row, h.fingerRows[i]? = some row → slice h.byHand (5 * i) (5 * i + 5) = row :=
    fun i row => h.slice_row i
  have ht : slice h.byHand 30 36 = h.leftThumbs ++ h.rightThumbs :=
    (h.slice_thumbs 0 6).trans (by simp [slice, h.thumbs, take_of_length_le])
  have hd : withColumns left.toDocument right.toDocument h.byHand = .ok
      ([left.top :: slice h.byHand 0 5, left.home :: slice h.byHand 5 10, left.bottom :: slice h.byHand 10 15].flatten ++
        [slice h.byHand 15 20 ++ [right.top], slice h.byHand 20 25 ++ [right.home],
          slice h.byHand 25 30 ++ [right.bottom]].flatten ++ slice h.byHand 30 36) := rfl
  rw [hd, ht, hr 0 _ rfl, hr 1 _ rfl, hr 2 _ rfl, hr 3 _ rfl, hr 4 _ rfl, hr 5 _ rfl]
  simp [TwoHands.widen, TwoHands.byHand]

theorem extensionFor_split42 : extensionFor layer .split42 = .ok (layer.extension? "3x6_3") := by
  unfold extensionFor
  split
  · rename_i h
    rw [Layer.extension?, isEmpty_iff.mp h]
    rfl
  · rfl

theorem extensionFor_split36 : extensionFor layer .split36 = .ok none := by
  unfold extensionFor
  split <;> rfl

variable {core : KeyGrid} {size : LayoutSize} {cells : List Document}

theorem superset_plain (hc : layer.core = some core) (h : coreCells core = .ok cells)
    (hp : extensionFor layer size = .ok none) : superset layer size = .ok cells := by
  simp only [superset, hc, h, hp, ok_bind]
  rfl

/-- The columns that a drawing adds are those that padding adds. -/
theorem superset_extended (isCore : layer.core = some core) (hc : coreCells core = .ok cells)
    {e : Extension} (he : layer.extension? "3x6_3" = some e) {left right : Document}
    (h : Padding.columns layer = .ok (left, right)) :
    superset layer .split42 = withColumns left right cells := by
  simp only [Padding.columns, he] at h
  obtain ⟨_, hl, h⟩ := bind_eq_ok.mp h
  obtain ⟨_, hr, h⟩ := bind_eq_ok.mp h
  obtain ⟨rfl, rfl⟩ := Prod.mk.inj (pure_eq_ok.mp h)
  simp only [superset, isCore, hc, extensionFor_split42, he, ok_bind]
  rw [show noColumn = Document.list (replicate 3 (.text Padding.noKey)) from rfl, hl, ok_bind, hr, ok_bind]

/-- 36 keys cut as if they were 42 are still 36. -/
theorem length_interleave_narrow {α : Type} {keys : List α} (h : keys.length = 36) :
    (interleave 6 keys).length = 36 := by
  simp [interleave, slice, h]

/-- A drawing of a layer shows the keys that padding gives a board of that size, except on 42 keys when the layer
does not say what the outer columns are. -/
theorem drawn_keys_are_padded_iff (d : Document) (overlay : Option Document) (config : KeymapConfig)
    (accepted : Reading.keymap d overlay = .ok config) (layer : Layer) (member : layer ∈ config.layers)
    (core : KeyGrid) (isCore : layer.core = some core)
    (shape : core.rows.map length = [5, 5, 5, 5, 5, 5, 3, 3]) (board : Board)
    (size : board.layoutSize ∈ [.split36, .split42]) :
    ∃ cells keys, drawnCells layer board.layoutSize = .ok cells ∧
      Padding.pad board layer (core.flatten.map Entry.text) = .ok keys ∧ (cells.map Document.toText = keys ↔
        board.layoutSize = .split36 ∨ (layer.extension? "3x6_3").isSome = true) := by
  obtain ⟨-, valid⟩ := Reading.checked_of_keymap accepted member
  obtain ⟨h, rfl⟩ := KeyGrid.exists_hands shape
  have isCells := KeyGrid.coreCells_hands h
  rw [← TwoHands.byHand_map] at isCells
  have texts : (h.map Entry.toDocument).map Document.toText = h.map Entry.text := by
    simp [TwoHands.map, Function.comp_def, Entry.toText_toDocument]
  rw [KeyGrid.flatten_hands, ← TwoHands.byRow_map, ← texts]
  generalize h.map Entry.toDocument = shown at isCells
  rcases mem_cons.mp size with size | size
  · have isDrawn := superset_plain isCore isCells extensionFor_split36
    refine ⟨shown.byRow, _, ?_, by rw [Padding.pad, size], by simp [size]⟩
    rw [size, drawnCells, isDrawn, ← shown.interleave_byHand]
    rfl
  · rw [mem_singleton] at size
    obtain ⟨left, right, isColumns⟩ := Padding.exists_columns valid
    have isPadded := Padding.pad_columns size isColumns shown
    cases extended : layer.extension? "3x6_3" with
    | none =>
      have isDrawn := superset_plain isCore isCells (extensionFor_split42.trans (congrArg _ extended))
      refine ⟨interleave 6 shown.byHand, _, by rw [size, drawnCells, isDrawn]; rfl, isPadded, ?_⟩
      have narrow := length_interleave_narrow shown.length_byHand
      simp only [size, Option.isSome_none, reduceCtorEq, Bool.false_eq_true, or_self, iff_false]
      intro same
      have count := congrArg length same
      rw [length_map, narrow, TwoHands.length_byRow] at count
      exact absurd count (by decide)
    | some e =>
      have isDrawn := superset_extended isCore isCells extended isColumns
      rw [withColumns_byHand] at isDrawn
      refine ⟨(shown.widen left right).byRow, _, ?_, isPadded, by simp⟩
      rw [size, drawnCells, isDrawn, ← TwoHands.interleave_byHand]
      rfl

def bareCore : KeyGrid :=
  ⟨[["Q", "W", "E", "R", "T"], ["A", "S", "D", "F", "G"], ["Z", "X", "C", "V", "B"], ["Y", "U", "I", "O", "P"],
    ["H", "J", "K", "L", "QUOT"], ["N", "M", "COMM", "DOT", "SLSH"], ["ESC", "SPC", "TAB"],
    ["ENT", "BSPC", "DEL"]].map (·.map .key)⟩

def bareDocument : Document :=
  .record [("layers", .record [("BASE", .record [("core", .list
    (bareCore.rows.map fun row => .list (row.map Entry.toDocument)))])])]

def wideBoard : Board :=
  { id := "corne", name := "Corne", firmware := .qmk, layoutSize := .split42 }

/-- A keymap without outer columns is not drawn as it is padded. -/
theorem bareDocument_misdrawn :
    ∃ config layer cells keys, Reading.keymap bareDocument none = .ok config ∧ layer ∈ config.layers ∧
      drawnCells layer wideBoard.layoutSize = .ok cells ∧
      Padding.pad wideBoard layer (bareCore.flatten.map Entry.text) = .ok keys ∧
      cells.map Document.toText ≠ keys := by
  obtain ⟨config, accepted⟩ : ∃ config, Reading.keymap bareDocument none = .ok config := exists_eq_ok (by decide)
  have isBare : (Reading.keymap bareDocument none).toOption.map (·.layers.map fun layer =>
      (layer.core, (layer.extension? "3x6_3").isSome)) = some [(some bareCore, false)] := by decide
  rw [accepted] at isBare
  obtain ⟨layer, isLayers, isLayer⟩ := map_eq_singleton_iff.mp (Option.some.inj isBare)
  obtain ⟨isCore, plain⟩ := Prod.mk.inj isLayer
  have member : layer ∈ config.layers := by simp [isLayers]
  obtain ⟨cells, keys, isDrawn, isPadded, same⟩ := drawn_keys_are_padded_iff bareDocument none config accepted layer
    member bareCore isCore (by decide) wideBoard (by simp [wideBoard])
  refine ⟨config, layer, cells, keys, accepted, member, isDrawn, isPadded, fun equal => ?_⟩
  rcases same.mp equal with narrow | extended
  · exact absurd narrow (by simp [wideBoard])
  · exact absurd extended (by simp [plain])

end Drawing

end Keymap
