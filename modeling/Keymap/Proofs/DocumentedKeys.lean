import Keymap.Drawing.KeymapFile
import Keymap.Proofs.CodeLines
import Keymap.Proofs.Enumerations
import Keymap.Proofs.KeymapOutcomes

namespace Keymap

open List

namespace Drawing

variable {α : Type} {width : Nat} {keys : List α}

def halfRow (width i : Nat) (keys : List α) : List α :=
  slice keys (width * i) (width * (i + 1))

def HalfRowsAlike (width : Nat) (keys : List α) : Prop :=
  ∀ i ∈ [2, 3, 4], halfRow width i keys = halfRow width 1 keys

instance [DecidableEq α] (width : Nat) (keys : List α) : Decidable (HalfRowsAlike width keys) :=
  inferInstanceAs (Decidable (∀ i ∈ [2, 3, 4], _))

theorem length_halfRow {i : Nat} (hf : keys.length = 6 * width + 6) (h : i < 6) :
    (halfRow width i keys).length = width := by
  have hr : width * (i + 1) ≤ width * 6 := Nat.mul_le_mul_left width h
  rw [halfRow, slice, length_take, length_drop]
  rw [Nat.mul_add, Nat.mul_one] at hr ⊢
  omega

theorem length_halfRow_eq {i j : Nat} (h : keys.length = 6 * width + 6) (hf : i < 6) (hs : j < 6) :
    (halfRow width i keys).length = (halfRow width j keys).length :=
  (length_halfRow h hf).trans (length_halfRow h hs).symm

theorem take_halfRow (i : Nat) : keys.take (width * (i + 1)) = keys.take (width * i) ++ halfRow width i keys := by
  rw [halfRow, slice, Nat.mul_add, Nat.mul_one, take_add, Nat.add_sub_cancel_left]

theorem halfRow_map {β : Type} (f : α → β) (i : Nat) : halfRow width i (keys.map f) = (halfRow width i keys).map f := by
  simp only [halfRow, slice, map_drop, map_take]

theorem eq_halfRows (width : Nat) (keys : List α) :
    keys = halfRow width 0 keys ++ (halfRow width 1 keys ++ (halfRow width 2 keys ++ (halfRow width 3 keys ++
      (halfRow width 4 keys ++ (halfRow width 5 keys ++ keys.drop (width * 6)))))) := by
  nth_rewrite 1 [← take_append_drop (width * 6) keys]
  simp only [take_halfRow, Nat.mul_zero, take_zero, nil_append, append_assoc]

theorem interleave_eq (hf : keys.length = 6 * width + 6) :
    interleave width keys = halfRow width 0 keys ++ (halfRow width 3 keys ++ (halfRow width 1 keys ++
      (halfRow width 4 keys ++ (halfRow width 2 keys ++ (halfRow width 5 keys ++ keys.drop (width * 6)))))) := by
  have h : slice keys (6 * width) (6 * width + 3) ++ slice keys (6 * width + 3) (6 * width + 6) =
      keys.drop (width * 6) := by
    rw [slice, slice, Nat.add_sub_cancel_left, show 6 * width + 6 - (6 * width + 3) = 3 by omega, ← drop_drop,
      ← take_add, Nat.mul_comm]
    exact take_of_length_le (by rw [length_drop]; omega)
  simp only [interleave, append_assoc, h]
  rfl

theorem halfRowsAlike_iff : halfRow width 3 keys = halfRow width 1 keys ∧ halfRow width 1 keys = halfRow width 2 keys ∧
    halfRow width 4 keys = halfRow width 3 keys ∧ halfRow width 2 keys = halfRow width 4 keys ↔
      HalfRowsAlike width keys := by
  simp only [HalfRowsAlike, mem_cons, not_mem_nil, or_false, forall_eq_or_imp, forall_eq]
  grind

theorem halfRowsAlike_map {β : Type} {f : α → β} (h : f.Injective) :
    HalfRowsAlike width (keys.map f) ↔ HalfRowsAlike width keys := by
  simp only [HalfRowsAlike, halfRow_map, (map_injective_iff.mpr h).eq_iff]

theorem interleave_eq_self_iff (h : keys.length = 6 * width + 6) :
    interleave width keys = keys ↔ HalfRowsAlike width keys := by
  nth_rewrite 2 [eq_halfRows width keys]
  rw [interleave_eq h, append_cancel_left_eq,
    append_eq_append_iff_of_size_eq_left (length_halfRow_eq h (by decide) (by decide)),
    append_eq_append_iff_of_size_eq_left (length_halfRow_eq h (by decide) (by decide)),
    append_eq_append_iff_of_size_eq_left (length_halfRow_eq h (by decide) (by decide)), append_cancel_right_eq]
  exact halfRowsAlike_iff

end Drawing

namespace Text

theorem split_join {mark : Char} {sep : String} (hm : sep.toList = [mark]) {parts : List String}
    (hp : parts ≠ []) (h : ∀ part ∈ parts, mark ∉ part.toList) : split mark (join sep parts) = parts := by
  induction parts with
  | nil => exact absurd rfl hp
  | cons part parts ih =>
    rw [forall_mem_cons] at h
    cases parts with
    | nil => rw [join, String.intercalate_singleton, split_of_not_mem h.1]
    | cons next parts =>
      have hr := ih (cons_ne_nil _ _) h.2
      rw [join, split] at hr
      rw [join, String.intercalate_cons_cons, split, splitChars_joined hm, map_append, hr]
      exact congrArg (· ++ _) (split_of_not_mem h.1)

end Text

namespace Qmk

open Drawing

def isLabel (s : String) : Bool :=
  s.toList.head?.all (!Text.isBlank ·) && s.toList.getLast?.all (!Text.isBlank ·) &&
    s.toList.all fun c => c != '│' && c != '\n'

def pieces (cs : List Char) : List String :=
  (Text.splitChars (· == '│') cs).map fun piece => Text.trim (String.ofList piece)

def boxesIn (line : String) : List (List String) :=
  if line.toList.contains '│' then [pieces line.toList] else []

/-- What stands between the vertical lines of a picture, line by line. -/
def boxTexts (picture : String) : List (List String) :=
  (Text.lines picture).flatMap boxesIn

structure Draws (line : String) (texts : List (List String)) : Prop where
  single : '\n' ∉ line.toList
  shown : boxesIn line = texts

def hands (left right : List String) : List String :=
  "" :: left ++ "" :: right ++ [""]

def labelsAt (labels : List String) (positions : List Nat) : List String :=
  positions.map fun i => labels[i]?.getD ""

def boxLine (labels : List String) : String :=
  "│ " ++ Text.join " │ " (labels.map (Text.padRight 7)) ++ " │"

def handLine (left right : List String) : String :=
  boxLine left ++ "   " ++ boxLine right

variable {labels left right : List String} {label : String} {after : List Char}

theorem pieces_append_cons (a b : List Char) : pieces (a ++ '│' :: b) = pieces a ++ pieces b := by
  rw [pieces, Text.splitChars_append_cons rfl, map_append]
  rfl

theorem pieces_padded {before after : List Char} (blankBefore : ∀ c ∈ before, c = ' ') (blankAfter : ∀ c ∈ after, c = ' ')
    (hp : isLabel label) : pieces (before ++ label.toList ++ after) = [label] := by
  simp only [isLabel, Bool.and_eq_true, Option.all_eq_true, all_eq_true, Bool.not_eq_true', bne_iff_ne] at hp
  obtain ⟨⟨hf, hl⟩, he⟩ := hp
  have hb {cs : List Char} (hs : ∀ c ∈ cs, c = ' ') : '│' ∉ cs ∧ ∀ c ∈ cs, Text.isBlank c :=
    ⟨fun h => absurd (hs _ h) (by decide), fun c h => by rw [hs c h]; decide⟩
  have hln : '│' ∉ before ++ label.toList ++ after := by
    simp only [mem_append, not_or]
    exact ⟨⟨(hb blankBefore).1, fun h => (he _ h).1 rfl⟩, (hb blankAfter).1⟩
  rw [pieces, Text.splitChars_of_not_mem hln, map_singleton, Text.trim, Text.trimBy, String.toList_ofList,
    Text.trimChars (hb blankBefore).2 (hb blankAfter).2 hf hl, String.ofList_toList]

theorem pieces_blank {cs : List Char} (hs : ∀ c ∈ cs, c = ' ') : pieces cs = [""] := by
  have own := pieces_padded hs (fun c (h : c ∈ []) => absurd h not_mem_nil) (show isLabel "" = true by rfl)
  simpa using own

theorem pieces_joined (hp : labels ≠ []) (h : ∀ label ∈ labels, isLabel label) :
    pieces (' ' :: (Text.join " │ " (labels.map (Text.padRight 7))).toList ++ ' ' :: '│' :: after) =
      labels ++ pieces after := by
  have box {label : String} (h : isLabel label) (rest : List Char) :
      pieces (' ' :: (Text.padRight 7 label).toList ++ ' ' :: '│' :: rest) = label :: pieces rest := by
    have own : pieces ([' '] ++ label.toList ++ ((Text.spaces (7 - label.length)).toList ++ [' '])) = [label] := by
      refine pieces_padded (by simp) (fun c hm => ?_) h
      rcases mem_append.mp hm with hs | hl
      · rw [Text.spaces, String.toList_ofList] at hs
        exact eq_of_mem_replicate hs
      · exact mem_singleton.mp hl
    have cut := pieces_append_cons ([' '] ++ label.toList ++ ((Text.spaces (7 - label.length)).toList ++ [' '])) rest
    rw [own] at cut
    simpa [Text.padRight] using cut
  induction labels with
  | nil => exact absurd rfl hp
  | cons label labels ih =>
    rw [forall_mem_cons] at h
    cases labels with
    | nil =>
      rw [map_singleton, Text.join, String.intercalate_singleton]
      exact box h.1 after
    | cons next labels =>
      have cut := box h.1 (' ' :: (Text.join " │ " ((next :: labels).map (Text.padRight 7))).toList ++
        ' ' :: '│' :: after)
      rw [ih (cons_ne_nil _ _) h.2] at cut
      rw [map_cons, map_cons, Text.join, String.intercalate_cons_cons]
      simpa [Text.join] using cut

theorem pieces_hands {indent : List Char} (hs : ∀ c ∈ indent, c = ' ') (leftPresent : left ≠ [])
    (rightPresent : right ≠ []) (hl : ∀ label ∈ left, isLabel label) (hr : ∀ label ∈ right, isLabel label) :
    pieces (indent ++ (handLine left right).toList) = hands left right := by
  have h {labels : List String} (rest : List Char) : (boxLine labels).toList ++ rest =
      '│' :: (' ' :: (Text.join " │ " (labels.map (Text.padRight 7))).toList ++ ' ' :: '│' :: rest) := by
    simp [boxLine]
  rw [handLine, String.toList_append, String.toList_append, append_assoc, h, pieces_append_cons, pieces_blank hs,
    pieces_joined leftPresent hl, ← append_nil (boxLine right).toList, h, pieces_append_cons,
    pieces_blank (by simp), pieces_joined rightPresent hr, pieces_blank (by simp)]
  simp [hands]

theorem boxes_labels (labels : List String) : boxes (labels.map .text) = .ok (boxLine labels) := by
  have h : (labels.map Document.text).mapM (Document.padded 7) = .ok (labels.map (Text.padRight 7)) := by
    rw [mapM_eq_ok, forall₂_map_left_iff, forall₂_map_right_iff]
    exact forall₂_same.mpr fun _ _ => rfl
  rw [boxes, h]
  rfl

theorem keysAt_labels (labels : List String) (positions : List Nat) :
    keysAt (labels.map .text) positions = (labelsAt labels positions).map .text := by
  rw [keysAt, labelsAt, map_map]
  refine map_congr_left fun i _ => ?_
  rw [getElem?_map, Function.comp_apply]
  cases labels[i]? <;> rfl

theorem labelsAt_range' {i n : Nat} (hi : i + n ≤ labels.length) :
    labelsAt labels (range' i n) = (labels.drop i).take n := by
  refine ext_getElem (by simp [labelsAt]; omega) fun k _ _ => ?_
  have h : i + k < labels.length := by simp at *; omega
  simp [labelsAt, getElem?_eq_getElem h]

theorem single_boxLine (plain : ∀ label ∈ labels, isLabel label) : '\n' ∉ (boxLine labels).toList := by
  have hp : ∀ part ∈ labels.map (Text.padRight 7), '\n' ∉ part.toList := by
    refine forall_mem_map.mpr fun label hm => Code.single_append (fun h => ?_) (by simp [Text.spaces])
    have own := plain label hm
    simp only [isLabel, Bool.and_eq_true, all_eq_true, bne_iff_ne] at own
    exact (own.2 _ h).2 rfl
  exact Code.single_append (Code.single_append (by decide) (Code.single_join (by decide) hp)) (by decide)

theorem isLabel_labelsAt (h : ∀ label ∈ labels, isLabel label) (positions : List Nat) :
    ∀ label ∈ labelsAt labels positions, isLabel label := by
  refine forall_mem_map.mpr fun i _ => ?_
  cases ht : labels[i]? with
  | none => rfl
  | some label => exact h label (mem_of_getElem? ht)

theorem boxesOfHands_labels (left right : List String) :
    boxesOfHands (left.map .text) (right.map .text) = .ok (handLine left right) := by
  rw [boxesOfHands, boxes_labels, boxes_labels]
  rfl

theorem boxTexts_unlines {lines : List String} {texts : List (List (List String))} (hp : lines ≠ [])
    (h : Forall₂ Draws lines texts) : boxTexts (Text.unlines lines) = texts.flatten := by
  have hsn : ∀ line ∈ lines, '\n' ∉ line.toList := by
    intro line hm
    obtain ⟨_, -, h⟩ := forall₂_mem_right h.flip hm
    exact h.single
  have cut : Text.lines (Text.unlines lines) = lines := Text.split_join rfl hp hsn
  have hs : Forall₂ Eq (lines.map boxesIn) texts := forall₂_map_left_iff.mpr (h.imp fun _ _ h => h.shown)
  rw [forall₂_eq_eq_eq] at hs
  rw [boxTexts, cut, flatMap_def, hs]

theorem draws_hands {indent : String} (hs : ∀ c ∈ indent.toList, c = ' ') (hl : left ≠ [])
    (rightPresent : right ≠ []) (h : ∀ label ∈ left, isLabel label) (hr : ∀ label ∈ right, isLabel label) :
    Draws (indent ++ handLine left right) [hands left right] where
  single := Code.single_append (fun hi => absurd (hs _ hi) (by decide))
    (Code.single_append (Code.single_append (single_boxLine h) (by decide)) (single_boxLine hr))
  shown := by
    rw [boxesIn, if_pos (by simp [handLine, boxLine]), String.toList_append,
      pieces_hands hs hl rightPresent h hr]

theorem boxTexts_picture (hc : labels.length = 36) (hp : ∀ label ∈ labels, isLabel label) :
    ∃ picture, picture36 (labels.map .text) = .ok picture ∧
      boxTexts picture = [hands (halfRow 5 0 labels) (halfRow 5 3 labels), hands (halfRow 5 1 labels) (halfRow 5 4 labels),
        hands (halfRow 5 2 labels) (halfRow 5 5 labels), hands (labelsAt labels [30, 31]) (labelsAt labels [34, 35]),
        hands (labelsAt labels [32] ++ [""]) ["", ""]] := by
  have hr : picturedRows.mapM (pictureRow (labels.map .text)) =
      .ok (picturedRows.map fun row => handLine (labelsAt labels row.1) (labelsAt labels row.2)) := by
    rw [mapM_eq_ok, forall₂_map_right_iff, forall₂_same]
    intro row _
    rw [pictureRow, keysAt_labels, keysAt_labels, boxesOfHands_labels]
  have hu := boxesOfHands_labels (labelsAt labels [30, 31]) (labelsAt labels [34, 35])
  have hlw : boxesOfHands ((labelsAt labels [32]).map .text ++ [.text ""]) [.text "", .text ""] =
      .ok (handLine (labelsAt labels [32] ++ [""]) ["", ""]) := boxesOfHands_labels (labelsAt labels [32] ++ [""]) ["", ""]
  refine ⟨_, by simp only [picture36, hr, keysAt_labels, hu, hlw, ok_bind]; rfl, ?_⟩
  simp only [picturedRows, map_cons, map_nil, intersperse, cons_append, nil_append]
  have own := isLabel_labelsAt hp
  have hl : ∀ label ∈ labelsAt labels [32] ++ [""], isLabel label :=
    forall_mem_append.mpr ⟨own [32], forall_mem_singleton.mpr (by decide)⟩
  have h {line : String} (hp : '\n' ∉ line.toList ∧ boxesIn line = []) : Draws line [] := ⟨hp.1, hp.2⟩
  have row (i j : Nat) (hf : i < 6) (hs : j < 6) : Draws (handLine (labelsAt labels (range' (5 * i) 5))
      (labelsAt labels (range' (5 * j) 5))) [hands (halfRow 5 i labels) (halfRow 5 j labels)] := by
    have hh {i : Nat} (hin : i < 6) : halfRow 5 i labels = labelsAt labels (range' (5 * i) 5) := by
      rw [labelsAt_range' (by omega), halfRow, slice, Nat.mul_add, Nat.mul_one, Nat.add_sub_cancel_left]
    rw [hh hf, hh hs, ← String.empty_append (s := handLine _ _)]
    exact draws_hands (by simp) (cons_ne_nil _ _) (cons_ne_nil _ _) (own _) (own _)
  have hi (n : Nat) : ∀ c ∈ (Text.spaces n).toList, c = ' ' := by
    rw [Text.spaces, String.toList_ofList]
    exact fun c => eq_of_mem_replicate
  have ht : Draws (Text.spaces 30 ++ handLine (labelsAt labels [30, 31]) (labelsAt labels [34, 35])) _ :=
    draws_hands (hi 30) (cons_ne_nil _ _) (cons_ne_nil _ _) (own [30, 31]) (own [34, 35])
  exact boxTexts_unlines (cons_ne_nil _ _) (.cons (h (by decide)) (.cons (h (by decide +kernel))
    (.cons (row 0 3 (by decide) (by decide)) (.cons (h (by decide +kernel))
    (.cons (row 1 4 (by decide) (by decide)) (.cons (h (by decide +kernel))
    (.cons (row 2 5 (by decide) (by decide)) (.cons (h (by decide +kernel))
    (.cons ht (.cons (draws_hands (hi _) (cons_ne_nil _ _) (cons_ne_nil _ _) hl (by decide))
    (.cons (h (by decide +kernel)) (.cons (h (by decide)) .nil))))))))))))

theorem hands_inj {left' right' : List String} (h : left.length = left'.length) :
    hands left right = hands left' right' ↔ left = left' ∧ right = right' := by
  rw [hands, hands, append_cancel_right_eq, cons_append, cons_append, cons_inj_right,
    append_eq_append_iff_of_size_eq_left h, cons_inj_right]

theorem layerText_eq_render {size : LayoutSize} {layer : CompiledLayer} {width : Nat}
    (hs : (size, width) ∈ [(.split36, 5), (.split42, 6)]) (h : layer.keycodes.length = 6 * width + 6) :
    ∃ call : LayoutCall, layerText size layer = call.render ∧ call.arguments = layer.keycodes ∧
      call.fingers = splitRows [2 * width, 2 * width, 2 * width] layer.keycodes := by
  simp only [mem_cons, not_mem_nil, or_false, Prod.mk.injEq] at hs
  rcases hs with ⟨rfl, rfl⟩ | ⟨rfl, rfl⟩
  · refine ⟨_, by rw [layerText, split36, if_neg (by simpa using h)]; rfl, ?_, rfl⟩
    rw [LayoutCall.arguments, flatten_splitRows]
    exact take_append_drop 30 layer.keycodes
  · refine ⟨_, by rw [layerText, split42, if_neg (by simpa using h)]; rfl, ?_, rfl⟩
    rw [LayoutCall.arguments, flatten_splitRows]
    exact take_append_drop 36 layer.keycodes

theorem splitRows_halves {α : Type} (keys : List α) :
    (splitRows [10, 10, 10] keys).map (fun row => (row.take 5, row.drop 5)) =
    [(halfRow 5 0 keys, halfRow 5 1 keys), (halfRow 5 2 keys, halfRow 5 3 keys), (halfRow 5 4 keys, halfRow 5 5 keys)] := by
  simp [splitRows, halfRow, slice, take_take, drop_take]

/-- The file for the drawing program has the keys of a layer in the order of the layout macro, and so have the
finger rows of its picture, exactly if the half rows are alike that are taken for others. Of the thumb keys, the
picture never shows the first one of the right hand. -/
theorem documented_in_order_iff {board : Board} {layer : CompiledLayer} {width : Nat}
    (size : (board.layoutSize, width) ∈ [(.split36, 5), (.split42, 6)])
    (full : layer.keycodes.length = 6 * width + 6) :
    ∃ call : LayoutCall, layerText board.layoutSize layer = call.render ∧ call.arguments = layer.keycodes ∧
      ((KeymapFile.ofCompiled board [layer]).layers = [call.arguments] ↔ HalfRowsAlike width layer.keycodes) ∧
      (board.layoutSize = .split36 → ∀ labels : List String, layer.keycodes = labels.map .text →
        (∀ label ∈ labels, isLabel label = true) → ∃ picture, layerPicture board.layoutSize layer = .ok picture ∧
          ((boxTexts picture).take 3 = call.fingers.map (fun row =>
              hands ((row.take 5).map Document.toText) ((row.drop 5).map Document.toText)) ↔
            HalfRowsAlike width layer.keycodes) ∧
          (boxTexts picture).drop 3 = [hands (labelsAt labels [30, 31]) (labelsAt labels [34, 35]),
            hands (labelsAt labels [32] ++ [""]) ["", ""]]) := by
  obtain ⟨call, isCall, arguments, fingers⟩ := layerText_eq_render size full
  refine ⟨call, isCall, arguments, ?_, fun isSize labels isKeys plain => ?_⟩
  · have listed : (KeymapFile.ofCompiled board [layer]).layers = [interleave width layer.keycodes] := by
      simp only [mem_cons, not_mem_nil, or_false, Prod.mk.injEq] at size
      rw [KeymapFile.ofCompiled, map_singleton]
      rcases size with ⟨isSize, rfl⟩ | ⟨isSize, rfl⟩ <;> simp only [isSize] <;> rfl
    rw [listed, arguments, singleton_inj, interleave_eq_self_iff full]
  · obtain rfl : width = 5 := by simpa [isSize] using size
    have count : labels.length = 36 := by rw [← length_map, ← isKeys, full]
    obtain ⟨picture, isPicture, shown⟩ := boxTexts_picture count plain
    refine ⟨picture, ?_, ?_, by rw [shown]; rfl⟩
    · rw [isSize, layerPicture, isKeys]
      · exact isPicture
      · exact full
    · have rows : call.fingers.map (fun row =>
          hands ((row.take 5).map Document.toText) ((row.drop 5).map Document.toText)) =
          [hands (halfRow 5 0 labels) (halfRow 5 1 labels), hands (halfRow 5 2 labels) (halfRow 5 3 labels),
            hands (halfRow 5 4 labels) (halfRow 5 5 labels)] := by
        have halves := congrArg (map fun half => hands (half.1.map Document.toText) (half.2.map Document.toText))
          (splitRows_halves (labels.map Document.text))
        rw [fingers, isKeys]
        simpa [halfRow_map, Function.comp_def, Document.toText] using halves
      have full : labels.length = 6 * 5 + 6 := count
      rw [rows, shown, isKeys, halfRowsAlike_map fun _ _ => Document.text.inj, ← halfRowsAlike_iff]
      simp only [take_succ_cons, take_zero, cons.injEq, and_true, hands_inj rfl, true_and,
        hands_inj (length_halfRow_eq full (show 1 < 6 by decide) (show 2 < 6 by decide)),
        hands_inj (length_halfRow_eq full (show 2 < 6 by decide) (show 4 < 6 by decide)), and_assoc]

def numbers : List String :=
  (List.range 36).map toString

def numbered : CompiledLayer :=
  ⟨.text "BASE", numbers.map .text⟩

theorem numbered_out_of_order :
    (KeymapFile.ofCompiled { (default : Board) with layoutSize := .split36 } [numbered]).layers ≠ [numbered.keycodes] ∧
      ∃ picture, layerPicture .split36 numbered = .ok picture ∧
        (boxTexts picture).drop 3 = [hands ["30", "31"] ["34", "35"], hands ["32", ""] ["", ""]] := by
  have size : (({ (default : Board) with layoutSize := .split36 } : Board).layoutSize, 5) ∈
      [(.split36, 5), (.split42, 6)] := mem_cons_self
  have full : numbered.keycodes.length = 6 * 5 + 6 := rfl
  obtain ⟨call, -, arguments, listed, pictured⟩ := documented_in_order_iff size full
  obtain ⟨picture, isPicture, -, thumbs⟩ := pictured rfl numbers rfl (all_eq_true.mp (by decide +kernel))
  refine ⟨fun same => ?_, picture, isPicture, thumbs⟩
  rw [← arguments, listed, numbered, halfRowsAlike_map fun _ _ => Document.text.inj] at same
  exact absurd same (by decide +kernel)

end Qmk

end Keymap
