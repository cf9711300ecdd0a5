import Keymap.Drawing.Superset
import Keymap.Header.Layers
import Keymap.Proofs.KeymapOutcomes

namespace Keymap

open List

/-- Three rows of `width` keys and three thumb keys for each hand. -/
structure TwoHands (α : Type) (width : Nat) where
  left : Column (List α)
  right : Column (List α)
  leftThumbs : List α
  rightThumbs : List α
  fingers : ∀ row ∈ [left.top, left.home, left.bottom, right.top, right.home, right.bottom], row.length = width
  thumbs : leftThumbs.length = 3 ∧ rightThumbs.length = 3

namespace TwoHands

variable {α β : Type} {width : Nat} (h : TwoHands α width)

def fingerRows : List (List α) :=
  [h.left.top, h.left.home, h.left.bottom, h.right.top, h.right.home, h.right.bottom]

def rows : List (List α) :=
  h.fingerRows ++ [h.leftThumbs, h.rightThumbs]

def byHand : List α :=
  h.left.top ++ (h.left.home ++ (h.left.bottom ++ (h.right.top ++ (h.right.home ++ (h.right.bottom ++
    (h.leftThumbs ++ h.rightThumbs))))))

def byRow : List α :=
  h.left.top ++ (h.right.top ++ (h.left.home ++ (h.right.home ++ (h.left.bottom ++ (h.right.bottom ++
    (h.leftThumbs ++ h.rightThumbs))))))

def map (f : α → β) : TwoHands β width where
  left := ⟨h.left.top.map f, h.left.home.map f, h.left.bottom.map f⟩
  right := ⟨h.right.top.map f, h.right.home.map f, h.right.bottom.map f⟩
  leftThumbs := h.leftThumbs.map f
  rightThumbs := h.rightThumbs.map f
  fingers := by simpa using h.fingers
  thumbs := by simpa using h.thumbs

def widen (outerLeft outerRight : Column α) : TwoHands α (width + 1) where
  left := ⟨outerLeft.top :: h.left.top, outerLeft.home :: h.left.home, outerLeft.bottom :: h.left.bottom⟩
  right := ⟨h.right.top ++ [outerRight.top], h.right.home ++ [outerRight.home], h.right.bottom ++ [outerRight.bottom]⟩
  leftThumbs := h.leftThumbs
  rightThumbs := h.rightThumbs
  fingers := by simpa using h.fingers
  thumbs := h.thumbs

theorem lengths : h.left.top.length = width ∧ h.left.home.length = width ∧ h.left.bottom.length = width ∧
    h.right.top.length = width ∧ h.right.home.length = width ∧ h.right.bottom.length = width ∧
    h.leftThumbs.length = 3 ∧ h.rightThumbs.length = 3 := by
  simpa [h.thumbs] using h.fingers

theorem length_byHand : h.byHand.length = 6 * width + 6 := by
  obtain ⟨l₀, l₁, l₂, r₀, r₁, r₂, hl, hr⟩ := h.lengths
  simp only [byHand, length_append]
  omega

theorem length_byRow : h.byRow.length = 6 * width + 6 := by
  obtain ⟨l₀, l₁, l₂, r₀, r₁, r₂, hl, hr⟩ := h.lengths
  simp only [byRow, length_append]
  omega

theorem mem_byRow {a : α} : a ∈ h.byRow ↔ ∃ row ∈ h.rows, a ∈ row := by
  simp only [byRow, rows, fingerRows, mem_append, cons_append, nil_append, exists_mem_cons_iff, not_mem_nil, false_and,
    exists_false, or_false]
  tauto

@[simp] theorem rows_map (f : α → β) : (h.map f).rows = h.rows.map (List.map f) := rfl

@[simp] theorem byHand_map (f : α → β) : (h.map f).byHand = h.byHand.map f := by
  simp [byHand, map]

@[simp] theorem byRow_map (f : α → β) : (h.map f).byRow = h.byRow.map f := by
  simp [byRow, map]

theorem slice_append {front keys : List α} {n : Nat} (h : front.length = n) (i j : Nat) :
    Drawing.slice (front ++ keys) (n + i) (n + j) = Drawing.slice keys i j := by
  rw [Drawing.slice, Drawing.slice, ← h, drop_length_add_append, Nat.add_sub_add_left]

/-- Rows of one width are the slices between its multiples. -/
theorem slice_flatten {rows : List (List α)} (h : ∀ row ∈ rows, row.length = width) {i : Nat} {row : List α}
    (hr : rows[i]? = some row) (rest : List α) :
    Drawing.slice (rows.flatten ++ rest) (width * i) (width * i + width) = row := by
  induction rows generalizing i with
  | nil => simp at hr
  | cons first rows ih =>
    rw [forall_mem_cons] at h
    rw [flatten_cons, append_assoc]
    cases i with
    | zero =>
      obtain rfl : first = row := by simpa using hr
      simp [Drawing.slice, ← h.1]
    | succ i =>
      rw [Nat.mul_succ, Nat.add_comm (width * i), Nat.add_assoc, slice_append h.1]
      exact ih h.2 (by simpa using hr)

theorem byHand_eq_flatten : h.byHand = h.fingerRows.flatten ++ (h.leftThumbs ++ h.rightThumbs) := by
  simp [byHand, fingerRows]

theorem slice_row (i : Nat) {row : List α} (hr : h.fingerRows[i]? = some row) :
    Drawing.slice h.byHand (width * i) (width * i + width) = row := by
  rw [byHand_eq_flatten]
  exact slice_flatten h.fingers hr _

theorem slice_thumbs (i j : Nat) :
    Drawing.slice h.byHand (6 * width + i) (6 * width + j) = Drawing.slice (h.leftThumbs ++ h.rightThumbs) i j := by
  have hc : h.fingerRows.flatten.length = 6 * width := by
    obtain ⟨l₀, l₁, l₂, r₀, r₁, r₂, -, -⟩ := h.lengths
    simp only [fingerRows, flatten_cons, flatten_nil, length_append, length_nil]
    omega
  rw [byHand_eq_flatten, slice_append hc]

theorem interleave_byHand : Drawing.interleave width h.byHand = h.byRow := by
  have hl : Drawing.slice h.byHand (6 * width) (6 * width + 3) = h.leftThumbs :=
    (h.slice_thumbs 0 3).trans (by simp [Drawing.slice, h.thumbs])
  have hr : Drawing.slice h.byHand (6 * width + 3) (6 * width + 6) = h.rightThumbs :=
    (h.slice_thumbs 3 6).trans (by simp [Drawing.slice, h.thumbs, take_of_length_le])
  have l₀ : Drawing.slice h.byHand (width * 0) (width * 1) = h.left.top := h.slice_row 0 rfl
  have l₁ : Drawing.slice h.byHand (width * 1) (width * 2) = h.left.home := h.slice_row 1 rfl
  have l₂ : Drawing.slice h.byHand (width * 2) (width * 3) = h.left.bottom := h.slice_row 2 rfl
  have r₀ : Drawing.slice h.byHand (width * 3) (width * 4) = h.right.top := h.slice_row 3 rfl
  have r₁ : Drawing.slice h.byHand (width * 4) (width * 5) = h.right.home := h.slice_row 4 rfl
  have r₂ : Drawing.slice h.byHand (width * 5) (width * 6) = h.right.bottom := h.slice_row 5 rfl
  simp only [Drawing.interleave, Nat.reduceAdd, l₀, l₁, l₂, r₀, r₁, r₂, hl, hr, byRow, append_assoc]

section Core

variable (h : TwoHands α 5)

theorem to42_byRow (outerLeft outerRight : Column α) :
    Padding.to42 outerLeft outerRight h.byRow = (h.widen outerLeft outerRight).byRow := by
  obtain ⟨l₀, l₁, l₂, r₀, r₁, r₂, -, -⟩ := h.lengths
  simp [Padding.to42, Padding.coreRow, Padding.thumbs, byRow, widen, take_append, drop_append, l₀, l₁, l₂, r₀, r₁,
    r₂, h.thumbs, take_of_length_le, drop_of_length_le]

theorem handByHand_byRow : Header.handByHand h.byRow = h.byHand := by
  obtain ⟨l₀, l₁, l₂, r₀, r₁, r₂, -, -⟩ := h.lengths
  simp [Header.handByHand, byRow, byHand, take_append, drop_append, l₀, l₁, l₂, r₀, r₁, r₂, h.thumbs,
    take_of_length_le, drop_of_length_le]

theorem coreRows_byHand : Header.coreRows h.byHand = h.rows := by
  obtain ⟨l₀, l₁, l₂, r₀, r₁, r₂, -, -⟩ := h.lengths
  simp [Header.coreRows, splitRows, byHand, rows, fingerRows, l₀, l₁, l₂, r₀, r₁, r₂, h.thumbs, take_of_length_le]

theorem lengths_rows : h.rows.map length = [5, 5, 5, 5, 5, 5, 3, 3] := by
  simp [rows, fingerRows, h.lengths]

theorem exists_rows {rows : List (List α)} (hs : rows.map length = [5, 5, 5, 5, 5, 5, 3, 3]) :
    ∃ h : TwoHands α 5, rows = h.rows := by
  have he : rows.length = 8 := by simpa using congrArg length hs
  match rows, he with
  | [l₀, l₁, l₂, r₀, r₁, r₂, left, right], _ =>
    simp only [map_cons, map_nil, cons.injEq, and_true] at hs
    obtain ⟨hln, hle, len₂, len₃, len₄, len₅, hl, hlr⟩ := hs
    exact ⟨⟨⟨l₀, l₁, l₂⟩, ⟨r₀, r₁, r₂⟩, left, right, by simp [*], hl, hlr⟩, rfl⟩

theorem exists_byRow {keys : List α} (hf : keys.length = 36) : ∃ h : TwoHands α 5, keys = h.byRow := by
  have hs : (splitRows [5, 5, 5, 5, 5, 5, 3, 3] keys).map length = [5, 5, 5, 5, 5, 5, 3, 3] := by
    simp [splitRows, hf]
  obtain ⟨g, hr⟩ := exists_rows hs
  have hk := flatten_splitRows [5, 5, 5, 5, 5, 5, 3, 3] keys
  rw [take_of_length_le (by simp [hf]), hr] at hk
  -- The rows of `keys` alternate between the hands.
  refine ⟨⟨⟨g.left.top, g.left.bottom, g.right.home⟩, ⟨g.left.home, g.right.top, g.right.bottom⟩, g.leftThumbs,
    g.rightThumbs, ?_, g.thumbs⟩, ?_⟩
  · simp [g.lengths]
  · rw [← hk]
    simp [rows, fingerRows, byRow]

end Core

end TwoHands

namespace KeyGrid

theorem exists_hands {core : KeyGrid} (hs : core.rows.map length = [5, 5, 5, 5, 5, 5, 3, 3]) :
    ∃ h : TwoHands Entry 5, core = ⟨h.rows⟩ := by
  obtain ⟨h, hr⟩ := TwoHands.exists_rows hs
  exact ⟨h, congrArg KeyGrid.mk hr⟩

theorem flatten_hands {width : Nat} (h : TwoHands Entry width) : flatten ⟨h.rows⟩ = h.byRow := by
  simp [flatten, TwoHands.rows, TwoHands.fingerRows, TwoHands.byRow]

theorem coreCells_hands {width : Nat} (h : TwoHands Entry width) :
    Drawing.coreCells ⟨h.rows⟩ = .ok (h.byHand.map Entry.toDocument) := by
  simp [Drawing.coreCells, row, TwoHands.rows, TwoHands.fingerRows, TwoHands.byHand, ok_bind, ok_pure]

end KeyGrid

end Keymap
