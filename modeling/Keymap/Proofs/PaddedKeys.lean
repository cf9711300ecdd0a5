import Keymap.Proofs.CorePlaces
import Keymap.Proofs.LayerNames

namespace Keymap

open List

def LayoutSize.keyCount? : LayoutSize → Option Nat
  | .split36 => some 36
  | .totem38 => some 38
  | .split42 => some 42
  | .custom "58" => some 58
  | .custom "58_from_3x6" => some 58
  | _ => none

namespace Extension

theorem columns_of_validate {e : Extension} (hk : e.kind = "3x6_3") (h : e.validate = .ok ()) :
    ∃ entries, e.keys = .record entries ∧ ∀ name ∈ outerColumns, ∃ items,
      entries.lookup (.word name) = some (.list items) ∧ items.length = 3 := by
  rw [validate, if_pos hk] at h
  unfold checkColumns at h
  split at h
  · rename_i entries hr
    obtain ⟨-, h⟩ := check_eq_ok.mp h
    obtain ⟨_, he, -⟩ := bind_eq_ok.mp h
    refine ⟨entries, hr, fun name hm => ?_⟩
    have hw := checks_eq_ok.mp he name hm
    cases hf : entries.lookup (.word name) with
    | none => simp [hf] at hw
    | some column =>
      cases column with
      | list items => exact ⟨items, rfl, by simpa [hf, isColumn] using hw⟩
      | _ => simp [hf, isColumn] at hw
  · cases h

end Extension

namespace Padding

variable {layer : Layer}

theorem columns_ok (hv : ∀ e ∈ layer.extensions, e.validate = .ok ()) :
    ∃ left right : List Document, columns layer = .ok (.list left, .list right) ∧
      left.length = 3 ∧ right.length = 3 := by
  unfold columns
  cases hf : layer.extension? "3x6_3" with
  | none => exact ⟨_, _, rfl, rfl, rfl⟩
  | some e =>
    have hk : e.kind = "3x6_3" := by simpa using find?_some hf
    obtain ⟨entries, hr, h⟩ := Extension.columns_of_validate hk (hv e (mem_of_find?_eq_some hf))
    obtain ⟨left, hl, ht⟩ := h "outer_pinky_left" (by decide)
    obtain ⟨right, hrg, hth⟩ := h "outer_pinky_right" (by decide)
    refine ⟨left, right, ?_, ht, hth⟩
    have hfr : entries.lookup (.word "outer_pinky_left") = some (.list left) := hl
    have hs : entries.lookup (.word "outer_pinky_right") = some (.list right) := hrg
    simp [hr, Document.findD, Document.find, hfr, hs, ok_bind, ok_pure]

theorem columnKey_ok {items : List Document} {row : Nat} (h : row < items.length)
    (small : row < 3) : ∃ key, columnKey (.list items) row = .ok key := by
  have hs : Document.isSize row := by
    simp only [Document.isSize, Bool.and_eq_true, decide_eq_true_eq]
    omega
  have hn : ¬ (row : Int) < 0 := by omega
  refine ⟨items[row].toText, ?_⟩
  simp [columnKey, Document.item, Document.elementAt, hs, hn, h, Except.map]

theorem padTo42_ok (hv : ∀ e ∈ layer.extensions, e.validate = .ok ()) (keys : List String) :
    ∃ left right, padTo42 layer keys = .ok (to42 left right keys) := by
  obtain ⟨left, right, hc, ht, hth⟩ := columns_ok hv
  have h : ∀ row < 3, ∃ l r, columnKey (.list left) (row : Nat) = .ok l ∧
      columnKey (.list right) (row : Nat) = .ok r := by
    intro row hs
    obtain ⟨l, hl⟩ := columnKey_ok (by omega : row < left.length) hs
    obtain ⟨r, hr⟩ := columnKey_ok (by omega : row < right.length) hs
    exact ⟨l, r, hl, hr⟩
  obtain ⟨l₀, r₀, hlf, hrg⟩ := h 0 (by omega)
  obtain ⟨l₁, r₁, hlt, hrh⟩ := h 1 (by omega)
  obtain ⟨l₂, r₂, hle, hrt⟩ := h 2 (by omega)
  refine ⟨⟨l₀, l₁, l₂⟩, ⟨r₀, r₁, r₂⟩, ?_⟩
  simp [padTo42, hc, hlf, hrg, hlt, hrh, hle, hrt, ok_bind, ok_pure]

theorem padTo38_ok (hv : ∀ e ∈ layer.extensions, e.validate = .ok ()) (keys : List String) :
    ∃ left right, padTo38 layer keys = .ok (to38 left right keys) := by
  obtain ⟨left, right, hc, h, ht⟩ := columns_ok hv
  have hm : ∀ items : List Document, items.length = 3 →
      ∃ key, middleKey (.list items) = .ok key := by
    intro items h
    obtain ⟨key, hk⟩ := columnKey_ok (by omega : 1 < items.length) (by omega)
    refine ⟨key, ?_⟩
    simp only [middleKey, Document.length, h, ok_bind]
    exact hk
  obtain ⟨l, hl⟩ := hm left h
  obtain ⟨r, hr⟩ := hm right ht
  exact ⟨l, r, by simp [padTo38, hc, hl, hr, ok_bind, ok_pure]⟩

section Lengths

variable {α : Type} {keys : List α}

theorem length_to38 (h : keys.length = 36) (left right : α) : (to38 left right keys).length = 38 := by
  simp only [to38, coreRow, thumbs, length_append, length_cons, length_take, length_drop, length_nil]
  omega

theorem length_to42 (h : keys.length = 36) (left right : Column α) : (to42 left right keys).length = 42 := by
  simp only [to42, coreRow, thumbs, length_append, length_cons, length_take, length_drop, length_nil]
  omega

theorem length_to58 (h : keys.length = 36) (none : α) : (to58 none keys).length = 58 := by
  simp only [to58, coreRow, thumbs, length_append, length_cons, length_take,
    length_drop, length_nil, length_replicate]
  omega

theorem length_to58From42 (h : keys.length = 42) (none : α) : (to58From42 none keys).length = 58 := by
  simp only [to58From42, length_append, length_cons, length_take, length_drop, length_nil, length_replicate]
  omega

end Lengths

theorem pad_ok {board : Board} {n : Nat} (hs : board.layoutSize.keyCount? = some n)
    (hv : ∀ e ∈ layer.extensions, e.validate = .ok ()) {keys : List String}
    (hf : keys.length = 36) : ∃ padded, pad board layer keys = .ok padded ∧ padded.length = n := by
  obtain ⟨left, right, hi⟩ := padTo42_ok hv keys
  unfold LayoutSize.keyCount? at hs
  split at hs
  · rename_i h
    obtain rfl := Option.some.inj hs
    exact ⟨keys, by rw [pad, h], hf⟩
  · rename_i h
    obtain rfl := Option.some.inj hs
    obtain ⟨l, r, his⟩ := padTo38_ok hv keys
    exact ⟨_, by rw [pad, h, his], length_to38 hf l r⟩
  · rename_i h
    obtain rfl := Option.some.inj hs
    exact ⟨_, by rw [pad, h, hi], length_to42 hf left right⟩
  · rename_i h
    obtain rfl := Option.some.inj hs
    exact ⟨_, by rw [pad, h]; rfl, length_to58 hf noKey⟩
  · rename_i h
    obtain rfl := Option.some.inj hs
    refine ⟨_, by rw [pad, h, hi]; rfl, length_to58From42 (length_to42 hf left right) noKey⟩
  · cases hs

end Padding

namespace Reading

theorem checked_of_keymap {d : Document} {overlay : Option Document} {config : KeymapConfig}
    (hd : keymap d overlay = .ok config) {layer : Layer} (h : layer ∈ config.layers) :
    layer.Checked ∧ ∀ e ∈ layer.extensions, e.validate = .ok () := by
  obtain ⟨_, _, -, -, hly, hv, -⟩ := keymap_parts hd
  obtain ⟨entry, -, hl⟩ := forall₂_mem_right hly h
  exact ⟨KeymapConfig.checked_of_validate hv layer h, extensions_validated hl⟩

end Reading

theorem Compile.keys_ok {layer : Layer} {board : Board} {n : Nat}
    (hs : board.layoutSize.keyCount? = some n) (h : layer.Checked)
    (hv : ∀ e ∈ layer.extensions, e.validate = .ok ()) (hf : layer.fullLayout = none) :
    ∃ padded, keys layer board = .ok padded ∧ padded.length = n := by
  obtain ⟨grid, hc⟩ := Option.ne_none_iff_exists'.mp (h.keys.resolve_right (by simp [hf]))
  have hfl : (grid.flatten.map Entry.text).length = 36 := by
    rw [length_map]
    exact h.core grid hc
  obtain ⟨padded, hp, hcn⟩ := Padding.pad_ok hs hv hfl
  exact ⟨padded, by simp only [keys, hf, hc, hp], hcn⟩

end Keymap
