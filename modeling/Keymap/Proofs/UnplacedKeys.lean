import Keymap.Proofs.PlacedKeys

namespace Keymap.Keylayout

open List

/-- The shift layer of the layout that is shipped, for the keys that a row-staggered layout does not have. -/
def shippedShift : List (Nat × String) :=
  [(10, "§"), (18, "!"), (19, "@"), (20, "#"), (21, "$"), (22, "^"), (23, "%"), (24, "+"), (25, "("), (26, "&#x0026;"),
   (27, "_"), (28, "*"), (29, ")"), (36, "&#x000D;"), (42, "|"), (48, "&#x0009;"), (49, " "), (50, "~"),
   (51, "&#x0008;"), (52, "&#x0003;"), (53, "&#x001B;"), (65, "."), (66, "&#x001D;"), (67, "*"), (69, "+"),
   (70, "&#x001C;"), (71, "&#x001B;"), (72, "&#x001F;"), (75, "/"), (76, "&#x0003;"), (77, "&#x001E;"), (78, "-"),
   (81, "="), (82, "0"), (83, "1"), (84, "2"), (85, "3"), (86, "4"), (87, "5"), (88, "6"), (89, "7"), (91, "8"),
   (92, "9")] ++ (range' 96 18).map (·, "&#x0010;") ++
  [(114, "&#x0005;"), (115, "&#x0001;"), (116, "&#x000B;"), (117, "&#x007F;"), (118, "&#x0010;"), (119, "&#x0004;"),
   (120, "&#x0010;"), (121, "&#x000C;"), (122, "&#x0010;"), (123, "&#x001C;"), (124, "&#x001D;"), (125, "&#x001F;"),
   (126, "&#x001E;")]

/-- The keys of the number pad whose characters have another character on the main block when shift is held. -/
def shiftedPadCodes : List Nat :=
  [65, 75, 78, 81, 82, 83, 84, 85, 86, 87, 88, 89, 91, 92]

/-- Outside the layout the shift layer is the one that is shipped, but for the number pad. -/
theorem standard_shift_kept_iff {config : RowStagger} (valid : config.validate = .ok ()) :
    ∃ plain shift caps, keyMaps config.layout = .ok [plain, shift, caps] ∧ shift.index = 1 ∧
      ∀ code ∈ standardKeys.map (·.1), code ∉ positionCodes.flatten →
        (shift.keys.lookup code = (shippedShift.lookup code).map .output ↔ code ∉ shiftedPadCodes) := by
  have fits := fits_of_valid valid
  obtain ⟨plain, isPlain, -⟩ := exists_keyMap fits 0 "Base / Command Layer"
  obtain ⟨shift, isShift, isIndex, -, -, others⟩ := exists_keyMap (fits.map shifted) 1 "Shift Layer"
  obtain ⟨caps, isCaps, -⟩ := exists_keyMap (fits.map capital) 2 "Capitals Lock Layer"
  refine ⟨plain, shift, caps, keyMaps_eq isPlain isShift isCaps, isIndex, fun code isCode other => ?_⟩
  obtain ⟨e, member, rfl⟩ := mem_map.mp isCode
  rw [others e member other]
  have all : (standardKeys.all fun e => decide (e.1 ∉ positionCodes.flatten →
      (some (standardEffect 1 e.2) = (shippedShift.lookup e.1).map .output ↔ e.1 ∉ shiftedPadCodes))) = true := by
    decide +kernel
  exact of_decide_eq_true (all_eq_true.mp all e member) other

theorem spanishLayout_changes_pad : spanishLayout.validate = .ok () ∧ ∃ plain shift caps,
    keyMaps spanishLayout.layout = .ok [plain, shift, caps] ∧
      shift.keys.lookup 83 ≠ (shippedShift.lookup 83).map .output ∧ shippedShift.lookup 83 = some "1" := by
  have valid : spanishLayout.validate = .ok () := rfl
  obtain ⟨plain, shift, caps, isMaps, -, kept⟩ := standard_shift_kept_iff valid
  exact ⟨valid, plain, shift, caps, isMaps, fun same => (kept 83 (by decide) (by decide)).mp same (by decide), rfl⟩

end Keymap.Keylayout
