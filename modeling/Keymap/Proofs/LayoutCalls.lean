import Keymap.Proofs.KeyLists
import Keymap.Proofs.KeymapOutcomes

namespace Keymap.Qmk

open List Header

variable {keys thumbs : List String} {rows : List (List String)} {call : LayoutCall}

/-- What stands between the first opening parenthesis and the last closing one. -/
def argumentText (call : String) : String :=
  let inside := (call.toList.dropWhile (· != '(')).drop 1
  String.ofList ((inside.reverse.dropWhile (· != ')')).drop 1).reverse

theorem argumentText_call {text name inside : String} (h : text = name ++ "(" ++ inside ++ ")")
    (hp : '(' ∉ name.toList) : argumentText text = inside := by
  have hs : ∀ c ∈ name.toList, (c != '(') := by
    intro c hm
    simpa using ne_of_mem_of_not_mem hm hp
  rw [argumentText, h]
  simp [dropWhile_append_of_pos hs]

def keyLine (indent : Nat) (keys : List String) : String :=
  Text.spaces indent ++ Text.join ", " (keys.map (Text.padRight 20))

theorem rowText_keys (indent : Nat) (keys : List String) :
    rowText indent (keys.map .text) = .ok (keyLine indent keys) := by
  have h : (keys.map Document.text).mapM (Document.padded 20) = .ok (keys.map (Text.padRight 20)) := by
    rw [mapM_eq_ok, forall₂_map_left_iff, forall₂_map_right_iff]
    exact forall₂_same.mpr fun _ _ => rfl
  rw [rowText, h]
  rfl

/-- A row without keys reads as one empty argument. -/
def shown : List String → List String
  | [] => [""]
  | keys => keys

theorem shown_of_present (h : keys ≠ []) : shown keys = keys := by
  cases keys with
  | nil => exact absurd rfl h
  | cons key keys => rfl

theorem flatMap_shown (hp : ∀ row ∈ rows, row ≠ []) : rows.flatMap shown = rows.flatten := by
  rw [flatten_eq_flatMap]
  exact flatMap_congr fun row h => shown_of_present (hp row h)

theorem lists_keyLine (indent : Nat) (keys : List String) :
    Lists Blank (keyLine indent keys).toList (shown keys) := by
  rw [keyLine, String.toList_append]
  cases keys with
  | nil => exact Lists.indent (blank_spaces indent) (@Lists.last Blank [] [] "" (by decide) (by decide))
  | cons key keys => exact Lists.indent (blank_spaces indent) (lists_padded 20 (cons_ne_nil key keys))

theorem lines_keys (hf : call.fingers = rows.map (map .text)) (ht : call.thumbs = thumbs.map .text) :
    call.lines = .ok (rows.map (keyLine 8 · ++ ",") ++ [keyLine call.thumbIndent thumbs]) := by
  have h : (call.fingers.mapM fun row => do return (← rowText 8 row) ++ ",") =
      .ok (rows.map (keyLine 8 · ++ ",")) := by
    rw [hf, mapM_eq_ok, forall₂_map_left_iff, forall₂_map_right_iff]
    refine forall₂_same.mpr fun row _ => ?_
    rw [rowText_keys]
    rfl
  rw [LayoutCall.lines, h, ok_bind, ht, rowText_keys]
  rfl

theorem lists_lines (indent : Nat) (rows : List (List String)) (thumbs : List String) :
    Lists Blank (Text.unlines (rows.map (keyLine 8 · ++ ",") ++ [keyLine indent thumbs])).toList
      (rows.flatMap shown ++ shown thumbs) := by
  induction rows with
  | nil =>
    rw [map_nil, nil_append, Text.unlines, String.intercalate_singleton]
    exact lists_keyLine indent thumbs
  | cons row rows ih =>
    have hw := (lists_keyLine 8 row).append (Lists.indent (by decide : Blank ['\n']) ih)
    rw [flatMap_cons, append_assoc]
    convert hw using 1
    cases h : rows.map (keyLine 8 · ++ ",") ++ [keyLine indent thumbs] with
    | nil => simp at h
    | cons line lines => simp [Text.unlines, h]

theorem render_read_back (hf : call.fingers = rows.map (map .text)) (ht : call.thumbs = thumbs.map .text)
    (hp : '(' ∉ call.name.toList) (hpr : ∀ row ∈ rows, row ≠ []) (hpt : thumbs ≠ [])
    (hk : ∀ key ∈ rows.flatten ++ thumbs, IsKeycode key) :
    ∃ text, call.render = .ok text ∧ splitKeys (argumentText text) = rows.flatten ++ thumbs := by
  refine ⟨_, by rw [LayoutCall.render, lines_keys hf ht]; rfl, ?_⟩
  generalize hb : Text.unlines (rows.map (keyLine 8 · ++ ",") ++ [keyLine call.thumbIndent thumbs]) = body
  have h := lists_lines call.thumbIndent rows thumbs
  rw [hb, flatMap_shown hpr, shown_of_present hpt] at h
  have hi : argumentText (call.name ++ "(\n" ++ body ++ "\n    )") = "\n" ++ body ++ "\n    " := by
    refine argumentText_call ?_ hp
    exact String.toList_inj.mp (by simp)
  rw [hi]
  refine splitKeys_of_lists ?_ hk
  rw [String.toList_append, String.toList_append]
  exact (h.indent (by decide)).trail (by decide)

theorem splitRows_map {α β : Type} (f : α → β) (widths : List Nat) (keys : List α) :
    splitRows widths (keys.map f) = (splitRows widths keys).map (map f) := by
  induction widths generalizing keys with
  | nil => rfl
  | cons w widths ih => rw [splitRows, splitRows, map_cons, ← map_take, ← map_drop, ih]

def fingerCount (widths : List Nat) : Nat :=
  widths.foldr (· + ·) 0

theorem splitRows_present {widths : List Nat} {keys : List String} (h : ∀ w ∈ widths, w ≠ 0)
    (enough : fingerCount widths ≤ keys.length) : ∀ row ∈ splitRows widths keys, row ≠ [] := by
  induction widths generalizing keys with
  | nil => simp [splitRows]
  | cons w widths ih =>
    rw [forall_mem_cons] at h
    rw [fingerCount, foldr_cons, ← fingerCount] at enough
    rw [splitRows, forall_mem_cons]
    refine ⟨fun he => ?_, ih h.2 (by rw [length_drop]; omega)⟩
    have hn := congrArg length he
    rw [length_take, length_nil] at hn
    have hs := h.1
    omega

theorem call_read_back (widths : List Nat) (hf : call.fingers = splitRows widths (keys.map .text))
    (ht : call.thumbs = (keys.map .text).drop (fingerCount widths)) (hp : '(' ∉ call.name.toList)
    (hps : ∀ w ∈ widths, w ≠ 0) (h : fingerCount widths < keys.length) (hk : ∀ key ∈ keys, IsKeycode key) :
    ∃ text, call.render = .ok text ∧ splitKeys (argumentText text) = keys := by
  have hw : (splitRows widths keys).flatten ++ keys.drop (fingerCount widths) = keys := by
    rw [flatten_splitRows]
    exact take_append_drop _ keys
  rw [splitRows_map] at hf
  rw [← map_drop] at ht
  have hd := render_read_back hf ht hp (splitRows_present hps h.le) (by simpa using h) (by rwa [hw])
  rwa [hw] at hd

/-- The arguments of the call are the keys of the layer in their order, whatever parentheses and commas the keys
have. Other numbers of keys are refused. -/
theorem layout_call_read_back {size : LayoutSize} {count : Nat}
    (isSize : (size, count) ∈ [(.split36, 36), (.split42, 42)]) (name : Document) :
    (∀ keys : List String, keys.length = count → (∀ key ∈ keys, IsKeycode key) →
      ∃ text, layerText size ⟨name, keys.map .text⟩ = .ok text ∧ splitKeys (argumentText text) = keys) ∧
    ∀ codes : List Document, codes.length ≠ count → layerText size ⟨name, codes⟩ =
      .error (.refused s!"Expected {count} keys for {size.text} layout, got {codes.length}") := by
  simp only [mem_cons, not_mem_nil, or_false, Prod.mk.injEq] at isSize
  rcases isSize with ⟨rfl, rfl⟩ | ⟨rfl, rfl⟩
  · refine ⟨fun keys full isKey => ?_, fun codes other => ?_⟩
    · rw [layerText, split36, if_neg (by simpa using full)]
      exact call_read_back [10, 10, 10] rfl rfl (show '(' ∉ "LAYOUT_split_3x5_3".toList by decide)
        (by decide) (by rw [full]; decide) isKey
    · rw [layerText, split36, if_pos other]
      rfl
  · refine ⟨fun keys full isKey => ?_, fun codes other => ?_⟩
    · rw [layerText, split42, if_neg (by simpa using full)]
      exact call_read_back [12, 12, 12] rfl rfl (show '(' ∉ "LAYOUT_split_3x6_3".toList by decide)
        (by decide) (by rw [full]; decide) isKey
    · rw [layerText, split42, if_pos other]
      rfl

def nestedKeys : List String :=
  "LT(NAV, KC_SPC)" :: replicate 35 "MT(MOD_LCTL | MOD_LSFT, S(KC_A))"

theorem nestedKeys_read_back : (∃ text, layerText .split36 ⟨"BASE", nestedKeys.map .text⟩ = .ok text ∧
      splitKeys (argumentText text) = nestedKeys) ∧
    layerText .split36 ⟨"BASE", ["KC_A"]⟩ = .error (.refused "Expected 36 keys for 3x5_3 layout, got 1") := by
  have isSize : (LayoutSize.split36, 36) ∈ [(.split36, 36), (.split42, 42)] := mem_cons_self
  obtain ⟨read, refused⟩ := layout_call_read_back isSize "BASE"
  refine ⟨read nestedKeys rfl ?_, refused ["KC_A"] (by decide)⟩
  exact forall_mem_cons.mpr ⟨by decide, fun key member => eq_of_mem_replicate member ▸ by decide⟩

end Keymap.Qmk
