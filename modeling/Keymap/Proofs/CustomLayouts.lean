import Keymap.Proofs.CompiledValues
import Keymap.Proofs.LayoutCalls

namespace Keymap.Qmk

open List Header

variable {keys : List String} {key tag : String}

/-- The arguments of a call, empty ones too. -/
def callArguments (call : String) : List String :=
  trimmed (splitFrom '(' ')' ',' 0 [] (argumentText call).toList)

def upperWidths : List Nat := [12, 12, 12, 14]

def lastWidth (tag : String) : Nat :=
  if tag = "boaty" then 13 else 8

theorem splitRows_append {α : Type} (widths : List Nat) (last : Nat) (keys : List α) :
    splitRows (widths ++ [last]) keys = splitRows widths keys ++ [(keys.drop (fingerCount widths)).take last] := by
  induction widths generalizing keys with
  | nil => rfl
  | cons w widths ih =>
    rw [cons_append, splitRows, ih, splitRows, cons_append, drop_drop]
    rfl

theorem customRows_eq (tag : String) (keys : List Document) :
    customRows tag keys = splitRows upperWidths keys ++ [(keys.drop 50).take (lastWidth tag)] := by
  rw [customRows, lastWidth]
  split <;> exact splitRows_append upperWidths _ keys

section LastRow

/-- The text has a last character, which is no comma. -/
def EndsOpen (cs : List Char) : Prop :=
  ∃ front c, cs = front ++ [c] ∧ c ≠ ','

theorem EndsOpen.append {cs : List Char} (h : EndsOpen cs) (before : List Char) : EndsOpen (before ++ cs) := by
  obtain ⟨front, c, rfl, ho⟩ := h
  exact ⟨before ++ front, c, (append_assoc _ _ _).symm, ho⟩

theorem endsOpen_spaces (n : Nat) : EndsOpen (Text.spaces (n + 1)).toList :=
  ⟨replicate n ' ', ' ', by rw [Text.spaces, String.toList_ofList, replicate_succ'], by decide⟩

theorem endsOpen_of_closed {cs : List Char} {depth : Nat} (h : isClosed depth cs) (hp : cs ≠ []) :
    EndsOpen cs := by
  induction cs generalizing depth with
  | nil => exact absurd rfl hp
  | cons c cs ih =>
    rw [isClosed] at h
    cases cs with
    | nil =>
      refine ⟨[], c, rfl, ?_⟩
      rintro rfl
      rw [if_neg (by decide), if_neg (by decide), if_pos rfl, isClosed, Bool.and_eq_true, bne_iff_ne, beq_iff_eq] at h
      exact h.1 h.2
    | cons d cs =>
      refine EndsOpen.append ?_ [c]
      split_ifs at h
      · exact ih h (cons_ne_nil d cs)
      · exact ih ((Bool.and_eq_true _ _).mp h).2 (cons_ne_nil d cs)
      · exact ih ((Bool.and_eq_true _ _).mp h).2 (cons_ne_nil d cs)
      · exact ih h (cons_ne_nil d cs)

theorem endsOpen_padded (h : IsKeycode key) : EndsOpen (Text.padRight 20 key).toList := by
  rw [Text.padRight, String.toList_append]
  cases 20 - key.length with
  | zero =>
    have hp : key.toList ≠ [] := fun empty => h.present (String.toList_inj.mp empty)
    simpa [Text.spaces] using endsOpen_of_closed h.closed hp
  | succ n => exact (endsOpen_spaces n).append key.toList

theorem endsOpen_keyLine (h : ∀ key ∈ keys, IsKeycode key) : EndsOpen (keyLine 8 keys).toList := by
  rw [keyLine, String.toList_append]
  cases keys with
  | nil => simpa [Text.join] using endsOpen_spaces 7
  | cons key keys =>
    refine EndsOpen.append ?_ _
    induction keys generalizing key with
    | nil => exact endsOpen_padded (h key mem_cons_self)
    | cons next keys ih =>
      rw [map_cons, map_cons, Text.join, String.intercalate_cons_cons, String.toList_append]
      exact (ih next (forall_mem_cons.mp h).2).append _

theorem trimEnd_comma {line : String} (he : EndsOpen line.toList) :
    Text.trimEndBy (· == ',') (line ++ ",") = line := by
  obtain ⟨front, c, h, ho⟩ := he
  rw [Text.trimEndBy, Text.trimEndChars, String.toList_append, h]
  refine String.toList_inj.mp ?_
  simp [h, ho]

end LastRow

theorem customLines_eq (rows : List (List String)) {last : List String} (h : ∀ key ∈ last, IsKeycode key) :
    customLines ((rows ++ [last]).map (map .text)) = .ok (rows.map (keyLine 8 · ++ ",") ++ [keyLine 8 last]) := by
  induction rows with
  | nil =>
    rw [nil_append, map_singleton, customLines, rowText_keys, ok_bind, trimEnd_comma (endsOpen_keyLine h)]
    rfl
  | cons row rows ih =>
    rw [cons_append, map_cons, customLines, rowText_keys, ok_bind, ih]
    · rfl
    · simp

theorem readable_of_mem_shown {row : List String} (hk : ∀ key ∈ row, IsKeycode key) (h : key ∈ shown row) :
    Text.trim key = key ∧ isClosed 0 key.toList := by
  cases row with
  | nil =>
    obtain rfl := mem_singleton.mp h
    decide
  | cons first row => exact ⟨(hk key h).trimmed, (hk key h).closed⟩

/-- Keys beyond the last row are lost, and a row without keys is an empty argument. -/
theorem arguments_customLayout (tag : String) (hk : ∀ key ∈ keys, IsKeycode key) :
    ∃ text, customLayout tag (keys.map .text) = .ok text ∧ callArguments text =
      (splitRows upperWidths keys).flatMap shown ++ shown ((keys.drop 50).take (lastWidth tag)) := by
  have hl : ∀ key ∈ (keys.drop 50).take (lastWidth tag), IsKeycode key :=
    fun key h => hk key (mem_of_mem_drop (mem_of_mem_take h))
  have hrw : customRows tag (keys.map .text) =
      (splitRows upperWidths keys ++ [(keys.drop 50).take (lastWidth tag)]).map (map .text) := by
    rw [customRows_eq, splitRows_map, map_append, ← map_drop, ← map_take]
    rfl
  refine ⟨_, by rw [customLayout, hrw, customLines_eq _ hl]; rfl, ?_⟩
  generalize (keys.drop 50).take (lastWidth tag) = last at hl
  have hls := lists_lines 8 (splitRows upperWidths keys) last
  generalize Text.unlines ((splitRows upperWidths keys).map (keyLine 8 · ++ ",") ++ [keyLine 8 last]) = body at hls
  have hi : argumentText ("LAYOUT(\n" ++ body ++ "\n    )") = "\n" ++ body ++ "\n    " := by
    refine argumentText_call (?_ : _ = "LAYOUT" ++ "(" ++ _ ++ ")") (by decide)
    exact String.toList_inj.mp (by simp)
  rw [callArguments, hi, String.toList_append, String.toList_append]
  refine trimmed_of_lists ((hls.indent (by decide)).trail (by decide)) (forall_mem_append.mpr ⟨fun key h => ?_,
    fun key => readable_of_mem_shown hl⟩)
  obtain ⟨row, hr, h⟩ := mem_flatMap.mp h
  refine readable_of_mem_shown (fun key h => hk key ?_) h
  exact mem_of_mem_take (flatten_splitRows upperWidths keys ▸ mem_flatten_of_mem hr h)

theorem shown_rows_eq_iff (last : Nat) (hk : ∀ key ∈ keys, IsKeycode key) :
    (splitRows upperWidths keys).flatMap shown ++ shown ((keys.drop 50).take last) = keys ↔
      50 < keys.length ∧ keys.length ≤ 50 + last := by
  have hw (h : 50 < keys.length) (hp : (keys.drop 50).take last ≠ []) :
      (splitRows upperWidths keys).flatMap shown ++ shown ((keys.drop 50).take last) = keys.take (50 + last) := by
    have hr : ∀ row ∈ splitRows upperWidths keys, row ≠ [] := splitRows_present (by decide) h.le
    rw [flatMap_shown hr, shown_of_present hp, flatten_splitRows, take_add]
    rfl
  constructor
  · intro hs
    have hp : (keys.drop 50).take last ≠ [] := by
      intro empty
      rw [empty] at hs
      exact (hk "" (hs ▸ mem_append_right _ mem_cons_self)).present rfl
    have h : 50 < keys.length := by
      by_contra few
      exact hp (by rw [drop_eq_nil_of_le (by omega), take_nil])
    have hc := congrArg length (hw h hp ▸ hs)
    rw [length_take] at hc
    exact ⟨h, by omega⟩
  · rintro ⟨h, hf⟩
    have hp : (keys.drop 50).take last ≠ [] := by
      rw [ne_eq, ← length_eq_zero_iff, length_take, length_drop]
      omega
    rw [hw h hp, take_of_length_le hf]

theorem length_keys {layer : Layer} {board : Board} {full : KeyGrid} {keys : List String}
    (hf : layer.fullLayout = some full) (h : Compile.keys layer board = .ok keys) :
    keys.length = full.flatten.length := by
  rw [Compile.keys, hf] at h
  dsimp only at h
  split at h
  · split at h
    · cases h
    · obtain ⟨core, -, h⟩ := bind_eq_ok.mp h
      obtain ⟨entries, he, h⟩ := bind_eq_ok.mp h
      obtain rfl := pure_eq_ok.mp h
      rw [length_map, (mapM_eq_ok.mp he).length_eq]
  · obtain rfl := pure_eq_ok.mp h
    exact length_map _

/-- A layer with a full layout has as many keys as the layout, whatever the board. The call is written for every number
of keys, and has them all and nothing else exactly if they reach into the last row and fit in it. -/
theorem custom_keys_kept_iff {c : Compiler} {layer : Layer} {board : Board} {compiled : CompiledLayer} {tag : String}
    {keys : List String} (isSize : board.layoutSize = .custom tag) (done : (c.compile layer board).1 = .ok compiled)
    (isKeys : compiled.keycodes = keys.map .text) (isKey : ∀ key ∈ keys, IsKeycode key) :
    (∀ full, layer.fullLayout = some full → keys.length = full.flatten.length) ∧
    ∃ text, layerText board.layoutSize compiled = .ok text ∧
      (callArguments text = keys ↔ 50 < keys.length ∧ keys.length ≤ 50 + lastWidth tag) := by
  constructor
  · intro full isFull
    obtain ⟨-, sources, isSources, values⟩ := Compiler.compile_encodes done
    have count := (mapM_eq_ok.mp values).length_eq
    rw [isKeys, length_map, length_zipIdx, length_keys isFull isSources] at count
    exact count.symm
  · obtain ⟨text, isText, arguments⟩ := arguments_customLayout tag isKey
    refine ⟨text, ?_, arguments ▸ shown_rows_eq_iff (lastWidth tag) isKey⟩
    rw [isSize, layerText, isKeys]
    exact isText

def wideLayer : Layer :=
  { name := "BASE", fullLayout := some ⟨[replicate 59 (.key "A")]⟩ }

def wideBoard : Board :=
  { id := "wide", name := "Wide", firmware := .qmk, layoutSize := .custom "wide" }

theorem wideLayer_loses_key : ∃ compiled text,
    (Compiler.compile { qmk := { keycodes := [("A", .record [("qmk", "KC_A")])] } } wideLayer wideBoard).1 = .ok compiled ∧
      compiled.keycodes = (replicate 59 "KC_A").map .text ∧ layerText wideBoard.layoutSize compiled = .ok text ∧
      callArguments text ≠ replicate 59 "KC_A" := by
  obtain ⟨-, text, isText, kept⟩ := @custom_keys_kept_iff
    { qmk := { keycodes := [("A", .record [("qmk", "KC_A")])] } } wideLayer wideBoard _ _ (replicate 59 "KC_A") rfl rfl rfl
    fun key member => eq_of_mem_replicate member ▸ by decide
  exact ⟨_, text, rfl, rfl, isText, fun same => absurd (kept.mp same).2 (by decide)⟩

end Keymap.Qmk
