import Keymap.Proofs.TrainingOutcomes

namespace Keymap

open List

namespace Text

theorem words_separated {c : Char} (h : isBlank c) {sep : String} (hs : sep.toList = [c])
    (a b : String) : words (a ++ sep ++ b) = words a ++ words b := by
  rw [words, String.toList_append, String.toList_append, hs, append_assoc, singleton_append,
    splitChars_append_cons h, filter_append, map_append]
  rfl

theorem words_intercalate {c : Char} (h : isBlank c) {sep : String} (hs : sep.toList = [c])
    (parts : List String) : words (String.intercalate sep parts) = parts.flatMap words := by
  induction parts with
  | nil => rfl
  | cons part parts ih =>
    cases parts with
    | nil => rw [String.intercalate_singleton, flatMap_singleton]
    | cons next parts => rw [String.intercalate_cons_cons, words_separated h hs, ih, flatMap_cons (x := part)]

theorem words_indented (n : Nat) (s : String) : words (spaces n ++ s) = words s := by
  induction n with
  | zero => exact congrArg words String.empty_append
  | succ n ih =>
    have h : spaces (n + 1) ++ s = "" ++ " " ++ (spaces n ++ s) := String.toList_inj.mp (by simp [spaces, replicate_succ])
    rw [h, words_separated (c := ' ') (by decide) rfl, ih]
    rfl

end Text

namespace Zmk

variable {size : LayoutSize} {keys : List Document} {tables : List (List (Document × String))} {codes : List String}

theorem words_joinTexts {text : String} (hd : Document.joinTexts " " keys = .ok text) :
    Text.words text = keys.flatMap fun key => Text.words key.toText := by
  obtain ⟨texts, h, rfl⟩ := map_eq_ok.mp hd
  rw [Text.join, Text.words_intercalate (c := ' ') (by decide) rfl]
  generalize 0 = i at h
  clear hd
  induction keys generalizing i texts with
  | nil => cases h; rfl
  | cons key keys ih =>
    cases key with
    | text s =>
      obtain ⟨rest, hr, hs⟩ := bind_eq_ok.mp h
      obtain rfl := pure_eq_ok.mp hs
      rw [flatMap_cons, flatMap_cons, ih rest (i + 1) hr]
      rfl
    | null | flag _ | whole _ | decimal _ | list _ | record _ => cases h

theorem words_rows {rows : List (List Document)} {texts : List String}
    (ht : Forall₂ (fun row text => Document.joinTexts " " row = .ok text) rows texts) :
    texts.flatMap Text.words = rows.flatten.flatMap fun key => Text.words key.toText := by
  induction ht with
  | nil => rfl
  | cons h _ ih => rw [flatMap_cons, flatten_cons, flatMap_append, words_joinTexts h, ih]

theorem words_bindingsText {body : String} (h : bindingsText size keys = .ok body) :
    Text.words body = keys.flatMap fun key => Text.words key.toText := by
  obtain ⟨rows, hr, h⟩ := bind_eq_ok.mp h
  obtain rfl := pure_eq_ok.mp h
  rw [Text.unlines, Text.words_intercalate (c := '\n') (by decide) rfl, flatMap_map]
  simp only [Text.words_indented]
  rw [← congrArg (flatMap _) (flatten_bindingRows size keys)]
  exact words_rows (mapM_eq_ok.mp hr)

/-- What training makes of a key: each table replaces what the tables before it have left. -/
def trainedCode (tables : List (List (Document × String))) (code : String) : String :=
  tables.foldl (fun code table => substitute table code) code

theorem replaceBindings_texts (table : List (Document × String)) (codes : List String) :
    replaceBindings table (codes.map .text) = .ok ((codes.map (substitute table)).map .text) := by
  rw [replaceBindings, mapM_eq_ok, forall₂_map_left_iff, forall₂_map_right_iff, forall₂_map_right_iff]
  refine forall₂_same.mpr fun code _ => ?_
  rw [substitute]
  cases table.find? fun e => e.1.same (.text code) <;> rfl

theorem foldlM_replaceBindings_texts (tables : List (List (Document × String))) (codes : List String) :
    tables.foldlM (fun keys table => replaceBindings table keys) (codes.map .text) =
      .ok ((codes.map (trainedCode tables)).map .text) := by
  induction tables generalizing codes with
  | nil => exact congrArg (fun codes : List String => Except.ok (codes.map Document.text)) (map_id codes).symm
  | cons table tables ih =>
    rw [foldlM_cons, replaceBindings_texts, ok_bind, ih, map_map (l := codes)]
    rfl

/-- The tables that train the keys of a layer. -/
def trainers? (r : Replacements) (magic : Option MagicConfig) (name : String) : Result (List (List (Document × String))) :=
  if r.isEmpty then .ok [] else applicable r magic name

theorem trainedKeys_texts (r : Replacements) (magic : Option MagicConfig) (name : String) (codes : List String) :
    trainedKeys r magic name (codes.map .text) =
      (trainers? r magic name).map fun tables => (codes.map (trainedCode tables)).map .text := by
  rw [trainedKeys, trainers?]
  split
  · exact congrArg (fun codes : List String => Except.ok (codes.map Document.text)) (map_id codes).symm
  · cases applicable r magic name with
    | error fault => rfl
    | ok tables => exact foldlM_replaceBindings_texts tables codes

theorem exists_trainers {r : Replacements} {magic : Option MagicConfig}
    (h : ∀ m ∈ magic.getD [], ∃ base, m.baseLayer = .text base) (name : String) :
    ∃ tables, trainers? r magic name = .ok tables := by
  rw [trainers?]
  split
  · exact ⟨[], rfl⟩
  · cases magic with
    | none => exact ⟨_, rfl⟩
    | some magic =>
      obtain ⟨family, hf⟩ : ∃ family, magic.forLayer? (.text name) = .ok family := exists_forLayer h
      rw [applicable, hf]
      cases family <;> exact ⟨_, rfl⟩

/-- The node of a layer is written for every number of keys, and its bindings are the tokens of the trained keys in
their order. -/
theorem bindings_are_trained_keys {size : LayoutSize} {r : Replacements} {magic : Option MagicConfig}
    (bases : ∀ m ∈ magic.getD [], ∃ base, m.baseLayer = .text base) (name : String) (codes : List String) :
    ∃ tables body, trainers? r magic name = .ok tables ∧
      layerNode size r magic ⟨.text name, codes.map .text⟩ = .ok (layerText name body) ∧
      Text.words body = codes.flatMap fun code => Text.words (trainedCode tables code) := by
  obtain ⟨tables, isTables⟩ : ∃ tables, trainers? r magic name = .ok tables := exists_trainers bases name
  have isKeys := trainedKeys_texts r magic name codes
  rw [isTables] at isKeys
  have texts : ∀ key ∈ (codes.map (trainedCode tables)).map Document.text, IsText key :=
    forall_mem_map.mpr fun code _ => ⟨code, rfl⟩
  obtain ⟨body, isBody⟩ : ∃ body, bindingsText size _ = .ok body := exists_bindingsText.mpr texts
  refine ⟨tables, body, isTables, ?_, ?_⟩
  · exact bind_eq_ok.mpr ⟨name, rfl, bind_eq_ok.mpr ⟨_, isKeys, bind_eq_ok.mpr ⟨body, isBody, rfl⟩⟩⟩
  · rw [words_bindingsText isBody, map_map, flatMap_map]
    rfl

def trainedRow : List String :=
  "&kp A" :: replicate 12 "&hml LGUI B"

theorem trainedRow_tokens :
    ∃ tables body, trainers? [("BASE_A", [("&kp A", "&ak_a")])] (some [⟨"BASE_A", .whole 150, .record [], "REPEAT"⟩])
        "BASE_A" = .ok tables ∧
      layerNode .split36 [("BASE_A", [("&kp A", "&ak_a")])] (some [⟨"BASE_A", .whole 150, .record [], "REPEAT"⟩])
        ⟨"BASE_A", trainedRow.map .text⟩ = .ok (layerText "BASE_A" body) ∧
      Text.words body = "&ak_a" :: (replicate 12 ["&hml", "LGUI", "B"]).flatten := by
  obtain ⟨tables, body, isTables, isNode, isWords⟩ := @bindings_are_trained_keys .split36
    [("BASE_A", [("&kp A", "&ak_a")])] (some [⟨"BASE_A", .whole 150, .record [], "REPEAT"⟩]) (by simp) "BASE_A"
    trainedRow
  cases isTables
  exact ⟨_, body, rfl, isNode, isWords.trans (by decide)⟩

end Zmk

end Keymap
