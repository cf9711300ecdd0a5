import Keymap.Proofs.DocumentedKeys
import Keymap.Proofs.EscapedLiterals

namespace Keymap

open List

theorem chunks_map {α β : Type} (size : Nat) (f : α → β) (xs : List α) :
    chunks size (xs.map f) = (chunks size xs).map (map f) := by
  have he (fuel : Nat) : chunksFrom size fuel (xs.map f) = (chunksFrom size fuel xs).map (map f) := by
    induction fuel generalizing xs with
    | zero => rfl
    | succ fuel ih =>
      cases xs with
      | nil => rfl
      | cons x xs =>
        have h := ih ((x :: xs).drop size)
        rw [map_drop, map_cons] at h
        rw [map_cons, chunksFrom, chunksFrom, h, ← map_cons, ← map_take, map_cons]
  rw [chunks, chunks, length_map, he]

theorem length_of_mem_chunksFrom {α : Type} {size fuel : Nat} {xs chunk : List α} (hp : 0 < size)
    (h : chunk ∈ chunksFrom size fuel xs) : 1 ≤ chunk.length ∧ chunk.length ≤ size := by
  induction fuel generalizing xs with
  | zero => cases h
  | succ fuel ih =>
    cases xs with
    | nil => cases h
    | cons x xs =>
      rcases mem_cons.mp h with rfl | hl
      · rw [length_take, length_cons]
        omega
      · exact ih hl

namespace Zmk

/-- The keys in a row of words each of which presses the next. -/
def pressed : List String → List String
  | "&kp" :: key :: rest => key :: pressed rest
  | _ => []

def tapFront : String :=
  "                , <&macro_tap "

def tapped? (line : String) : Option (List String) :=
  if Text.startsWith line tapFront then
    some (pressed (Text.split ' ' (Text.dropEnd 1 (Text.drop tapFront.length line))))
  else none

/-- The keys that are tapped by the lines of a text, line by line. -/
def tapGroups (body : String) : List (List String) :=
  (Text.lines body).filterMap tapped?

/-- The text of a macro up to its groups. -/
def macroStart (name : String) : String :=
  Text.unlines ((Macro.mk name []).head ++ ["                = <&macro_wait_time 10>",
     "                , <&macro_tap_time 10>"]) ++ "\n"

def Unblank (key : String) : Prop :=
  key.toList.any Text.isBlank = false

theorem Unblank.lacks {key : String} (hp : Unblank key) {c : Char} (h : Text.isBlank c) : c ∉ key.toList :=
  fun hm => any_eq_false.mp hp c hm h

section Groups

variable {keys : List String}

theorem pressed_split (present : keys ≠ []) (h : ∀ key ∈ keys, Unblank key) :
    pressed (Text.split ' ' (Text.join " " (keys.map ("&kp " ++ ·)))) = keys := by
  have own {key : String} (h : Unblank key) : Text.split ' ' ("&kp " ++ key) = ["&kp", key] := by
    have hp : "&kp " ++ key = Text.join " " ["&kp", key] := by
      rw [Text.join, String.intercalate_cons_cons, String.intercalate_singleton]
      rfl
    rw [hp]
    exact Text.split_join rfl (cons_ne_nil _ _)
      (forall_mem_cons.mpr ⟨by decide, forall_mem_singleton.mpr (h.lacks (by decide))⟩)
  induction keys with
  | nil => exact absurd rfl present
  | cons key keys ih =>
    rw [forall_mem_cons] at h
    cases keys with
    | nil =>
      rw [map_singleton, Text.join, String.intercalate_singleton, own h.1]
      rfl
    | cons next keys =>
      have hf := own h.1
      rw [Text.split] at hf
      rw [map_cons, map_cons, Text.join, String.intercalate_cons_cons, Text.split, Text.splitChars_joined rfl,
        map_append, hf]
      exact congrArg (cons key) (ih (cons_ne_nil _ _) h.2)

theorem tapped_groupLine (present : keys ≠ []) (hp : ∀ key ∈ keys, Unblank key) :
    tapped? (Macro.groupLine (keys.map ("&kp " ++ ·))) = some keys := by
  have h (s : String) : (tapFront ++ s ++ ">").toList = tapFront.toList ++ (s.toList ++ ['>']) := by
    rw [String.toList_append, String.toList_append, append_assoc]
    rfl
  have hs (s : String) : Text.startsWith (tapFront ++ s ++ ">") tapFront := by
    rw [Text.startsWith, isPrefixOf_iff_prefix, h]
    exact prefix_append _ _
  have hi (s : String) : Text.dropEnd 1 (Text.drop tapFront.length (tapFront ++ s ++ ">")) = s := by
    rw [Text.dropEnd, Text.drop, h, ← String.length_toList, drop_left, String.toList_ofList, length_append,
      length_singleton, Nat.add_sub_cancel, take_left, String.ofList_toList]
  have hl (keys : List String) : Macro.groupLine keys = tapFront ++ Text.join " " keys ++ ">" := rfl
  rw [tapped?, hl, hs, hi, pressed_split present hp]
  rfl

theorem tapGroups_lines {groups : List (List String)}
    (he : ∀ keys ∈ groups, keys ≠ [] ∧ ∀ key ∈ keys, Unblank key) :
    tapGroups (Text.unlines (groups.map (fun keys => Macro.groupLine (keys.map ("&kp " ++ ·))) ++
      ["                ;", "        \x7d;"])) = groups := by
  have hs : ∀ keys ∈ groups, '\n' ∉ (Macro.groupLine (keys.map ("&kp " ++ ·))).toList := by
    intro keys h
    have hp : '\n' ∉ (Text.join " " (keys.map ("&kp " ++ ·))).toList := by
      refine Code.single_join (by decide) (forall_mem_map.mpr fun key hk => ?_)
      exact Code.single_append (by decide) (((he keys h).2 key hk).lacks (by decide))
    exact Code.single_append (Code.single_append (by decide) hp) (by decide)
  rw [tapGroups, Text.lines, Text.unlines, ← Text.join, Text.split_join rfl (by simp) ?_, filterMap_append,
    filterMap_map]
  · have hed : ["                ;", "        \x7d;"].filterMap tapped? = [] := by decide
    rw [hed, append_nil]
    refine (filterMap_congr fun keys h => ?_).trans filterMap_some
    exact tapped_groupLine (he keys h).1 (he keys h).2
  · rw [forall_mem_append, forall_mem_map]
    exact ⟨hs, by decide⟩

end Groups

section Sequences

variable {keycodes : Entries} {sequence : Document} {elements : List Document}

/-- The key of an element of a sequence that is typed. -/
def Types (keycodes : Entries) (element : Document) (key : String) : Prop :=
  ∃ v, charKey keycodes element.toText = .ok v ∧ v.toText = key

theorem keyPresses_eq_ok {presses : List String}
    (h : keyPresses keycodes (elements.map Document.toText) = .ok presses) :
    ∃ keys, presses = keys.map ("&kp " ++ ·) ∧ Forall₂ (Types keycodes) elements keys := by
  rw [keyPresses, mapM_eq_ok, forall₂_map_left_iff] at h
  induction h with
  | nil => exact ⟨[], rfl, .nil⟩
  | cons hh _ ih =>
    obtain ⟨v, hv, hp⟩ := bind_eq_ok.mp hh
    obtain ⟨keys, rfl, typed⟩ := ih
    cases hp
    exact ⟨v.toText :: keys, rfl, .cons ⟨v, hv, rfl⟩ typed⟩

theorem ofDocument_members (h : sequence.members = .ok elements) (name : String) :
    Macro.ofDocument keycodes name sequence =
      (keyPresses keycodes (elements.map Document.toText)).map fun presses => ⟨name, chunks 10 presses⟩ := by
  unfold Macro.ofDocument Macro.ofPieces
  rw [h, ok_bind]
  cases keyPresses keycodes (elements.map Document.toText) <;> rfl

theorem exists_error_iff {α : Type} {x : Result α} : (∃ fault, x = .error fault) ↔ ¬ ∃ a, x = .ok a := by
  cases x <;> simp

theorem render_groups {name : String} {groups : List (List String)} : Macro.render ⟨name, groups⟩ =
    macroStart name ++ Text.unlines (groups.map Macro.groupLine ++ ["                ;", "        \x7d;"]) := by
  rw [Macro.render, append_assoc, macroStart]
  exact String.intercalate_append_of_ne_nil (by simp [Macro.head]) (by simp)

/-- A macro taps the keys of a sequence in order, at most ten at a time, and cannot be made if a key is unknown. -/
theorem macro_taps_sequence (isElements : sequence.members = .ok elements) (name : String) :
    ((∃ fault, Macro.ofDocument keycodes name sequence = .error fault) ↔
      ∃ e ∈ elements, ∃ fault, charKey keycodes e.toText = .error fault) ∧
    ∀ m, Macro.ofDocument keycodes name sequence = .ok m →
      (∀ e ∈ elements, ∀ key, Types keycodes e key → Unblank key) → ∃ body, m.render = macroStart name ++ body ∧
        Forall₂ (Types keycodes) elements (tapGroups body).flatten ∧
        ∀ group ∈ tapGroups body, 1 ≤ group.length ∧ group.length ≤ 10 := by
  rw [ofDocument_members isElements]
  refine ⟨?_, fun m done plain => ?_⟩
  · have fails : (∃ keys, keyPresses keycodes (elements.map Document.toText) = .ok keys) ↔
        ∀ e ∈ elements, ∃ v, charKey keycodes e.toText = .ok v := by
      rw [keyPresses, exists_mapM_eq_ok, forall_mem_map]
      exact forall₂_congr fun e _ => exists_bind_pure
    have known : (∃ e ∈ elements, ∃ fault, charKey keycodes e.toText = .error fault) ↔
        ¬ ∀ e ∈ elements, ∃ v, charKey keycodes e.toText = .ok v := by
      simp [exists_error_iff]
    rw [known, ← fails, exists_error_iff]
    simp only [map_eq_ok]
    exact not_congr ⟨fun ⟨_, keys, done, _⟩ => ⟨keys, done⟩, fun ⟨keys, done⟩ => ⟨_, keys, done, rfl⟩⟩
  · obtain ⟨presses, isPresses, rfl⟩ := map_eq_ok.mp done
    obtain ⟨keys, rfl, typed⟩ := keyPresses_eq_ok isPresses
    have groups : ∀ group ∈ chunks 10 keys, group ≠ [] ∧ ∀ key ∈ group, Unblank key := by
      intro group member
      refine ⟨ne_nil_of_length_pos (length_of_mem_chunksFrom (by decide) member).1, fun key inGroup => ?_⟩
      have inKeys := mem_flatten_of_mem member inGroup
      rw [flatten_chunks (by decide)] at inKeys
      obtain ⟨e, inElements, own⟩ := forall₂_mem_right typed inKeys
      exact plain e inElements key own
    refine ⟨_, render_groups, ?_⟩
    rw [chunks_map, map_map]
    have taps := tapGroups_lines groups
    rw [Function.comp_def, taps, flatten_chunks (by decide)]
    exact ⟨typed, fun group member => length_of_mem_chunksFrom (by decide) member⟩

end Sequences

def twoLetters : Entries :=
  [("A", .record [("zmk", "&kp A")]), ("B", .record [("zmk", "LS(B)")])]

theorem eleven_keys_tapped : ∃ m body, Macro.ofDocument twoLetters "eleven" "abababababa" = .ok m ∧
    m.render = macroStart "eleven" ++ body ∧
    Forall₂ (Types twoLetters) ("abababababa".toList.map fun c => .text (String.singleton c))
      (tapGroups body).flatten ∧ ∀ group ∈ tapGroups body, 1 ≤ group.length ∧ group.length ≤ 10 := by
  have done : ∃ m, Macro.ofDocument twoLetters "eleven" "abababababa" = .ok m := ⟨_, by rfl⟩
  obtain ⟨m, done⟩ := done
  have typed : charKey twoLetters "a" = .ok "A" ∧ charKey twoLetters "b" = .ok "LS(B)" := ⟨rfl, rfl⟩
  obtain ⟨body, taps⟩ := (macro_taps_sequence rfl "eleven").2 m done <| by
    intro e member key own
    have isLetter : e = "a" ∨ e = "b" := by
      simp at member
      grind
    rcases isLetter with rfl | rfl
    · obtain ⟨v, isValue, rfl⟩ := own
      cases typed.1.symm.trans isValue
      rfl
    · obtain ⟨v, isValue, rfl⟩ := own
      cases typed.2.symm.trans isValue
      rfl
  exact ⟨m, body, done, taps⟩

end Zmk

namespace Qmk

variable {name text : String} {keys : TextKeys}

/-- Reads a literal from behind its opening quotation mark: what it stands for, and what follows it. -/
def literal? : List Char → Option (List Char × List Char)
  | [] => none
  | '"' :: rest => some ([], rest)
  | '\\' :: '\\' :: rest => (literal? rest).map fun r => ('\\' :: r.1, r.2)
  | '\\' :: '"' :: rest => (literal? rest).map fun r => ('"' :: r.1, r.2)
  | c :: rest => if c = '\\' ∨ c = '\n' then none else (literal? rest).map fun r => (c :: r.1, r.2)

theorem literal_escaped {cs : List Char} (h : '\n' ∉ cs) (rest : List Char) :
    literal? (cs.flatMap escaped ++ '"' :: rest) = some (cs, rest) := by
  induction cs with
  | nil => rfl
  | cons c cs ih =>
    rw [mem_cons, not_or] at h
    rw [flatMap_cons, append_assoc, escaped]
    split_ifs with hs hq
    · rw [hs, cons_append, cons_append, nil_append, literal?, ih h.2]
      rfl
    · rw [hq, cons_append, cons_append, nil_append, literal?, ih h.2]
      rfl
    · rw [singleton_append, literal?, if_neg (not_or.mpr ⟨hs, Ne.symm h.1⟩), ih h.2]
      · rfl
      all_goals simp_all

theorem mem_sortedKeys (h : keys.lookup name = some text) : (name, text) ∈ sortedKeys keys := by
  have hn : name ∈ sortedNames keys := by
    simpa [sortedNames, Text.sortedSet] using ⟨text, mem_of_lookup h⟩
  exact mem_filterMap.mpr ⟨name, hn, by rw [h]; rfl⟩

/-- The lines for a key that sends a text. -/
def sendingCase (name text : String) : List String :=
  [s!"        case {name}:",
   "            SEND_STRING(\"" ++ escapeLiteral (Text.lower text) ++ "\");",
   "            return false;"]

theorem sendingCase_infix (h : (name, text) ∈ keys) :
    ∃ before after, magicHandlers keys = before ++ Text.unlines (sendingCase name text) ++ after := by
  unfold magicHandlers
  split
  · cases h
  · refine Text.unlines_infix (cons_ne_nil _ _) ?_
    have own := infix_of_mem_flatten (mem_map_of_mem (f := fun key => sendingCase key.1 key.2) h)
    refine own.trans ?_
    rw [append_assoc, append_assoc]
    exact infix_append _ _ _

/-- The literal that a key sends ends where its text does, and stands for the text in small letters. -/
theorem sent_literal {keys : TextKeys} {name text : String} (found : keys.lookup name = some text)
    (single : '\n' ∉ text.toList) : ∃ before after rest, magicHandlers (sortedKeys keys) =
        before ++ ("        case " ++ name ++ ":\n            SEND_STRING(\"") ++ after ∧
      literal? after.toList = some ((Text.lower text).toList, rest) ∧
      ");\n            return false;".toList <+: rest := by
  obtain ⟨before, after, handlers⟩ := sendingCase_infix (mem_sortedKeys found)
  refine ⟨before, escapeLiteral (Text.lower text) ++ ("\");\n            return false;" ++ after),
    ");\n            return false;".toList ++ after.toList, ?_, ?_, prefix_append _ _⟩
  · rw [handlers]
    exact String.toList_inj.mp (by simp [sendingCase, Text.unlines, toString])
  · rw [String.toList_append, escapeLiteral_toList, String.toList_append]
    exact literal_escaped (Text.not_mem_lower (by decide) single) _

def quotedText : TextKeys :=
  [("MAGIC_NIGHT_DOT", "com"), ("MAGIC_NIGHT_Q", "Say \"A\\\\b\"\\")]

theorem quotedText_sent : ∃ before after rest, magicHandlers (sortedKeys quotedText) =
      before ++ ("        case " ++ "MAGIC_NIGHT_Q" ++ ":\n            SEND_STRING(\"") ++ after ∧
    literal? after.toList = some ((Text.lower "Say \"A\\\\b\"\\").toList, rest) ∧
    ");\n            return false;".toList <+: rest :=
  sent_literal rfl (by decide)

end Qmk

end Keymap
