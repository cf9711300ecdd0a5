import Keymap.Proofs.QmkKeymap
import Keymap.Proofs.TextKeys
import Keymap.Proofs.TypedCharacters

namespace Keymap

open List

namespace Code

def digit (c : Char) : Nat :=
  if c.isDigit then c.toNat - '0'.toNat else c.toLower.toNat - 'a'.toNat + 10

def numbered (base : Nat) (digits : List Char) : Char :=
  Char.ofNat (digits.foldl (fun n c => n * base + digit c) 0)

def isHexadecimal (c : Char) : Bool :=
  c.isDigit || ('a' ≤ c.toLower && c.toLower ≤ 'f')

/-- What may stand behind a backslash, with what follows it, and the character that it means. -/
inductive Escape : List Char → List Char → Char → Prop where
  | simple {c d : Char} {after : List Char} (listed : (c, d) ∈ [('\'', '\''), ('"', '"'), ('?', '?'), ('\\', '\\'),
      ('a', '\x07'), ('b', '\x08'), ('t', '\t'), ('n', '\n'), ('v', '\x0b'), ('f', '\x0c'), ('r', '\r')]) :
      Escape [c] after d
  | octal {digits after : List Char} (present : digits ≠ [])
      (longest : ((digits ++ after).take 3).takeWhile (fun c => '0' ≤ c && c ≤ '7') = digits) :
      Escape digits after (numbered 8 digits)
  | hexadecimal {digits after : List Char} (present : digits ≠ [])
      (longest : (digits ++ after).takeWhile isHexadecimal = digits) :
      Escape ('x' :: digits) after (numbered 16 digits)

/-- What stands between the quotation marks of a literal, and the text that it means. -/
inductive Quoted : List Char → List Char → Prop where
  | nil : Quoted [] []
  | plain {c : Char} {raw value : List Char} (own : c ∉ ['"', '\\', '\n']) (rest : Quoted raw value) :
      Quoted (c :: raw) (c :: value)
  | escape {e raw value : List Char} {c : Char} (escape : Escape e raw c) (rest : Quoted raw value) :
      Quoted ('\\' :: (e ++ raw)) (c :: value)

variable {raw value : List Char}

theorem Escape.ne_nil {e after : List Char} {c : Char} (h : Escape e after c) : e ≠ [] := by
  cases h with
  | simple => exact cons_ne_nil _ _
  | octal hp => exact hp
  | hexadecimal => exact cons_ne_nil _ _

theorem Quoted.shorter_or_plain (hq : Quoted raw value) :
    value.length < raw.length ∨ raw = value ∧ ∀ c ∈ value, c ∉ ['"', '\\', '\n'] := by
  induction hq with
  | nil => exact .inr ⟨rfl, by simp⟩
  | plain own _ ih =>
    rcases ih with h | ⟨rfl, plain⟩
    · exact .inl (by simpa using h)
    · exact .inr ⟨rfl, forall_mem_cons.mpr ⟨own, plain⟩⟩
  | escape escape _ ih =>
    have hs := length_pos_iff.mpr escape.ne_nil
    refine .inl ?_
    rcases ih with h | ⟨rfl, -⟩ <;> simp only [length_cons, length_append] <;> omega

theorem quoted_self_iff : Quoted raw raw ↔ ∀ c ∈ raw, c ∉ ['"', '\\', '\n'] := by
  constructor
  · intro hq
    exact (hq.shorter_or_plain.resolve_left (Nat.lt_irrefl _)).2
  · intro h
    induction raw with
    | nil => exact .nil
    | cons c raw ih =>
      rw [forall_mem_cons] at h
      exact .plain h.1 (ih h.2)

end Code

namespace Text

variable {text part sub : String} {lines : List String}

def Holds (text part : String) : Prop :=
  ∃ before after, text = before ++ part ++ after

theorem Holds.trans (ho : Holds text part) (h : Holds part sub) : Holds text sub := by
  obtain ⟨before, after, rfl⟩ := ho
  obtain ⟨before', after', rfl⟩ := h
  exact ⟨before ++ before', after' ++ after, by simp only [String.append_assoc]⟩

theorem holds_unlines {parts : List String} (h : parts <:+: lines) (hp : parts ≠ []) :
    Holds (unlines lines) (unlines parts) :=
  unlines_infix hp h

theorem holds_line (hm : part ∈ lines) : Holds (unlines lines) part := by
  obtain ⟨before, after, rfl⟩ := append_of_mem hm
  have h : [part] <:+: before ++ part :: after := ⟨before, after, append_assoc before [part] after⟩
  exact holds_unlines h (cons_ne_nil _ _)

end Text

namespace Qmk

variable {v : Option Vocabulary} {layers : List Layer} {combos : List Combo} {combo : Combo} {withEnum : Bool}
  {text : String}

def sending (combo : Combo) (raw : String) : String :=
  Text.unlines [s!"        case {textKeyOf combo}:", "            if (record->event.pressed) \x7b",
    "                SEND_STRING(\"" ++ raw ++ "\");"]

theorem combosInline_sends (h : combosInline v layers combos withEnum = .ok text) (hm : combo ∈ combos)
    (ht : combo.macroText.isNull = false) : Text.Holds text (sending combo combo.macroText.toText) := by
  unfold combosInline at h
  rw [if_neg (by simpa using ne_nil_of_mem hm)] at h
  obtain ⟨sequences, -, h⟩ := bind_eq_ok.mp h
  obtain ⟨definitions, -, h⟩ := bind_eq_ok.mp h
  obtain ⟨events, -, h⟩ := bind_eq_ok.mp h
  obtain ⟨filters, -, h⟩ := bind_eq_ok.mp h
  obtain ⟨keys, hky, h⟩ := bind_eq_ok.mp h
  rw [← pure_eq_ok.mp h]
  have hk : (textKeyOf combo, combo.macroText.toText) ∈ keys := by
    rw [comboTextKeys_eq hky]
    exact mem_map_of_mem (mem_filter.mpr ⟨hm, by simp [ht]⟩)
  have hhn : Text.Holds (textHandlers keys) (textHandler (textKeyOf combo, combo.macroText.toText)) := by
    rw [textHandlers, if_neg (by simpa using ne_nil_of_mem hk)]
    refine Text.Holds.trans ?_ (Text.holds_line (mem_map_of_mem hk))
    exact Text.holds_line (by simp)
  have hh : Text.Holds (textHandler (textKeyOf combo, combo.macroText.toText))
      (sending combo combo.macroText.toText) :=
    Text.holds_unlines ⟨[], ["            \x7d", "            return false;"], rfl⟩ (cons_ne_nil _ _)
  have hf : Text.Holds ((if filters.isEmpty then "" else "\n" ++ ComboFilter.function filters) ++
      textHandlers keys) (textHandlers keys) := ⟨_, "", String.append_empty.symm⟩
  exact (Text.holds_line (mem_of_getElem? (i := 19) rfl)).trans (hf.trans (hhn.trans hh))

/-- The text of a combo stands in a literal of the keymap. This is a literal for the text itself exactly if the
text has neither quotation marks nor backslashes. -/
theorem text_sent_iff (done : combosInline v layers combos withEnum = .ok text) (member : combo ∈ combos)
    (isText : combo.macroText ≠ .null) (single : '\n' ∉ combo.macroText.toText.toList) :
    Text.Holds text (sending combo combo.macroText.toText) ∧
      (Code.Quoted combo.macroText.toText.toList combo.macroText.toText.toList ↔
        '"' ∉ combo.macroText.toText.toList ∧ '\\' ∉ combo.macroText.toText.toList) := by
  have isText : combo.macroText.isNull = false := by
    cases isNull : combo.macroText with
    | null => exact absurd isNull isText
    | _ => rfl
  refine ⟨combosInline_sends done member isText, ?_⟩
  rw [Code.quoted_self_iff]
  constructor
  · intro plain
    exact ⟨fun quote => plain _ quote (by decide), fun slash => plain _ slash (by decide)⟩
  · rintro ⟨noQuote, noSlash⟩ c inText isMark
    simp only [mem_cons, not_mem_nil, or_false] at isMark
    rcases isMark with rfl | rfl | rfl
    · exact noQuote inText
    · exact noSlash inText
    · exact single inText

def quoting : Combo where
  name := "quoting"
  description := "Quoting"
  positions := .list []
  action := .null
  macroText := "say \"Hi\""
  layers := .list ["BASE"]

def emptyBase : List Layer :=
  [{ name := "BASE", core := some ⟨replicate 8 []⟩ }]

theorem quoting_not_sent : ∃ text, combosInline none emptyBase [quoting] false = .ok text ∧
      Text.Holds text (sending quoting "say \"Hi\"") ∧ ¬ Code.Quoted "say \"Hi\"".toList "say \"Hi\"".toList := by
  obtain ⟨text, done⟩ : ∃ text, combosInline none emptyBase [quoting] false = .ok text :=
    exists_eq_ok (by decide +kernel)
  obtain ⟨sends, isSent⟩ := text_sent_iff done mem_cons_self (by simp [quoting]) (by decide)
  exact ⟨text, done, sends, fun quoted => absurd (isSent.mp quoted) (by decide)⟩

end Qmk

namespace Zmk

variable {cs : List Char}

def keyCharacters : List (String × Char) :=
  ["SPACE", "EXCL", "HASH", "DOLLAR", "PERCENT", "AMPERSAND", "SQT", "LPAR", "RPAR", "ASTERISK", "PLUS", "COMMA",
   "MINUS", "DOT", "FSLH", "COLON", "SEMI", "LT", "EQUAL", "GT", "QUESTION", "AT", "LBKT", "RBKT", "CARET",
   "UNDERSCORE", "GRAVE", "LBRC", "PIPE", "RBRC", "TILDE"].zip " !#$%&'()*+,-./:;<=>?@[]^_`\x7b|\x7d~".toList

def typed? (press : String) : Option Char :=
  match press.toList with
  | ['&', 'k', 'p', ' ', c] => if c.isUpper then some c.toLower else none
  | '&' :: 'k' :: 'p' :: ' ' :: name => keyCharacters.lookup (String.ofList name)
  | _ => none

def isTextChar (c : Char) : Bool :=
  ' ' ≤ c && c ≤ '~' && !c.isDigit && c != '"' && c != '\\'

theorem standard_press {c : Char} (h : isTextChar c) :
    (∃ key, charKey Standard.keycodes (String.singleton c) = .ok key ∧
      typed? ("&kp " ++ key.toText) = some c.toLower) ∧ (c.toLower = c ↔ c.isUpper = false) := by
  have all : ∀ n < 127, isTextChar (Char.ofNat n) →
      ((charKey Standard.keycodes (String.singleton (Char.ofNat n))).toOption.bind
        fun key => typed? ("&kp " ++ key.toText)) = some (Char.ofNat n).toLower ∧
      ((Char.ofNat n).toLower = Char.ofNat n ↔ (Char.ofNat n).isUpper = false) := by decide +kernel
  have hs : c.toNat < 127 := by
    simp only [isTextChar, Bool.and_eq_true, decide_eq_true_eq] at h
    exact Nat.lt_of_le_of_lt (Char.le_def.mp h.1.1.1.2) (by decide)
  have own := all _ hs
  rw [Char.ofNat_toNat] at own
  obtain ⟨ht, hl⟩ := own h
  obtain ⟨key, hk, ht⟩ := Option.bind_eq_some_iff.mp ht
  exact ⟨⟨key, eq_ok_of_toOption hk, ht⟩, hl⟩

theorem standard_presses (h : ∀ c ∈ cs, isTextChar c) :
    ∃ keys, keyPresses Standard.keycodes (cs.map String.singleton) = .ok keys ∧
      keys.mapM typed? = some (cs.map Char.toLower) := by
  induction cs with
  | nil => exact ⟨[], rfl, rfl⟩
  | cons c cs ih =>
    rw [forall_mem_cons] at h
    obtain ⟨keys, hk, ht⟩ := ih h.2
    obtain ⟨⟨key, hky, own⟩, -⟩ := standard_press h.1
    refine ⟨("&kp " ++ key.toText) :: keys, ?_, by simp [own, ht]⟩
    rw [keyPresses] at hk ⊢
    rw [map_cons, mapM_cons, hk, hky]
    rfl

end Zmk

/-- A text of letters, spaces and punctuation is sent as it is in QMK, and in ZMK with the standard table it is
typed in the same way exactly if it has no capitals. -/
theorem text_typed_alike_iff {v : Option Vocabulary} {layers : List Layer} {combos : List Combo} {combo : Combo}
    {withEnum : Bool} {text s : String} (name : String)
    (done : Qmk.combosInline v layers combos withEnum = .ok text) (member : combo ∈ combos)
    (isText : combo.macroText = .text s) (chars : ∀ c ∈ s.toList, Zmk.isTextChar c = true) :
    Text.Holds text (Qmk.sending combo s) ∧ Code.Quoted s.toList s.toList ∧
      ∃ m, Zmk.Macro.ofDocument Standard.keycodes (.text name) combo.macroText = .ok m ∧
        (m.groups.flatten.mapM Zmk.typed? = some s.toList ↔ ∀ c ∈ s.toList, c.isUpper = false) := by
  have sends := Qmk.combosInline_sends done member (by rw [isText]; rfl)
  rw [isText] at sends
  obtain ⟨keys, isKeys, isTyped⟩ := Zmk.standard_presses chars
  refine ⟨sends, Code.quoted_self_iff.mpr fun c inText isMark => ?_, ⟨name, chunks 10 keys⟩, ?_, ?_⟩
  · have isChar := chars c inText
    simp only [mem_cons, not_mem_nil, or_false] at isMark
    rcases isMark with rfl | rfl | rfl <;> exact absurd isChar (by decide)
  · rw [isText, Zmk.ofDocument_text, isKeys]
    rfl
  · have flat : (chunks 10 keys).flatten = keys := flatten_chunksFrom (by decide) (Nat.le_refl _)
    rw [flat, isTyped, Option.some.injEq]
    nth_rewrite 2 [← map_id s.toList]
    rw [map_inj_left]
    exact forall₂_congr fun c inText => (Zmk.standard_press (chars c inText)).2

theorem capital_typed_small :
    ∃ text m, Qmk.combosInline none Qmk.emptyBase [{ Qmk.quoting with macroText := "Hi!" }] false = .ok text ∧
      Text.Holds text (Qmk.sending Qmk.quoting "Hi!") ∧
      Zmk.Macro.ofDocument Standard.keycodes "hi" "Hi!" = .ok m ∧ m.groups.flatten.mapM Zmk.typed? ≠ some "Hi!".toList := by
  obtain ⟨text, done⟩ : ∃ text, Qmk.combosInline none Qmk.emptyBase
      [{ Qmk.quoting with macroText := "Hi!" }] false = .ok text := exists_eq_ok (by decide +kernel)
  obtain ⟨sends, -, m, isMacro, alike⟩ := text_typed_alike_iff "hi" done mem_cons_self rfl
    (all_eq_true.mp (by decide))
  exact ⟨text, m, done, sends, isMacro, fun same => absurd (alike.mp same 'H' (by decide)) (by decide)⟩

end Keymap
