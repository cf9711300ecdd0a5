import Keymap.Proofs.CodeLines
import Keymap.Proofs.HoldTaps
import Keymap.Proofs.KeyLists
import Keymap.Proofs.LayerNames
import Mathlib.Data.List.Infix

namespace Keymap

open List

open Code (IsName)

theorem Text.isBlank_of_isWordChar {c : Char} (h : isWordChar c) : isBlank c = false := by
  rw [isWordChar, Bool.or_eq_true] at h
  rcases h with ha | hu
  · exact isBlank_of_isAlphanumeric ha
  · rw [beq_iff_eq.mp hu]
    decide

namespace Text

variable {part a : List Char}

/-- The part stands nowhere in the text. -/
def Lacks (part text : List Char) : Prop :=
  ¬ part <:+: text

theorem lacks_iff {text : List Char} : (text.tails.all fun tail => !part.isPrefixOf tail) ↔ Lacks part text := by
  simp only [all_eq_true, mem_tails, Bool.not_eq_true', ← Bool.not_eq_true, isPrefixOf_iff_prefix, Lacks,
    infix_iff_prefix_suffix]
  constructor
  · rintro hn ⟨tail, h, ht⟩
    exact hn tail ht h
  · exact fun hn tail ht h => hn ⟨tail, h, ht⟩

instance (part text : List Char) : Decidable (Lacks part text) :=
  decidable_of_iff _ lacks_iff

theorem replaceFrom_of_lacks {new : List Char} (h : Lacks part a) : replaceFrom part new 0 a = a := by
  induction a with
  | nil => rfl
  | cons x a ih =>
    have he : ¬ part.isPrefixOf (x :: a) := fun hh => h <| IsPrefix.isInfix <| isPrefixOf_iff_prefix.mp hh
    rw [replaceFrom, if_neg he, ih fun hw => h (infix_cons hw)]

end Text

namespace Vocabulary

def joined (name said : String) : String :=
  name ++ ":" ++ said

variable {name said : String}

theorem toList_joined : (joined name said).toList = name.toList ++ ':' :: said.toList := by
  simp [joined]

theorem isComposite_joined : isComposite (joined name said) := by
  simp [isComposite, toList_joined]

theorem parts_joined (h : ':' ∉ name.toList) (hs : ':' ∉ said.toList) :
    parts (joined name said) = [name, said] := by
  rw [parts, Text.split, toList_joined, Text.splitChars_append_cons rfl, Text.splitChars_of_not_mem h,
    Text.splitChars_of_not_mem hs]
  simp

end Vocabulary

instance (name : String) : Decidable (IsName name) :=
  decidable_of_iff ((!name.toList.isEmpty && name.toList.all Text.isWordChar) = true) (by simp [IsName])

namespace Header

inductive Key where
  | plain (key : String)
  | modTap (modifier key : String)
  | altGrTap (key : String)
  | layerTap (layer key : String)
  | oneShot (layer : String)
  deriving DecidableEq, Repr

namespace Key

def text : Key → String
  | plain key => "KC_" ++ key
  | modTap modifier key => modifier ++ "_T(KC_" ++ key ++ ")"
  | altGrTap key => "ALGR_T(KC_" ++ key ++ ")"
  | layerTap layer key => "LT(" ++ layer ++ ", KC_" ++ key ++ ")"
  | oneShot layer => "OSL(" ++ layer ++ ")"

def unified : Key → String
  | plain key => if key = "NO" then "NONE" else key
  | modTap modifier key => Vocabulary.held "hrm" modifier key
  | altGrTap key => Vocabulary.joined "ALGR_T" key
  | layerTap layer key => Vocabulary.held "lt" layer key
  | oneShot layer => Vocabulary.joined "osl" layer

/-- The names in a key are words. -/
def Named : Key → Prop
  | plain key | altGrTap key => IsName key
  | modTap modifier key => modifier ∈ tapModifiers ∧ IsName key
  | layerTap layer key => IsName layer ∧ IsName key
  | oneShot layer => IsName layer

instance : DecidablePred Named
  | plain key | altGrTap key => inferInstanceAs (Decidable (IsName key))
  | modTap modifier key => inferInstanceAs (Decidable (modifier ∈ tapModifiers ∧ IsName key))
  | layerTap layer key => inferInstanceAs (Decidable (IsName layer ∧ IsName key))
  | oneShot layer => inferInstanceAs (Decidable (IsName layer))

end Key

section Reading

variable {start name layer key : String} {cs : List Char}

theorem after?_append (start : String) (cs : List Char) : after? start (start.toList ++ cs) = some cs := by
  rw [after?, if_pos (by simp), drop_left]

theorem word?_append (h : IsName name) (hs : ∀ c ∈ cs.head?, Text.isWordChar c = false) :
    word? (name.toList ++ cs) = some (name, cs) := by
  obtain ⟨hn, hr⟩ := Text.takeWhile_stops hs
  rw [word?, takeWhile_append_of_pos h.2, hn, append_nil, dropWhile_append_of_pos h.2, hr]
  split
  · rename_i he
    exact absurd he h.1
  · rw [String.ofList_toList]

theorem lastWord?_append (h : IsName name) : lastWord? (name.toList ++ ')' :: cs) = some name := by
  rw [lastWord?, word?_append h (by simp; decide)]
  rfl

theorem modTap?_of_mem {modifier : String} (h : modifier ∈ tapModifiers) (hn : IsName key) :
    modTap? (modifier ++ "_T(KC_" ++ key ++ ")").toList = some (Vocabulary.held "hrm" modifier key) := by
  have hh : s!"hrm:{modifier}:{key}" = Vocabulary.held "hrm" modifier key := rfl
  have hl : lastWord? (key.toList ++ [')']) = some key := lastWord?_append hn
  rw [← hh]
  simp only [tapModifiers, mem_cons, not_mem_nil, or_false] at h
  rcases h with rfl | rfl | rfl | rfl | rfl | rfl | rfl | rfl <;>
    simp [modTap?, tapModifiers, after?, hl]

theorem altGrTap?_eq (hn : IsName key) :
    altGrTap? ("ALGR_T(KC_" ++ key ++ ")").toList = some (Vocabulary.joined "ALGR_T" key) := by
  have h : lastWord? (key.toList ++ [')']) = some key := lastWord?_append hn
  simp [altGrTap?, after?, h, Vocabulary.joined]

theorem layerTap?_eq (isLayer : IsName layer) (hn : IsName key) :
    layerTap? ("LT(" ++ layer ++ ", KC_" ++ key ++ ")").toList = some (Vocabulary.held "lt" layer key) := by
  have hh : s!"lt:{layer}:" ++ key = Vocabulary.held "lt" layer key := rfl
  have hl : lastWord? (key.toList ++ [')']) = some key := lastWord?_append hn
  have hw (rest : List Char) : word? (layer.toList ++ ',' :: rest) = some (layer, ',' :: rest) :=
    word?_append isLayer (by simp; decide)
  have h : Text.isBlank ' ' ∧ Text.isBlank 'K' = false := by decide
  rw [← hh]
  simp [layerTap?, after?, hw, hl, h]

theorem oneShot?_eq (hl : IsName layer) :
    oneShot? ("OSL(" ++ layer ++ ")").toList = some (Vocabulary.joined "osl" layer) := by
  have h : lastWord? (layer.toList ++ [')']) = some layer := lastWord?_append hl
  simp [oneShot?, after?, h, Vocabulary.joined]

theorem unified_text {key : Key} (hn : key.Named) : Header.unified key.text = key.unified := by
  cases key with
  | plain key =>
    have h : (((modTap? ("KC_" ++ key).toList).or (altGrTap? ("KC_" ++ key).toList)).or
        (layerTap? ("KC_" ++ key).toList)).or (oneShot? ("KC_" ++ key).toList) = none := by
      simp [modTap?, altGrTap?, layerTap?, oneShot?, tapModifiers, after?]
    have hu : unusedKeys.contains ("KC_" ++ key) = decide (key = "NO") := by
      simp [unusedKeys, ← String.toList_inj]
    have hs : Text.startsWith ("KC_" ++ key) "KC_" := by simp [Text.startsWith]
    have hr : Text.drop 3 ("KC_" ++ key) = key := by simp [Text.drop]
    simp only [Header.unified, Key.text, h, hu, Key.unified, decide_eq_true_eq, hs, hr, if_true]
  | modTap modifier key =>
    rw [Header.unified, Key.text, modTap?_of_mem hn.1 hn.2]
    rfl
  | altGrTap key =>
    have h : modTap? ("ALGR_T(KC_" ++ key ++ ")").toList = none := by
      simp [modTap?, tapModifiers, after?]
    rw [Header.unified, Key.text, h, altGrTap?_eq hn]
    rfl
  | layerTap layer key =>
    have h : (modTap? ("LT(" ++ layer ++ ", KC_" ++ key ++ ")").toList).or
        (altGrTap? ("LT(" ++ layer ++ ", KC_" ++ key ++ ")").toList) = none := by
      simp [modTap?, altGrTap?, tapModifiers, after?]
    rw [Header.unified, Key.text, h, layerTap?_eq hn.1 hn.2]
    rfl
  | oneShot layer =>
    have h : ((modTap? ("OSL(" ++ layer ++ ")").toList).or (altGrTap? ("OSL(" ++ layer ++ ")").toList)).or
        (layerTap? ("OSL(" ++ layer ++ ")").toList) = none := by
      simp [modTap?, altGrTap?, layerTap?, tapModifiers, after?]
    rw [Header.unified, Key.text, h, oneShot?_eq hn]
    rfl

end Reading

section Spelling

variable {key : Key} {name : String}

theorem isName_of_mem_tapModifiers (h : name ∈ tapModifiers) : IsName name := by
  have all : tapModifiers.all (fun m => decide (IsName m)) := by decide
  exact of_decide_eq_true (all_eq_true.mp all name h)

/-- A text of words and of the marks around them. -/
def Spelled (marks : List Char) (cs : List Char) : Prop :=
  ∀ c ∈ cs, Text.isWordChar c = true ∨ c ∈ marks

theorem Spelled.not_mem {marks cs : List Char} (hs : Spelled marks cs) {c : Char}
    (h : Text.isWordChar c = false ∧ c ∉ marks) : c ∉ cs := by
  intro hmm
  rcases hs c hmm with hw | hm
  · exact absurd hw (by simp [h.1])
  · exact h.2 hm

theorem spelled_append {marks cs ds : List Char} : Spelled marks (cs ++ ds) ↔ Spelled marks cs ∧ Spelled marks ds :=
  forall_mem_append

theorem spelled_of_isName (h : IsName name) (marks : List Char) : Spelled marks name.toList :=
  fun c hm => .inl (h.2 c hm)

theorem spelled_of_all {marks cs : List Char} (all : cs.all (fun c => Text.isWordChar c || marks.contains c)) :
    Spelled marks cs := by
  intro c h
  simpa using all_eq_true.mp all c h

def keyMarks : List Char := ['(', ')', ',', ' ']

theorem spelled_text (h : key.Named) : Spelled keyMarks key.text.toList := by
  cases key with
  | plain key =>
    simp only [Key.text, String.toList_append, spelled_append]
    exact ⟨spelled_of_all (by decide), spelled_of_isName h _⟩
  | modTap modifier key =>
    simp only [Key.text, String.toList_append, spelled_append]
    exact ⟨⟨⟨spelled_of_isName (isName_of_mem_tapModifiers h.1) _, spelled_of_all (by decide)⟩,
      spelled_of_isName h.2 _⟩, spelled_of_all (by decide)⟩
  | altGrTap name | oneShot name =>
    simp only [Key.text, String.toList_append, spelled_append]
    exact ⟨⟨spelled_of_all (by decide), spelled_of_isName h _⟩, spelled_of_all (by decide)⟩
  | layerTap layer key =>
    simp only [Key.text, String.toList_append, spelled_append]
    exact ⟨⟨⟨⟨spelled_of_all (by decide), spelled_of_isName h.1 _⟩, spelled_of_all (by decide)⟩,
      spelled_of_isName h.2 _⟩, spelled_of_all (by decide)⟩

theorem spelled_held {wrapper hold : String} (hw : IsName wrapper) (h : IsName hold) (hn : IsName name) :
    Spelled [':'] (Vocabulary.held wrapper hold name).toList := by
  simp only [Vocabulary.held, String.toList_append, spelled_append]
  exact ⟨⟨⟨⟨spelled_of_isName hw _, spelled_of_all (by decide)⟩, spelled_of_isName h _⟩,
    spelled_of_all (by decide)⟩, spelled_of_isName hn _⟩

theorem spelled_unified (h : key.Named) : Spelled [':'] key.unified.toList := by
  cases key with
  | plain key =>
    rw [Key.unified]
    split
    · exact spelled_of_all (by decide)
    · exact spelled_of_isName h _
  | modTap modifier key => exact spelled_held (by decide) (isName_of_mem_tapModifiers h.1) h.2
  | layerTap layer key => exact spelled_held (by decide) h.1 h.2
  | altGrTap name | oneShot name =>
    simp only [Key.unified, Vocabulary.joined, String.toList_append, spelled_append]
    exact ⟨⟨spelled_of_all (by decide), spelled_of_all (by decide)⟩, spelled_of_isName h _⟩

theorem isClosed_name (hn : IsName name) (depth : Nat) (cs : List Char) :
    isClosed depth (name.toList ++ cs) = isClosed depth cs := by
  have h : ∀ c ∈ name.toList, c ∉ ['(', ')', ','] := by
    intro c hmm hm
    have hw := hn.2 c hmm
    simp only [mem_cons, not_mem_nil, or_false] at hm
    rcases hm with rfl | rfl | rfl <;> exact absurd hw (by decide)
  generalize name.toList = word at h
  induction word with
  | nil => rfl
  | cons c word ih =>
    obtain ⟨own, ho⟩ := forall_mem_cons.mp h
    simp only [mem_cons, not_mem_nil, or_false, not_or] at own
    rw [cons_append, isClosed, if_neg own.1, if_neg own.2.1, if_neg own.2.2, ih ho]

theorem closed_text (h : key.Named) : isClosed 0 key.text.toList := by
  have he (name : String) (hn : IsName name) : isClosed 1 (name.toList ++ [')']) := by
    rw [isClosed_name hn]
    decide
  cases key with
  | plain key =>
    have hw := isClosed_name h 0 []
    rw [append_nil] at hw
    simpa [Key.text, isClosed] using hw
  | modTap modifier key =>
    have hr := isClosed_name (isName_of_mem_tapModifiers h.1) 0 ("_T(KC_".toList ++ (key.toList ++ [')']))
    simpa [Key.text, isClosed, he key h.2] using hr
  | altGrTap name | oneShot name => simpa [Key.text, isClosed] using he name h
  | layerTap layer key =>
    have hr := isClosed_name h.1 1 (", KC_".toList ++ (key.toList ++ [')']))
    simpa [Key.text, isClosed, he key h.2] using hr

theorem not_blank_of_isName (h : IsName name) : ∀ c ∈ name.toList, Text.isBlank c = false :=
  fun c hm => Text.isBlank_of_isWordChar (h.2 c hm)

theorem first_text (named : key.Named) : ∀ c ∈ key.text.toList.head?, Text.isBlank c = false := by
  have hl : Text.isBlank 'K' = false ∧ Text.isBlank 'A' = false ∧ Text.isBlank 'L' = false ∧
      Text.isBlank 'O' = false := by decide
  cases key with
  | modTap modifier key =>
    have hn := isName_of_mem_tapModifiers named.1
    intro c h
    rw [Key.text, String.append_assoc, String.append_assoc, String.toList_append,
      head?_append_of_ne_nil _ hn.1] at h
    exact not_blank_of_isName hn c (mem_of_mem_head? h)
  | _ => simp [Key.text, hl]

theorem last_text (hn : key.Named) : ∀ c ∈ key.text.toList.getLast?, Text.isBlank c = false := by
  cases key with
  | plain key =>
    intro c h
    rw [Key.text, String.toList_append, getLast?_append_of_ne_nil _ hn.1] at h
    exact not_blank_of_isName hn c (mem_of_mem_getLast? h)
  | _ =>
    have hc : Text.isBlank ')' = false := by decide
    rw [Key.text, String.toList_append, getLast?_append_of_ne_nil _ (by decide)]
    simpa using hc

theorem isKeycode_text (h : key.Named) : IsKeycode key.text where
  present := by cases key <;> simp [Key.text]
  trimmed := Text.trim_of_visible (first_text h) (last_text h)
  closed := closed_text h

end Spelling

end Header

theorem Alias.toQmk_one {rule : Alias} (start param stop said : String) (hs : rule.supports "qmk" = .ok true)
    (hp : rule.qmkPattern = .text (String.ofList (Template.written start.toList [(param.toList, stop.toList)])))
    (plain : Template.isWritten start.toList [(param.toList, stop.toList)]) (hf : param ≠ "self") :
    rule.toQmk [(.text param, .text said)] = .ok (Qmk.withMagic (start ++ said ++ stop)) := by
  have hn : namedArguments "qmk" [(.text param, .text said)] = .ok [(param, .text said)] := by
    simp [namedArguments, lookup_cons, lookup_nil, beq_false_of_ne hf.symm, ok_bind, ok_pure]
  have h : expand rule.qmkPattern [(param, .text said)] = .ok (start ++ said ++ stop) := by
    rw [expand, hp, Document.word, ok_bind, Template.expand_written _ plain]
    simp [Template.filled, Except.map, Document.toText, ← String.toList_inj]
  rw [toQmk, hn, ok_bind, hs, ok_bind, if_pos rfl, h]
  rfl

/-- Aliases of one argument. -/
structure WritesOne (param start : String) (rule : Alias) : Prop where
  params : rule.params = .list [.text param]
  qmk : rule.supports "qmk" = .ok true
  toQmk : ∀ said, rule.toQmk [(.text param, .text said)] = .ok (Qmk.withMagic (start ++ said ++ ")"))

theorem WritesOne.length {param start : String} {rule : Alias} (h : WritesOne param start rule) :
    rule.params.length = .ok 1 := by
  rw [h.params]
  rfl

theorem exists_one {v : Vocabulary} {name param start : String}
    (h : (name, param, start) ∈ [("ALGR_T", "key", "ALGR_T(KC_"), ("osl", "layer", "OSL(")])
    (ha : Reading.aliases Standard.aliasFile = .ok v.aliases) :
    ∃ rule, findAlias? v.aliases name = some rule ∧ WritesOne param start rule := by
  rw [← Except.ok.inj (Standard.aliases_eq_ok.symm.trans ha)]
  simp only [mem_cons, not_mem_nil, or_false, Prod.mk.injEq] at h
  rcases h with ⟨rfl, rfl, rfl⟩ | ⟨rfl, rfl, rfl⟩
  · refine ⟨_, rfl, rfl, rfl, fun said => ?_⟩
    exact Alias.toQmk_one "ALGR_T(KC_" "key" ")" said rfl rfl (by decide) (by decide)
  · refine ⟨_, rfl, rfl, rfl, fun said => ?_⟩
    exact Alias.toQmk_one "OSL(" "layer" ")" said rfl rfl (by decide) (by decide)

namespace Qmk

variable {v : Vocabulary} {key name title : String} {arguments : List String} {rule : Alias}

theorem withMagic_of_lacks {code : String} (h : Text.Lacks "KC_MAGIC".toList code.toList) :
    withMagic code = code := by
  rw [← String.toList_inj, toList_withMagic, Text.replaceFrom_of_lacks h]

theorem checkBinding_of_rule (isParts : Vocabulary.parts key = name :: arguments)
    (found : findAlias? v.aliases name = some rule) (supported : rule.supports "qmk" = .ok true)
    (count : rule.params.length = .ok arguments.length)
    (hh : name = "hrm" → ∃ m rest names, arguments = m :: rest ∧ modifiers v = .ok names ∧ m ∈ names) :
    checkBinding v title key = .ok () := by
  rw [checkBinding, Vocabulary.checkBinding]
  split
  · rfl
  · simp only [isParts, found, supported, count, ok_bind]
    by_cases h : name = "hrm"
    · obtain ⟨m, rest, names, rfl, hm, hk⟩ := hh h
      simp [h, hm, hk, ok_bind, ok_pure]
    · simp [h, ok_pure]

theorem value_joined {param start said : String} (unlisted : v.keycode? (Vocabulary.joined name said) = none)
    (found : findAlias? v.aliases name = some rule) (h : WritesOne param start rule)
    (plain : ':' ∉ name.toList) (noMorph : name ≠ "sm") (single : ':' ∉ said.toList) :
    value v (Vocabulary.joined name said) = .ok (.text (withMagic (start ++ said ++ ")"))) := by
  have hn : Vocabulary.joined name said ≠ "MAGIC" := by
    intro hs
    have hc : Vocabulary.isComposite "MAGIC" := hs ▸ Vocabulary.isComposite_joined
    exact absurd hc (by decide)
  rw [value, if_neg hn, unlisted]
  simp only [Vocabulary.isComposite_joined, if_true]
  rw [composite_of_rule (Vocabulary.parts_joined plain single) noMorph found h.qmk,
    (Zmk.checkCount_eq_ok h.length).mpr rfl, ok_bind, Alias.argumentsFor_one h.params rfl, ok_bind, h.toQmk]
  rfl

end Qmk

namespace Header

/-- What a key needs to be written back as it was. Its unified text must mean what the key means: plain keys must be
in the table with their own code and must not look like a position of the core, and composite texts must not be in
the table. Elsewhere the name of the magic key would be replaced. -/
def Key.Kept (v : Vocabulary) (key : Key) : Prop :=
  match key with
  | plain name => name ≠ "MAGIC" ∧ Entry.positionDigits? name = none ∧
    ∃ entries, v.keycode? key.unified = some (.record entries) ∧
      entries.lookup (.word "qmk") = some (.text key.text)
  | _ => v.keycode? key.unified = none ∧ Text.Lacks "KC_MAGIC".toList key.text.toList

section Translation

variable {v : Vocabulary} {key : Key} {name title : String}

theorem no_colon (h : IsName name) : ':' ∉ name.toList :=
  fun hm => absurd (h.2 ':' hm) (by decide)

theorem value_held_unified (aliases : Reading.aliases Standard.aliasFile = .ok v.aliases) {wrapper hold : String}
    (h : wrapper ∈ holdTaps) (isHold : IsName hold) (isName : IsName name)
    (unlisted : v.keycode? (Vocabulary.held wrapper hold name) = none) :
    Qmk.value v (Vocabulary.held wrapper hold name) =
      .ok (.text (Qmk.withMagic (Qmk.holdStart wrapper hold ++ "KC_" ++ name ++ ")"))) := by
  obtain ⟨rule, hf, hw⟩ := exists_rule h aliases
  have hd := qmk_value_held (t := { vocabulary := v }) h hw hf (no_colon isHold) unlisted (no_colon isName)
  rw [Qmk.withMagic_held]
  exact hd

theorem value_unified (ha : Reading.aliases Standard.aliasFile = .ok v.aliases) (hn : key.Named)
    (h : key.Kept v) : Qmk.value v key.unified = .ok (.text key.text) := by
  cases key with
  | plain name =>
    obtain ⟨hnm, -, entries, hf, hc⟩ := h
    have ho : (Key.plain name).unified ≠ "MAGIC" := by
      rw [Key.unified]
      split
      · decide
      · exact hnm
    have hfn : Document.findD (.record entries) "qmk" "KC_NO" = .ok (.text (Key.plain name).text) := by
      show Except.ok ((entries.lookup (.word "qmk")).getD _) = _
      rw [hc]
      rfl
    have hp : (Document.text (Key.plain name).text).isPresent := by
      simp [Document.isPresent, Key.text]
    rw [Qmk.value, if_neg ho, hf]
    simp only [hfn, Except.map, Qmk.supported, hp, if_true]
  | modTap modifier name =>
    have hd := value_held_unified ha (by decide) (isName_of_mem_tapModifiers hn.1) hn.2 h.1
    have hs : Qmk.holdStart "hrm" modifier ++ "KC_" ++ name ++ ")" = (Key.modTap modifier name).text := by
      simp [Qmk.holdStart, Key.text, ← String.toList_inj]
    rw [Key.unified, hd, hs, Qmk.withMagic_of_lacks h.2]
  | altGrTap name =>
    obtain ⟨rule, hf, hw⟩ := exists_one (by decide : ("ALGR_T", "key", "ALGR_T(KC_") ∈ _) ha
    have hd := Qmk.value_joined h.1 hf hw (by decide) (by decide) (no_colon hn)
    exact hd.trans (congrArg _ (congrArg _ (Qmk.withMagic_of_lacks h.2)))
  | layerTap layer name =>
    have hd := value_held_unified ha (by decide) hn.1 hn.2 h.1
    have hs : Qmk.holdStart "lt" layer ++ "KC_" ++ name ++ ")" = (Key.layerTap layer name).text := by
      simp [Qmk.holdStart, Key.text, ← String.toList_inj]
    rw [Key.unified, hd, hs, Qmk.withMagic_of_lacks h.2]
  | oneShot layer =>
    obtain ⟨rule, hf, hw⟩ := exists_one (by decide : ("osl", "layer", "OSL(") ∈ _) ha
    have hd := Qmk.value_joined h.1 hf hw (by decide) (by decide) (no_colon hn)
    exact hd.trans (congrArg _ (congrArg _ (Qmk.withMagic_of_lacks h.2)))

theorem checkBinding_unified (aliases : Reading.aliases Standard.aliasFile = .ok v.aliases) {names : List String}
    (isModifiers : Qmk.modifiers v = .ok names) (known : ∀ m ∈ tapModifiers, m ∈ names) (named : key.Named) :
    Qmk.checkBinding v title key.unified = .ok () := by
  cases key with
  | plain name =>
    have hs : Vocabulary.isComposite (Key.plain name).unified = false := by
      rw [Key.unified]
      split
      · decide
      · simpa [Vocabulary.isComposite] using no_colon named
    rw [Qmk.checkBinding, Vocabulary.checkBinding, hs]
    rfl
  | modTap modifier name =>
    have hnm := isName_of_mem_tapModifiers named.1
    obtain ⟨rule, hf, h⟩ := exists_rule (by decide : "hrm" ∈ holdTaps) aliases
    exact Qmk.checkBinding_of_rule (Vocabulary.parts_held_key (by decide) (no_colon hnm) (no_colon named.2)) hf
      h.qmk h.length fun _ => ⟨modifier, [name], names, rfl, isModifiers, known modifier named.1⟩
  | altGrTap name =>
    obtain ⟨rule, hf, h⟩ := exists_one (by decide : ("ALGR_T", "key", "ALGR_T(KC_") ∈ _) aliases
    exact Qmk.checkBinding_of_rule (Vocabulary.parts_joined (by decide) (no_colon named)) hf h.qmk h.length
      fun hh => absurd hh (by decide)
  | layerTap layer name =>
    obtain ⟨rule, hf, h⟩ := exists_rule (by decide : "lt" ∈ holdTaps) aliases
    exact Qmk.checkBinding_of_rule (Vocabulary.parts_held_key (by decide) (no_colon named.1) (no_colon named.2)) hf
      h.qmk h.length fun hh => absurd hh (by decide)
  | oneShot layer =>
    obtain ⟨rule, hf, h⟩ := exists_one (by decide : ("osl", "layer", "OSL(") ∈ _) aliases
    exact Qmk.checkBinding_of_rule (Vocabulary.parts_joined (by decide) (no_colon named)) hf h.qmk h.length
      fun hh => absurd hh (by decide)

end Translation

end Header

end Keymap
