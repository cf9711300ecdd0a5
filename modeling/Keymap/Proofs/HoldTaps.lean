import Keymap.Proofs.SpelledKeys
import Keymap.Qmk.Encode

namespace Keymap

open List

variable {wrapper : String} {rule : Alias}

namespace Text

theorem replaceFrom_append_cons {old new before after : List Char} {c : Char} {skip : Nat} (hp : old ≠ [])
    (ha : c ∉ old) (hw : skip ≤ before.length) : replaceFrom old new skip (before ++ c :: after) =
      replaceFrom old new skip before ++ c :: replaceFrom old new 0 after := by
  induction before generalizing skip with
  | nil =>
    obtain rfl : skip = 0 := Nat.le_zero.mp hw
    have he : old.isPrefixOf (c :: after) = false := by
      rw [← Bool.not_eq_true, isPrefixOf_iff_prefix]
      intro h
      have hep : old <+: [] := (prefix_append_cons ha).mp h
      exact hp (prefix_nil.mp hep)
    show replaceFrom old new 0 (c :: after) = c :: replaceFrom old new 0 after
    rw [replaceFrom, he, if_neg Bool.false_ne_true]
  | cons b before ih =>
    cases skip with
    | succ skip => exact ih (Nat.le_of_succ_le_succ hw)
    | zero =>
      have hs : old.isPrefixOf (b :: (before ++ c :: after)) = old.isPrefixOf (b :: before) := by
        rw [Bool.eq_iff_iff, isPrefixOf_iff_prefix, isPrefixOf_iff_prefix, ← cons_append, prefix_append_cons ha]
      rw [cons_append, replaceFrom, replaceFrom, hs]
      by_cases h : old.isPrefixOf (b :: before)
      · have hsh := IsPrefix.length_le <| isPrefixOf_iff_prefix.mp h
        rw [length_cons] at hsh
        rw [if_pos h, if_pos h, ih (by omega), append_assoc]
      · rw [if_neg h, if_neg h, ih (Nat.zero_le _), cons_append]

end Text

namespace Vocabulary

def held (wrapper hold key : String) : String :=
  wrapper ++ ":" ++ hold ++ ":" ++ key

variable {hold key : String}

theorem toList_held : (held wrapper hold key).toList =
    wrapper.toList ++ ':' :: (hold.toList ++ ':' :: key.toList) := by
  simp [held]

theorem isComposite_held : isComposite (held wrapper hold key) := by
  rw [isComposite, toList_held]
  simp

theorem held_ne_magic : held wrapper hold key ≠ "MAGIC" := by
  intro hs
  have h : isComposite "MAGIC" := hs ▸ isComposite_held
  exact absurd h (by decide)

theorem parts_held (h : ':' ∉ wrapper.toList) (single : ':' ∉ hold.toList) :
    parts (held wrapper hold key) = wrapper :: hold :: parts key := by
  rw [parts, Text.split, toList_held, Text.splitChars_append_cons rfl, Text.splitChars_append_cons rfl,
    Text.splitChars_of_not_mem h, Text.splitChars_of_not_mem single]
  simp [parts, Text.split]

theorem parts_held_key (hp : ':' ∉ wrapper.toList) (single : ':' ∉ hold.toList) (h : ':' ∉ key.toList) :
    parts (held wrapper hold key) = [wrapper, hold, key] := by
  rw [parts_held hp single, Zmk.parts_of_single h]

end Vocabulary

def holdParameter (wrapper : String) : String :=
  if wrapper = "lt" then "layer" else "mod"

def holdTaps : List String := ["hrm", "lt", "mt"]

namespace Qmk

def withMagic (code : String) : String :=
  Text.replace "KC_MAGIC" "QK_AREP" code

def holdStart (wrapper hold : String) : String :=
  if wrapper = "lt" then "LT(" ++ hold ++ ", " else hold ++ "_T("

def holdTap (wrapper hold tap : String) : String :=
  withMagic (holdStart wrapper hold) ++ tap ++ ")"

end Qmk

namespace Zmk

def holdTap (onLeft : Bool) (wrapper hold tap : String) : String :=
  "&" ++ (if wrapper = "hrm" then if onLeft then "hml" else "hmr" else wrapper) ++ " " ++ hold ++ " " ++ tap

end Zmk

theorem Alias.toQmk_held (start param middle hold key : String) (hs : rule.supports "qmk" = .ok true)
    (hp : rule.qmkPattern = .text (String.ofList (Template.written start.toList
      [(param.toList, (middle ++ "KC_").toList), ("key".toList, ")".toList)])))
    (hpl : Template.isWritten start.toList
      [(param.toList, (middle ++ "KC_").toList), ("key".toList, ")".toList)])
    (h : param ≠ "self" ∧ param ≠ "key") : rule.toQmk [(.text param, .text hold), (.text "key", .text key)] =
      .ok (Qmk.withMagic (start ++ hold ++ middle ++ "KC_" ++ key ++ ")")) := by
  rw [toQmk, namedArguments_two "qmk" _ _ ⟨h.1, by decide⟩, ok_bind, hs, ok_bind, if_pos rfl,
    expand_two start param (middle ++ "KC_") "key" ")" hold key hp hpl h.2, ← String.append_assoc]
  rfl

structure WritesHoldTap (wrapper : String) (rule : Alias) : Prop where
  params : rule.params = .list [.text (holdParameter wrapper), "key"]
  qmk : rule.supports "qmk" = .ok true
  zmk : rule.supports "zmk" = .ok true
  toQmk : ∀ hold key, rule.toQmk [(.text (holdParameter wrapper), .text hold), (.text "key", .text key)] =
    .ok (Qmk.withMagic (Qmk.holdStart wrapper hold ++ "KC_" ++ key ++ ")"))
  toZmk : wrapper ≠ "hrm" → ∀ hold key,
    rule.toZmk [(.text (holdParameter wrapper), .text hold), (.text "key", .text key)] =
      .ok ("&" ++ wrapper ++ " " ++ hold ++ " " ++ key)

theorem WritesHoldTap.length (writes : WritesHoldTap wrapper rule) : rule.params.length = .ok 2 := by
  rw [writes.params]
  rfl

theorem standard_writes (isWrapper : wrapper ∈ holdTaps) :
    ∃ rule, findAlias? (Standard.behaviors.map Standard.ruleOf) wrapper = some rule ∧
      WritesHoldTap wrapper rule := by
  simp only [holdTaps, mem_cons, not_mem_nil, or_false] at isWrapper
  rcases isWrapper with rfl | rfl | rfl
  · refine ⟨_, rfl, rfl, rfl, rfl, fun hold key => ?_, fun h => absurd rfl h⟩
    refine Eq.trans (Alias.toQmk_held "" "mod" "_T(" hold key rfl rfl (by decide) (by decide)) ?_
    rw [String.empty_append]
    rfl
  · refine ⟨_, rfl, rfl, rfl, rfl, fun hold key => ?_, fun _ hold key => ?_⟩
    · exact Alias.toQmk_held "LT(" "layer" ", " hold key rfl rfl (by decide) (by decide)
    · exact Alias.toZmk_two "&lt " "layer" "key" hold key rfl rfl (by decide) (by decide) (by decide)
  · refine ⟨_, rfl, rfl, rfl, rfl, fun hold key => ?_, fun _ hold key => ?_⟩
    · refine Eq.trans (Alias.toQmk_held "" "mod" "_T(" hold key rfl rfl (by decide) (by decide)) ?_
      rw [String.empty_append]
      rfl
    · exact Alias.toZmk_two "&mt " "mod" "key" hold key rfl rfl (by decide) (by decide) (by decide)

theorem exists_rule {v : Vocabulary} (isWrapper : wrapper ∈ holdTaps)
    (aliases : Reading.aliases Standard.aliasFile = .ok v.aliases) :
    ∃ rule, findAlias? v.aliases wrapper = some rule ∧ WritesHoldTap wrapper rule := by
  rw [← Except.ok.inj (Standard.aliases_eq_ok.symm.trans aliases)]
  exact standard_writes isWrapper

theorem plain_wrapper (isWrapper : wrapper ∈ holdTaps) :
    ':' ∉ wrapper.toList ∧ wrapper ≠ "sm" ∧ holdParameter wrapper ≠ "key" := by
  simp only [holdTaps, mem_cons, not_mem_nil, or_false] at isWrapper
  rcases isWrapper with rfl | rfl | rfl <;> decide

namespace Qmk

variable {v : Vocabulary}

theorem toList_withMagic (code : String) :
    (withMagic code).toList = Text.replaceFrom "KC_MAGIC".toList "QK_AREP".toList 0 code.toList := by
  rw [withMagic, Text.replace, if_neg (by decide), String.toList_ofList]

theorem withMagic_held (wrapper hold key : String) : withMagic (holdStart wrapper hold ++ "KC_" ++ key ++ ")") =
      holdTap wrapper hold (withMagic ("KC_" ++ key)) := by
  -- The start ends in a character that the name of the magic key lacks, and so does the whole code.
  obtain ⟨front, last, hs, h⟩ : ∃ front last, (holdStart wrapper hold).toList = front ++ [last] ∧
      last ∉ "KC_MAGIC".toList := by
    rw [holdStart]
    split
    · exact ⟨("LT(" ++ hold ++ ",").toList, ' ', by simp, by decide⟩
    · exact ⟨(hold ++ "_T").toList, '(', by simp, by decide⟩
  have cut (before after : List Char) {c : Char} (h : c ∉ "KC_MAGIC".toList) :=
    @Text.replaceFrom_append_cons "KC_MAGIC".toList "QK_AREP".toList before after c 0 (by decide) h
      (Nat.zero_le _)
  have hw : (holdStart wrapper hold ++ "KC_" ++ key ++ ")").toList =
      front ++ last :: (("KC_" ++ key).toList ++ ')' :: []) := by
    simp [hs]
  apply String.toList_inj.mp
  rw [toList_withMagic, hw, cut _ _ h, cut _ _ (by decide), ← toList_withMagic, holdTap,
    String.toList_append, String.toList_append, toList_withMagic (holdStart wrapper hold), hs, cut _ _ h]
  simp [Text.replaceFrom]

theorem composite_of_rule {key wrapper : String} {arguments : List String} {rule : Alias}
    (hp : Vocabulary.parts key = wrapper :: arguments) (hm : wrapper ≠ "sm")
    (found : findAlias? v.aliases wrapper = some rule) (hs : rule.supports "qmk" = .ok true) :
    composite v key = (do
      Vocabulary.checkCount rule wrapper arguments
      let args ← rule.argumentsFor arguments fun _ said => .ok (.text said)
      return .text (← rule.toQmk args)) := by
  unfold composite
  rw [hp]
  split
  · rename_i h
    exact absurd (cons.inj h).1 hm
  · rename_i h
    exact absurd (cons.inj h).1 hm
  · rename_i h
    cases h
    simp only [found, hs, ok_bind, Bool.not_true, Bool.false_eq_true, if_false]
  · rename_i h
    cases h

theorem value_held {wrapper hold key : String}
    (unlisted : v.keycode? (Vocabulary.held wrapper hold key) = none) :
    value v (Vocabulary.held wrapper hold key) = composite v (Vocabulary.held wrapper hold key) := by
  rw [value, if_neg Vocabulary.held_ne_magic, unlisted]
  exact if_pos Vocabulary.isComposite_held

end Qmk

theorem Zmk.value_held {t : Encoder} {place : Place} {wrapper hold key : String}
    (unlisted : t.vocabulary.keycode? (Vocabulary.held wrapper hold key) = none) :
    value t place (Vocabulary.held wrapper hold key) =
      (composite t place (Vocabulary.held wrapper hold key)).map .text := by
  rw [value, if_neg Vocabulary.held_ne_magic, unlisted]
  exact if_pos Vocabulary.isComposite_held

section HoldTaps

open Vocabulary (held)

variable {t : Zmk.Encoder} {place : Zmk.Place} {hold key : String} {onLeft : Bool}

variable {entries : Entries}

section Written

variable (isWrapper : wrapper ∈ holdTaps) (writes : WritesHoldTap wrapper rule)
  (found : findAlias? t.vocabulary.aliases wrapper = some rule) (single : ':' ∉ hold.toList)
  (unlisted : t.vocabulary.keycode? (held wrapper hold key) = none)

include isWrapper writes found single unlisted

theorem value_held_colon (hc : ':' ∈ key.toList) (code : Document) :
    Qmk.value t.vocabulary (held wrapper hold key) ≠ .ok code := by
  obtain ⟨hpl, hm, -⟩ := plain_wrapper isWrapper
  obtain ⟨first, second, rest, hp⟩ := Text.splitChars_of_mem (· == ':') hc rfl
  have hcn : (hold :: Vocabulary.parts key).length ≠ 2 := by
    simp [Vocabulary.parts, Text.split, hp]
  intro h
  rw [Qmk.value_held unlisted,
    Qmk.composite_of_rule (Vocabulary.parts_held hpl single) hm found writes.qmk] at h
  obtain ⟨_, hct, -⟩ := bind_eq_ok.mp h
  exact hcn ((Zmk.checkCount_eq_ok writes.length).mp hct)

theorem qmk_value_held (h : ':' ∉ key.toList) : Qmk.value t.vocabulary (held wrapper hold key) =
      .ok (.text (Qmk.holdTap wrapper hold (Qmk.withMagic ("KC_" ++ key)))) := by
  obtain ⟨hp, hm, hk⟩ := plain_wrapper isWrapper
  rw [Qmk.value_held unlisted,
    Qmk.composite_of_rule (Vocabulary.parts_held_key hp single h) hm found writes.qmk,
    (Zmk.checkCount_eq_ok writes.length).mpr rfl, ok_bind, Alias.argumentsFor_two writes.params hk rfl rfl,
    ok_bind, writes.toQmk, Qmk.withMagic_held]
  rfl

theorem zmk_value_held (hc : ':' ∉ key.toList) (ho : key ≠ "MAGIC")
    (isHand : Zmk.isLeft t.layoutSize place.index = .ok onLeft) {tap : String}
    (ht : Zmk.keyArgument t place (.text key) = .ok (.text tap)) :
    Zmk.value t place (held wrapper hold key) = .ok (.text (Zmk.holdTap onLeft wrapper hold tap)) := by
  obtain ⟨hp, hm, hk⟩ := plain_wrapper isWrapper
  rw [Zmk.value_held unlisted,
    Zmk.composite_of_rule (Vocabulary.parts_held_key hp single hc) hm found writes.zmk,
    (Zmk.checkCount_eq_ok writes.length).mpr rfl, ok_bind]
  split
  · rename_i h
    exact absurd (cons.inj (cons.inj h).2).1 ho
  · rename_i h
    exact absurd (cons.inj (cons.inj h).2).1 ho
  · rw [Alias.argumentsFor_two writes.params hk (Zmk.argument_plain hk hold) ht, ok_bind]
    split
    · rename_i hhr
      subst hhr
      rw [Zmk.homeRowMod, isHand]
      rfl
    · rename_i hh
      rw [writes.toZmk hh, Zmk.holdTap, if_neg hh]
      rfl

end Written

def zmkCode (entries : Entries) : Document :=
  (entries.lookup (.word "zmk")).getD ""

/-- The tap of a hold-tap types the key that it names, and a key without a value for ZMK is left out. -/
structure TypesKey (t : Zmk.Encoder) (place : Zmk.Place) (onLeft : Bool) (wrapper hold key : String)
    (entries : Entries) : Prop where
  qmk : ∃ code, Qmk.value t.vocabulary key = .ok (.text code) ∧
    Qmk.value t.vocabulary (held wrapper hold key) = .ok (.text (Qmk.holdTap wrapper hold code))
  zmk : ∀ tap, Zmk.value t place key = .ok (.text ("&kp " ++ tap)) →
    Zmk.value t place (held wrapper hold key) = .ok (.text (Zmk.holdTap onLeft wrapper hold tap))
  unsupported : (zmkCode entries).isPresent = false →
    Zmk.value t place (held wrapper hold key) = .ok (.text "&none")

theorem keyArgument_listed (place : Zmk.Place)
    (hl : t.vocabulary.keycode? key = some (.record entries)) (ho : key ≠ "MAGIC") :
    Zmk.keyArgument t place (.text key) = (do
      if !(zmkCode entries).isPresent then return .text key
      let s ← (zmkCode entries).word "startswith"
      return .text (if Text.startsWith s "&kp " then Text.drop 4 s else s)) := by
  have hm : (Document.text key).isWord "MAGIC" = false := by simpa [Document.isWord] using ho
  rw [Zmk.keyArgument, hm, if_neg Bool.false_ne_true]
  have h : (Document.text key).asField = .ok (some (.word key)) := rfl
  rw [h, ok_bind, Option.bind_some, ← Vocabulary.keycode?, hl]
  rfl

/-- A key is typed by hold-taps exactly if its code for QMK is its own name behind a fixed start, it has a value
for ZMK, and its name has no colon. -/
theorem hold_tap_types_key_iff {entries : Entries} (isWrapper : wrapper ∈ holdTaps)
    (aliases : Reading.aliases Standard.aliasFile = .ok t.vocabulary.aliases) (single : ':' ∉ hold.toList)
    (listed : t.vocabulary.keycode? key = some (.record entries)) (other : key ≠ "MAGIC")
    (unlisted : t.vocabulary.keycode? (held wrapper hold key) = none)
    (isHand : Zmk.isLeft t.layoutSize place.index = .ok onLeft) :
    TypesKey t place onLeft wrapper hold key entries ↔
      ':' ∉ key.toList ∧ Qmk.value t.vocabulary key = .ok (.text (Qmk.withMagic ("KC_" ++ key))) ∧
        (zmkCode entries).isPresent = true := by
  obtain ⟨rule, found, writes⟩ := exists_rule isWrapper aliases
  have isArgument := keyArgument_listed place listed other
  constructor
  · intro types
    obtain ⟨code, isCode, isWhole⟩ := types.qmk
    have noColon : ':' ∉ key.toList := fun colon =>
      value_held_colon isWrapper writes found single unlisted colon _ isWhole
    rw [qmk_value_held isWrapper writes found single unlisted noColon] at isWhole
    have same : Qmk.withMagic ("KC_" ++ key) = code := by
      simpa [Qmk.holdTap] using Document.text.inj (Except.ok.inj isWhole)
    refine ⟨noColon, same ▸ isCode, ?_⟩
    by_contra absent
    have missing : (zmkCode entries).isPresent = false := by simpa using absent
    have isNone := types.unsupported missing
    rw [missing] at isArgument
    rw [zmk_value_held isWrapper writes found single unlisted noColon other isHand isArgument] at isNone
    have spaced : ' ' ∈ (Zmk.holdTap onLeft wrapper hold key).toList := by simp [Zmk.holdTap]
    rw [Document.text.inj (Except.ok.inj isNone)] at spaced
    exact absurd spaced (by decide)
  · rintro ⟨noColon, isCode, present⟩
    refine ⟨⟨_, isCode, qmk_value_held isWrapper writes found single unlisted noColon⟩, fun tap isTap => ?_,
      fun absent => absurd (present.symm.trans absent) (by decide)⟩
    apply zmk_value_held isWrapper writes found single unlisted noColon other isHand
    have isValue : zmkCode entries = .text ("&kp " ++ tap) := by
      rw [Zmk.value, if_neg other, listed] at isTap
      cases isZmk : entries.lookup (.word "zmk") with
      | none => simp [zmkCode, isZmk, Document.isPresent] at present
      | some d =>
        have isText : Zmk.supported d = .text ("&kp " ++ tap) := by
          simpa [Document.findD, Document.find, isZmk, ok_bind, ok_pure,
            Except.map] using isTap
        rw [zmkCode, isZmk, Option.getD_some] at present ⊢
        rwa [Zmk.supported, if_pos present] at isText
    have isDrop : Text.drop 4 ("&kp " ++ tap) = tap := by simp [Text.drop]
    have isStart : Text.startsWith ("&kp " ++ tap) "&kp " = true := by simp [Text.startsWith]
    rw [isArgument, present, isValue, Document.word]
    simp [isStart, isDrop, ok_pure, ok_bind]

def renamedKeys : Entries :=
  [(.word "NLCK", .record [(.word "qmk", "KC_NUM_LOCK"), (.word "zmk", "&kp KP_NUMLOCK")]),
   (.word "A", .record [(.word "qmk", "KC_A"), (.word "zmk", "&kp A")])]

def renamingEncoder : Zmk.Encoder where
  vocabulary := ⟨Standard.behaviors.map Standard.ruleOf, renamedKeys⟩
  layoutSize := .split36

theorem renamed_key_mistyped : ¬ TypesKey renamingEncoder {} true "lt" "NAV" "NLCK"
        [(.word "qmk", "KC_NUM_LOCK"), (.word "zmk", "&kp KP_NUMLOCK")] ∧
      TypesKey renamingEncoder {} true "lt" "NAV" "A" [(.word "qmk", "KC_A"), (.word "zmk", "&kp A")] := by
  rw [hold_tap_types_key_iff (by decide) Standard.aliases_eq_ok (by decide) (by rfl) (by decide) (by rfl) (by rfl),
    hold_tap_types_key_iff (by decide) Standard.aliases_eq_ok (by decide) (by rfl) (by decide) (by rfl) (by rfl)]
  have asNamed : Qmk.value renamingEncoder.vocabulary "A" = .ok (.text (Qmk.withMagic "KC_A")) := by rfl
  refine ⟨?_, by decide, asNamed, by rfl⟩
  rintro ⟨-, isCode, -⟩
  have isName : Qmk.value renamingEncoder.vocabulary "NLCK" = .ok (.text "KC_NUM_LOCK") := by rfl
  rw [isName] at isCode
  exact absurd (Document.text.inj (Except.ok.inj isCode)) (by decide)

end HoldTaps

namespace Zmk

open Vocabulary (held)

variable {t : Encoder} {name : String} {i : Document} {hold : String}

/-- The magic key inside a hold-tap is the one that the layer has alone. -/
structure MeansMagic (t : Encoder) (place : Place) (wrapper hold : String) : Prop where
  same : ∀ label, value t place "MAGIC" = .ok (.text ("&ak_" ++ label)) →
    value t place (held wrapper hold "MAGIC") = .ok (.text s!"&{wrapper}_ak_{label} {hold} 0")
  none : value t place "MAGIC" = .ok (.text "&none") →
    value t place (held wrapper hold "MAGIC") = .ok (.text "&none")

theorem value_held_magic (name : String) (i : Document) (isWrapper : wrapper = "lt" ∨ wrapper = "mt")
    (found : findAlias? t.vocabulary.aliases wrapper = some rule) (h : rule.params.length = .ok 2)
    (hs : rule.supports "zmk" = .ok true) (single : ':' ∉ hold.toList)
    (unlisted : t.vocabulary.keycode? (held wrapper hold "MAGIC") = none) :
    value t ⟨.text name, i⟩ (held wrapper hold "MAGIC") = (magicTap t ⟨.text name, i⟩ wrapper hold).map .text := by
  obtain ⟨hp, hm⟩ : ':' ∉ wrapper.toList ∧ wrapper ≠ "sm" := by
    rcases isWrapper with rfl | rfl <;> decide
  rw [value_held unlisted, composite_of_rule (Vocabulary.parts_held_key hp single (by decide)) hm found hs,
    (checkCount_eq_ok h).mpr rfl, ok_bind]
  rcases isWrapper with rfl | rfl <;> rfl

theorem magic_same_inside_hold_tap_iff {rule : Alias} (isWrapper : wrapper = "lt" ∨ wrapper = "mt")
    (found : findAlias? t.vocabulary.aliases wrapper = some rule) (count : rule.params.length = .ok 2)
    (supported : rule.supports "zmk" = .ok true) (single : ':' ∉ hold.toList)
    (unlisted : t.vocabulary.keycode? (held wrapper hold "MAGIC") = none) :
    MeansMagic t ⟨.text name, i⟩ wrapper hold ↔ ∀ base, ¬ FallsBack t name base := by
  have isTap := value_held_magic name i isWrapper found count supported single unlisted
  rw [magicTap_text] at isTap
  have isKey (label : String) : value t ⟨.text name, i⟩ "MAGIC" = .ok (.text ("&ak_" ++ label)) ↔
      ∃ base, label = familyLabel base ∧ (mappedBase? t name = some base ∨ FallsBack t name base) := by
    rw [← magicKey_eq_ok, value, if_pos rfl, map_eq_ok]
    simp
  constructor
  · intro means base falls
    have isSame := means.same _ ((isKey _).mpr ⟨base, rfl, .inr falls⟩)
    have unmapped : mappedBase? t name = none := by rw [mappedBase?, falls.1]; rfl
    rw [isTap, unmapped] at isSame
    exact tap_ne_none isWrapper _ _ (Document.text.inj (Except.ok.inj isSame)).symm
  · intro own
    constructor
    · intro label isLabel
      obtain ⟨base, rfl, mapped | falls⟩ := (isKey label).mp isLabel
      · rw [isTap, mapped]
        rfl
      · exact absurd falls (own base)
    · intro isNone
      cases mapped : mappedBase? t name with
      | none =>
        rw [isTap, mapped]
        rfl
      | some base =>
        rw [(isKey _).mpr ⟨base, rfl, .inl mapped⟩] at isNone
        have same := congrArg (fun s => s.toList[1]?) (Document.text.inj (Except.ok.inj isNone))
        simp at same

def overlayEncoder : Encoder where
  vocabulary := { aliases := Standard.behaviors.map Standard.ruleOf }
  magic := some [⟨"BASE_NIGHT", .whole 150, .record [(.word "A", "E")], "REPEAT"⟩]

/-- The layer has the magic key of the night alone, and none inside a hold-tap. -/
theorem magic_lost_inside_hold_tap :
    value overlayEncoder ⟨.text "NAV", .whole 0⟩ "MAGIC" = .ok (.text "&ak_night") ∧
      ¬ MeansMagic overlayEncoder ⟨.text "NAV", .whole 0⟩ "lt" "NUM" ∧
      MeansMagic overlayEncoder ⟨.text "NAV_NIGHT", .whole 0⟩ "lt" "NUM" := by
  have isKey : magicKey overlayEncoder (.text "NAV") = .ok "&ak_night" := by decide +kernel
  refine ⟨by rw [value, if_pos rfl, isKey]; rfl, ?_⟩
  rw [magic_same_inside_hold_tap_iff (.inl rfl) rfl rfl rfl (by decide) rfl,
    magic_same_inside_hold_tap_iff (.inl rfl) rfl rfl rfl (by decide) rfl]
  have noFamily : familyBase? overlayEncoder.magic "NAV" = none := by decide +kernel
  have isFamily : familyBase? overlayEncoder.magic "NAV_NIGHT" = some "BASE_NIGHT" := by decide +kernel
  constructor
  · exact fun own => own "BASE_NIGHT" ⟨noFamily, by decide, _, _, rfl, rfl⟩
  · rintro base ⟨none, -⟩
    rw [isFamily] at none
    cases none

end Zmk

end Keymap
