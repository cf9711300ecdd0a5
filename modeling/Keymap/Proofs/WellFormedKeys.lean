import Keymap.Proofs.Aliases
import Keymap.Proofs.MagicFamilies
import Keymap.Proofs.PaddedKeys

namespace Keymap

open List

variable {names arguments : List String} {args : Arguments}

namespace Vocabulary

variable {key name : String} {rule : Alias}

/-- Tables that say something for a firmware: entries are records with texts, aliases can be written out,
and the two aliases that are treated on their own have their parameters. -/
structure Sound (v : Vocabulary) (dialect : String) : Prop where
  entries : ∀ e ∈ v.keycodes, ∃ fields, e.2 = .record fields ∧
    ∀ d, fields.lookup (.word dialect) = some d → ∃ text, d = .text text
  aliases : ∀ rule ∈ v.aliases, ∃ names, rule.Declares names
  hrm : ∀ rule names, findAlias? v.aliases "hrm" = some rule → rule.Declares names →
    "mod" ∈ names ∧ "key" ∈ names
  sm : ∃ rule, findAlias? v.aliases "sm" = some rule ∧ rule.params.length = .ok 2 ∧
    rule.supports dialect = .ok true

/-- A key with a colon fits its alias, if that is an alias that the firmware supports. -/
def FitsAlias (v : Vocabulary) (dialect : String) (isModifier : String → Prop) (key : String) : Prop :=
  ':' ∈ key.toList → ∀ name arguments rule, parts key = name :: arguments →
    findAlias? v.aliases name = some rule → rule.supports dialect = .ok true →
    rule.params.length = .ok arguments.length ∧
      (name = "hrm" → ∃ modifier ∈ arguments.head?, isModifier modifier)

def IsKnown (v : Vocabulary) (key : String) : Prop :=
  ':' ∉ key.toList → key = "MAGIC" ∨ ∃ entry, v.keycode? key = some entry

def WellFormed (v : Vocabulary) (dialect : String) (isModifier : String → Prop) (key : String) : Prop :=
  v.FitsAlias dialect isModifier key ∧ v.IsKnown key

theorem isComposite_iff : isComposite key ↔ ':' ∈ key.toList :=
  contains_iff_mem

variable {v : Vocabulary} {dialect : String}

theorem Sound.declares (sound : v.Sound dialect) (h : findAlias? v.aliases name = some rule) :
    ∃ names, rule.Declares names :=
  sound.aliases rule (mem_of_find?_eq_some h)

theorem Sound.supports_ok (sound : v.Sound dialect) (hf : findAlias? v.aliases name = some rule) :
    ∃ answer, rule.supports dialect = .ok answer := by
  obtain ⟨names, h⟩ := sound.declares hf
  exact h.supports_ok dialect

theorem Sound.findD_ok (sound : v.Sound dialect) {name : Field} {entry default : Document}
    (hf : v.keycodes.lookup name = some entry) (ht : ∃ text, default = .text text) :
    ∃ text, entry.findD (.word dialect) default = .ok (.text text) := by
  obtain ⟨fields, rfl, texts⟩ := sound.entries _ (mem_of_lookup hf)
  cases h : fields.lookup (.word dialect) with
  | none =>
    obtain ⟨text, rfl⟩ := ht
    exact ⟨text, by simp [Document.findD, Document.find, h, ok_bind, ok_pure]⟩
  | some d =>
    obtain ⟨text, rfl⟩ := texts d h
    exact ⟨text, by simp [Document.findD, Document.find, h, ok_bind, ok_pure]⟩

theorem fitsAlias_iff {isModifier : String → Prop} (composite : ':' ∈ key.toList)
    (isParts : parts key = name :: arguments) (h : findAlias? v.aliases name = some rule)
    (hs : rule.supports dialect = .ok true) :
    v.FitsAlias dialect isModifier key ↔ rule.params.length = .ok arguments.length ∧
      (name = "hrm" → ∃ modifier ∈ arguments.head?, isModifier modifier) := by
  constructor
  · exact fun fits => fits composite name arguments rule isParts h hs
  · intro fits _ name' arguments' rule' hp hf _
    obtain ⟨rfl, rfl⟩ := cons.inj (isParts.symm.trans hp)
    obtain rfl := Option.some.inj (h.symm.trans hf)
    exact fits

theorem Sound.supported_requires (sound : v.Sound dialect) {allowed : List String} {layer : String}
    (composite : isComposite key) (isParts : parts key = name :: arguments)
    (hf : findAlias? v.aliases name = some rule) (hs : rule.supports dialect = .ok true) :
    Requires (rule.params.length = .ok arguments.length ∧
        (name = "hrm" → ∃ modifier ∈ arguments.head?, modifier ∈ allowed))
      (v.checkBinding dialect (.ok allowed) layer key) fun _ => True := by
  obtain ⟨names, hd⟩ := sound.declares hf
  simp only [checkBinding, composite, isParts, hf, hs, hd.length, ok_bind,
    Bool.not_true, Bool.false_eq_true, if_false, bne_iff_ne, ne_eq]
  refine (Requires.check (p := name = "hrm" → ∃ modifier ∈ arguments.head?, modifier ∈ allowed)
    fun hc => ?_).congr (by rw [Except.ok.injEq, not_not, eq_comm])
  rw [not_not] at hc
  by_cases hh : name = "hrm"
  · subst hh
    obtain ⟨hm, -⟩ := sound.hrm rule names hf hd
    cases arguments with
    | nil =>
      -- The alias has parameters, so this number of arguments is refused before.
      have hn := length_eq_zero_iff.mp hc.symm
      simp [hn] at hm
    | cons modifier rest =>
      by_cases h : modifier ∈ allowed
      · exact (Requires.ok_of (a := ()) (by simp [h, ok_pure]) trivial).congr
          (by simp [h])
      · refine ⟨fun hhl => ?_, fun _ => ⟨_, by simp [h, invalid]; rfl⟩⟩
        simp [h] at hhl
  · exact (Requires.ok_of (a := ()) (by simp [hh, ok_pure]) trivial).congr
      (by simp [hh])

theorem Sound.checkBinding_requires (sound : v.Sound dialect) (allowed : List String) (layer key : String) :
    Requires (v.FitsAlias dialect (· ∈ allowed) key) (v.checkBinding dialect (.ok allowed) layer key)
      fun _ => True := by
  -- Without a supported alias there is nothing to fit, and the check passes.
  have hp : v.checkBinding dialect (.ok allowed) layer key = .ok () →
      v.FitsAlias dialect (· ∈ allowed) key →
      Requires (v.FitsAlias dialect (· ∈ allowed) key) (v.checkBinding dialect (.ok allowed) layer key)
        fun _ => True :=
    fun hd fits => (Requires.ok_of hd trivial).congr (by simp [fits])
  by_cases composite : isComposite key
  swap
  · refine hp ?_ fun hi => absurd (isComposite_iff.mpr hi) composite
    simp [checkBinding, composite, ok_pure]
  cases isParts : parts key with
  | nil =>
    refine hp ?_ fun _ name arguments rule ho => ?_
    · simp [checkBinding, composite, isParts, ok_pure]
    · cases isParts.symm.trans ho
  | cons name arguments =>
    cases h : findAlias? v.aliases name with
    | none =>
      refine hp ?_ fun _ name' arguments' rule hpr hf => ?_
      · simp [checkBinding, composite, isParts, h, ok_pure]
      · obtain ⟨rfl, -⟩ := cons.inj (isParts.symm.trans hpr)
        cases h.symm.trans hf
    | some rule =>
      obtain ⟨answer, ha⟩ := sound.supports_ok h
      cases answer with
      | false =>
        refine hp ?_ fun _ name' arguments' rule' hpr hf hs => ?_
        · simp [checkBinding, composite, isParts, h, ha, ok_pure, ok_bind]
        · obtain ⟨rfl, -⟩ := cons.inj (isParts.symm.trans hpr)
          obtain rfl := Option.some.inj (h.symm.trans hf)
          cases ha.symm.trans hs
      | true =>
        exact (sound.supported_requires composite isParts h ha).congr
          (fitsAlias_iff (isComposite_iff.mp composite) isParts h ha).symm

section Fitting

variable {isModifier : String → Prop} (composite : ':' ∈ key.toList)
  (fits : v.FitsAlias dialect isModifier key) (isParts : parts key = name :: arguments)

include composite fits isParts

theorem Sound.counted (sound : v.Sound dialect) (hf : findAlias? v.aliases name = some rule)
    (hs : rule.supports dialect = .ok true) : checkCount rule name arguments = .ok () ∧
      ∃ names, rule.Declares names ∧ arguments.length = names.length := by
  have h := (fits composite name arguments rule isParts hf hs).1
  refine ⟨by simp [checkCount, h, ok_bind, ok_pure], ?_⟩
  obtain ⟨names, hd⟩ := sound.declares hf
  rw [hd.length, Except.ok.injEq] at h
  exact ⟨names, hd, h.symm⟩

theorem Sound.morph_arguments (sound : v.Sound dialect) (hm : name = "sm") :
    ∃ base shifted, arguments = [base, shifted] := by
  subst hm
  obtain ⟨rule, hf, two, hs⟩ := sound.sm
  have h := (fits composite "sm" arguments rule isParts hf hs).1
  exact length_eq_two.mp (Except.ok.inj (h.symm.trans two))

end Fitting

theorem isKnown_requires {magic composite : Result Document} {ofEntry : Document → Result Document}
    (ofMagic : ∃ d, magic = .ok d) (ht : ∀ entry, v.keycode? key = some entry → ∃ d, ofEntry entry = .ok d)
    (ha : ':' ∈ key.toList → ∃ d, composite = .ok d) :
    Requires (v.IsKnown key) (if key = "MAGIC" then magic else
      match v.keycode? key with
      | some entry => ofEntry entry
      | none => if isComposite key then composite else .error (unknownKey key)) fun _ => True := by
  by_cases hm : key = "MAGIC"
  · rw [if_pos hm]
    obtain ⟨d, h⟩ := ofMagic
    exact (Requires.ok_of h trivial).congr (by simp [IsKnown, hm])
  · rw [if_neg hm]
    cases hf : v.keycode? key with
    | some entry =>
      obtain ⟨d, h⟩ := ht entry hf
      exact (Requires.ok_of h trivial).congr (by simp [IsKnown, hf])
    | none =>
      by_cases hi : ':' ∈ key.toList
      · obtain ⟨d, h⟩ := ha hi
        rw [if_pos (isComposite_iff.mpr hi)]
        exact (Requires.ok_of h trivial).congr (by simp [IsKnown, hi])
      · rw [if_neg fun composite => hi (isComposite_iff.mp composite)]
        refine ⟨fun hk => ?_, fun _ => ⟨_, rfl⟩⟩
        simp [IsKnown, hi, hm, hf] at hk

end Vocabulary

open Vocabulary (Sound FitsAlias IsKnown)

namespace Qmk

variable {v : Vocabulary} {isModifier : String → Prop} {key : String}

theorem composite_ok (sound : v.Sound "qmk") (hc : ':' ∈ key.toList)
    (fits : v.FitsAlias "qmk" isModifier key) : ∃ d, composite v key = .ok d := by
  unfold composite
  split
  · rename_i base shifted isParts
    cases h : v.keycode? base with
    | none => exact ⟨.text ("KC_" ++ base), by simp only [morphBase, h]⟩
    | some entry =>
      obtain ⟨text, ht⟩ := sound.findD_ok h ⟨"KC_" ++ base, rfl⟩
      exact ⟨_, by simp only [morphBase, h]; exact ht⟩
  · rename_i arguments ho isParts
    obtain ⟨base, shifted, rfl⟩ := sound.morph_arguments hc fits isParts rfl
    exact (ho base shifted rfl).elim
  · rename_i name arguments _ _ isParts
    cases h : findAlias? v.aliases name with
    | none => exact ⟨_, rfl⟩
    | some rule =>
      obtain ⟨answer, ha⟩ := sound.supports_ok h
      cases answer with
      | false => exact ⟨"KC_NO", by simp [ha, ok_bind, ok_pure]⟩
      | true =>
        obtain ⟨hct, names, hd, hcn⟩ := sound.counted hc fits isParts h ha
        obtain ⟨args, har, hf⟩ := Alias.argumentsFor_ok hd hcn
          (fun _ said => .ok (.text said)) fun _ _ said _ => ⟨.text said, rfl⟩
        obtain ⟨text, ht⟩ := Alias.toQmk_ok hd hf
        exact ⟨.text text, by simp [ha, hct, har, ht, ok_bind, ok_pure]⟩
  · exact ⟨_, rfl⟩

theorem value_requires (sound : v.Sound "qmk") (fits : v.FitsAlias "qmk" isModifier key) :
    Requires (v.IsKnown key) (value v key) fun _ => True := by
  refine Vocabulary.isKnown_requires ⟨_, rfl⟩ (fun entry h => ?_) fun hi => ?_
  · obtain ⟨text, ht⟩ := sound.findD_ok h ⟨"KC_NO", rfl⟩
    exact ⟨supported (.text text), map_eq_ok.mpr ⟨_, ht, rfl⟩⟩
  · exact composite_ok sound hi fits

end Qmk

namespace Zmk

def NamedMagic (t : Encoder) : Prop :=
  ∀ config, t.magic = some config → ∀ m ∈ config, ∃ name, m.baseLayer = .text name

variable {t : Encoder} {place : Place}

section Magic

variable (named : NamedMagic t) (isLayer : place.layer = .null ∨ ∃ name, place.layer = .text name)

include isLayer

theorem baseLayer?_ok (magic : Option MagicConfig) : ∃ found, baseLayer? magic place.layer = .ok found := by
  rcases isLayer with h | ⟨name, ht⟩
  · exact ⟨none, by rw [h]; rfl⟩
  · exact ⟨_, by rw [ht, baseLayer?_text]⟩

theorem magicTap_ok (wrapper hold : String) : ∃ text, magicTap t place wrapper hold = .ok text := by
  obtain ⟨found, h⟩ := baseLayer?_ok isLayer t.magic
  unfold magicTap
  rw [h, ok_bind]
  split <;> exact ⟨_, rfl⟩

include named

theorem magicKey_ok : ∃ text, magicKey t place.layer = .ok text := by
  have h : ∃ base, magicBase? t place.layer = .ok base ∧
      ∀ d, base = some d → ∃ name, d = .text name := by
    obtain ⟨found, hf⟩ := baseLayer?_ok isLayer t.magic
    unfold magicBase?
    cases hm : t.magic with
    | none => exact ⟨none, rfl, fun d none => nomatch none⟩
    | some config =>
      rw [hm] at hf
      simp only [hf, ok_bind]
      refine ⟨_, rfl, fun d hs => ?_⟩
      obtain ⟨hb, hs⟩ := Option.ite_none_right_eq_some.mp hs
      obtain rfl := Option.some.inj hs
      cases found with
      | some base => exact ⟨base, rfl⟩
      | none =>
        cases config with
        | nil => simp [Document.isPresent] at hb
        | cons first rest =>
          obtain ⟨name, hn⟩ := named _ hm first mem_cons_self
          exact ⟨name, by simpa using hn⟩
  obtain ⟨base, h, ht⟩ := h
  unfold magicKey
  rw [h, ok_bind]
  cases base with
  | none => exact ⟨_, rfl⟩
  | some d =>
    obtain ⟨name, rfl⟩ := ht d rfl
    exact ⟨_, rfl⟩

end Magic

section Composite

variable (named : NamedMagic t) (sound : t.vocabulary.Sound "zmk")
  (isLayer : place.layer = .null ∨ ∃ name, place.layer = .text name)

include named sound isLayer

theorem argument_ok (param said : String) : ∃ d, argument t place (.text param) said = .ok d := by
  unfold argument
  split
  · unfold keyArgument
    split
    · obtain ⟨text, h⟩ := magicKey_ok named isLayer
      exact ⟨_, by rw [h, ok_bind]; rfl⟩
    · simp only [Document.asField, Field.ofDocument?, ok_bind, Option.bind_some]
      cases hf : t.vocabulary.keycodes.lookup (.word said) with
      | none => exact ⟨_, rfl⟩
      | some entry =>
        obtain ⟨text, h⟩ := sound.findD_ok hf ⟨"", rfl⟩
        have ht : entry.findD "zmk" "" = .ok (.text text) := h
        simp only [ht, ok_bind]
        split
        · exact ⟨_, rfl⟩
        · exact ⟨_, rfl⟩
  · exact ⟨_, rfl⟩

end Composite

theorem argumentNamed_ok (hf : args.For names) {name : String} (hm : name ∈ names) :
    ∃ d, argumentNamed args name = .ok d := by
  obtain ⟨d, hg⟩ := hf.given name hm
  unfold argumentNamed
  split
  · exact ⟨_, rfl⟩
  · rename_i h
    have ho := find?_eq_none.mp h _ hg
    simp [Document.isWord] at ho

theorem homeRowMod_ok (hf : args.For names) (hm : "mod" ∈ names) (h : "key" ∈ names) {i : Nat}
    (index : place.index = .whole i) : ∃ text, homeRowMod t place args = .ok text := by
  obtain ⟨mod, hm⟩ := argumentNamed_ok hf hm
  obtain ⟨key, h⟩ := argumentNamed_ok hf h
  have hh : isLeft t.layoutSize (.whole i) = .ok (isLeftOf t.layoutSize (.whole i)) := rfl
  exact ⟨_, by rw [homeRowMod, index, hh, ok_bind, hm, ok_bind, h, ok_bind]; rfl⟩

section Value

variable {key : String} {isModifier : String → Prop} {i : Nat} (named : NamedMagic t)
  (sound : t.vocabulary.Sound "zmk") (isLayer : place.layer = .null ∨ ∃ name, place.layer = .text name)
  (index : place.index = .whole i) (fits : t.vocabulary.FitsAlias "zmk" isModifier key)

include named sound isLayer index fits

theorem composite_ok (hc : ':' ∈ key.toList) : ∃ text, composite t place key = .ok text := by
  unfold composite
  split
  · exact ⟨_, rfl⟩
  · rename_i arguments ho isParts
    obtain ⟨base, shifted, rfl⟩ := sound.morph_arguments hc fits isParts rfl
    exact (ho base shifted rfl).elim
  · rename_i name arguments _ _ isParts
    cases hf : findAlias? t.vocabulary.aliases name with
    | none => exact ⟨_, rfl⟩
    | some rule =>
      obtain ⟨answer, ha⟩ := sound.supports_ok hf
      cases answer with
      | false => exact ⟨"&none", by simp [ha, ok_bind, ok_pure]⟩
      | true =>
        obtain ⟨hct, names, h, hcn⟩ := sound.counted hc fits isParts hf ha
        obtain ⟨args, har, hfr⟩ := Alias.argumentsFor_ok h hcn (argument t place)
          fun param _ said _ => argument_ok named sound isLayer param said
        obtain ⟨text, ht⟩ := Alias.toZmk_ok h hfr
        simp only [ha, hct, ok_bind, Bool.not_true, Bool.false_eq_true, if_false]
        split
        · exact magicTap_ok isLayer _ _
        · exact magicTap_ok isLayer _ _
        · simp only [har, ok_bind]
          split
          · rename_i hh
            subst hh
            obtain ⟨hm, hk⟩ := sound.hrm rule names hf h
            exact homeRowMod_ok hfr hm hk index
          · exact ⟨text, ht⟩
  · exact ⟨_, rfl⟩

theorem value_requires : Requires (t.vocabulary.IsKnown key) (value t place key) fun _ => True := by
  refine Vocabulary.isKnown_requires ?_ (fun entry hf => ?_) fun hi => ?_
  · obtain ⟨text, h⟩ := magicKey_ok named isLayer
    exact ⟨.text text, map_eq_ok.mpr ⟨_, h, rfl⟩⟩
  · obtain ⟨text, h⟩ := sound.findD_ok hf ⟨"&none", rfl⟩
    exact ⟨supported (.text text), map_eq_ok.mpr ⟨_, h, rfl⟩⟩
  · obtain ⟨text, h⟩ := composite_ok named sound isLayer index fits hi
    exact ⟨.text text, map_eq_ok.mpr ⟨_, h, rfl⟩⟩

end Value

end Zmk

theorem Qmk.modifiers_ok {v : Vocabulary} (words : ∀ e ∈ v.keycodes, ∃ name, e.1 = .word name) :
    ∃ allowed, modifiers v = .ok allowed ∧
      ∀ m, m ∈ allowed ↔ (∃ entry, (.word m, entry) ∈ v.keycodes) ∧ isModifier m := by
  let names := v.keycodes.map fun e => e.1.text
  refine ⟨names.filter isModifier, ?_, fun m => ?_⟩
  · refine bind_eq_ok.mpr ⟨names, mapM_eq_ok.mpr (forall₂_map_right_iff.mpr
      (forall₂_same.mpr fun e h => ?_)), rfl⟩
    obtain ⟨name, hw⟩ := words e h
    simp [hw, Field.text]
  · rw [mem_filter, mem_map]
    refine and_congr_left fun _ => ⟨?_, fun ⟨entry, h⟩ => ⟨_, h, rfl⟩⟩
    rintro ⟨e, h, rfl⟩
    obtain ⟨name, hw⟩ := words e h
    have hs : (Field.word e.1.text, e.2) = e := Prod.ext (by simp [hw, Field.text]) rfl
    exact ⟨e.2, by rwa [hs]⟩

def Board.dialect (board : Board) : String :=
  if board.firmware.isQmk then "qmk" else "zmk"

namespace Compiler

def vocabularyFor (c : Compiler) (board : Board) : Vocabulary :=
  if board.firmware.isQmk then c.qmk else c.zmk.vocabulary

def IsModifierFor (c : Compiler) (board : Board) (name : String) : Prop :=
  if board.firmware.isQmk then
    (∃ entry, (.word name, entry) ∈ c.qmk.keycodes) ∧ Qmk.isModifier name = true
  else name ∈ Zmk.modifiers

structure SoundFor (c : Compiler) (board : Board) : Prop where
  vocabulary : (c.vocabularyFor board).Sound board.dialect
  words : board.firmware.isQmk = true → ∀ e ∈ c.qmk.keycodes, ∃ name, e.1 = .word name
  magic : board.firmware.isQmk = false → Zmk.NamedMagic c.zmk

def WellFormedFor (c : Compiler) (board : Board) (key : String) : Prop :=
  (c.vocabularyFor board).WellFormed board.dialect (c.IsModifierFor board) key

variable {c : Compiler} {board : Board}

theorem SoundFor.checkAt_requires (sound : c.SoundFor board) (title key : String) :
    Requires ((c.vocabularyFor board).FitsAlias board.dialect (c.IsModifierFor board) key)
      (c.checkAt board title key) fun _ => True := by
  obtain ⟨vocabulary, hw, -⟩ := sound
  unfold vocabularyFor IsModifierFor checkAt Board.dialect at *
  cases h : board.firmware.isQmk with
  | true =>
    simp only [h, if_true] at vocabulary ⊢
    obtain ⟨allowed, ha, hs⟩ := Qmk.modifiers_ok (hw h)
    have hc := vocabulary.checkBinding_requires allowed title key
    simp only [← ha, hs] at hc
    exact hc
  | false =>
    simp only [h, Bool.false_eq_true, if_false] at vocabulary ⊢
    exact vocabulary.checkBinding_requires Zmk.modifiers title key

theorem SoundFor.valueAt_requires (sound : c.SoundFor board) {layer : Document}
    (isLayer : ∃ name, layer = .text name) {key : String} (i : Nat)
    (fits : (c.vocabularyFor board).FitsAlias board.dialect (c.IsModifierFor board) key) :
    Requires ((c.vocabularyFor board).IsKnown key) (c.valueAt board layer i key) fun _ => True := by
  obtain ⟨vocabulary, -, hm⟩ := sound
  unfold vocabularyFor valueAt Board.dialect at *
  cases h : board.firmware.isQmk with
  | true =>
    simp only [h, if_true] at vocabulary fits ⊢
    exact Qmk.value_requires vocabulary fits
  | false =>
    simp only [h, Bool.false_eq_true, if_false] at vocabulary fits ⊢
    refine Zmk.value_requires (hm h) vocabulary ?_ rfl fits
    cases board.firmware.isZmk with
    | true => exact .inr isLayer
    | false => exact .inl rfl

def homeRowRule : Alias where
  name := "hrm"
  description := "home-row mod"
  params := .list ["mod", "key"]
  qmkPattern := "\x7bmod\x7d_T(KC_\x7bkey\x7d)"
  zmkPattern := "&hrm \x7bmod\x7d \x7bkey\x7d"

def morphRule : Alias where
  name := "sm"
  description := "shift morph"
  params := .list ["base", "shifted"]
  qmkPattern := "\x7bbase\x7d"
  zmkPattern := "&sm_\x7bbase\x7d_\x7bshifted\x7d"

def homeRowVocabulary (others : Entries) : Vocabulary where
  aliases := [homeRowRule, morphRule]
  keycodes := ("NONE", .record [("qmk", "KC_NO")]) :: ("LGUI", .record [("qmk", "KC_LGUI")]) :: others

theorem homeRowRule_declares : homeRowRule.Declares ["mod", "key"] where
  params := rfl
  plain := by decide
  support := ⟨_, rfl⟩
  qmk := ⟨_, rfl, by decide⟩
  zmk := ⟨_, rfl, by decide⟩

theorem morphRule_declares : morphRule.Declares ["base", "shifted"] where
  params := rfl
  plain := by decide
  support := ⟨_, rfl⟩
  qmk := ⟨_, rfl, by decide⟩
  zmk := ⟨_, rfl, by decide⟩

theorem homeRowVocabulary_sound {others : Entries} (entries : ∀ e ∈ others, ∃ fields,
      e.2 = .record fields ∧ ∀ d, fields.lookup (.word "qmk") = some d → ∃ text, d = .text text) :
    (homeRowVocabulary others).Sound "qmk" where
  entries := by
    intro e hm
    simp only [homeRowVocabulary, mem_cons] at hm
    rcases hm with rfl | rfl | ho
    · exact ⟨_, rfl, fun d h => ⟨"KC_NO", (Option.some.inj h).symm⟩⟩
    · exact ⟨_, rfl, fun d h => ⟨"KC_LGUI", (Option.some.inj h).symm⟩⟩
    · exact entries e ho
  aliases := by
    intro rule hm
    simp only [homeRowVocabulary, mem_cons, not_mem_nil, or_false] at hm
    rcases hm with rfl | rfl
    · exact ⟨_, homeRowRule_declares⟩
    · exact ⟨_, morphRule_declares⟩
  hrm := by
    intro rule names h hd
    obtain rfl := Option.some.inj (h : some homeRowRule = some rule)
    have hs : names.map Document.text = ["mod", "key"].map Document.text :=
      Document.list.inj (hd.params.symm.trans homeRowRule_declares.params)
    have texts : Function.Injective Document.text := fun _ _ hs => Document.text.inj hs
    rw [map_injective_iff.mpr texts hs]
    decide
  sm := ⟨morphRule, rfl, rfl, by decide⟩

def homeRowBoard : Board where
  id := "board"
  name := "Board"
  firmware := .qmk

def homeRowCompiler (others : Entries) : Compiler where
  qmk := homeRowVocabulary others

def homeRowKeys : List String :=
  "hrm:LGUI:NONE" :: List.replicate 35 "NONE"

theorem homeRowKeys_wellFormed (others : Entries) :
    ∀ key ∈ homeRowKeys, (homeRowCompiler others).WellFormedFor homeRowBoard key := by
  intro key hm
  rcases mem_cons.mp hm with rfl | hpl
  · constructor
    · intro _ name arguments rule isParts h hs
      have hp : Vocabulary.parts "hrm:LGUI:NONE" = ["hrm", "LGUI", "NONE"] := by decide
      obtain ⟨rfl, rfl⟩ := cons.inj (hp.symm.trans isParts)
      obtain rfl := Option.some.inj (h : some homeRowRule = some rule)
      refine ⟨rfl, fun _ => ⟨"LGUI", rfl, ?_⟩⟩
      exact ⟨⟨_, mem_cons_of_mem _ mem_cons_self⟩, by decide⟩
    · exact fun ho => absurd (by decide) ho
  · obtain rfl := eq_of_mem_replicate hpl
    constructor
    · exact fun hi => absurd hi (by decide)
    · exact fun _ => .inr ⟨_, rfl⟩

def homeRowDocument : Document :=
  .record [("layers", .record [("BASE", .record [("core", .list [.list (homeRowKeys.map .text)])])])]

def homeRowConfig : KeymapConfig :=
  (Reading.keymap homeRowDocument none).toOption.getD default

theorem homeRow_read : Reading.keymap homeRowDocument none = .ok homeRowConfig :=
  eq_ok_getD (by decide)

theorem homeRow_layer : ∃ layer ∈ homeRowConfig.layers, layer.fullLayout = none ∧
    Compile.keys layer homeRowBoard = .ok homeRowKeys := by
  have hf : homeRowConfig.layers.map (·.fullLayout) = [none] := by decide
  have hk : homeRowConfig.layers.map (fun l => (Compile.keys l homeRowBoard).toOption) =
      [some homeRowKeys] := by decide
  obtain ⟨layer, h, hfl⟩ := map_eq_singleton_iff.mp hf
  rw [h, map_singleton, cons.injEq] at hk
  exact ⟨layer, by simp [h], hfl, eq_ok_of_toOption hk.1⟩

end Compiler

end Keymap
