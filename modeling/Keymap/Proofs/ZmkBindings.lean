import Keymap.Proofs.Templates
import Keymap.Proofs.ZmkSections

namespace Keymap

open Devicetree List

variable {rule : Alias} {key : String}

/-- Writing out an alias refers to no generated label but those that its arguments refer to. -/
def Alias.Faithful (rule : Alias) : Prop :=
  ∀ args, Yields (rule.toZmk args) fun text => ∀ name ∈ references text,
    Zmk.isGenerated name = false ∨ ∃ arg ∈ args, name ∈ references arg.2.toText

theorem Alias.faithful_of_written (start : List Char) (fields : List (List Char × List Char))
    (hp : rule.zmkPattern = .text (String.ofList (Template.written start fields)))
    (plain : Template.isWritten start fields) (apart : Template.isApart start fields)
    (ht : ∀ text ∈ start :: fields.map (·.2), Zmk.Plain (String.ofList text)) : rule.Faithful := by
  intro args
  refine Yields.bind (q := fun named : List (String × Document) =>
    ∀ arg ∈ named, ∃ arg' ∈ args, arg.2 = arg'.2) ?_ fun named hn => ?_
  · refine Yields.bind (q := fun named : List (String × Document) =>
      ∀ arg ∈ named, ∃ arg' ∈ args, arg.2 = arg'.2) ?_ fun named hn => ?_
    · refine .mapM_all fun arg h => ?_
      obtain ⟨name, value⟩ := arg
      cases name with
      | text s => exact .ok ⟨_, h, rfl⟩
      | null | flag _ | whole _ | decimal _ | list _ | record _ => exact .error
    · split
      · exact .bind .error fun _ ha => ha
      · exact .ok hn
  · refine Yields.trivial.bind fun supported _ => ?_
    split
    · rw [expand, hp]
      refine Template.expand_within plain apart (fun text h => ?_) fun arg h => ?_
      · exact (ht text h).mono fun name ho => .inl ho
      · obtain ⟨arg', inArgs, hs⟩ := hn arg h
        rw [hs]
        exact fun name refers => .inr ⟨arg', inArgs, refers⟩
    · exact .ok ((Zmk.plain_literal (by decide) : Zmk.Plain "&none").mono fun name ho => .inl ho)

namespace Zmk

variable {known : String → Prop} {t : Encoder} {args : Arguments}

structure EncoderClosed (known : String → Prop) (t : Encoder) : Prop where
  keycodes : TidyTable known t.vocabulary.keycodes
  aliases : ∀ rule ∈ t.vocabulary.aliases, rule.name ≠ .word "sm" → rule.Faithful
  magic : ∀ config, t.magic = some config → ∀ m ∈ config, MappingClosed known m

def ArgumentsWithin (known : String → Prop) (args : Arguments) : Prop :=
  ∀ arg ∈ args, Within known arg.2.toText

theorem mappingClosed_of_find? {config : MagicConfig}
    (closed : ∀ m ∈ config, MappingClosed known m) {base : String} (hf : (config.find? (.text base)).isSome) :
    Text.IsIdentifier base ∧ ∀ label ∈ magicLabels base, known label := by
  obtain ⟨m, hm⟩ := Option.isSome_iff_exists.mp hf
  have h := closed m (mem_of_find?_eq_some hm)
  have hb : m.title = base := by
    have hs := find?_some hm
    rw [MagicMapping.title, Document.eq_text_of_same hs]
    rfl
  rw [← hb]
  exact ⟨h.title, h.labels⟩

theorem put_within {name value : Document} (within : ArgumentsWithin known args)
    (hw : Within known value.toText) : Yields (Document.put name value args) (ArgumentsWithin known) := by
  refine Yields.trivial.bind fun _ _ => ?_
  split
  · refine .ok fun arg h => ?_
    obtain ⟨old, ha, rfl⟩ := mem_map.mp h
    split
    · exact hw
    · exact within old ha
  · refine .ok fun arg h => ?_
    rcases mem_append.mp h with old | new
    · exact within arg old
    · obtain rfl := mem_singleton.mp new
      exact hw

theorem argumentsFor_within {said : List String} {read : Document → String → Result Document}
    (he : ∀ param, ∀ text ∈ said, Yields (read param text) fun d => Within known d.toText) :
    Yields (rule.argumentsFor said read) (ArgumentsWithin known) := by
  refine Yields.trivial.bind fun params _ => ?_
  have hf : ∀ (pairs : List (Document × String)) (args : Arguments),
      (∀ p ∈ pairs, p.2 ∈ said) → ArgumentsWithin known args →
        Yields (pairs.foldlM (fun args (p : Document × String) => do
          Document.put p.1 (← read p.1 p.2) args) args) (ArgumentsWithin known) := by
    intro pairs
    induction pairs with
    | nil => exact fun args _ h => .ok h
    | cons p rest ih =>
      intro args hs h
      rw [foldlM_cons]
      refine Yields.bind (q := ArgumentsWithin known) ?_ fun args h =>
        ih args (fun p hl => hs p (mem_cons_of_mem _ hl)) h
      exact (he p.1 p.2 (hs p mem_cons_self)).bind fun d hw =>
        put_within h hw
  refine hf _ [] (fun p hm => (of_mem_zip hm).2) fun arg hn => ?_
  cases hn

theorem argumentNamed_within (hw : ArgumentsWithin known args) (name : String) :
    Yields (argumentNamed args name) fun d => Within known d.toText := by
  unfold argumentNamed
  split
  · rename_i param value h
    exact .ok (hw _ (mem_of_find?_eq_some h))
  · exact .error

theorem homeRowMod_within (hands : known "hml" ∧ known "hmr") (place : Place)
    (h : ArgumentsWithin known args) : Yields (homeRowMod t place args) (Within known) := by
  refine Yields.trivial.bind fun isLeft _ => ?_
  refine (argumentNamed_within h "mod").bind fun mod hm => ?_
  refine (argumentNamed_within h "key").bind fun key hk => .ok ?_
  have hb : Within known ("&" ++ if isLeft then "hml" else "hmr") := by
    split
    · exact within_ampersand (by decide) hands.1
    · exact within_ampersand (by decide) hands.2
  exact (hb.space hm).space hk

/-- A key text whose parts may stand in bindings: what it refers to is known, and if it asks for a
shift morph then that morph is known too. -/
structure KeyClosed (known : String → Prop) (v : Vocabulary) (key : String) : Prop where
  within : Within known key
  morph : ∀ plain shifted, v.shiftMorph? key = some (plain, shifted) →
    Text.IsIdentifier plain ∧ Text.IsIdentifier shifted ∧ known (morphLabel plain shifted)

theorem within_morph {plain shifted : String} (hp : Text.IsIdentifier plain)
    (hs : Text.IsIdentifier shifted) (hk : known (morphLabel plain shifted)) :
    Within known s!"&sm_{Text.lower plain}_{Text.lower shifted}" := by
  have h := within_ampersand (isIdentifier_morphLabel hp hs) hk
  simp only [morphLabel, ← String.append_assoc] at h
  exact h

theorem toZmk_within (base : KnowsOthers known) (h : rule.Faithful) (hw : ArgumentsWithin known args) :
    Yields (rule.toZmk args) (Within known) := by
  refine (h args).mono fun text refers name hm => ?_
  rcases refers name hm with hp | ⟨arg, har, ha⟩
  · exact base name hp
  · exact hw arg har name ha

section Keys

variable (base : KnowsOthers known) (hands : known "hml" ∧ known "hmr") (closed : EncoderClosed known t)
  (place : Place)

include base closed

theorem magicKey_within (layer : Document) : Yields (magicKey t layer) (Within known) := by
  refine Yields.bind (q := fun found => ∀ d, found = some d →
    ∃ config, t.magic = some config ∧ (config.find? d).isSome) ?_ fun found h => ?_
  · unfold magicBase?
    split
    · refine .ok fun d hnn => ?_
      cases hnn
    · rename_i config hm
      refine Yields.trivial.bind fun own _ => .ok fun d h => ?_
      obtain ⟨hb, h⟩ := Option.ite_none_right_eq_some.mp h
      rw [Option.some.inj h] at hb
      exact ⟨config, hm, (Bool.and_eq_true_iff.mp hb).2⟩
  · split
    · rename_i d
      refine (word_yields _ _).bind fun layer ht => .ok ?_
      obtain ⟨config, hm, found⟩ := h d rfl
      rw [ht] at found
      obtain ⟨hn, hk⟩ := mappingClosed_of_find? (closed.magic config hm) found
      have hl := (isIdentifier_magicLabels hn mem_cons_self).1
      have hw := within_ampersand hl (hk _ mem_cons_self)
      rwa [← String.append_assoc] at hw
    · exact .ok (within_literal base (by decide))

theorem magicTap_within {wrapper hold : String} (hw : wrapper ∈ ["lt", "mt"]) (within : Within known hold) :
    Yields (magicTap t place wrapper hold) (Within known) := by
  have hn : Within known "&none" := within_literal base (by decide)
  refine Yields.trivial.bind fun layer _ => ?_
  split
  · rename_i config own hmg
    refine .ok ?_
    split
    · rename_i hf
      obtain ⟨hnm, hk⟩ := mappingClosed_of_find? (closed.magic config hmg) hf
      have hm : wrapper ++ "_ak_" ++ familyLabel own ∈ magicLabels own := by
        simp only [mem_cons, not_mem_nil, or_false] at hw
        rcases hw with rfl | rfl <;> simp [magicLabels]
      have h := within_call (isIdentifier_magicLabels hnm hm).1 (hk _ hm) within
      simp only [← String.append_assoc] at h
      exact h
    · exact hn
  · exact .ok hn

theorem keyArgument_within {key : Document} (hw : Within known key.toText) :
    Yields (keyArgument t place key) fun d => Within known d.toText := by
  unfold keyArgument
  split
  · exact (magicKey_within base closed _).bind fun text h => .ok h
  · refine Yields.trivial.bind fun field _ => ?_
    split
    · exact .ok hw
    · rename_i entry hf
      refine (findD_yields entry "zmk" "").bind fun d hv => ?_
      split
      · exact .ok hw
      · rename_i hp
        refine (word_yields _ _).bind fun text htx => .ok ?_
        have h : Within known text := by
          rcases hv with rfl | hv
          · exact absurd rfl hp
          · obtain ⟨name, -, htb⟩ := Option.bind_eq_some_iff.mp hf
            have ht := closed.keycodes _ _ _ htb hv
            rw [htx] at ht
            exact ht.within
        change Within known (ite _ _ _)
        split
        · exact h.drop 4
        · exact h

theorem argument_within (param : Document) {said : String} (h : Within known said) :
    Yields (argument t place param said) fun d => Within known d.toText := by
  unfold argument
  split
  · exact keyArgument_within base closed place h
  · exact .ok h

include hands

theorem composite_within (notPlain : t.vocabulary.keycode? key = none)
    (hk : KeyClosed known t.vocabulary key) : Yields (composite t place key) (Within known) := by
  have none : Within known "&none" := within_literal base (by decide)
  have hp : ∀ part ∈ Vocabulary.parts key, Within known part :=
    fun part h => within_split hk.within h
  unfold composite
  split
  · rename_i plain shifted hm
    have ha : t.vocabulary.shiftMorph? key = some (plain, shifted) := by
      rw [Vocabulary.shiftMorph?, notPlain, hm]
      rfl
    obtain ⟨hpl, hsh, hkn⟩ := hk.morph plain shifted ha
    exact .ok (within_morph hpl hsh hkn)
  · exact .error
  · rename_i name arguments _ hn hal
    rw [hal] at hp
    have hs : ∀ text ∈ arguments, Within known text :=
      fun text h => hp text (mem_cons_of_mem _ h)
    split
    · exact .ok none
    · rename_i rule hf
      have hr : rule.name = .word name := by simpa using find?_some hf
      have hft : rule.Faithful := by
        refine closed.aliases rule (mem_of_find?_eq_some hf) fun hm => ?_
        rw [hr] at hm
        exact hn (Field.word.inj hm)
      refine Yields.trivial.bind fun supported _ => ?_
      split
      · exact .ok none
      · refine Yields.trivial.bind fun _ _ => ?_
        split
        · exact magicTap_within base closed place (by decide) (hs _ mem_cons_self)
        · exact magicTap_within base closed place (by decide) (hs _ mem_cons_self)
        · refine (argumentsFor_within fun param text h =>
            argument_within base closed place param (hs text h)).bind fun args hw => ?_
          split
          · exact homeRowMod_within hands place hw
          · exact toZmk_within base hft hw
  · exact .ok none

theorem value_within (hk : KeyClosed known t.vocabulary key) :
    Yields (value t place key) fun d => Within known d.toText := by
  have hn : Within known "&none" := within_literal base (by decide)
  unfold value
  split
  · exact .map (magicKey_within base closed _)
  · split
    · rename_i entry hf
      refine .map ((findD_yields entry "zmk" "&none").mono fun d h => ?_)
      unfold supported
      split
      · rcases h with rfl | h
        · exact hn
        · exact (closed.keycodes _ _ _ hf h).within
      · exact hn
    · rename_i hnp
      split
      · exact .map (composite_within base hands closed place hnp hk)
      · exact .error

end Keys

end Zmk

end Keymap
