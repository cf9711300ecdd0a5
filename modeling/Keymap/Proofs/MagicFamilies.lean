import Keymap.Proofs.Outcome
import Keymap.Proofs.Texts
import Keymap.Zmk.Encode

namespace Keymap

open List

namespace Text

variable {w first : Char} {old : List Char}

theorem findSplit_eq_some {c : Char} {cs before after : List Char} :
    findSplit [c] cs = some (before, after) ↔ c ∉ before ∧ cs = before ++ c :: after := by
  induction cs generalizing before after with
  | nil => simp [findSplit]
  | cons first rest ih =>
    by_cases h : c = first
    · subst h
      cases before with
      | nil => simp [findSplit]
      | cons d before =>
        simp only [findSplit, isPrefixOf, BEq.rfl, Bool.true_and, if_true]
        grind
    · have he : (c == first) = false := by simpa using h
      simp only [findSplit, isPrefixOf, he, Bool.false_and, Bool.false_eq_true, if_false,
        Option.map_eq_some_iff, Prod.exists, Prod.mk.injEq, ih]
      constructor
      · rintro ⟨before, after, ⟨ha, rfl⟩, rfl, rfl⟩
        simp [h, ha]
      · rintro ⟨ha, hw⟩
        cases before with
        | nil => exact absurd (cons.inj hw).1.symm h
        | cons d before =>
          obtain ⟨rfl, rfl⟩ := cons.inj hw
          exact ⟨before, after, ⟨fun hm => ha (mem_cons_of_mem _ hm), rfl⟩, rfl, rfl⟩

theorem count_replaceFrom (ho : w ∉ first :: old) (new : List Char) (skip : Nat) (cs : List Char) : ∃ times,
    (replaceFrom (first :: old) new skip cs).count w = (cs.drop skip).count w + times * new.count w := by
  induction cs generalizing skip with
  | nil => exact ⟨0, by cases skip <;> simp [replaceFrom]⟩
  | cons c cs ih =>
    cases skip with
    | succ skip => exact ih skip
    | zero =>
      rw [replaceFrom]
      split
      · rename_i hf
        obtain ⟨rest, hw⟩ := isPrefixOf_iff_prefix.mp hf
        have ht : cs.drop old.length = rest := by
          rw [← (cons.inj hw).2]
          exact drop_left
        obtain ⟨times, h⟩ := ih old.length
        refine ⟨times + 1, ?_⟩
        rw [count_append, length_cons, Nat.add_sub_cancel, h, ht, drop_zero, ← hw,
          count_append, count_eq_zero.mpr ho, Nat.add_mul]
        omega
      · obtain ⟨times, h⟩ := ih 0
        refine ⟨times, ?_⟩
        rw [count_cons, h, drop_zero, drop_zero, count_cons, Nat.add_right_comm]

theorem count_replaceFrom_nil (ho : w ∉ first :: old) (skip : Nat) (cs : List Char) :
    (replaceFrom (first :: old) [] skip cs).count w = (cs.drop skip).count w := by
  obtain ⟨times, h⟩ := count_replaceFrom ho [] skip cs
  rw [h, count_nil, Nat.mul_zero, Nat.add_zero]

theorem count_lowerWithin (before after : List Char) (c : Char) :
    (lowerWithin before c after).count 'w' = (lowerWithin [] c []).count 'w' := by
  by_cases h : c = 'Σ'
  · subst h
    simp only [lowerWithin]
    split
    · split <;> decide
    · contradiction
  · simp [lowerWithin, h]

theorem count_lowerChars (before cs : List Char) : (lowerChars before cs).count 'w' =
    (cs.flatMap fun c => lowerWithin [] c []).count 'w' := by
  induction cs generalizing before with
  | nil => rfl
  | cons c cs ih =>
    rw [lowerChars, count_append, ih, count_lowerWithin, flatMap_cons, count_append]

end Text

namespace Zmk

variable {name base : String} {t : Encoder}

theorem count_familyLabel (base : String) : (familyLabel base).toList.count 'w' =
    (base.toList.flatMap fun c => Text.lowerWithin [] c []).count 'w' := by
  have h : 'w' ∉ 'b' :: ['a', 's', 'e', '_'] := by decide
  change (String.ofList (Text.replaceFrom ['b', 'a', 's', 'e', '_'] [] 0
    (Text.lower base).toList)).toList.count 'w' = _
  rw [String.toList_ofList, Text.count_replaceFrom_nil h, drop_zero, Text.lower,
    String.toList_ofList, Text.count_lowerChars]

theorem familyLabel_shadow_ne (base : String) : familyLabel (base ++ "_SHADOW") ≠ familyLabel base := by
  intro hs
  have h := congrArg (fun s => s.toList.count 'w') hs
  have hsh : ("_SHADOW".toList.flatMap fun c => Text.lowerWithin [] c []).count 'w' = 1 := by
    decide +kernel
  simp only [count_familyLabel, String.toList_append, flatMap_append, count_append, hsh] at h
  omega

def familyBase? (magic : Option MagicConfig) (name : String) : Option String :=
  if Text.startsWith name "BASE_" then some name
  else ((Text.findSplit ['_'] name.toList).map fun (_, family) =>
    "BASE_" ++ String.ofList family).filter fun base =>
      magic.any fun config => (config.find? (.text base)).isSome

def mappedBase? (t : Encoder) (name : String) : Option String :=
  (familyBase? t.magic name).filter fun base =>
    t.magic.any fun config => (config.find? (.text base)).isSome

theorem baseLayer?_text (magic : Option MagicConfig) (name : String) :
    baseLayer? magic (.text name) = .ok (familyBase? magic name) := by
  by_cases he : name = ""
  · subst he
    rfl
  · have hp : (Document.text name).isPresent := by
      simpa [Document.isPresent] using he
    by_cases h : Text.startsWith name "BASE_"
    · simp [baseLayer?, familyBase?, hp, h, Document.word, ok_bind, ok_pure]
    · cases hf : Text.findSplit ['_'] name.toList with
      | none =>
        simp [baseLayer?, familyBase?, hp, h, hf, Document.word, ok_bind, ok_pure]
      | some parts =>
        cases magic with
        | none =>
          simp [baseLayer?, familyBase?, hp, h, hf, Document.word, ok_bind, ok_pure, Option.filter]
        | some config =>
          simp [baseLayer?, familyBase?, hp, h, hf, Document.word, ok_bind, ok_pure, Option.filter]

/-- A layer without a family has the magic key of the first base layer. -/
def FallsBack (t : Encoder) (name base : String) : Prop :=
  familyBase? t.magic name = none ∧ base ≠ "" ∧
    ∃ m rest, t.magic = some (m :: rest) ∧ m.baseLayer = .text base

theorem present_of_familyBase? {magic : Option MagicConfig} (h : familyBase? magic name = some base) :
    base ≠ "" := by
  rintro rfl
  rw [familyBase?] at h
  split at h
  · rename_i hb
    rw [Option.some.inj h] at hb
    exact absurd hb (by decide)
  · obtain ⟨_, -, hb⟩ := Option.map_eq_some_iff.mp (Option.filter_eq_some_iff.mp h).1
    simp at hb

theorem magicBase?_eq_some : magicBase? t (.text name) = .ok (some (.text base)) ↔
    mappedBase? t name = some base ∨ FallsBack t name base := by
  simp only [magicBase?, baseLayer?_text, mappedBase?, FallsBack]
  cases t.magic with
  | none => cases familyBase? none name <;> simp [ok_pure]
  | some config =>
    dsimp only
    rw [ok_bind, pure_eq_ok, Option.ite_none_right_eq_some, Bool.and_eq_true, Option.some.injEq]
    cases hfm : familyBase? (some config) name with
    | some own =>
      have hp := present_of_familyBase? hfm
      simp only [Option.filter_eq_some_iff]
      constructor
      · rintro ⟨⟨-, hf⟩, hs⟩
        cases hs
        exact .inl ⟨rfl, hf⟩
      · rintro (⟨hs, hf⟩ | ⟨none, -⟩)
        · cases hs
          exact ⟨⟨by simpa [Document.isPresent] using hp, hf⟩, rfl⟩
        · cases none
    | none =>
      cases config with
      | nil => simp [Document.isPresent]
      | cons m rest =>
        simp only [head?_cons, Option.map_some, Option.getD_some, Option.filter_none]
        constructor
        · rintro ⟨⟨hpr, -⟩, h⟩
          rw [h] at hpr
          exact .inr ⟨trivial, by simpa [Document.isPresent] using hpr, m, rest, rfl, h⟩
        · rintro (none | ⟨-, hp, m', rest', hs, h⟩)
          · cases none
          · cases hs
            rw [h]
            refine ⟨⟨by simpa [Document.isPresent] using hp, ?_⟩, rfl⟩
            rw [MagicConfig.find?, find?_cons_of_pos]
            · rfl
            · rw [h]
              exact beq_self_eq_true base

theorem magicKey_eq_ok {label : String} : magicKey t (.text name) = .ok ("&ak_" ++ label) ↔
    ∃ base, label = familyLabel base ∧ (mappedBase? t name = some base ∨ FallsBack t name base) := by
  simp only [← magicBase?_eq_some]
  constructor
  · intro h
    obtain ⟨found, hb, h⟩ := bind_eq_ok.mp h
    cases found with
    | none =>
      have hs := congrArg (fun s => s.toList[1]?) (pure_eq_ok.mp h)
      simp at hs
    | some d =>
      obtain ⟨base, ht, h⟩ := bind_eq_ok.mp h
      cases d <;> cases ht
      exact ⟨base, ((String.append_right_inj _).mp (pure_eq_ok.mp h)).symm, hb⟩
  · rintro ⟨base, rfl, hb⟩
    rw [magicKey, hb]
    rfl

theorem magicTap_text (t : Encoder) (name : String) (index : Document) (wrapper hold : String) :
    magicTap t ⟨.text name, index⟩ wrapper hold = .ok (match mappedBase? t name with
      | some base => s!"&{wrapper}_ak_{familyLabel base} {hold} 0"
      | none => "&none") := by
  simp only [magicTap, baseLayer?_text, mappedBase?, ok_bind]
  cases t.magic with
  | none =>
    cases familyBase? none name with
    | none => rfl
    | some base => rfl
  | some config =>
    cases familyBase? (some config) name with
    | none => rfl
    | some base =>
      cases h : (config.find? (.text base)).isSome with
      | true => simp [Option.filter, h, ok_pure]
      | false => simp [Option.filter, h, ok_pure]

theorem mappedBase?_of_other (h : Text.startsWith name "BASE_" = false) :
    mappedBase? t name = familyBase? t.magic name := by
  simp only [mappedBase?, familyBase?, h, Bool.false_eq_true, if_false, Option.filter_filter, Bool.and_self]

theorem magicKey_eq_of_unmapped {name' : String}
    (hb : Text.startsWith name "BASE_" = Text.startsWith name' "BASE_")
    (hu : mappedBase? t name = none) (unmapped' : mappedBase? t name' = none) :
    magicKey t (.text name) = magicKey t (.text name') := by
  have hs : magicBase? t (.text name) = magicBase? t (.text name') := by
    simp only [magicBase?, baseLayer?_text]
    cases h : Text.startsWith name "BASE_" with
    | true =>
      have hbs := hb.symm.trans h
      simp only [mappedBase?, familyBase?, h, hbs, if_true] at hu unmapped' ⊢
      cases hm : t.magic with
      | none => rfl
      | some config =>
        have ha : config.find? (.text name) = none := by
          simpa [hm, Option.filter] using hu
        have hab : config.find? (.text name') = none := by
          simpa [hm, Option.filter] using unmapped'
        simp [ha, hab, Bind.bind, Except.bind]
    | false =>
      rw [mappedBase?_of_other h] at hu
      rw [mappedBase?_of_other (hb.symm.trans h)] at unmapped'
      rw [hu, unmapped']
  simp only [magicKey, hs]

theorem toList_shadow (name : String) : (name ++ "_SHADOW").toList = name.toList ++
    ['_', 'S', 'H', 'A', 'D', 'O', 'W'] := by
  rw [String.toList_append]
  rfl

theorem startsWith_shadow (ho : name ≠ "BASE") :
    Text.startsWith (name ++ "_SHADOW") "BASE_" = Text.startsWith name "BASE_" := by
  have h : name.toList ≠ ['B', 'A', 'S', 'E'] := by
    intro hs
    exact ho (String.toList_inj.mp hs)
  change ['B', 'A', 'S', 'E', '_'].isPrefixOf _ = ['B', 'A', 'S', 'E', '_'].isPrefixOf _
  rw [toList_shadow]
  match name.toList, h with
  | [], _ => rfl
  | [a], _ => simp [isPrefixOf]
  | [a, b], _ => simp [isPrefixOf]
  | [a, b, c], _ => simp [isPrefixOf]
  | [a, b, c, d], hd =>
    simp [isPrefixOf]
    grind
  | a :: b :: c :: d :: e :: rest, _ => simp [isPrefixOf]

theorem familyBase?_eq_some {magic : Option MagicConfig} (ho : Text.startsWith name "BASE_" = false)
    (h : familyBase? magic name = some base) : ∃ word family, '_' ∉ word ∧ name.toList = word ++ '_' :: family ∧
      base = "BASE_" ++ String.ofList family := by
  simp only [familyBase?, ho, Bool.false_eq_true, if_false, Option.filter_eq_some_iff,
    Option.map_eq_some_iff] at h
  obtain ⟨⟨⟨word, family⟩, hs, rfl⟩, -⟩ := h
  obtain ⟨ha, hw⟩ := Text.findSplit_eq_some.mp hs
  exact ⟨word, family, ha, hw, rfl⟩

theorem mappedBase?_shadow {base' : String} (hm : mappedBase? t name = some base)
    (mapped' : mappedBase? t (name ++ "_SHADOW") = some base') : base' = base ++ "_SHADOW" := by
  have hf := (Option.filter_eq_some_iff.mp hm).1
  have hfn := (Option.filter_eq_some_iff.mp mapped').1
  cases h : Text.startsWith name "BASE_" with
  | true =>
    have hn : name ≠ "BASE" := by
      rintro rfl
      exact absurd h (by decide)
    have hb := (startsWith_shadow hn).trans h
    simp only [familyBase?, h, if_true, Option.some.injEq] at hf
    simp only [familyBase?, hb, if_true, Option.some.injEq] at hfn
    rw [← hf, ← hfn]
  | false =>
    obtain ⟨word, family, ha, hw, rfl⟩ := familyBase?_eq_some h hf
    have hn : name ≠ "BASE" := by
      rintro rfl
      have hmm : '_' ∈ "BASE".toList := by simp [hw]
      exact absurd hmm (by decide)
    have hb := (startsWith_shadow hn).trans h
    obtain ⟨word', family', hab, hwh, rfl⟩ := familyBase?_eq_some hb hfn
    have hl : (name ++ "_SHADOW").toList = word ++ '_' :: (family ++ "_SHADOW".toList) := by
      rw [String.toList_append, hw, append_assoc, cons_append]
    have hs := (Text.findSplit_eq_some.mpr ⟨hab, hwh⟩).symm.trans (Text.findSplit_eq_some.mpr ⟨ha, hl⟩)
    obtain ⟨-, rfl⟩ := Prod.mk.inj (Option.some.inj hs)
    rw [String.ofList_append, String.ofList_toList, String.append_assoc]

theorem tap_ne_none {wrapper : String} (hk : wrapper = "lt" ∨ wrapper = "mt") (label hold : String) :
    s!"&{wrapper}_ak_{label} {hold} 0" ≠ "&none" := by
  intro hs
  have h := congrArg (fun s => s.toList[1]?) hs
  rcases hk with rfl | rfl
  · simp [toString, String.toList_append] at h
  · simp [toString, String.toList_append] at h

theorem magicTap_shadow_iff {wrapper hold : String} {index : Document}
    (h : wrapper = "lt" ∨ wrapper = "mt") : magicTap t ⟨.text (name ++ "_SHADOW"), index⟩ wrapper hold =
        magicTap t ⟨.text name, index⟩ wrapper hold ↔
      mappedBase? t name = none ∧ mappedBase? t (name ++ "_SHADOW") = none := by
  rw [magicTap_text, magicTap_text, Except.ok.injEq]
  cases hmp : mappedBase? t name with
  | none =>
    cases hm : mappedBase? t (name ++ "_SHADOW") with
    | none => simp
    | some base => simpa using tap_ne_none h _ _
  | some base =>
    cases hm : mappedBase? t (name ++ "_SHADOW") with
    | none => simpa using (tap_ne_none h _ _).symm
    | some base' =>
      obtain rfl := mappedBase?_shadow hmp hm
      simp only [reduceCtorEq, and_false, iff_false]
      intro hs
      refine familyLabel_shadow_ne base (String.toList_inj.mp ?_)
      simpa [toString, ← String.toList_inj, String.toList_append] using hs

end Zmk
end Keymap
