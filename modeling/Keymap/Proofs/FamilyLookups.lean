import Keymap.Proofs.Assignments
import Keymap.Proofs.MagicFamilies

namespace Keymap

open List

namespace MagicConfig

def familyEnds (name : String) (m : MagicMapping) : Bool :=
  m.baseLayer.text?.any fun base => Text.endsWith name (Text.replace "BASE_" "" base)

theorem familyEnds_eq_of_base {name : String} {m other : MagicMapping}
    (same : m.baseLayer = other.baseLayer) : familyEnds name m = familyEnds name other := by
  rw [familyEnds, familyEnds, same]

def HasBases (magic : MagicConfig) : Prop :=
  ∀ m ∈ magic, ∃ base, m.baseLayer = .text base ∧ Text.startsWith base "BASE_" = true

variable {magic : MagicConfig} {name base : String} {m : MagicMapping}

theorem forFamily?_text (name : String) (h : magic.HasBases) :
    magic.forFamily? (.text name) = .ok (List.find? (familyEnds name) magic) := by
  induction magic with
  | nil => rfl
  | cons m rest ih =>
    obtain ⟨base, hb, -⟩ := h m mem_cons_self
    have hl := ih fun other hm => h other (mem_cons_of_mem m hm)
    have he : familyEnds name m = Text.endsWith name (Text.replace "BASE_" "" base) := by
      rw [familyEnds, hb]
      rfl
    rw [find?_cons, he, forFamily?, hb]
    change (if _ then _ else _) = _
    cases Text.endsWith name (Text.replace "BASE_" "" base) with
    | true => rfl
    | false => exact hl

theorem forLayer?_text (h : magic.HasBases) : magic.forLayer? (.text name) =
      .ok ((magic.find? (.text name)).or (List.find? (familyEnds name) magic)) := by
  have hf := forFamily?_text name h
  have hfl : (Document.text name).asField = .ok (some (.word name)) := rfl
  rw [forLayer?, hfl, ok_bind]
  cases magic.find? (.text name) with
  | some m => rfl
  | none => exact hf

theorem baseLayer_of_find? (h : magic.find? (.text base) = some m) : m.baseLayer = .text base := by
  have same : m.baseLayer.same (.text base) := by
    apply find?_some h
  exact Document.eq_text_of_same same

theorem find?_of_familyEnds (hf : List.find? (familyEnds name) magic = some m)
    (hb : m.baseLayer = .text base) : magic.find? (.text base) = some m := by
  obtain ⟨he, before, after, hw, ho⟩ := find?_eq_some_iff_append.mp hf
  apply find?_eq_some_iff_append.mpr
  refine ⟨?_, before, after, hw, ?_⟩
  · rw [hb]
    exact beq_self_eq_true base
  · intro other hm
    by_contra hfn
    have same : other.baseLayer = m.baseLayer := by
      rw [hb]
      apply Document.eq_text_of_same
      simpa using hfn
    have h := ho other hm
    rw [familyEnds_eq_of_base same, he] at h
    cases h

end MagicConfig

namespace Zmk

open MagicConfig

variable {magic : MagicConfig} {name base : String}

/-- Both lookups find the same base layer for a name, or none. -/
def LookupsAgree (magic : MagicConfig) (name : String) : Prop :=
  ∀ base, (∃ m, magic.forLayer? (.text name) = .ok (some m) ∧ magic.find? (.text base) = some m) ↔
    baseLayer? (some magic) (.text name) = .ok (some base) ∧ (magic.find? (.text base)).isSome = true

/-- A name that belongs to a base layer is ended by the family of that base layer, and by no earlier one. A
name that belongs to none is ended by no family. -/
def FitsFamilies (magic : MagicConfig) (name : String) : Option String → Prop
  | some base => ∃ before m after, magic = before ++ m :: after ∧ m.baseLayer = .text base ∧
      familyEnds name m = true ∧ ∀ other ∈ before, familyEnds name other = false
  | none => ∀ m ∈ magic, familyEnds name m = false

theorem fitsFamilies_some : FitsFamilies magic name (some base) ↔
    ∃ m, find? (familyEnds name) magic = some m ∧ m.baseLayer = .text base := by
  simp only [FitsFamilies, find?_eq_some_iff_append, Bool.not_eq_true']
  constructor
  · rintro ⟨before, m, after, hw, hb, h, ho⟩
    exact ⟨m, ⟨h, before, after, hw, ho⟩, hb⟩
  · rintro ⟨m, ⟨h, before, after, hw, ho⟩, hb⟩
    exact ⟨before, m, after, hw, hb, h, ho⟩

theorem fitsFamilies_iff_first (bases : magic.HasBases) {belongs : Option String} :
    FitsFamilies magic name belongs ↔ ∀ base, FitsFamilies magic name (some base) ↔ belongs = some base := by
  simp only [fitsFamilies_some]
  cases belongs with
  | none =>
    simp only [FitsFamilies, ← Bool.not_eq_true, ← find?_eq_none, reduceCtorEq, iff_false]
    constructor
    · rintro hn base ⟨m, h, -⟩
      rw [hn] at h
      cases h
    · intro hn
      by_contra hfn
      obtain ⟨m, h⟩ := Option.ne_none_iff_exists'.mp hfn
      obtain ⟨base, hb, -⟩ := bases m (mem_of_find?_eq_some h)
      exact hn base ⟨m, h, hb⟩
  | some own =>
    rw [fitsFamilies_some]
    constructor
    · rintro ⟨m, h, ho⟩ base
      constructor
      · rintro ⟨m', hf, hb⟩
        obtain rfl := Option.some.inj (h.symm.trans hf)
        rw [Document.text.inj (ho.symm.trans hb)]
      · intro same
        exact ⟨m, h, by rw [ho, Option.some.inj same]⟩
    · intro he
      exact (he own).mpr rfl

theorem mappedBase?_eq_some : mappedBase? { magic := some magic } name = some base ↔
    baseLayer? (some magic) (.text name) = .ok (some base) ∧ (magic.find? (.text base)).isSome := by
  rw [mappedBase?, Option.filter_eq_some_iff, baseLayer?_text, Except.ok.injEq, Option.any_some]

theorem lookupsAgree_of_configured (bases : magic.HasBases)
    (hc : (magic.find? (.text name)).isSome) : LookupsAgree magic name := by
  obtain ⟨own, h⟩ := Option.isSome_iff_exists.mp hc
  have hn := baseLayer_of_find? h
  have hb : Text.startsWith name "BASE_" := by
    obtain ⟨base, hb, hs⟩ := bases own (mem_of_find?_eq_some h)
    rwa [← Document.text.inj (hn.symm.trans hb)] at hs
  intro base
  rw [forLayer?_text bases, h, Option.some_or, baseLayer?_text, familyBase?, if_pos hb]
  constructor
  · rintro ⟨m, same, hf⟩
    obtain rfl := Option.some.inj (Except.ok.inj same)
    rw [Document.text.inj (hn.symm.trans (baseLayer_of_find? hf))] at hc ⊢
    exact ⟨rfl, hc⟩
  · rintro ⟨same, -⟩
    rw [← Option.some.inj (Except.ok.inj same)]
    exact ⟨own, rfl, h⟩

theorem yields_iff_fitsFamilies (hb : magic.HasBases) (hu : magic.find? (.text name) = none) :
    (∃ m, magic.forLayer? (.text name) = .ok (some m) ∧ magic.find? (.text base) = some m) ↔
      FitsFamilies magic name (some base) := by
  rw [forLayer?_text hb, hu, Option.none_or, fitsFamilies_some]
  constructor
  · rintro ⟨m, h, hf⟩
    exact ⟨m, Except.ok.inj h, baseLayer_of_find? hf⟩
  · rintro ⟨m, h, hbs⟩
    exact ⟨m, congrArg Except.ok h, find?_of_familyEnds h hbs⟩

/-- The lookups agree on a name that is configured itself, and on names that fit the families. -/
theorem family_lookups_agree_iff (bases : magic.HasBases) (name : String) :
    LookupsAgree magic name ↔ (magic.find? (.text name)).isSome = true ∨
      FitsFamilies magic name (mappedBase? { magic := some magic } name) := by
  cases own : magic.find? (.text name) with
  | some m =>
    have configured : (magic.find? (.text name)).isSome = true := by
      rw [own]
      rfl
    simp [lookupsAgree_of_configured bases configured]
  | none =>
    rw [fitsFamilies_iff_first bases, LookupsAgree]
    simp only [yields_iff_fitsFamilies bases own, mappedBase?_eq_some, Option.isSome_none, Bool.false_eq_true,
      false_or]

def withBase (base : String) : MagicMapping :=
  ⟨.text base, .whole 150, .record [("A", "E")], "REPEAT"⟩

/-- The layer belongs to the second base layer and is trained by the first. -/
theorem holiday_taken_for_day :
    let magic : MagicConfig := [withBase "BASE_DAY", withBase "BASE_HOLIDAY"]
    baseLayer? (some magic) (.text "NAV_HOLIDAY") = .ok (some "BASE_HOLIDAY") ∧
    magic.forLayer? (.text "NAV_HOLIDAY") = .ok (some (withBase "BASE_DAY")) ∧
    ¬ LookupsAgree magic "NAV_HOLIDAY" ∧ LookupsAgree magic "NAV_DAY" := by
  intro magic
  have bases : magic.HasBases := by
    intro m member
    rcases List.mem_cons.mp member with rfl | member
    · exact ⟨"BASE_DAY", rfl, by decide⟩
    · rw [List.mem_singleton.mp member]
      exact ⟨"BASE_HOLIDAY", rfl, by decide⟩
  have isHoliday : mappedBase? { magic := some magic } "NAV_HOLIDAY" = some "BASE_HOLIDAY" := by decide +kernel
  have isDay : mappedBase? { magic := some magic } "NAV_DAY" = some "BASE_DAY" := by decide +kernel
  have first : ∀ name ∈ ["NAV_HOLIDAY", "NAV_DAY"],
      List.find? (familyEnds name) magic = some (withBase "BASE_DAY") := by
    intro name member
    have ends : ∀ name ∈ ["NAV_HOLIDAY", "NAV_DAY"], familyEnds name (withBase "BASE_DAY") = true :=
      List.all_eq_true.mp (by decide +kernel)
    exact List.find?_cons_of_pos (ends name member)
  have unlisted : magic.find? (.text "NAV_HOLIDAY") = none := by decide +kernel
  refine ⟨(mappedBase?_eq_some.mp isHoliday).1, ?_, ?_, ?_⟩
  · rw [forLayer?_text bases, unlisted, first _ (by simp)]
    rfl
  · rw [family_lookups_agree_iff bases, isHoliday, fitsFamilies_some, unlisted]
    rintro (configured | ⟨m, found, isBase⟩)
    · cases configured
    · rw [first _ (by simp)] at found
      obtain rfl := Option.some.inj found
      exact absurd (Document.text.inj isBase) (by decide)
  · rw [family_lookups_agree_iff bases, isDay, fitsFamilies_some]
    exact .inr ⟨withBase "BASE_DAY", first _ (by simp), rfl⟩

end Zmk

end Keymap
