import Keymap.Text.Case
import Keymap.Text.Identifier
import Mathlib.Data.List.TakeWhile

namespace Keymap.Text

open List

variable {c mark : Char} {s : String} {cs : List Char} {sep : Char → Bool}

variable {runs : List (Nat × Nat × Nat × Int)} {long : List (Nat × List Nat)}

theorem splitChars_eq_cons (sep : Char → Bool) (cs : List Char) :
    ∃ rest, splitChars sep cs = (cs.takeWhile fun c => !sep c) :: rest := by
  induction cs with
  | nil => exact ⟨[], rfl⟩
  | cons c cs ih =>
    obtain ⟨rest, hp⟩ := ih
    cases h : sep c with
    | true => exact ⟨splitChars sep cs, by simp [splitChars, h]⟩
    | false => exact ⟨rest, by simp [splitChars, h, hp]⟩

theorem splitChars_of_not_mem (h : mark ∉ cs) : splitChars (· == mark) cs = [cs] := by
  induction cs with
  | nil => rfl
  | cons c cs ih =>
    rw [mem_cons, not_or] at h
    rw [splitChars, ih h.2]
    simp [Ne.symm h.1]

theorem split_of_not_mem (h : mark ∉ s.toList) : split mark s = [s] := by
  rw [split, splitChars_of_not_mem h]
  simp

theorem splitChars_append_cons {a b : List Char} (h : sep c) :
    splitChars sep (a ++ c :: b) = splitChars sep a ++ splitChars sep b := by
  induction a with
  | nil => simp [splitChars, h]
  | cons d a ih =>
    obtain ⟨rest, hp⟩ := splitChars_eq_cons sep a
    rw [cons_append, splitChars, splitChars, ih, hp]
    split <;> rfl

theorem splitChars_joined {mark : Char} {sep : String} (h : sep.toList = [mark]) (a b : String) :
    splitChars (· == mark) (a ++ sep ++ b).toList =
      splitChars (· == mark) a.toList ++ splitChars (· == mark) b.toList := by
  rw [String.toList_append, String.toList_append, h, append_assoc]
  exact splitChars_append_cons (beq_self_eq_true mark)

theorem splitChars_of_mem (sep : Char → Bool) (hm : c ∈ cs) (h : sep c) :
    ∃ first second rest, splitChars sep cs = first :: second :: rest := by
  obtain ⟨before, after, rfl⟩ := append_of_mem hm
  obtain ⟨others, first⟩ := splitChars_eq_cons sep before
  obtain ⟨_, second⟩ := splitChars_eq_cons sep after
  rw [splitChars_append_cons h, first, second]
  cases others <;> exact ⟨_, _, _, rfl⟩

theorem mem_splitChars {piece : List Char} (h : piece ∈ splitChars sep cs) (hm : c ∈ piece) :
    c ∈ cs ∧ sep c = false := by
  induction cs generalizing piece with
  | nil =>
    obtain rfl := mem_singleton.mp h
    cases hm
  | cons d cs ih =>
    have hl {piece : List Char} (h : piece ∈ splitChars sep cs) (hm : c ∈ piece) :=
      (ih h hm).imp_left (mem_cons_of_mem d)
    cases hh : sep d with
    | true =>
      rw [splitChars, if_pos hh] at h
      rcases mem_cons.mp h with rfl | hr
      · cases hm
      · exact hl hr hm
    | false =>
      obtain ⟨rest, hp⟩ := splitChars_eq_cons sep cs
      rw [hp] at hl
      rw [splitChars, hh, hp] at h
      rcases mem_cons.mp h with rfl | hr
      · rcases mem_cons.mp hm with rfl | hf
        · exact ⟨mem_cons_self, hh⟩
        · exact hl mem_cons_self hf
      · exact hl (mem_cons_of_mem _ hr) hm

def IsIdentifier (s : String) : Prop :=
  ∀ c ∈ s.toList, isIdentifierChar c = true

instance (s : String) : Decidable (IsIdentifier s) :=
  List.decidableBAll (fun c => isIdentifierChar c = true) s.toList

theorem isIdentifier_append {a b : String} : IsIdentifier (a ++ b) ↔ IsIdentifier a ∧ IsIdentifier b := by
  simp only [IsIdentifier, String.toList_append, mem_append]
  constructor
  · exact fun h => ⟨fun c hm => h c (.inl hm), fun c hm => h c (.inr hm)⟩
  · rintro ⟨hl, hr⟩ c (hm | hm)
    · exact hl c hm
    · exact hr c hm

theorem isIdentifier_ofList : IsIdentifier (String.ofList cs) ↔ ∀ c ∈ cs, isIdentifierChar c := by
  rw [IsIdentifier, String.toList_ofList]

theorem lt_of_isIdentifierChar (h : isIdentifierChar c) : c.toNat < 128 := by
  change (((decide (c.val ≥ 'A'.val ∧ c.val ≤ 'Z'.val) ||
    (decide (c.val ≥ 'a'.val) && decide (c.val ≤ 'z'.val))) ||
    (decide (c.val ≥ '0'.val) && decide (c.val ≤ '9'.val))) || c == '_') = true at h
  simp only [Bool.or_eq_true, Bool.and_eq_true, decide_eq_true_iff, UInt32.le_iff_toNat_le,
    ge_iff_le, Char.toNat_val, Char.reduceToNat, beq_iff_eq] at h
  rcases h with ((hu | hl) | hd) | rfl
  · omega
  · omega
  · omega
  · decide

theorem isIdentifierChar_recase (h : isIdentifierChar c) :
    isIdentifierChar c.toLower ∧ isIdentifierChar c.toUpper := by
  have all : ∀ n < 128, isIdentifierChar (Char.ofNat n) →
      isIdentifierChar (Char.ofNat n).toLower ∧
        isIdentifierChar (Char.ofNat n).toUpper := by
    decide
  have hs := all c.toNat (lt_of_isIdentifierChar h)
  rw [Char.ofNat_toNat] at hs
  exact hs h

theorem IsIdentifier.lower (hn : IsIdentifier s) : IsIdentifier (Text.lower s) := by
  have hc : ∀ before cs, (∀ c ∈ cs, isIdentifierChar c) →
      ∀ c ∈ lowerChars before cs, isIdentifierChar c := by
    intro before cs hn
    induction cs generalizing before with
    | nil => intro c h; cases h
    | cons d cs ih =>
      have hnm := hn d mem_cons_self
      have hs := lt_of_isIdentifierChar hnm
      have hnf : d ≠ 'Σ' := by
        rintro rfl
        exact absurd hs (by decide)
      have hsn : lowerWithin before d cs = [d.toLower] := by
        simp [lowerWithin, hnf, lowerOf, hs]
      intro c h
      rw [lowerChars, hsn] at h
      rcases mem_cons.mp h with rfl | hl
      · exact (isIdentifierChar_recase hnm).1
      · exact ih _ (fun e h => hn e (mem_cons_of_mem _ h)) c hl
  exact isIdentifier_ofList.mpr (hc [] s.toList hn)

theorem IsIdentifier.upper (hn : IsIdentifier s) : IsIdentifier (Text.upper s) := by
  apply isIdentifier_ofList.mpr
  intro c hm
  obtain ⟨d, h, hu⟩ := mem_flatMap.mp hm
  rw [upperOf, if_pos (lt_of_isIdentifierChar (hn d h)), mem_singleton] at hu
  rw [hu]
  exact (isIdentifierChar_recase (hn d h)).2

theorem shiftIn_ne (hg : 0 < mark.toNat)
    (ha : ∀ r ∈ runs, r.2.1 < c.toNat ∨ (mark.toNat : Int) < r.1 + r.2.2.2 ∨ r.2.1 + r.2.2.2 < (mark.toNat : Int)) :
    shiftIn runs c ≠ some mark := by
  intro hsh
  obtain ⟨run, hf, hs⟩ := Option.map_eq_some_iff.mp hsh
  have hr := find?_some hf
  have ha := ha run (mem_of_find?_eq_some hf)
  simp only [Text.inRun, Bool.and_eq_true, decide_eq_true_iff] at hr
  have h := congrArg Char.toNat hs
  by_cases hv : ((c.toNat : Int) + run.2.2.2).toNat.isValidChar
  · rw [Char.ofNat, dif_pos hv] at h
    change ((c.toNat : Int) + run.2.2.2).toNat = mark.toNat at h
    omega
  · rw [Char.ofNat, dif_neg hv] at h
    change 0 = mark.toNat at h
    omega

theorem not_mem_recase (other : c ≠ mark) (given : 0 < mark.toNat) (notLong : ∀ e ∈ long, ∀ n ∈ e.2, Char.ofNat n ≠ mark)
    (above : ∀ r ∈ runs, (mark.toNat : Int) < r.1 + r.2.2.2) : mark ∉ recase long runs c := by
  intro h
  rw [recase] at h
  split at h
  · rename_i long hf
    obtain ⟨n, hl, hm⟩ := mem_map.mp h
    obtain ⟨before, after, he, -⟩ := lookup_eq_some_iff.mp hf
    exact notLong _ (he ▸ mem_append_right _ mem_cons_self) n hl hm
  · split at h
    · rename_i d hs
      obtain rfl := mem_singleton.mp h
      exact shiftIn_ne given (fun r hr => .inr (.inl (above r hr))) hs
    · exact other (mem_singleton.mp h).symm

theorem recase_ne_singleton (other : c ≠ mark) (given : 0 < mark.toNat) (notLong : ∀ e ∈ long, e.2.length ≠ 1)
    (apart : ∀ r ∈ runs, r.2.1 < c.toNat ∨ (mark.toNat : Int) < r.1 + r.2.2.2 ∨ r.2.1 + r.2.2.2 < (mark.toNat : Int)) :
    recase long runs c ≠ [mark] := by
  intro h
  rw [recase] at h
  split at h
  · rename_i hf
    obtain ⟨before, after, he, -⟩ := lookup_eq_some_iff.mp hf
    exact notLong _ (he ▸ mem_append_right _ mem_cons_self) (by simpa using congrArg length h)
  · split at h
    · rename_i hs
      obtain ⟨rfl, -⟩ := cons.inj h
      exact shiftIn_ne given apart hs
    · exact other (cons.inj h).1

theorem recased_ne {f : Char → Char} (all : ∀ n < 128, f (Char.ofNat n) = mark → Char.ofNat n = mark)
    (hs : c.toNat < 128) (ho : c ≠ mark) : f c ≠ mark := by
  have h := all c.toNat hs
  rw [Char.ofNat_toNat] at h
  exact fun hm => ho (h hm)

theorem not_mem_upperOf (h : mark ∈ ['&', ' ', '<', '"']) (ho : c ≠ mark) : mark ∉ upperOf c := by
  rw [upperOf]
  simp only [mem_cons, not_mem_nil, or_false] at h
  split
  · rename_i hsm
    have hs : ∀ n < 128, (Char.ofNat n).toUpper = mark → Char.ofNat n = mark := by
      rcases h with rfl | rfl | rfl | rfl <;> decide
    exact fun hm => recased_ne hs hsm ho (mem_singleton.mp hm).symm
  · rcases h with rfl | rfl | rfl | rfl
    all_goals exact not_mem_recase ho (by decide) (by decide +kernel) (by decide +kernel)

theorem not_mem_lower (hm : mark ∈ ['/', '\n']) (h : mark ∉ s.toList) : mark ∉ (lower s).toList := by
  simp only [mem_cons, not_mem_nil, or_false] at hm
  have hsn : ∀ c, c ≠ mark → mark ∉ lowerOf c := by
    intro c ho
    rw [lowerOf]
    split
    · rename_i hsm
      have hs : ∀ n < 128, (Char.ofNat n).toLower = mark → Char.ofNat n = mark := by
        rcases hm with rfl | rfl <;> decide
      exact fun hmm => recased_ne hs hsm ho (mem_singleton.mp hmm).symm
    · rcases hm with rfl | rfl
      all_goals exact not_mem_recase ho (by decide) (by decide +kernel) (by decide +kernel)
  have all : ∀ before cs, mark ∉ cs → mark ∉ lowerChars before cs := by
    intro before cs
    induction cs generalizing before with
    | nil => exact fun _ => not_mem_nil
    | cons c cs ih =>
      intro h hmm
      simp only [mem_cons, not_or] at h
      rcases mem_append.mp hmm with hh | ht
      · rw [lowerWithin] at hh
        split at hh
        · rcases hm with rfl | rfl
          all_goals split at hh <;> simp at hh
        · exact hsn c (Ne.symm h.1) hh
      · exact ih _ h.2 ht
  rw [lower, String.toList_ofList]
  exact all [] _ h

theorem not_mem_upper (hm : mark ∈ ['&', ' ', '<', '"']) (h : mark ∉ s.toList) : mark ∉ (upper s).toList := by
  rw [upper, String.toList_ofList, mem_flatMap]
  rintro ⟨c, ht, hu⟩
  exact not_mem_upperOf hm (fun hs => h (hs ▸ ht)) hu

theorem mem_of_mem_replaceFrom {old new : List Char} {skip : Nat}
    (h : c ∈ replaceFrom old new skip cs) : c ∈ new ∨ c ∈ cs := by
  induction cs generalizing skip with
  | nil => cases skip <;> cases h
  | cons d cs ih =>
    cases skip with
    | succ skip => exact (ih h).imp_right (mem_cons_of_mem _)
    | zero =>
      rw [replaceFrom] at h
      split at h
      · rcases mem_append.mp h with ha | hl
        · exact .inl ha
        · exact (ih hl).imp_right (mem_cons_of_mem _)
      · rcases mem_cons.mp h with rfl | hl
        · exact .inr mem_cons_self
        · exact (ih hl).imp_right (mem_cons_of_mem _)

theorem mem_replaceFrom_of_ne {old : Char} (hm : c ∈ cs) (ho : c ≠ old) : c ∈ replaceFrom [old] [] 0 cs := by
  induction cs with
  | nil => cases hm
  | cons d cs ih =>
    rw [replaceFrom]
    rcases mem_cons.mp hm with rfl | h
    · simp [Ne.symm ho]
    · split
      · exact ih h
      · exact mem_cons_of_mem _ (ih h)

theorem IsIdentifier.replace (hn : IsIdentifier s) (old new : String)
    (hp : old.toList.isEmpty = false) (hi : IsIdentifier new) : IsIdentifier (Text.replace old new s) := by
  rw [Text.replace, hp]
  apply isIdentifier_ofList.mpr
  intro c hm
  rcases mem_of_mem_replaceFrom hm with h | hk
  · exact hi c h
  · exact hn c hk

theorem isIdentifier_identifierFragment (s : String) : IsIdentifier (identifierFragment s) := by
  have hc : ∀ inRun cs, ∀ c ∈ identifierChars inRun cs, isIdentifierChar c := by
    intro inRun cs
    induction cs generalizing inRun with
    | nil => intro c h; cases h
    | cons d cs ih =>
      intro c h
      rw [identifierChars] at h
      split at h
      · rename_i hk
        rcases mem_cons.mp h with rfl | hl
        · exact hk
        · exact ih false c hl
      · split at h
        · exact ih true c h
        · rcases mem_cons.mp h with rfl | hl
          · rfl
          · exact ih true c hl
  refine isIdentifier_ofList.mpr fun c h => hc false s.toList c ?_
  rw [trimEndChars, trimStartChars, mem_reverse, String.toList_ofList] at h
  have hs := (dropWhile_suffix _).subset h
  exact (dropWhile_suffix _).subset (mem_reverse.mp hs)

theorem isIdentifier_toString (n : Nat) : IsIdentifier (toString n) := by
  intro c hm
  have h : c ∈ Nat.toDigits 10 n := by simpa using hm
  simp [isIdentifierChar, Char.isAlphanum, Nat.isDigit_of_mem_toDigits (by decide) (by decide) h]

theorem isIdentifier_join {sep : String} (name : IsIdentifier sep) {parts : List String}
    (hn : ∀ s ∈ parts, IsIdentifier s) : IsIdentifier (join sep parts) := by
  induction parts with
  | nil => intro c h; cases h
  | cons s rest ih =>
    have hf := hn s mem_cons_self
    cases rest with
    | nil => exact hf
    | cons t rest =>
      rw [join, String.intercalate_cons_cons, isIdentifier_append, isIdentifier_append]
      exact ⟨⟨hf, name⟩, ih fun u h => hn u (mem_cons_of_mem _ h)⟩

end Keymap.Text
