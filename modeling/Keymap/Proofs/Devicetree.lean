import Keymap.Proofs.Texts
import Mathlib.Data.List.Basic

namespace Keymap.Devicetree

open List
open Text (isIdentifierChar)

variable {label s : String} {c : Char} {a name cs b : List Char} {parts lines others : List String}
  {α : Type} {skip : Nat} {piece after : List Char} {sep : Char → Bool} {blocks : List (List String)}
  {xs : List α} {f : α → List String}

def referencesIn : List Char → List (List Char)
  | [] => []
  | c :: cs =>
    let name := cs.takeWhile isIdentifierChar
    if c == '&' && !name.isEmpty then name :: referencesIn cs else referencesIn cs

def references (s : String) : List String :=
  (referencesIn s.toList).map String.ofList

/-- Whether a text stops inside a reference, so that what follows may belong to its name. -/
def endsOpen : List Char → Bool
  | [] => false
  | c :: cs => (c == '&' && cs.all isIdentifierChar) || endsOpen cs

def startsApart (cs : List Char) : Bool :=
  cs.head?.all fun c => !isIdentifierChar c

def spacedIn : List Char → Bool
  | [] => true
  | c :: cs => (c != '&' || (cs.dropWhile isIdentifierChar).head? != some '&') && spacedIn cs

theorem takeWhile_append_of_startsApart (h : startsApart b) :
    (a ++ b).takeWhile isIdentifierChar = a.takeWhile isIdentifierChar := by
  induction a with
  | nil =>
    cases b with
    | nil => rfl
    | cons c b => simpa [startsApart, takeWhile_cons] using h
  | cons c a ih => simp only [cons_append, takeWhile_cons, ih]

theorem takeWhile_append_of_not_all (h : a.all isIdentifierChar = false) :
    (a ++ b).takeWhile isIdentifierChar = a.takeWhile isIdentifierChar := by
  induction a with
  | nil => cases h
  | cons c a ih =>
    rw [cons_append, takeWhile_cons, takeWhile_cons]
    split
    · rename_i hn
      rw [ih (by simpa [hn] using h)]
    · rfl

theorem referencesIn_append (ha : endsOpen a = false ∨ startsApart b) :
    referencesIn (a ++ b) = referencesIn a ++ referencesIn b := by
  induction a with
  | nil => rfl
  | cons c a ih =>
    have hr := ih (ha.imp_left fun h => by
      rw [endsOpen, Bool.or_eq_false_iff] at h
      exact h.2)
    by_cases hm : c = '&'
    · subst hm
      have name : (a ++ b).takeWhile isIdentifierChar = a.takeWhile isIdentifierChar := by
        rcases ha with h | ha
        · apply takeWhile_append_of_not_all
          simp only [endsOpen, beq_self_eq_true, Bool.true_and, Bool.or_eq_false_iff] at h
          exact h.1
        · exact takeWhile_append_of_startsApart ha
      rw [cons_append, referencesIn, referencesIn, name, hr]
      split <;> rfl
    · simp [referencesIn, hm, hr]

theorem spacedIn_append (hl : spacedIn a) (hr : spacedIn b)
    (h : endsOpen a = false ∨ startsApart b ∧ b.head? ≠ some '&') : spacedIn (a ++ b) := by
  induction a with
  | nil => exact hr
  | cons c a ih =>
    rw [spacedIn, Bool.and_eq_true] at hl
    rw [cons_append, spacedIn, Bool.and_eq_true]
    refine ⟨?_, ih hl.2 (h.imp_left fun hc => ?_)⟩
    · by_cases hm : c = '&'
      · subst hm
        by_cases hn : a.all isIdentifierChar
        · rcases h with hc | ⟨h, ho⟩
          · simp [endsOpen, hn] at hc
          · have he : ((a ++ b).dropWhile isIdentifierChar).head? = b.head? := by
              rw [dropWhile_append_of_pos (by simpa using hn)]
              cases b with
              | nil => rfl
              | cons d b =>
                rw [dropWhile_cons_of_neg (by simpa [startsApart] using h)]
            rw [he]
            simpa using ho
        · have he : ((a ++ b).dropWhile isIdentifierChar).head? =
              (a.dropWhile isIdentifierChar).head? := by
            rw [dropWhile_append]
            split
            · rename_i hnn
              exact absurd (by simpa using hnn) hn
            · rename_i some
              cases rest : a.dropWhile isIdentifierChar with
              | nil => simp [rest] at some
              | cons d rest => rfl
          rw [he]
          exact hl.1
      · simp [hm]
    · rw [endsOpen, Bool.or_eq_false_iff] at hc
      exact hc.2

theorem mem_referencesIn_cons : name ∈ referencesIn (c :: cs) ↔
    (c = '&' ∧ name ≠ [] ∧ name = cs.takeWhile isIdentifierChar) ∨ name ∈ referencesIn cs := by
  rw [referencesIn]
  split
  · rename_i hh
    rw [Bool.and_eq_true, beq_iff_eq, Bool.not_eq_true', isEmpty_eq_false_iff] at hh
    rw [mem_cons]
    constructor
    · rintro (rfl | h)
      · exact .inl ⟨hh.1, hh.2, rfl⟩
      · exact .inr h
    · rintro (⟨-, -, rfl⟩ | h)
      · exact .inl rfl
      · exact .inr h
  · rename_i hn
    refine ⟨.inr, ?_⟩
    rintro (⟨hm, hp, rfl⟩ | h)
    · simp [hm, hp] at hn
    · exact h

theorem ne_empty_of_mem_references {name : String} (hm : name ∈ references s) : name ≠ "" := by
  have hc : ∀ cs : List Char, [] ∉ referencesIn cs := by
    intro cs
    induction cs with
    | nil => exact not_mem_nil
    | cons c cs ih =>
      rw [mem_referencesIn_cons]
      rintro (⟨-, hp, -⟩ | hl)
      · exact hp rfl
      · exact ih hl
  rintro rfl
  obtain ⟨name, h, he⟩ := mem_map.mp hm
  rw [String.ofList_eq_empty_iff.mp he] at h
  exact hc _ h

theorem mem_referencesIn_of_suffix {ds : List Char} (hs : ds <:+ cs) (h : name ∈ referencesIn ds) :
    name ∈ referencesIn cs := by
  obtain ⟨before, rfl⟩ := hs
  induction before with
  | nil => exact h
  | cons c before ih => exact mem_referencesIn_cons.mpr (.inr ih)

theorem mem_referencesIn_of_piece (ho : ∀ c, sep c → isIdentifierChar c = false)
    (h : piece ∈ Text.splitChars sep cs) (hm : name ∈ referencesIn piece) : name ∈ referencesIn cs := by
  induction cs generalizing piece with
  | nil =>
    obtain rfl := mem_singleton.mp h
    exact hm
  | cons c cs ih =>
    apply mem_referencesIn_cons.mpr
    obtain ⟨others, hp⟩ := Text.splitChars_eq_cons sep cs
    rw [hp] at ih
    rw [Text.splitChars, hp] at h
    split at h
    · rcases mem_cons.mp h with rfl | hl
      · cases hm
      · exact .inr (ih hl hm)
    · rcases mem_cons.mp h with rfl | hl
      · rcases mem_referencesIn_cons.mp hm with ⟨hmr, hpr, name⟩ | hl
        · refine .inl ⟨hmr, hpr, ?_⟩
          rw [name, takeWhile_takeWhile]
          congr 1
          funext d
          by_cases hs : sep d
          · simp [hs, ho d hs]
          · simp [hs]
        · exact .inr (ih mem_cons_self hl)
      · exact .inr (ih (mem_cons_of_mem _ hl) hm)

section Removal

variable {old : List Char}

theorem takeWhile_replaceFrom (hn : (cs.dropWhile isIdentifierChar).head? ≠ some '&') :
    (Text.replaceFrom ('&' :: old) [] 0 cs).takeWhile isIdentifierChar = cs.takeWhile isIdentifierChar ∧
      ((Text.replaceFrom ('&' :: old) [] 0 cs).dropWhile isIdentifierChar).head? =
        (cs.dropWhile isIdentifierChar).head? := by
  induction cs with
  | nil => exact ⟨rfl, rfl⟩
  | cons c cs ih =>
    have hk : c ≠ '&' := by
      rintro rfl
      exact hn rfl
    have hs : ('&' :: old).isPrefixOf (c :: cs) = false := by
      simp [isPrefixOf, hk.symm]
    rw [Text.replaceFrom, hs]
    by_cases h : isIdentifierChar c
    · rw [dropWhile_cons_of_pos h] at hn
      obtain ⟨hnm, he⟩ := ih hn
      simp [h, hnm, he]
    · simp [h]

theorem mem_referencesIn_of_replaceFrom (hs : spacedIn cs)
    (h : name ∈ referencesIn (Text.replaceFrom ('&' :: old) [] skip cs)) : name ∈ referencesIn cs := by
  induction cs generalizing skip with
  | nil =>
    cases skip <;> exact h
  | cons c cs ih =>
    rw [spacedIn, Bool.and_eq_true] at hs
    apply mem_referencesIn_cons.mpr
    cases skip with
    | succ skip => exact .inr (ih hs.2 h)
    | zero =>
      rw [Text.replaceFrom] at h
      split at h
      · exact .inr (ih hs.2 h)
      · rcases mem_referencesIn_cons.mp h with ⟨rfl, hp, name⟩ | hl
        · have hn : (cs.dropWhile isIdentifierChar).head? ≠ some '&' := by
            simpa using hs.1
          rw [(takeWhile_replaceFrom hn).1] at name
          exact .inl ⟨rfl, hp, name⟩
        · exact .inr (ih hs.2 hl)

theorem spacedIn_replaceFrom (h : spacedIn cs) : spacedIn (Text.replaceFrom ('&' :: old) [] skip cs) := by
  induction cs generalizing skip with
  | nil => cases skip <;> rfl
  | cons c cs ih =>
    rw [spacedIn, Bool.and_eq_true] at h
    cases skip with
    | succ skip => exact ih h.2
    | zero =>
      rw [Text.replaceFrom]
      split
      · exact ih h.2
      · rw [spacedIn, ih h.2, Bool.and_true]
        by_cases hm : c = '&'
        · subst hm
          have hn : (cs.dropWhile isIdentifierChar).head? ≠ some '&' := by
            simpa using h.1
          rw [(takeWhile_replaceFrom hn).2]
          exact h.1
        · simp [hm]

end Removal

def Lacks (c : Char) (s : String) : Prop :=
  c ∉ s.toList

instance (c : Char) (s : String) : Decidable (Lacks c s) :=
  inferInstanceAs (Decidable (c ∉ s.toList))

abbrev Quiet (s : String) : Prop :=
  Lacks '&' s

def Within (known : String → Prop) (s : String) : Prop :=
  ∀ name ∈ references s, known name

instance (known : String → Prop) [DecidablePred known] (s : String) : Decidable (Within known s) :=
  inferInstanceAs (Decidable (∀ name ∈ references s, known name))

def Spaced (s : String) : Prop :=
  spacedIn s.toList = true

instance (s : String) : Decidable (Spaced s) :=
  inferInstanceAs (Decidable (spacedIn s.toList = true))

def Apart (a b : String) : Prop :=
  endsOpen a.toList = false ∨ startsApart b.toList = true

variable {known : String → Prop} {a b : String}

theorem isIdentifierChar_of_isBlank (c : Char) (hb : Text.isBlank c) : isIdentifierChar c = false := by
  by_contra h
  rw [Bool.not_eq_false] at h
  have all : ∀ n < 128, isIdentifierChar (Char.ofNat n) →
      Text.isBlank (Char.ofNat n) = false := by
    decide +kernel
  have hs := all c.toNat (Text.lt_of_isIdentifierChar h)
  rw [Char.ofNat_toNat, hb] at hs
  cases hs h

theorem lacks_append : Lacks c (a ++ b) ↔ Lacks c a ∧ Lacks c b := by
  rw [Lacks, String.toList_append, mem_append, not_or]
  rfl

theorem lacks_join {sep : String} (hl : Lacks c sep) (h : ∀ s ∈ parts, Lacks c s) :
    Lacks c (Text.join sep parts) := by
  induction parts with
  | nil => simp [Lacks, Text.join]
  | cons s rest ih =>
    have hf := h s mem_cons_self
    cases rest with
    | nil => exact hf
    | cons t rest =>
      rw [Text.join, String.intercalate_cons_cons, lacks_append, lacks_append]
      exact ⟨⟨hf, hl⟩, ih fun u hm => h u (mem_cons_of_mem _ hm)⟩

theorem lacks_literal (h : c ∉ cs) : Lacks c (String.ofList cs) := by
  rwa [Lacks, String.toList_ofList]

theorem lacks_of_isIdentifier (name : Text.IsIdentifier s)
    (h : isIdentifierChar c = false := by decide) : Lacks c s := by
  intro hm
  rw [name _ hm] at h
  cases h

theorem quiet_chars (h : '&' ∉ cs) : referencesIn cs = [] ∧ endsOpen cs = false ∧ spacedIn cs := by
  induction cs with
  | nil => exact ⟨rfl, rfl, rfl⟩
  | cons c cs ih =>
    rw [mem_cons, not_or] at h
    simp [referencesIn, endsOpen, spacedIn, ih h.2, Ne.symm h.1]

theorem Lacks.referencesIn (h : Quiet s) : referencesIn s.toList = [] :=
  (quiet_chars h).1

theorem Lacks.endsOpen (h : Quiet s) : endsOpen s.toList = false :=
  (quiet_chars h).2.1

theorem Lacks.spaced (h : Quiet s) : Spaced s :=
  (quiet_chars h).2.2

theorem Lacks.within (hq : Quiet s) : Within known s := by
  intro name h
  rw [references, hq.referencesIn] at h
  cases h

theorem Within.mono {known' : String → Prop} (hw : ∀ name, known name → known' name)
    (within : Within known s) : Within known' s :=
  fun name h => hw name (within name h)

theorem within_iff : Within known s ↔ ∀ name ∈ referencesIn s.toList, known (String.ofList name) := by
  simp [Within, references]

theorem references_append (h : Apart a b) : references (a ++ b) = references a ++ references b := by
  rw [references, String.toList_append, referencesIn_append h, map_append]
  rfl

theorem Within.append (hl : Within known a) (hr : Within known b) (h : Apart a b) : Within known (a ++ b) := by
  rw [Within, references_append h]
  exact forall_mem_append.mpr ⟨hl, hr⟩

theorem Within.quiet_append (hw : Within known s) (h : Quiet a) : Within known (a ++ s) :=
  h.within.append hw (.inl h.endsOpen)

theorem Within.between (hw : Within known s) (hb : Quiet a) (h : '&' ∉ after ∧ startsApart after) :
    Within known (a ++ s ++ String.ofList after) := by
  refine (hw.quiet_append hb).append (lacks_literal h.1).within (.inr ?_)
  rw [String.toList_ofList]
  exact h.2

theorem Within.surround {before : List Char} (hw : Within known s)
    (h : '&' ∉ before ∧ '&' ∉ after ∧ startsApart after) :
    Within known (String.ofList before ++ s ++ String.ofList after) :=
  hw.between (lacks_literal h.1) h.2

theorem within_ampersand {name : String} (h : Text.IsIdentifier name) (hk : known name) :
    Within known ("&" ++ name) := by
  rw [within_iff]
  intro other hm
  have hc : ("&" ++ name).toList = '&' :: name.toList := by
    rw [String.toList_append]
    rfl
  rw [hc] at hm
  rcases mem_referencesIn_cons.mp hm with ⟨-, -, rfl⟩ | hl
  · rwa [takeWhile_eq_self_iff.mpr h, String.ofList_toList]
  · rw [(lacks_of_isIdentifier h).referencesIn] at hl
    cases hl

theorem endsOpen_append (hq : Quiet b) (h : startsApart b.toList) (hp : b ≠ "") :
    endsOpen (a ++ b).toList = false := by
  have hs : b.toList.all isIdentifierChar = false := by
    cases hc : b.toList with
    | nil => exact absurd (String.toList_inj.mp hc) hp
    | cons c cs =>
      rw [hc] at h
      simp [show isIdentifierChar c = false by simpa [startsApart] using h]
  rw [String.toList_append]
  induction a.toList with
  | nil => exact hq.endsOpen
  | cons c cs ih => simp [endsOpen, ih, hs]

theorem Within.space (h : Within known a) (hr : Within known b) : Within known (a ++ " " ++ b) := by
  have hs : Within known (a ++ " ") := h.append (Lacks.within (by decide)) (.inr rfl)
  exact hs.append hr (.inl (endsOpen_append (by decide) rfl (by decide)))

theorem within_call {name argument : String} (hn : Text.IsIdentifier name) (h : known name)
    (hw : Within known argument) : Within known ("&" ++ name ++ " " ++ argument ++ " 0") :=
  ((within_ampersand hn h).space hw).append (Lacks.within (by decide)) (.inr rfl)

theorem references_join (sep : String) (hq : Quiet sep) (h : startsApart sep.toList)
    (hp : sep ≠ "") (parts : List String) : references (Text.join sep parts) = parts.flatMap references := by
  induction parts with
  | nil => simp [Text.join, references, referencesIn]
  | cons s rest ih =>
    cases rest with
    | nil => simp [Text.join]
    | cons t rest =>
      have hs : references sep = [] := by rw [references, hq.referencesIn]; rfl
      have hc : endsOpen (s ++ sep).toList = false := endsOpen_append hq h hp
      change references (String.intercalate sep (t :: rest)) = _ at ih
      rw [Text.join, String.intercalate_cons_cons, references_append (.inl hc),
        references_append (.inr h), hs, ih, append_nil]
      rfl

theorem within_join (sep : String) (hq : Quiet sep) (ha : startsApart sep.toList)
    (present : sep ≠ "") (he : ∀ s ∈ parts, Within known s) : Within known (Text.join sep parts) := by
  intro name h
  rw [references_join sep hq ha present] at h
  obtain ⟨s, hp, hr⟩ := mem_flatMap.mp h
  exact he s hp name hr

def AllWithin (known : String → Prop) (lines : List String) : Prop :=
  ∀ s ∈ lines, Within known s

theorem within_unlines (h : AllWithin known lines) : Within known (Text.unlines lines) :=
  within_join "\n" (by decide) (by decide) (by decide) h

theorem AllWithin.append (h : AllWithin known lines) (hr : AllWithin known others) :
    AllWithin known (lines ++ others) :=
  forall_mem_append.mpr ⟨h, hr⟩

theorem AllWithin.cons (h : Within known s) (ht : AllWithin known lines) : AllWithin known (s :: lines) :=
  forall_mem_cons.mpr ⟨h, ht⟩

theorem AllWithin.flatMap (h : ∀ x ∈ xs, AllWithin known (f x)) : AllWithin known (xs.flatMap f) := by
  intro s hm
  obtain ⟨x, hl, hln⟩ := mem_flatMap.mp hm
  exact h x hl s hln

theorem AllWithin.flatten (h : ∀ lines ∈ blocks, AllWithin known lines) : AllWithin known blocks.flatten := by
  intro s hm
  obtain ⟨lines, hb, hl⟩ := mem_flatten.mp hm
  exact h lines hb s hl

theorem AllWithin.nil : AllWithin known [] :=
  forall_mem_nil _

theorem AllWithin.literal (h : '&' ∉ cs) (ht : AllWithin known lines) :
    AllWithin known (String.ofList cs :: lines) :=
  .cons (lacks_literal h).within ht

theorem within_bindings {hold tap : String} (hf : Within known hold) (hs : Within known tap) :
    Within known s!"            bindings = <{hold}>, <{tap}>;" := by
  change Within known ("            bindings = <" ++ hold ++ ">, <" ++ tap ++ ">;")
  have ho : Within known ("            bindings = <" ++ hold ++ ">, <") := hf.surround (by decide)
  have h : endsOpen ("            bindings = <" ++ hold ++ ">, <").toList = false :=
    endsOpen_append (lacks_literal (by decide)) (by decide) (by decide)
  exact (ho.append hs (.inl h)).append (lacks_literal (by decide)).within
    (.inr (by decide))

theorem within_piece (ho : ∀ c, sep c → isIdentifierChar c = false) (h : Within known s)
    (hp : piece ∈ Text.splitChars sep s.toList) : Within known (String.ofList piece) := by
  rw [within_iff] at h ⊢
  rw [String.toList_ofList]
  exact fun name hm => h name (mem_referencesIn_of_piece ho hp hm)

theorem within_words {word : String} (within : Within known s) (hw : word ∈ Text.words s) :
    Within known word := by
  obtain ⟨piece, h, rfl⟩ := mem_map.mp hw
  exact within_piece isIdentifierChar_of_isBlank within (mem_filter.mp h).1

theorem within_split {part : String} (hw : Within known s) (hp : part ∈ Text.split ':' s) :
    Within known part := by
  obtain ⟨piece, hpc, rfl⟩ := mem_map.mp hp
  refine within_piece (fun c h => ?_) hw hpc
  rw [beq_iff_eq.mp h]
  rfl

theorem Within.drop (h : Within known s) (n : Nat) : Within known (Text.drop n s) := by
  rw [within_iff] at h ⊢
  rw [Text.drop, String.toList_ofList]
  exact fun name hm => h name (mem_referencesIn_of_suffix (drop_suffix _ _) hm)

theorem Within.bare (hw : Within known s) (hs : Spaced s) : Within known (Text.replace "&kp " "" s) := by
  rw [within_iff] at hw ⊢
  intro name h
  rw [Text.replace, if_neg (by decide), String.toList_ofList] at h
  exact hw name (mem_referencesIn_of_replaceFrom hs h)

theorem Spaced.bare (h : Spaced s) : Spaced (Text.replace "&kp " "" s) := by
  rw [Spaced, Text.replace, if_neg (by decide), String.toList_ofList]
  exact spacedIn_replaceFrom h

theorem Spaced.append (hl : Spaced a) (hr : Spaced b) (h : endsOpen a.toList = false) : Spaced (a ++ b) := by
  rw [Spaced, String.toList_append]
  exact spacedIn_append hl hr (.inl h)

theorem spaced_join (h : ∀ s ∈ parts, Spaced s) : Spaced (Text.join " " parts) := by
  induction parts with
  | nil => exact (by simp [Lacks, Text.join] : Quiet (Text.join " " [])).spaced
  | cons s rest ih =>
    have hf := h s mem_cons_self
    cases rest with
    | nil => exact hf
    | cons t rest =>
      rw [Text.join, String.intercalate_cons_cons]
      have others := ih fun u hm => h u (mem_cons_of_mem _ hm)
      have hs : Spaced (s ++ " ") := by
        rw [Spaced, String.toList_append]
        exact spacedIn_append hf rfl (.inr ⟨rfl, by decide⟩)
      exact hs.append others (endsOpen_append (by decide) (by decide) (by decide))

def lineLabel? (line : List Char) : Option (List Char) :=
  let body := line.dropWhile (· == ' ')
  let label := body.takeWhile isIdentifierChar
  match body.dropWhile isIdentifierChar with
  | ':' :: ' ' :: node => if !label.isEmpty && node.getLast? == some '{' then some label else none
  | _ => none

def labels (s : String) : List String :=
  ((Text.splitChars (· == '\n') s.toList).filterMap lineLabel?).map String.ofList

theorem mem_labels_newline : label ∈ labels (a ++ "\n" ++ b) ↔ label ∈ labels a ∨ label ∈ labels b := by
  rw [labels, Text.splitChars_joined rfl, filterMap_append, map_append, mem_append]
  rfl

theorem labels_of_lacks (hl : Lacks ':' s) : labels s = [] := by
  have hln : ∀ cs label, lineLabel? cs = some label → ':' ∈ cs := by
    intro cs label h
    rw [lineLabel?] at h
    split at h
    · rename_i node ha
      have hb := (dropWhile_suffix (p := isIdentifierChar)).subset (ha ▸ mem_cons_self : ':' ∈ _)
      exact (dropWhile_suffix _).subset hb
    · cases h
  apply eq_nil_iff_forall_not_mem.mpr
  intro label hm
  obtain ⟨name, hn, -⟩ := mem_map.mp hm
  obtain ⟨piece, hp, h⟩ := mem_filterMap.mp hn
  exact hl (Text.mem_splitChars hp (hln piece name h)).1

def Defines (lines : List String) (label : String) : Prop :=
  ∃ s ∈ lines, label ∈ labels s

instance {lines : List String} {label : String} : Decidable (Defines lines label) :=
  inferInstanceAs (Decidable (∃ s ∈ lines, label ∈ labels s))

theorem Defines.append_left (h : Defines lines label) : Defines (lines ++ others) label :=
  Exists.imp (fun _ => .imp_left (mem_append_left _)) h

theorem Defines.append_right (h : Defines others label) : Defines (lines ++ others) label :=
  Exists.imp (fun _ => .imp_left (mem_append_right _)) h

theorem Defines.cons {line : String} (h : Defines lines label) : Defines (line :: lines) label :=
  Exists.imp (fun _ => .imp_left (mem_cons_of_mem _)) h

theorem Defines.flatMap {x : α} (hm : x ∈ xs) (h : Defines (f x) label) : Defines (xs.flatMap f) label := by
  obtain ⟨s, hl, hf⟩ := h
  exact ⟨s, mem_flatMap.mpr ⟨x, hm, hl⟩, hf⟩

theorem Defines.flatten (h : ∃ lines ∈ blocks, Defines lines label) : Defines blocks.flatten label := by
  obtain ⟨lines, hb, s, hl, hf⟩ := h
  exact ⟨s, mem_flatten.mpr ⟨lines, hb, hl⟩, hf⟩

theorem mem_labels_unlines : label ∈ labels (Text.unlines lines) ↔ Defines lines label := by
  rw [Defines]
  induction lines with
  | nil => simp [Text.unlines, labels, Text.splitChars, lineLabel?]
  | cons s rest ih =>
    cases rest with
    | nil => simp [Text.unlines]
    | cons t rest =>
      rw [Text.unlines, String.intercalate_cons_cons, mem_labels_newline, exists_mem_cons_iff]
      exact or_congr_right ih

theorem lineLabel?_node {node : List Char} (h : ∀ c ∈ name, isIdentifierChar c)
    (hp : name ≠ []) (ho : node.getLast? = some '{') :
    lineLabel? (replicate 8 ' ' ++ (name ++ ':' :: ' ' :: node)) = some name := by
  have hb : (replicate 8 ' ' ++ (name ++ ':' :: ' ' :: node)).dropWhile (· == ' ') =
      name ++ ':' :: ' ' :: node := by
    rw [dropWhile_append_of_pos (by simp)]
    cases name with
    | nil => exact absurd rfl hp
    | cons c name =>
      have hf : (c == ' ') = false := by
        rw [beq_eq_false_iff_ne]
        rintro rfl
        exact absurd (h ' ' mem_cons_self) (by decide)
      rw [cons_append, dropWhile_cons_of_neg (by simp [hf])]
  have label : (name ++ ':' :: ' ' :: node).takeWhile isIdentifierChar = name := by
    rw [takeWhile_append_of_startsApart rfl, takeWhile_eq_self_iff.mpr h]
  have hr : (name ++ ':' :: ' ' :: node).dropWhile isIdentifierChar = ':' :: ' ' :: node := by
    rw [dropWhile_append_of_pos h]
    rfl
  rw [lineLabel?, hb, label, hr]
  simp [hp, ho]

theorem mem_labels_node {name node : String} (ending : String) (h : Text.IsIdentifier name)
    (hp : name ≠ "") (isNode : Text.IsIdentifier node)
    (opens : ending.toList.getLast? = some '{') (oneLine : '\n' ∉ ending.toList) :
    name ∈ labels ("        " ++ name ++ ": " ++ node ++ ending) := by
  have hc : ("        " ++ name ++ ": " ++ node ++ ending).toList =
      replicate 8 ' ' ++ (name.toList ++ ':' :: ' ' :: (node.toList ++ ending.toList)) := by
    simp only [String.toList_append, append_assoc]
    rfl
  have hn : ∀ s, Text.IsIdentifier s → '\n' ∉ s.toList := by
    intro s h hm
    exact absurd (h _ hm) (by decide)
  have hs : Text.splitChars (· == '\n') ("        " ++ name ++ ": " ++ node ++ ending).toList =
      [("        " ++ name ++ ": " ++ node ++ ending).toList] := by
    apply Text.splitChars_of_not_mem
    simp [hc, hn name h, hn node isNode, oneLine]
  have ho : (node.toList ++ ending.toList).getLast? = some '{' := by
    rw [getLast?_append, opens, Option.some_or]
  rw [labels, hs, hc, filterMap_cons, lineLabel?_node h ?_ ho]
  · simp
  · exact fun hnn => hp (String.toList_inj.mp hnn)

end Keymap.Devicetree
