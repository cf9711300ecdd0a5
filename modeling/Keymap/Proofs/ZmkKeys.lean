import Keymap.Proofs.Assignments
import Keymap.Proofs.Devicetree
import Keymap.Proofs.Outcome
import Keymap.Zmk.Magic

namespace Keymap.Zmk

open Devicetree

variable {s : String} {cs : List Char}

def generatedStarts : List String :=
  ["ak_", "lt_ak_", "mt_ak_", "hml_train_", "hmr_train_", "hml_combo_train_", "hmr_combo_train_",
   "sm_", "magic_"]

/-- Whether a label belongs to a family of labels that generating makes up: home-row mods, magic keys
and their wrappers, training, shift morphs and magic macros. -/
def isGenerated (label : String) : Bool :=
  label == "hml" || label == "hmr" || generatedStarts.any fun start => Text.startsWith label start

def Plain (s : String) : Prop :=
  Within (fun name => isGenerated name = false) s

instance (s : String) : Decidable (Plain s) :=
  inferInstanceAs (Decidable (Within _ s))

def KnowsOthers (known : String → Prop) : Prop :=
  ∀ name, isGenerated name = false → known name

/-- A text that refers to known names only, with nothing but other characters between them. -/
structure Tidy (known : String → Prop) (s : String) : Prop where
  within : Within known s
  spaced : Spaced s

def TidyTable (known : String → Prop) (keycodes : Entries) : Prop :=
  ∀ name entry value, keycodes.lookup name = some entry → entry.findD "zmk" .null = .ok value →
    Tidy known value.toText

variable {known : String → Prop} {keycodes : Entries}

theorem tidyTable_of_forall (h : ∀ item ∈ keycodes, Yields (item.2.findD "zmk" .null) fun value =>
    Tidy known value.toText) : TidyTable known keycodes := by
  intro name entry value he hv
  exact h _ (mem_of_lookup he) value hv

theorem Plain.within (base : KnowsOthers known) (h : Plain s) : Within known s :=
  Within.mono base h

theorem plain_literal (h : ∀ name ∈ referencesIn cs, isGenerated (String.ofList name) = false) :
    Plain (String.ofList cs) := by
  rwa [Plain, within_iff, String.toList_ofList]

theorem within_literal (base : KnowsOthers known)
    (h : ∀ name ∈ referencesIn cs, isGenerated (String.ofList name) = false) :
    Within known (String.ofList cs) :=
  (plain_literal h).within base

theorem TidyTable.mono {known' : String → Prop} (hw : ∀ name, known name → known' name)
    (ht : TidyTable known keycodes) : TidyTable known' keycodes := by
  intro name entry value hf hv
  have h := ht name entry value hf hv
  exact ⟨h.within.mono hw, h.spaced⟩

theorem Tidy.bare (h : Tidy known s) : Tidy known (Text.replace "&kp " "" s) :=
  ⟨h.within.bare h.spaced, h.spaced.bare⟩

theorem Tidy.press (base : KnowsOthers known) (h : Tidy known s) : Tidy known ("&kp " ++ s) :=
  have hs : Plain "&kp " := by decide
  ⟨(hs.within base).append h.within (.inl rfl), Spaced.append rfl h.spaced rfl⟩

theorem Lacks.tidy (h : Quiet s) : Tidy known s :=
  ⟨h.within, h.spaced⟩

theorem word_yields (d : Document) (part : String) : Yields (d.word part) fun s => d = .text s := by
  cases d with
  | text s => exact .ok rfl
  | null | flag _ | whole _ | decimal _ | list _ | record _ => exact .error

theorem findD_yields (entry : Document) (field : Field) (default : Document) :
    Yields (entry.findD field default) fun value =>
      value = default ∨ entry.findD field .null = .ok value := by
  refine Yields.self.bind fun found h => .ok ?_
  cases found with
  | none => exact .inl rfl
  | some value => exact .inr (bind_eq_ok.mpr ⟨_, h, rfl⟩)

theorem charKey_tidy (table : TidyTable known keycodes) (s : String) :
    Yields (charKey keycodes s) fun d => Tidy known d.toText := by
  unfold charKey
  split
  · exact .error
  · extract_lets token unknown
    clear_value token
    cases token with
    | none => exact .error
    | some token =>
      dsimp only
      split
      · exact .refused
      · split
        · exact .error
        · rename_i entry hf
          refine Yields.self.bind fun value hv => ?_
          have h := table _ _ _ hf hv
          split
          · exact .refused
          · split
            · refine .ok ?_
              change Tidy known (ite _ _ _)
              split
              · exact h.bare
              · exact h
            · exact .ok h

section Keys

variable (base : KnowsOthers known) (table : TidyTable known keycodes)

include base table

theorem keyPresses_tidy (pieces : List String) :
    Yields (keyPresses keycodes pieces) fun keys => ∀ key ∈ keys, Tidy known key :=
  .mapM_all fun piece _ => (charKey_tidy table piece).bind fun _ h => .ok (h.press base)

theorem tapSequence_tidy (pieces : List String) : Yields (tapSequence keycodes pieces) (Tidy known) := by
  refine (keyPresses_tidy base table pieces).bind fun keys ht => .ok ?_
  have hs : Plain "&macro_tap " := by decide
  have row := within_join " " (by decide) (by decide) (by decide)
    fun key h => (ht key h).within
  exact ⟨(hs.within base).append row (.inl rfl),
    Spaced.append rfl (spaced_join fun key h => (ht key h).spaced) rfl⟩

theorem plainKey_tidy (key : String) : Yields (plainKey keycodes key) fun d => Tidy known d.toText := by
  have hp : ∀ s, Quiet s → Tidy known ("&kp " ++ s) :=
    fun s hq => (Lacks.tidy hq).press base
  unfold plainKey
  extract_lets key unknown rest
  have hn : ∀ named, Tidy known named.toText →
      Yields (rest named) fun d => Tidy known d.toText := by
    intro named h
    simp only [rest]
    split
    · apply Yields.ok
      split
      · exact h
      · exact hp "" (by decide)
    · split
      · exact .ok h
      · split
        · rename_i hc _ hl
          refine .ok (hp _ (Text.not_mem_upper (by simp) fun hm => ?_))
          rw [hc, List.mem_singleton] at hm
          rw [← hm] at hl
          exact absurd hl (by decide)
        · split
          · exact .error
          · split
            · exact .refused
            · split
              · exact .error
              · rename_i entry hf
                refine Yields.self.bind fun value hv => ?_
                split
                · exact .ok (table _ _ _ hf hv)
                · exact .error
    · exact (tapSequence_tidy base table _).bind fun row h => .ok h
  have hnl := hn .null (Lacks.tidy (by decide))
  clear_value rest
  split
  · rename_i entry hf
    split
    · exact hnl
    · exact Yields.self.bind fun value hv => hn value (table _ _ _ hf hv)
  · exact hnl

theorem simpleKey_tidy (d : Document) : Yields (simpleKey keycodes d) fun d => Tidy known d.toText := by
  unfold simpleKey
  split
  · split
    · exact .map (tapSequence_tidy base table _)
    · exact plainKey_tidy base table _
    · exact plainKey_tidy base table _
  · exact .map (tapSequence_tidy base table _)
  · exact plainKey_tidy base table _

theorem namedKey_within {key : Document} (hq : Quiet key.toText) :
    Yields (namedKey keycodes key) fun d => Within known d.toText := by
  have hp : Within known ("&kp " ++ key.toText) := ((Lacks.tidy hq).press base).within
  unfold namedKey
  refine Yields.self.bind fun field _ => ?_
  split
  · rename_i entry hf
    refine (findD_yields entry "zmk" "").bind fun value h => .ok ?_
    split
    · rename_i hpr
      rcases h with rfl | h
      · cases hpr
      · obtain ⟨name, -, ht⟩ := Option.bind_eq_some_iff.mp hf
        exact (table _ _ _ ht h).within
    · exact hp
  · exact .ok hp

end Keys

theorem bareKey_within {d : Document} (h : Tidy known d.toText) : Yields (bareKey d) (Within known) := by
  cases d with
  | text s => exact .ok h.bare.within
  | null | flag _ | whole _ | decimal _ | list _ | record _ => exact .error

theorem isIdentifier_labelOf (token : String) : Text.IsIdentifier (labelOf token) := by
  unfold labelOf
  extract_lets plain fragment
  split
  · decide
  · exact (Text.isIdentifier_identifierFragment plain).lower

theorem isIdentifier_familyLabel {layer : String} (h : Text.IsIdentifier layer) :
    Text.IsIdentifier (familyLabel layer) :=
  h.lower.replace "base_" "" (by decide) (by decide)

end Keymap.Zmk
