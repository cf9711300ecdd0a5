import Keymap.Proofs.TrainedGroups

namespace Keymap

theorem anyM_eq_ok {α : Type} {p : α → Result Bool} {xs : List α} {found : Bool} (h : xs.anyM p = .ok found) :
    (found → ∃ x ∈ xs, p x = .ok true) ∧ (found = false → ∀ x ∈ xs, p x = .ok false) := by
  induction xs with
  | nil =>
    obtain rfl := pure_eq_ok.mp h
    simp
  | cons x xs ih =>
    rw [List.anyM] at h
    obtain ⟨here, hh, h⟩ := bind_eq_ok.mp h
    cases here with
    | true =>
      obtain rfl := pure_eq_ok.mp h
      exact ⟨fun _ => ⟨x, List.mem_cons_self, hh⟩, by simp⟩
    | false =>
      obtain ⟨hs, all⟩ := ih h
      refine ⟨fun ht => ?_, fun hf => List.forall_mem_cons.mpr ⟨hh, all hf⟩⟩
      obtain ⟨y, hm, ht⟩ := hs ht
      exact ⟨y, List.mem_cons_of_mem _ hm, ht⟩

end Keymap

namespace Keymap.Zmk

variable {c : Colocation} {layer : CompiledLayer}

section Letters

variable {previous : List Field} {letter : String}

/-- A letter whose shifted form must not lead to training: shift and the magic key are on the thumbs of
the other hand, or on those of both. -/
def ShiftExempt (layer : CompiledLayer) (c : Colocation) (letter : String) : Prop :=
  letterHand? letter layer = .ok (some .right) ∧ c.left = true ∨
  letterHand? letter layer = .ok (some .left) ∧ c.right = true ∨
  c.left = true ∧ c.right = true

theorem exempt_iff {hand : Option Hand} (h : letterHand? letter layer = .ok hand) :
    exempt c hand ↔ ShiftExempt layer c letter := by
  rw [ShiftExempt, h, exempt]
  rcases hand with _ | _ | _ <;> simp

def lettersOf (previous : List Field) : List String :=
  (previous.filterMap Field.word?).filter isLetterKey

theorem mem_lettersOf : letter ∈ lettersOf previous ↔ .word letter ∈ previous ∧ isLetterKey letter := by
  rw [lettersOf, List.mem_filter, List.mem_filterMap]
  refine and_congr_left fun _ => ⟨?_, fun h => ⟨_, h, rfl⟩⟩
  rintro ⟨p, h, hw⟩
  cases p with
  | word s =>
    obtain rfl := Option.some.inj hw
    exact h
  | number _ => cases hw

theorem needsStrict_iff {strict : Bool} (hd : needsStrict (some (layer, c)) previous = .ok strict) :
    strict ↔ ∃ letter ∈ lettersOf previous, ShiftExempt layer c letter := by
  obtain ⟨some, all⟩ := anyM_eq_ok hd
  constructor
  · intro hs
    obtain ⟨p, hm, h⟩ := some hs
    cases p with
    | number _ => cases h
    | word letter =>
      dsimp only at h
      split at h
      · rename_i hl
        obtain ⟨hand, hh, he⟩ := map_eq_ok.mp h
        exact ⟨letter, mem_lettersOf.mpr ⟨hm, hl⟩, (exempt_iff hh).mp he⟩
      · cases h
  · rintro ⟨letter, hm, he⟩
    obtain ⟨hp, hl⟩ := mem_lettersOf.mp hm
    by_contra hns
    have hf := all (Bool.eq_false_iff.mpr hns) _ hp
    dsimp only at hf
    rw [if_pos hl] at hf
    obtain ⟨hand, hh, hn⟩ := map_eq_ok.mp hf
    rw [(exempt_iff hh).mpr he] at hn
    cases hn

end Letters

section Guards

variable {keycodes : Entries} {refs : MacroRefs} {magic : MagicConfig} {layers : List CompiledLayer}
  {base : Option (CompiledLayer × Colocation)} {m : MagicMapping}

/-- The guard of an alternate of a base layer. It is triggered by all keys that lead to the alternate, and
it is strict if one of the letters among them must be kept from training. -/
structure GuardsLetters (keycodes : Entries) (refs : MacroRefs) (layers : List CompiledLayer)
    (m : MagicMapping) (code : String) (guard : Trigger) : Prop where
  keys : triggerKeys keycodes refs m code = .ok guard.keys
  strict : ∀ layer, layers.find? (fun l => l.name.same m.baseLayer) = some layer →
    ∃ c, colocation layer = .ok c ∧ (guard.strict = true ↔
      ∃ letter ∈ lettersOf (predecessors keycodes refs m code), ShiftExempt layer c letter)

/-- The guard keeps exactly those letters from training that must be. -/
def FollowsRule (layer : CompiledLayer) (c : Colocation) (letters : List String) (guard : Trigger) : Prop :=
  ∀ letter ∈ letters, guard.strict = true ↔ ShiftExempt layer c letter

theorem followsRule_iff {letters : List String} {guard : Trigger}
    (hs : guard.strict ↔ ∃ letter ∈ letters, ShiftExempt layer c letter) : FollowsRule layer c letters guard ↔
      ∀ a ∈ letters, ∀ b ∈ letters, ShiftExempt layer c a → ShiftExempt layer c b := by
  constructor
  · intro hf a hl b hlt h
    exact (hf b hlt).mp ((hf a hl).mpr h)
  · intro ha letter hl
    rw [hs]
    refine ⟨?_, fun h => ⟨letter, hl, h⟩⟩
    rintro ⟨other, hlt, h⟩
    exact ha other hlt letter hl h

theorem compiledBase_of_found (hf : layers.find? (fun l => l.name.same m.baseLayer) = some layer)
    (h : compiledBase layers m = .ok base) : ∃ c, colocation layer = .ok c ∧ base = some (layer, c) := by
  rw [compiledBase, hf] at h
  obtain ⟨c, hc, rfl⟩ := map_eq_ok.mp h
  exact ⟨c, hc, rfl⟩

theorem GroupsTrained.guardsLetters {entries : Entries} {found : Option TrainedFamily}
    (h : GroupsTrained keycodes refs layers m entries base found) :
    List.Forall₂ (fun code node => ∃ guard, node.triggers = [guard] ∧
        GuardsLetters keycodes refs layers m code guard)
      (alternates keycodes refs m) (((found.map (·.2)).getD []).map (·.1)) := by
  have he := (List.forall₂_and_left _ _).mpr ⟨fun _ hm => h.coded.mem_group hm, h.each⟩
  rw [← h.coded.names_groups, List.forall₂_map_left_iff, List.forall₂_map_right_iff]
  refine he.imp fun g pair one => ?_
  obtain ⟨⟨-, hp, -⟩, hd⟩ := one
  obtain ⟨alternate, keys, strict, limit, -, hk, hs, rfl⟩ := trainingKey_eq_ok hd
  rw [hp] at hk hs
  refine ⟨_, rfl, hk, fun layer hl => ?_⟩
  obtain ⟨c, hc, rfl⟩ := compiledBase_of_found hl h.isLayer
  exact ⟨c, hc, needsStrict_iff hs⟩

theorem flatten_nodes (found : List (Option TrainedFamily)) :
    (found.map fun f => ((f.map (·.2)).getD []).map (·.1)).flatten =
      (found.filterMap id).flatMap fun f => f.2.map (·.1) := by
  induction found with
  | nil => rfl
  | cons f found ih =>
    rw [List.map_cons, List.flatten_cons, ih]
    cases f <;> rfl

/-- Each alternate of each base layer has one guard. It does for each letter that leads to the alternate
what the rule for shifted letters asks for exactly if the rule asks for the same for all of them. -/
theorem guards_follow_rule_iff_alike {table : BehaviorTable} {made : String × Replacements}
    (done : magicTrainingSection keycodes table refs magic layers = .ok made) :
    ∃ groups wrappers, made.1 = magicTrainingText groups.flatten wrappers ∧
      List.Forall₂ (fun m nodes => List.Forall₂ (fun code node => ∃ guard, node.triggers = [guard] ∧
          GuardsLetters keycodes refs layers m code guard ∧
          ∀ layer c, layers.find? (fun l => l.name.same m.baseLayer) = some layer → colocation layer = .ok c →
            let letters := lettersOf (predecessors keycodes refs m code)
            (FollowsRule layer c letters guard ↔
              ∀ a ∈ letters, ∀ b ∈ letters, ShiftExempt layer c a → ShiftExempt layer c b))
        (alternates keycodes refs m) nodes) magic groups := by
  obtain ⟨found, isFound, done⟩ := bind_eq_ok.mp done
  obtain ⟨wrapped, -, done⟩ := bind_eq_ok.mp done
  obtain rfl := pure_eq_ok.mp done
  refine ⟨found.map fun f => ((f.map (·.2)).getD []).map (·.1), distinctNodes wrapped, ?_, ?_⟩
  · rw [flatten_nodes]
    rfl
  · rw [List.forall₂_map_right_iff]
    refine (mapM_eq_ok.mp isFound).imp fun m f one => ?_
    obtain ⟨entries, base, trained⟩ := magicTraining_groups one
    refine trained.guardsLetters.imp fun code node one => ?_
    obtain ⟨guard, isGuard, guards⟩ := one
    refine ⟨guard, isGuard, guards, fun layer c isLayer isColocation => ?_⟩
    obtain ⟨c', isColocation', isStrict⟩ := guards.strict layer isLayer
    obtain rfl := Except.ok.inj (isColocation'.symm.trans isColocation)
    exact followsRule_iff isStrict

end Guards

def thumbedLayer : CompiledLayer where
  name := "BASE_NIGHT"
  keycodes := ["&kp A"] ++ List.replicate 4 "&kp Q" ++ ["&kp U"] ++ List.replicate 24 "&kp Q" ++
    ["&ak_night", "&kp R", "&mt LSFT X", "&kp SPACE", "&kp SPACE", "&kp SPACE"]

def mixedMapping : MagicMapping :=
  ⟨"BASE_NIGHT", .whole 150, .record [("A", "E"), ("U", "E")], "REPEAT"⟩

/-- After `U` the guard has to be strict, and after `A` it must not be. -/
theorem mixed_hands_break_rule :
    ∃ made, magicTrainingSection [] [] [] [mixedMapping] [thumbedLayer] = .ok made ∧
      ∃ node wrappers guard, made.1 = magicTrainingText [node] wrappers ∧ node.triggers = [guard] ∧
        guard.keys = ["A", "U"] ∧ guard.strict = true ∧
        ¬ FollowsRule thumbedLayer ⟨true, false⟩ ["A", "U"] guard := by
  obtain ⟨made, done⟩ : ∃ made, magicTrainingSection [] [] [] [mixedMapping] [thumbedLayer] = .ok made :=
    exists_eq_ok (by decide +kernel)
  obtain ⟨groups, wrappers, isText, magic⟩ := guards_follow_rule_iff_alike done
  obtain ⟨nodes, _, each, ⟨⟩, rfl⟩ := List.forall₂_cons_left_iff.mp magic
  have isAlternates : alternates [] [] mixedMapping = ["&kp E"] := by decide +kernel
  rw [isAlternates] at each
  obtain ⟨node, _, ⟨guard, isGuard, guards, isRule⟩, ⟨⟩, rfl⟩ := List.forall₂_cons_left_iff.mp each
  have isLayer : [thumbedLayer].find? (fun l => l.name.same mixedMapping.baseLayer) = some thumbedLayer := by
    rfl
  have isColocation : colocation thumbedLayer = .ok ⟨true, false⟩ := by decide +kernel
  have isLetters : lettersOf (predecessors [] [] mixedMapping "&kp E") = ["A", "U"] := by decide +kernel
  have left : letterHand? "A" thumbedLayer = .ok (some .left) := by decide +kernel
  have right : letterHand? "U" thumbedLayer = .ok (some .right) := by decide +kernel
  have exempted : ShiftExempt thumbedLayer ⟨true, false⟩ "U" := .inl ⟨right, rfl⟩
  have notExempted : ¬ ShiftExempt thumbedLayer ⟨true, false⟩ "A" := by simp [ShiftExempt, left]
  obtain ⟨c, isColocation', isStrict⟩ := guards.strict thumbedLayer isLayer
  obtain rfl := Except.ok.inj (isColocation'.symm.trans isColocation)
  have keys : triggerKeys [] [] mixedMapping "&kp E" = .ok ["A", "U"] := by decide +kernel
  refine ⟨made, done, node, wrappers, guard, isText, isGuard,
    Except.ok.inj (guards.keys.symm.trans keys), ?_, ?_⟩
  · rw [isStrict, isLetters]
    exact ⟨"U", by simp, exempted⟩
  · have isRule := isRule _ _ isLayer isColocation
    simp only [isLetters] at isRule
    rw [isRule]
    intro alike
    exact notExempted (alike "U" (by simp) "A" (by simp) exempted)

end Keymap.Zmk
