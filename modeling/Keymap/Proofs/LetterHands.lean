import Keymap.Proofs.SpelledKeys
import Keymap.Zmk.Hands

namespace Keymap

open List

namespace Text

variable {sep : Char} {sub : List Char}

theorem prefix_takeWhile_iff (ha : sep ∉ sub) {cs : List Char} :
    sub <+: cs ↔ sub <+: cs.takeWhile fun c => !(c == sep) := by
  cases h : cs.dropWhile (fun c => !(c == sep)) with
  | nil => rw [takeWhile_eq_self_iff.mpr (dropWhile_eq_nil_iff.mp h)]
  | cons c after =>
    have hs := head_dropWhile_not (fun c => !(c == sep)) (l := cs) (by simp [h])
    obtain rfl : c = sep := by simpa [h] using hs
    have hw := takeWhile_append_dropWhile (p := fun d => !(d == c)) (l := cs)
    rw [h] at hw
    nth_rewrite 1 [← hw]
    exact prefix_append_cons ha

theorem infix_cons_iff (ha : sep ∉ sub) {cs : List Char} :
    sep :: sub <:+: cs ↔ ∃ piece ∈ (splitChars (· == sep) cs).tail, sub <+: piece := by
  induction cs with
  | nil => simp [splitChars]
  | cons c cs ih =>
    rw [List.infix_cons_iff, ih, List.cons_prefix_cons, splitChars]
    obtain ⟨rest, hp⟩ := splitChars_eq_cons (· == sep) cs
    rw [hp, prefix_takeWhile_iff ha]
    by_cases h : c = sep
    · simp [h]
    · simp [h, Ne.symm h]

theorem contains_space_append {code start : String} (h : ' ' ∉ start.toList) :
    contains code (" " ++ start) = (split ' ' code).tail.any fun piece => startsWith piece start := by
  have hs : (" " ++ start).toList = ' ' :: start.toList := by simp
  rw [Bool.eq_iff_iff, contains_iff, hs, infix_cons_iff h, split, ← map_tail, any_map]
  simp [startsWith]

end Text

namespace Zmk

def fingerHand (keys i : Nat) : Option Hand :=
  if keys - 6 ≤ i then none
  else if i % ((keys - 6) / 3) < (keys - 6) / 6 then some .left else some .right

def holdsOn (p : String → Bool) (codes : List String) (hand : Hand) : Bool :=
  ((List.range codes.length).filter fun i => fingerHand codes.length i = some hand).any fun i =>
    codes[i]?.any p

def handBy (p : String → Bool) (codes : List String) : Option Hand :=
  if holdsOn p codes .left then some .left else if holdsOn p codes .right then some .right else none

def types (letter : Char) (code : String) : Bool :=
  (Text.split ' ' code).getLast? = some (Text.upper (String.singleton letter))

def mentions (letter : Char) (code : String) : Bool :=
  (Text.split ' ' code).tail.any fun argument => Text.startsWith argument (Text.upper (String.singleton letter))

variable {letter : Char} {name : Document} {codes : List String}

theorem hasArgument_mentions (hl : Text.isLetter letter) (code : String) :
    hasArgument (.text code) (Text.upper (String.singleton letter)) = .ok (mentions letter code) := by
  have hs : ' ' ∉ (Text.upper (String.singleton letter)).toList := by
    refine Text.not_mem_upper (by simp) fun h => ?_
    rw [String.toList_singleton, mem_singleton] at h
    exact absurd (h ▸ hl) (by decide)
  rw [hasArgument, mentions, ← Text.contains_space_append hs]
  change (if Text.contains code _ = true then _ else _) = _
  cases Text.contains code (" " ++ Text.upper (String.singleton letter)) <;> rfl

theorem letterHand?_eq (hl : Text.isLetter letter) (h : codes.length = 36 ∨ codes.length = 42) :
    letterHand? (.text (String.singleton letter)) ⟨name, codes.map .text⟩ =
      .ok (handBy (mentions letter) codes) := by
  have hw : (Document.text (String.singleton letter)).word "upper" = .ok (String.singleton letter) := rfl
  unfold letterHand?
  extract_lets hands
  have hh : hands = ⟨(range codes.length).filter fun i => fingerHand codes.length i = some .left,
      (range codes.length).filter fun i => fingerHand codes.length i = some .right,
      span (codes.length - 6) codes.length⟩ := by
    unfold hands
    rw [length_map]
    rcases h with h | h <;> rw [h] <;> decide
  rw [hh, hw, ok_bind]
  extract_lets capital holds
  have hhl : holds = fun i => pure (codes[i]?.any (mentions letter)) := by
    funext i
    simp only [holds, getElem?_map]
    cases codes[i]? with
    | none => rfl
    | some code => exact hasArgument_mentions hl code
  rw [hhl, anyM_pure, anyM_pure, pure_bind, pure_bind, handBy, holdsOn, holdsOn]
  split <;> [rfl; split <;> rfl]

/-- The hand of a letter is the one whose fingers have an argument that starts with the capital. This is the
hand that types the letter exactly if the left hand has such an argument just when it types the letter and,
where it does not type it, so does the right hand. -/
theorem letter_found_where_typed_iff (isLetter : Text.isLetter letter = true)
    (size : codes.length = 36 ∨ codes.length = 42) :
    let found := letterHand? (.text (String.singleton letter)) ⟨name, codes.map .text⟩
    found = .ok (handBy (mentions letter) codes) ∧
      (found = .ok (handBy (types letter) codes) ↔
        holdsOn (mentions letter) codes .left = holdsOn (types letter) codes .left ∧
          (holdsOn (types letter) codes .left = false →
            holdsOn (mentions letter) codes .right = holdsOn (types letter) codes .right)) := by
  intro found
  have isFound : found = .ok (handBy (mentions letter) codes) := letterHand?_eq isLetter size
  refine ⟨isFound, ?_⟩
  rw [isFound, Except.ok.injEq, handBy, handBy]
  cases holdsOn (mentions letter) codes .left <;> cases holdsOn (types letter) codes .left <;>
    cases holdsOn (mentions letter) codes .right <;> cases holdsOn (types letter) codes .right <;> decide

def guiCodes : List String :=
  ((List.replicate 36 "&kp A").set 10 "&hml LGUI A").set 15 "&kp L"

/-- The modifier of a left finger is taken for the letter that a right finger types. -/
theorem modifier_taken_for_letter :
    letterHand? (.text (String.singleton 'l')) ⟨.text "BASE_NIGHT", guiCodes.map .text⟩ = .ok (some .left) ∧
      handBy (types 'l') guiCodes = some .right := by
  have isLeft : handBy (mentions 'l') guiCodes = some .left := by decide +kernel
  refine ⟨?_, by decide +kernel⟩
  rw [← isLeft]
  exact (letter_found_where_typed_iff (by decide +kernel) (.inl (by decide +kernel))).1

end Zmk

end Keymap
