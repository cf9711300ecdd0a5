import Keymap.Proofs.CompiledValues

namespace Keymap

open List

namespace Zmk

variable {t : Encoder} {hand : Hand} {size : LayoutSize} {i : Nat} {s : String}

def isModOf (hand : Hand) (binding : Document) : Bool :=
  Text.startsWith binding.toText ("&" ++ handLabel hand)

structure OwnHands (v : Vocabulary) : Prop where
  keycodes : ∀ entry ∈ v.keycodes, Yields (entry.2.findD "zmk" "&none") fun d => ∀ hand, isModOf hand d = false
  aliases : ∀ rule ∈ v.aliases, rule.name ≠ .word "hrm" → ∀ args,
    Yields (rule.toZmk args) fun text => ∀ hand, isModOf hand (.text text) = false

def strays (size : LayoutSize) (hand : Hand) : List Nat :=
  match size with
  | .custom _ =>
    match hand with
    | .left => [5, 15, 16, 17] ++ span 25 30
    | .right => [10, 11] ++ span 20 24
  | _ => []

theorem begins_append {start : List Char} (h : start <+: s.toList) (more : String) :
    start <+: (s ++ more).toList := by
  rw [String.toList_append]
  exact h.trans (prefix_append _ _)

def Other (s : String) : Prop :=
  ∃ c, ['&', c] <+: s.toList ∧ c ≠ 'h'

theorem Other.append (ho : Other s) (more : String) : Other (s ++ more) := by
  obtain ⟨c, h, hn⟩ := ho
  exact ⟨c, begins_append h more, hn⟩

theorem Other.not_isModOf (ho : Other s) : isModOf hand (.text s) = false := by
  obtain ⟨c, ⟨rest, h⟩, hn⟩ := ho
  cases hand <;> simp [isModOf, Text.startsWith, handLabel, Document.toText, ← h, isPrefixOf, Ne.symm hn]

theorem eq_of_isModOf {label : Hand} (h : ("&" ++ handLabel label).toList <+: s.toList)
    (hh : isModOf hand (.text s)) : hand = label := by
  obtain ⟨rest, ht⟩ := h
  cases hand <;> cases label <;>
    simp [isModOf, Text.startsWith, handLabel, Document.toText, ← ht, isPrefixOf] at hh ⊢

theorem other_none : Other "&none" :=
  ⟨'n', by decide, by decide⟩

theorem magicKey_other (layer : Document) : Yields (magicKey t layer) Other := by
  refine Yields.trivial.bind fun base _ => ?_
  split
  · exact Yields.trivial.bind fun name _ => .ok (Other.append ⟨'a', by decide, by decide⟩ _)
  · exact .ok other_none

theorem magicTap_other {place : Place} {wrapper hold : String} (h : Other ("&" ++ wrapper)) :
    Yields (magicTap t place wrapper hold) Other := by
  refine Yields.trivial.bind fun base _ => ?_
  split
  · refine .ok ?_
    split
    · exact ((((h.append _).append _).append _).append _).append _
    · exact other_none
  · exact .ok other_none

theorem homeRowMod_hand (layer : Document) (args : Arguments) :
    Yields (homeRowMod t ⟨layer, .whole i⟩ args) fun text => isModOf hand (.text text) →
      (hand = .left ↔ isLeftOf t.layoutSize (.whole i)) := by
  refine Yields.bind (q := fun onLeft => onLeft = isLeftOf t.layoutSize (.whole i)) (.ok rfl) fun onLeft hhn => ?_
  refine Yields.trivial.bind fun mod _ => Yields.trivial.bind fun key _ => .ok fun hh => ?_
  have h : ("&" ++ handLabel (if onLeft then .left else .right)).toList <+:
      ("&" ++ if onLeft then "hml" else "hmr").toList := by cases onLeft <;> decide
  rw [eq_of_isModOf (begins_append (begins_append (begins_append (begins_append h _) _) _) _) hh, ← hhn]
  cases onLeft <;> decide

theorem value_hand (own : OwnHands t.vocabulary) (layer : Document) (key : String) :
    Yields (value t ⟨layer, .whole i⟩ key) fun d => isModOf hand d →
      (hand = .left ↔ isLeftOf t.layoutSize (.whole i)) := by
  have hs {d : Document} (h : isModOf hand d = false) : isModOf hand d →
      (hand = .left ↔ isLeftOf t.layoutSize (.whole i)) := fun hh => by rw [h] at hh; cases hh
  unfold value
  split
  · exact .map ((magicKey_other _).mono fun _ h => hs h.not_isModOf)
  · split
    · rename_i entry hf
      refine .map (Yields.self.mono fun d hv => hs ?_)
      rw [supported]
      split
      · exact own.keycodes _ (mem_of_lookup hf) d hv hand
      · exact other_none.not_isModOf
    · split
      · refine .map ?_
        unfold composite
        split
        · refine .ok (hs (Other.not_isModOf ?_))
          exact ((Other.append ⟨'s', by decide, by decide⟩ _).append _).append _
        · exact .error
        · rename_i name arguments _ _ _
          split
          · exact .ok (hs other_none.not_isModOf)
          · rename_i rule hf
            refine Yields.trivial.bind fun supported _ => ?_
            split
            · exact .ok (hs other_none.not_isModOf)
            · refine Yields.trivial.bind fun _ _ => ?_
              split
              · exact (magicTap_other ⟨'l', by decide, by decide⟩).mono fun _ h => hs h.not_isModOf
              · exact (magicTap_other ⟨'m', by decide, by decide⟩).mono fun _ h => hs h.not_isModOf
              · refine Yields.trivial.bind fun args _ => ?_
                split
                · exact homeRowMod_hand layer args
                · rename_i hnh
                  have hn : rule.name = .word name := by simpa using find?_some hf
                  refine (own.aliases _ (mem_of_find?_eq_some hf) (fun hhn => ?_) args).mono
                    fun _ h => hs (h hand)
                  exact hnh (Field.word.inj (hn.symm.trans hhn))
        · exact .ok (hs other_none.not_isModOf)
      · exact .error

def Fits (size : LayoutSize) : Prop :=
  ∀ hand ∈ [Hand.left, .right], (∀ p ∈ strays size hand, p ∈ holdPositions size hand) ∧
    ∀ p ∈ holdPositions size hand, p ∉ (handsOf size).thumbs →
      (hand = .left ↔ isLeftOf size (.whole (p : Nat)) = true) → p ∈ strays size hand

instance (size : LayoutSize) : Decidable (Fits size) :=
  inferInstanceAs (Decidable (∀ hand ∈ [Hand.left, .right], _))

theorem fits_of_isKnown (h : size.isKnown = .ok true) : Fits size := by
  cases size with
  | split36 => decide
  | split42 => decide
  | totem38 => decide
  | custom tag =>
    change Fits (.custom "")
    decide
  | unknown d => cases d <;> cases h

end Zmk

variable {c : Compiler} {layer : Layer} {board : Board} {compiled : CompiledLayer} {i : Nat}
  {binding : Document} {hand : Zmk.Hand}

/-- A finger with a home-row mod is among the positions that hold it only where boards with a layout of their own
have the stray positions. -/
theorem holds_own_position_iff (zmk : board.firmware = .zmk) (known : board.layoutSize.isKnown = .ok true)
    (rules : c.zmk.layoutSize = board.layoutSize) (own : Zmk.OwnHands c.zmk.vocabulary)
    (done : (c.compile layer board).1 = .ok compiled) (isKey : compiled.keycodes[i]? = some binding)
    (held : Zmk.isModOf hand binding = true) (finger : i ∉ (Zmk.handsOf board.layoutSize).thumbs) :
    i ∈ Zmk.holdPositions board.layoutSize hand ↔ i ∈ Zmk.strays board.layoutSize hand := by
  have encoded := Compiler.compile_encodes done
  obtain ⟨keys, isKeys, values⟩ := encoded.2
  have inside : i < keys.length := by
    rw [← length_zipIdx, (mapM_eq_ok.mp values).length_eq]
    exact (List.getElem?_eq_some_iff.mp isKey).1
  obtain ⟨code, isCode, isValue⟩ := encoded.getElem? isKeys (getElem?_eq_getElem inside)
  obtain rfl := Option.some.inj (isKey.symm.trans isCode)
  simp only [Compiler.valueAt, zmk, Firmware.isQmk, Bool.false_eq_true, if_false] at isValue
  have isHand := Zmk.value_hand own _ _ _ isValue held
  rw [rules] at isHand
  obtain ⟨strays, others⟩ := Zmk.fits_of_isKnown known hand (by cases hand <;> decide)
  exact ⟨fun member => others i member finger isHand, strays i⟩

def strayBoard : Board :=
  { id := "keys", name := "Keys", firmware := .zmk, layoutSize := .custom "keys" }

def strayCompiler : Compiler where
  zmk := {
    vocabulary := {
      aliases := [⟨.word "hrm", "", .list ["mod", "key"], "", "", .list ["zmk"]⟩]
      keycodes := [(.word "A", .record [(.word "zmk", "&kp A")])] }
    layoutSize := .custom "keys" }

def strayLayer : Layer where
  name := "BASE"
  fullLayout := some ⟨[replicate 6 (.key "hrm:LGUI:A")]⟩

theorem holds_own_position_stray :
    ∃ compiled binding, (strayCompiler.compile strayLayer strayBoard).1 = .ok compiled ∧
      compiled.keycodes[5]? = some binding ∧ Zmk.isModOf .left binding = true ∧
      5 ∈ Zmk.holdPositions strayBoard.layoutSize .left := by
  have found : ((strayCompiler.compile strayLayer strayBoard).1.toOption.bind
      fun compiled => compiled.keycodes[5]?).any (Zmk.isModOf .left) = true := by decide +kernel
  obtain ⟨binding, there, held⟩ := (Option.any_eq_true _ _).mp found
  obtain ⟨compiled, done, isKey⟩ := Option.bind_eq_some_iff.mp there
  have own : Zmk.OwnHands strayCompiler.zmk.vocabulary := by
    refine ⟨forall_mem_singleton.mpr fun d isValue hand => ?_, forall_mem_singleton.mpr fun other => absurd rfl other⟩
    cases isValue
    cases hand <;> decide
  have done := eq_ok_of_toOption done
  exact ⟨compiled, binding, done, isKey, held,
    (holds_own_position_iff rfl rfl rfl own done isKey held (by decide)).mpr (by decide)⟩

end Keymap
