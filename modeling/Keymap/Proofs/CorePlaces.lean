import Keymap.Proofs.Outcome
import Keymap.Zmk.Hands
import Mathlib.Tactic.SplitIfs

namespace Keymap

open List

def LayoutSize.PlacesCore (size : LayoutSize) : Prop :=
  size = .split36 ∨ size = .split42 ∨ size = .totem38

def corePlace : LayoutSize → Nat → Nat
  | .split42, p => if p < 30 then p / 10 * 12 + p % 10 + 1 else p + 6
  | .totem38, p => if p < 20 then p else if p < 30 then p + 1 else p + 2
  | _, p => p

namespace Zmk

open Document (Number)

theorem positionOn42_whole (p : Nat) : positionOn42 (.whole p) = .whole (corePlace .split42 p) := by
  by_cases h : p < 30
  · have hb : (p : Int) < 30 := by omega
    simp [positionOn42, Number.isBelow, Number.floorDiv, Number.times, Number.floorMod,
      Number.sum, Number.plus, corePlace, h, hb]
    omega
  · have ha : ¬ (p : Int) < 30 := by omega
    simp [positionOn42, Number.isBelow, Number.plus, corePlace, h, ha]
    omega

theorem positionOn38_whole (p : Nat) : positionOn38 (.whole p) = .ok (.whole (corePlace .totem38 p)) := by
  have hc : p < 20 ∨ (¬ p < 20 ∧ p < 30) ∨ (¬ p < 20 ∧ ¬ p < 30) := by omega
  rcases hc with hf | ⟨h, hs⟩ | ⟨h, hns⟩
  · have hfr : (p : Int) < 20 := by omega
    simp [positionOn38, shiftOn38, Document.comparable, Document.number?, Number.isBelow,
      corePlace, hf, hfr, ok_bind, ok_pure]
  · have hn : ¬ (p : Int) < 20 := by omega
    have hsc : (p : Int) < 30 := by omega
    simp [positionOn38, shiftOn38, Document.comparable, Document.number?, Number.isBelow,
      Number.plus, Number.toDocument, corePlace, h, hn, hs, hsc, ok_bind, ok_pure]
  · have hn : ¬ (p : Int) < 20 := by omega
    have hnt : ¬ (p : Int) < 30 := by omega
    simp [positionOn38, shiftOn38, Document.comparable, Document.number?, Number.isBelow,
      Number.plus, Number.toDocument, corePlace, h, hn, hns, hnt,
      ok_bind, ok_pure]

theorem boardPositions_corePlace (size : LayoutSize) (h : size.PlacesCore) (p : Nat) :
    boardPositions size (.list [.whole p]) = .ok (.list [.whole (corePlace size p)]) := by
  rcases h with rfl | rfl | rfl
  · rfl
  · simp only [boardPositions, Document.members, mapM_cons, mapM_nil,
      Document.comparable, Document.number?, ok_bind, ok_pure, positionOn42_whole]
    rfl
  · simp only [boardPositions, Document.members, mapM_cons, mapM_nil,
      ok_bind, ok_pure, positionOn38_whole]

theorem isLeftOf_corePlace : ∀ p < 36,
    isLeftOf .split42 (.whole (corePlace .split42 p)) = isLeftOf .split36 (.whole p) ∧
    isLeftOf .totem38 (.whole (corePlace .totem38 p)) = isLeftOf .split36 (.whole p) := by
  decide

theorem isLeft_corePlace (size : LayoutSize) (hk : size.PlacesCore) (p : Nat) (h : p < 36) :
    isLeft size (.whole (corePlace size p)) = isLeft .split36 (.whole p) := by
  rcases hk with rfl | rfl | rfl
  · rfl
  · exact congrArg Except.ok (isLeftOf_corePlace p h).1
  · exact congrArg Except.ok (isLeftOf_corePlace p h).2

theorem value_eq_of_hand (v : Vocabulary) (magic : Option MagicConfig) (size size' : LayoutSize)
    (layer i j : Document) (key : String) (hh : isLeft size i = isLeft size' j) :
    value ⟨v, magic, size⟩ ⟨layer, i⟩ key = value ⟨v, magic, size'⟩ ⟨layer, j⟩ key := by
  have hm : ∀ args, homeRowMod ⟨v, magic, size⟩ ⟨layer, i⟩ args =
      homeRowMod ⟨v, magic, size'⟩ ⟨layer, j⟩ args := by
    intro args
    simp only [homeRowMod, hh]
  have h : argument ⟨v, magic, size⟩ ⟨layer, i⟩ = argument ⟨v, magic, size'⟩ ⟨layer, j⟩ :=
    rfl
  have ht : magicTap ⟨v, magic, size⟩ ⟨layer, i⟩ = magicTap ⟨v, magic, size'⟩ ⟨layer, j⟩ := rfl
  have hw : composite ⟨v, magic, size⟩ ⟨layer, i⟩ key =
      composite ⟨v, magic, size'⟩ ⟨layer, j⟩ key := by
    unfold composite
    simp only [hm, h, ht]
  unfold value
  rw [hw]
  rfl

end Zmk

namespace Padding

section Places

variable {α : Type} {keys : List α} {p q : Nat}

theorem getElem?_append_add (before after : List α) (i : Nat) :
    (before ++ after)[before.length + i]? = after[i]? := by
  rw [getElem?_append_right (by omega), Nat.add_sub_cancel_left]

theorem getElem?_around (full : keys.length = 36) (core : p < 36) (a b c d e : List α)
    (isPlace : q = a.length + (if p < 10 then 0 else b.length) + (if p < 20 then 0 else c.length) +
      (if p < 30 then 0 else d.length) + p) :
    (a ++ (coreRow keys 0 ++ (b ++ (coreRow keys 1 ++ (c ++ (coreRow keys 2 ++ (d ++ (thumbs keys ++ e))))))))[q]? =
      keys[p]? := by
  have h : ∀ row < 3, (coreRow keys row).length = 10 := by
    intro row hr
    rw [coreRow, length_take, length_drop]
    omega
  have hs {start size i : Nat} (hsm : i < size) (hf : start + size ≤ 36) (after : List α) :
      ((keys.drop start).take size ++ after)[i]? = keys[start + i]? := by
    rw [getElem?_append_left (by rw [length_take, length_drop]; omega)]
    simp [hsm]
  have hc : p < 10 ∨ (10 ≤ p ∧ p < 20) ∨ (20 ≤ p ∧ p < 30) ∨ 30 ≤ p := by omega
  rcases hc with top | ⟨hp, hh⟩ | ⟨hp, hb⟩ | hp
  · obtain rfl : q = a.length + p := by split_ifs at isPlace <;> omega
    rw [getElem?_append_add, coreRow, hs top (by omega), Nat.zero_add]
  · obtain ⟨i, rfl⟩ := Nat.exists_eq_add_of_le hp
    obtain rfl : q = a.length + ((coreRow keys 0).length + (b.length + i)) := by
      rw [h 0 (by omega)]
      split_ifs at isPlace <;> omega
    simp only [getElem?_append_add]
    exact hs (by omega) (by omega) _
  · obtain ⟨i, rfl⟩ := Nat.exists_eq_add_of_le hp
    obtain rfl : q = a.length + ((coreRow keys 0).length + (b.length + ((coreRow keys 1).length + (c.length + i)))) := by
      rw [h 0 (by omega), h 1 (by omega)]
      split_ifs at isPlace <;> omega
    simp only [getElem?_append_add]
    exact hs (by omega) (by omega) _
  · obtain ⟨i, rfl⟩ := Nat.exists_eq_add_of_le hp
    obtain rfl : q = a.length + ((coreRow keys 0).length + (b.length + ((coreRow keys 1).length +
        (c.length + ((coreRow keys 2).length + (d.length + i)))))) := by
      rw [h 0 (by omega), h 1 (by omega), h 2 (by omega)]
      split_ifs at isPlace <;> omega
    simp only [getElem?_append_add]
    exact hs (by omega) (by omega) _

theorem to38_corePlace (left right : α) (hf : keys.length = 36) (hc : p < 36) :
    (to38 left right keys)[corePlace .totem38 p]? = keys[p]? := by
  have h := getElem?_around hf hc (q := corePlace .totem38 p) [] [] [left] [right] [] (by
    simp only [corePlace, length_nil, length_singleton]
    split_ifs <;> omega)
  simpa [to38] using h

theorem to42_corePlace (left right : Column α) (hf : keys.length = 36) (hc : p < 36) :
    (to42 left right keys)[corePlace .split42 p]? = keys[p]? := by
  have h := getElem?_around hf hc (q := corePlace .split42 p) [left.top] [right.top, left.home]
    [right.home, left.bottom] [right.bottom] [] (by
      simp only [corePlace, length_cons, length_nil]
      split_ifs <;> omega)
  simpa [to42] using h

end Places

variable {padded keys : List String} {layer : Layer}

theorem padTo42_eq_ok (h : padTo42 layer keys = .ok padded) : ∃ left right, padded = to42 left right keys := by
  obtain ⟨⟨left, right⟩, -, h⟩ := bind_eq_ok.mp h
  obtain ⟨outer, hf, h⟩ := bind_eq_ok.mp h
  have ht := (mapM_eq_ok.mp hf).length_eq
  match outer, ht, h with
  | [(l₀, r₀), (l₁, r₁), (l₂, r₂)], _, h =>
    cases h
    exact ⟨⟨l₀, l₁, l₂⟩, ⟨r₀, r₁, r₂⟩, rfl⟩

theorem padTo38_eq_ok (h : padTo38 layer keys = .ok padded) : ∃ left right, padded = to38 left right keys := by
  obtain ⟨⟨left, right⟩, -, h⟩ := bind_eq_ok.mp h
  obtain ⟨leftKey, -, h⟩ := bind_eq_ok.mp h
  obtain ⟨rightKey, -, h⟩ := bind_eq_ok.mp h
  cases h
  exact ⟨leftKey, rightKey, rfl⟩

/-- Padding leaves every key of the core at its place, whatever the extensions are. -/
theorem pad_corePlace (board : Board) (layer : Layer) (keys padded : List String)
    (known : board.layoutSize.PlacesCore) (full : keys.length = 36)
    (done : pad board layer keys = .ok padded) (p : Nat) (core : p < 36) :
    padded[corePlace board.layoutSize p]? = keys[p]? := by
  rcases known with h | h | h
  · simp only [pad, h] at done
    cases done
    rw [h]
    rfl
  · simp only [pad, h] at done
    obtain ⟨left, right, rfl⟩ := padTo42_eq_ok done
    rw [h]
    exact to42_corePlace left right full core
  · simp only [pad, h] at done
    obtain ⟨left, right, rfl⟩ := padTo38_eq_ok done
    rw [h]
    exact to38_corePlace left right full core

end Padding

namespace Compile

theorem encodeKeys_getElem? (v : Vocabulary) (encode : Nat → String → Result Document)
    (index : Nat) (morphs : List ShiftMorph) (keys : List String) (codes : List Document)
    (he : (encodeKeys v encode index morphs keys).1 = .ok codes) (i : Nat) (key : String)
    (hf : keys[i]? = some key) : ∃ code, codes[i]? = some code ∧ encode (index + i) key = .ok code := by
  induction keys generalizing index morphs codes i with
  | nil => simp at hf
  | cons first rest ih =>
    simp only [encodeKeys] at he
    cases h : encode index first with
    | error fault => simp [h] at he
    | ok code =>
      simp only [h] at he
      obtain ⟨others, ht, rfl⟩ := map_eq_ok.mp he
      cases i with
      | zero =>
        obtain rfl : first = key := by simpa using hf
        exact ⟨code, by simp, by simpa using h⟩
      | succ i =>
        obtain ⟨later, hp, ok⟩ := ih _ _ _ ht i (by simpa using hf)
        exact ⟨later, by simpa using hp, by rw [← ok]; congr 1; omega⟩

end Compile

namespace Compiler

theorem compile_zmk_getElem? (c : Compiler) (layer : Layer) (board : Board)
    (compiled : CompiledLayer) (zmk : board.firmware = .zmk)
    (h : (c.compile layer board).1 = .ok compiled) : ∃ keys, Compile.keys layer board = .ok keys ∧
      ∀ (i : Nat) (key : String), keys[i]? = some key → ∃ code, compiled.keycodes[i]? = some code ∧
        Zmk.value c.zmk ⟨layer.name, .whole i⟩ key = .ok code := by
  simp only [compile, zmk, Firmware.isQmk, compileZmk, Firmware.isZmk] at h
  cases hk : Compile.keys layer board with
  | error fault => simp [hk] at h
  | ok keys =>
    cases hc : keys.forM (Zmk.checkBinding c.zmk layer.title) with
    | error fault => simp [hk, hc] at h
    | ok _ =>
      simp only [hk, hc] at h
      obtain ⟨codes, he, rfl⟩ := map_eq_ok.mp h
      refine ⟨keys, rfl, fun i key hf => ?_⟩
      have hs := Compile.encodeKeys_getElem? _ _ _ _ _ _ he i key hf
      simpa using hs

/-- On every split board the keys of the core have the bindings that they have on a board of 36
keys, at the places to which combos are moved. -/
theorem core_bindings_agree (c d : Compiler) (layer : Layer) (core : KeyGrid)
    (board standard : Board) (compiled reference : CompiledLayer)
    (vocabulary : c.zmk.vocabulary = d.zmk.vocabulary) (magic : c.zmk.magic = d.zmk.magic)
    (noFull : layer.fullLayout = none) (isCore : layer.core = some core) (full : core.flatten.length = 36)
    (zmk : board.firmware = .zmk) (known : board.layoutSize.PlacesCore)
    (sized : c.zmk.layoutSize = board.layoutSize)
    (standardZmk : standard.firmware = .zmk) (standardSize : standard.layoutSize = .split36)
    (standardSized : d.zmk.layoutSize = .split36) (done : (c.compile layer board).1 = .ok compiled)
    (standardDone : (d.compile layer standard).1 = .ok reference) (p : Nat) (inCore : p < 36) :
    ∃ (i : Nat) (binding : Document),
      Zmk.boardPositions board.layoutSize (.list [.whole p]) = .ok (.list [.whole i]) ∧
      compiled.keycodes[i]? = some binding ∧ reference.keycodes[p]? = some binding := by
  have texts : (core.flatten.map Entry.text).length = 36 := by rw [List.length_map, full]
  obtain ⟨keys, keysOk, codes⟩ := compile_zmk_getElem? c layer board compiled zmk done
  obtain ⟨plain, plainOk, plainCodes⟩ :=
    compile_zmk_getElem? d layer standard reference standardZmk standardDone
  simp only [Compile.keys, noFull, isCore] at keysOk plainOk
  simp only [Padding.pad, standardSize] at plainOk
  cases plainOk
  obtain ⟨key, found⟩ : ∃ key, (core.flatten.map Entry.text)[p]? = some key :=
    ⟨_, List.getElem?_eq_getElem (by omega)⟩
  have placed := Padding.pad_corePlace board layer _ keys known texts keysOk p inCore
  obtain ⟨binding, here, value⟩ := codes _ key (placed.trans found)
  obtain ⟨expected, there, plainValue⟩ := plainCodes p key found
  have hand := Zmk.isLeft_corePlace board.layoutSize known p inCore
  rw [← sized] at hand
  have same := Zmk.value_eq_of_hand d.zmk.vocabulary d.zmk.magic _ _ layer.name _ _ key hand
  obtain rfl : binding = expected := by
    have left : Zmk.value ⟨d.zmk.vocabulary, d.zmk.magic, c.zmk.layoutSize⟩
        ⟨layer.name, .whole (corePlace c.zmk.layoutSize p)⟩ key = .ok binding := by
      rw [← sized] at value
      rw [← vocabulary, ← magic]
      exact value
    rw [same, ← standardSized] at left
    exact Except.ok.inj (left.symm.trans plainValue)
  exact ⟨_, binding, Zmk.boardPositions_corePlace _ known p, here, there⟩

def sample (size : LayoutSize) : Compiler where
  zmk := {
    vocabulary := {
      aliases := [⟨"hrm", .null, .list ["mod", "key"], .null, .null, .list ["zmk"]⟩]
      keycodes := [("A", .record [("zmk", "&kp A")]), ("NONE", .record [("zmk", "&none")])] }
    magic := some [⟨"BASE_NIGHT", .whole 150, .record [("A", "B")], "REPEAT"⟩]
    layoutSize := size }

def sampleLayer : Layer where
  name := "NUM_NIGHT"
  core := some ⟨[List.replicate 5 (.key "hrm:LGUI:A"), List.replicate 5 (.key "A"),
    List.replicate 5 (.key "A"), List.replicate 5 (.key "hrm:LGUI:A"),
    List.replicate 5 (.key "A"), List.replicate 5 (.key "hrm:LGUI:A"),
    List.replicate 3 (.key "A"), List.replicate 3 (.key "MAGIC")]⟩
  extensions := [⟨"3x6_3", .record [("outer_pinky_left", .list ["A", "A", "hrm:LGUI:A"])]⟩]

def sampleBoard (size : LayoutSize) : Board :=
  { id := "corne", name := "Corne", firmware := .zmk, layoutSize := size }

theorem core_bindings_agree_totem : ∃ compiled reference,
      ((sample .totem38).compile sampleLayer (sampleBoard .totem38)).1 = .ok compiled ∧
      ((sample .split36).compile sampleLayer (sampleBoard .split36)).1 = .ok reference ∧
      ∃ (i : Nat) (binding : Document),
        Zmk.boardPositions .totem38 (.list [.whole 27]) = .ok (.list [.whole i]) ∧
        compiled.keycodes[i]? = some binding ∧ reference.keycodes[27]? = some binding := by
  obtain ⟨compiled, done⟩ : ∃ compiled,
      ((sample .totem38).compile sampleLayer (sampleBoard .totem38)).1 = .ok compiled :=
    exists_eq_ok (by decide +kernel)
  obtain ⟨reference, standardDone⟩ : ∃ reference,
      ((sample .split36).compile sampleLayer (sampleBoard .split36)).1 = .ok reference :=
    exists_eq_ok (by decide +kernel)
  exact ⟨compiled, reference, done, standardDone,
    core_bindings_agree (sample .totem38) (sample .split36) sampleLayer _ (sampleBoard .totem38)
      (sampleBoard .split36) compiled reference rfl rfl rfl rfl rfl rfl (.inr (.inr rfl)) rfl rfl
      rfl rfl done standardDone 27 (by omega)⟩

end Compiler

end Keymap
