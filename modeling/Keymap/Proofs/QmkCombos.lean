import Keymap.Proofs.PaddedKeys

namespace Keymap

open List

variable {α : Type} {combo : Combo} {n p : Nat} {core : KeyGrid} {position : Document} {xs : List α} {x : α}
  {layer : Layer} {d code : Document} {board : Board} {v : Vocabulary}

namespace Padding

/-- Padding puts the key at position `p` of any core at place `q` of the board. -/
def Places (board : Board) (layer : Layer) (p q : Nat) : Prop :=
  ∀ keys padded : List String, keys.length = 36 → pad board layer keys = .ok padded →
    padded[q]? = keys[p]?

def place : LayoutSize → Nat → Nat
  | .custom "58", p => if p < 30 then corePlace .split42 p + 12 else p + 20
  | .custom "58_from_3x6", p =>
    if p < 25 then corePlace .split42 p + 12
    else if p < 30 then corePlace .split42 p + 14 else p + 21
  | size, p => corePlace size p

variable {keys : List α}

theorem to58_place (none : α) (full : keys.length = 36) (core : p < 36) :
    (to58 none keys)[place (.custom "58") p]? = keys[p]? := by
  have h := getElem?_around full core (q := place (.custom "58") p) (replicate 13 none) [none, none]
    [none, none] [none, none, none] [none, none] (by
      simp only [place, corePlace, length_replicate, length_cons, length_nil]
      split_ifs <;> omega)
  simpa [to58, replicate_succ] using h

section From42

theorem block_getElem? (before block after : List α) (n i : Nat) (hs : before.length = n)
    (h : i < block.length) : (before ++ (block ++ after))[n + i]? = block[i]? := by
  rw [getElem?_append_right (by omega), getElem?_append_left (by omega)]
  congr 1
  omega

variable (none : α) (full : keys.length = 42)

include full

theorem to58From42_upper {i : Nat} (hu : i < 30) : (to58From42 none keys)[12 + i]? = keys[i]? := by
  have hs : (keys.take 30).length = 30 := by
    rw [length_take]
    omega
  have h : keys.take 24 ++ (keys.drop 24).take 6 = keys.take 30 := take_add.symm
  have hp : to58From42 none keys = replicate 12 none ++ (keys.take 30 ++
      (replicate 2 none ++ (keys.drop 30).take 6 ++ (none :: (keys.drop 36).take 6 ++ [none]))) := by
    rw [← h]
    simp [to58From42]
  rw [hp, block_getElem? _ _ _ 12 i (by simp) (by omega), getElem?_take_of_lt hu]

theorem to58From42_lower {j : Nat} (hl : j < 6) :
    (to58From42 none keys)[44 + j]? = keys[30 + j]? ∧ (to58From42 none keys)[51 + j]? = keys[36 + j]? := by
  have h : ∀ start, start + 6 ≤ 42 → j < ((keys.drop start).take 6).length := by
    intro start hf
    rw [length_take, length_drop]
    omega
  have hs : ∀ start, ((keys.drop start).take 6)[j]? = keys[start + j]? := by
    intro start
    simp [hl]
  have hr : to58From42 none keys = (replicate 12 none ++ keys.take 24 ++ (keys.drop 24).take 6 ++
      replicate 2 none) ++ ((keys.drop 30).take 6 ++ (none :: (keys.drop 36).take 6 ++ [none])) := by
    simp [to58From42]
  have ht : to58From42 none keys = (replicate 12 none ++ keys.take 24 ++ (keys.drop 24).take 6 ++
      replicate 2 none ++ (keys.drop 30).take 6 ++ [none]) ++ ((keys.drop 36).take 6 ++ [none]) := by
    simp [to58From42]
  constructor
  · rw [hr, block_getElem? _ _ _ 44 j (by simp [full]) (h 30 (by omega)), hs]
  · rw [ht, block_getElem? _ _ _ 51 j (by simp [full]) (h 36 (by omega)), hs]

end From42

theorem to58From42_place (none : α) (left right : Column α) (full : keys.length = 36) (core : p < 36) :
    (to58From42 none (to42 left right keys))[place (.custom "58_from_3x6") p]? = keys[p]? := by
  have length := length_to42 full left right
  rw [← to42_corePlace left right full core]
  have hcs : p < 25 ∨ (25 ≤ p ∧ p < 30) ∨ 30 ≤ p := by omega
  rcases hcs with hf | ⟨hp, hs⟩ | ht
  · have h : place (.custom "58_from_3x6") p = 12 + corePlace .split42 p := by
      simp only [place]
      split_ifs
      omega
    rw [h, to58From42_upper none length]
    simp only [corePlace]
    split_ifs <;> omega
  · obtain ⟨j, rfl⟩ := Nat.exists_eq_add_of_le hp
    have hc : corePlace .split42 (25 + j) = 30 + j := by
      simp only [corePlace]
      split_ifs
      omega
    have h : place (.custom "58_from_3x6") (25 + j) = 44 + j := by
      simp only [place, hc]
      split_ifs <;> omega
    rw [h, hc, (to58From42_lower none length (by omega)).1]
  · obtain ⟨j, rfl⟩ := Nat.exists_eq_add_of_le ht
    have hc : corePlace .split42 (30 + j) = 36 + j := by
      simp only [corePlace]
      split_ifs <;> omega
    have h : place (.custom "58_from_3x6") (30 + j) = 51 + j := by
      simp only [place]
      split_ifs <;> omega
    rw [h, hc, (to58From42_lower none length (by omega)).2]

theorem places_place {count : Nat} (size : board.layoutSize.keyCount? = some count) (layer : Layer)
    (core : p < 36) : Places board layer p (place board.layoutSize p) := by
  intro keys padded full done
  have split : board.layoutSize.PlacesCore →
      place board.layoutSize p = corePlace board.layoutSize p →
      padded[place board.layoutSize p]? = keys[p]? := by
    intro known same
    rw [same]
    exact pad_corePlace board layer keys padded known full done p core
  unfold LayoutSize.keyCount? at size
  split at size
  · rename_i isSize
    exact split (.inl isSize) (by rw [isSize]; rfl)
  · rename_i isSize
    exact split (.inr (.inr isSize)) (by rw [isSize]; rfl)
  · rename_i isSize
    exact split (.inr (.inl isSize)) (by rw [isSize]; rfl)
  · rename_i isSize
    rw [pad, isSize] at done
    cases done
    rw [isSize]
    exact to58_place noKey full core
  · rename_i isSize
    rw [pad, isSize] at done
    obtain ⟨whole, is42, rfl⟩ := map_eq_ok.mp done
    obtain ⟨left, right, rfl⟩ := padTo42_eq_ok is42
    rw [isSize]
    exact to58From42_place noKey left right full core
  · cases size

end Padding

namespace Document

/-- A value that counts as the position `n`: a whole number, or a flag for 0 or 1. -/
def Counts (d : Document) (n : Nat) : Prop :=
  d.number? = some (.whole n)

theorem elementAt_eq_ok (what : String) (h : isSize n) : elementAt what xs n = .ok x ↔ xs[n]? = some x := by
  have hf : ¬ (n : Int) < 0 := by omega
  simp only [elementAt, h, hf, Bool.not_true, Bool.false_eq_true, if_false, Int.toNat_natCast]
  cases xs[n]? with
  | none => simp
  | some y => simp

theorem elementBy_eq_ok (h : d.Counts n) (hf : isSize n) : elementBy xs d = .ok x ↔ xs[n]? = some x := by
  rw [← elementAt_eq_ok "list" hf]
  cases d with
  | whole m =>
    obtain rfl : m = n := by simpa [Counts, number?] using h
    rfl
  | flag b =>
    have hn : (if b then 1 else 0 : Int) = n := by simpa [Counts, number?] using h
    rw [← hn, elementBy]
  | _ => cases h

theorem isSize_of_lt (h : n < 64) : isSize n := by
  simp only [isSize, Bool.and_eq_true, decide_eq_true_eq]
  omega

theorem Counts.unique {m : Nat} (h : d.Counts m) (second : d.Counts n) : m = n := by
  have hs : (m : Int) = n := by simpa using h.symm.trans second
  exact Int.ofNat.inj hs

end Document

theorem KeyGrid.byPosition_eq_flatten (h : core.rows.length = 8) : core.byPosition = .ok core.flatten := by
  obtain ⟨grid⟩ := core
  match grid, h with
  | [_, _, _, _, _, _, _, _], _ => rfl

theorem KeyGrid.length_flatten_of_shape (h : core.rows.map length = [5, 5, 5, 5, 5, 5, 3, 3]) :
    core.flatten.length = 36 := by
  obtain ⟨grid⟩ := core
  have hr : grid.length = 8 := by simpa using congrArg length h
  match grid, hr with
  | [_, _, _, _, _, _, _, _], _ =>
    simp only [map_cons, map_nil, cons.injEq, and_true] at h
    simp only [flatten, length_append]
    omega

theorem Combo.checkPosition_eq_ok {n : Int} (hn : position.number? = some (.whole n))
    (h : combo.checkPosition position = .ok ()) : 0 ≤ n ∧ n ≤ 35 := by
  have low : position.isBelow 0 = .ok (compare n 0 == .lt) := by
    simp [Document.isBelow, Document.compareWith, Document.comparable, hn, ok_bind, ok_pure]
  have hh : position.isAbove 35 = .ok (compare n 35 == .gt) := by
    simp [Document.isAbove, Document.compareWith, Document.comparable, hn, ok_bind, ok_pure]
  simp only [checkPosition, low, hh, ok_bind, beq_iff_eq, Int.compare_eq_lt] at h
  split at h
  · rename_i hb
    simp [Int.compare_eq_lt.mpr hb, invalid, ok_bind, ok_pure] at h
  · rename_i ha
    by_cases hh : 35 < n
    · simp [Int.compare_eq_gt.mpr hh, invalid] at h
    · omega

namespace Qmk

theorem exists_counts (hv : combo.checkPosition position = .ok ())
    (hf : Document.elementBy xs position = .ok x) : ∃ p < 36, position.Counts p := by
  have hw : ∀ n : Int, position.number? = some (.whole n) → ∃ p < 36, position.Counts p := by
    intro n h
    obtain ⟨low, hh⟩ := Combo.checkPosition_eq_ok h hv
    refine ⟨n.toNat, by omega, ?_⟩
    rw [Document.Counts, h, Int.toNat_of_nonneg low]
  cases position with
  | whole n => exact hw n rfl
  | flag b => exact hw (if b then 1 else 0) rfl
  | _ => cases hf

theorem comboKeycode_eq_ok {layer : String} {entries : List Entry} (hv : combo.checkPosition position = .ok ())
    (h : comboKeycode (some v) combo layer entries position = .ok code) : ∃ p < 36, position.Counts p ∧
      ∃ entry, entries[p]? = some entry ∧ value v entry.text = .ok code := by
  obtain ⟨high, -, h⟩ := bind_eq_ok.mp h
  split at h
  · cases h
  · obtain ⟨entry, he, h⟩ := bind_eq_ok.mp h
    obtain ⟨p, hc, hp⟩ := exists_counts hv he
    have ht := (Document.elementBy_eq_ok hp (Document.isSize_of_lt (by omega))).mp he
    refine ⟨p, hc, hp, entry, ht, ?_⟩
    split at h
    · split at h
      · cases h
      · exact h
    · exact h

def LooksUp (combo : Combo) (layers : List Layer) (layer : Layer) : Prop :=
  ∃ name, lookupLayer combo layers = .ok name ∧
    layers.find? (fun l => l.name.same name) = some layer

theorem comboKeycodes_eq_ok {layers : List Layer} {codes : List Document}
    (hl : LooksUp combo layers layer) (isCore : layer.core = some core) (hr : core.rows.length = 8)
    (hv : combo.validate = .ok ()) (h : comboKeycodes (some v) layers combo = .ok codes) :
    ∃ positions, combo.positions.members = .ok positions ∧
      Forall₂ (fun position code => ∃ p < 36, position.Counts p ∧
        ∃ entry, core.flatten[p]? = some entry ∧ value v entry.text = .ok code) positions codes := by
  obtain ⟨positions, hp, hv⟩ := bind_eq_ok.mp hv
  obtain ⟨_, hc, -⟩ := bind_eq_ok.mp hv
  have hch := forM_eq_ok.mp hc
  obtain ⟨name, hn, hf⟩ := hl
  refine ⟨positions, hp, ?_⟩
  simp only [comboKeycodes, hn, hf, isCore, KeyGrid.byPosition_eq_flatten hr, hp, ok_bind] at h
  split at h
  · cases h
  · split at h
    · cases h
    · obtain ⟨_, -, h⟩ := bind_eq_ok.mp h
      have he := (forall₂_and_left _ _).mpr ⟨hch, mapM_eq_ok.mp h⟩
      exact he.imp fun position code hf => comboKeycode_eq_ok hf.1 hf.2

end Qmk

theorem Compiler.Encodes.keycode_of_core {c : Compiler} {compiled : CompiledLayer} {q : Nat} {entry : Entry}
    (h : c.Encodes board layer compiled) (qmk : board.firmware = .qmk)
    (noFull : layer.fullLayout = none) (isCore : layer.core = some core) (full : core.flatten.length = 36)
    (placed : Padding.Places board layer p q) (hf : core.flatten[p]? = some entry)
    (hc : Qmk.value c.qmk entry.text = .ok code) : compiled.keycodes[q]? = some code := by
  obtain ⟨keys, hk, -⟩ := h.2
  have hp := hk
  simp only [Compile.keys, noFull, isCore] at hp
  have ht : keys[q]? = some entry.text := by
    rw [placed _ keys (by rw [length_map, full]) hp, getElem?_map, hf]
    rfl
  obtain ⟨code', hpl, hv⟩ := h.getElem? hk ht
  have hq : c.valueAt board layer.name q entry.text = Qmk.value c.qmk entry.text := by
    simp only [valueAt, qmk, Firmware.isQmk, if_true]
  rw [hq, hc] at hv
  rw [hpl, Except.ok.inj hv]

namespace Qmk

variable {size : LayoutSize} {positions : Document} {ds : List Document}

variable {compiled : CompiledLayer} {codes : List Document} {layers : List Layer} {c : Compiler}

/-- The keycodes of a combo are those of the board at the places of its positions. -/
theorem combo_keycodes_in_matrix {c : Compiler} {board : Board} {layers : List Layer} {layer : Layer}
    {core : KeyGrid} {combo : Combo} {compiled : CompiledLayer} {codes : List Document} {count : Nat}
    (qmk : board.firmware = .qmk) (size : board.layoutSize.keyCount? = some count)
    (noFull : layer.fullLayout = none) (isCore : layer.core = some core)
    (shape : core.rows.map List.length = [5, 5, 5, 5, 5, 5, 3, 3])
    (valid : combo.validate = .ok ()) (looked : LooksUp combo layers layer)
    (compiles : (c.compile layer board).1 = .ok compiled)
    (done : comboKeycodes (some c.qmk) layers combo = .ok codes) :
    ∃ positions, combo.positions.members = .ok positions ∧
      List.Forall₂ (fun position code => ∃ p < 36, position.Counts p ∧
        Padding.Places board layer p (Padding.place board.layoutSize p) ∧
        compiled.keycodes[Padding.place board.layoutSize p]? = some code) positions codes := by
  have rows : core.rows.length = 8 := by simpa using congrArg List.length shape
  obtain ⟨positions, isPositions, each⟩ := comboKeycodes_eq_ok looked isCore rows valid done
  refine ⟨positions, isPositions, each.imp ?_⟩
  rintro position code ⟨p, inCore, isPosition, entry, found, isCode⟩
  have placed := Padding.places_place size layer inCore
  exact ⟨p, inCore, isPosition, placed, (Compiler.compile_encodes compiles).keycode_of_core qmk noFull
    isCore (KeyGrid.length_flatten_of_shape shape) placed found isCode⟩

def letters : Compiler where
  qmk := {
    aliases := [⟨"hrm", .null, .list ["mod", "key"], "\x7bmod\x7d_T(KC_\x7bkey\x7d)", .null, .list ["qmk"]⟩]
    keycodes := [("A", .record [("qmk", "KC_A")]), ("B", .record [("qmk", "KC_B")]),
      ("LGUI", .record [("qmk", "KC_LGUI")]), ("NONE", .record [("qmk", "KC_NO")])] }

def lettersLayer : Layer where
  name := "BASE_NIGHT"
  core := some ⟨[List.replicate 5 (.key "A"), List.replicate 5 (.key "hrm:LGUI:A"),
    List.replicate 5 (.key "B"), List.replicate 5 (.key "B"), List.replicate 5 (.key "A"),
    List.replicate 5 (.key "hrm:LGUI:B"), List.replicate 3 (.key "A"), List.replicate 3 (.key "B")]⟩

def wideCombo : Combo where
  name := "wide"
  description := "Wide"
  positions := .list [.whole 11, .whole 25, .whole 30]
  action := "ESC"

def lulu : Board :=
  { id := "lulu", name := "Lulu", firmware := .qmk, layoutSize := .custom "58_from_3x6" }

theorem combo_keycodes_in_matrix_lulu : ∃ compiled codes, (letters.compile lettersLayer lulu).1 = .ok compiled ∧
      comboKeycodes (some letters.qmk) [lettersLayer] wideCombo = .ok codes ∧
      ∃ positions, wideCombo.positions.members = .ok positions ∧
        List.Forall₂ (fun position code => ∃ p < 36, position.Counts p ∧
          Padding.Places lulu lettersLayer p (Padding.place lulu.layoutSize p) ∧
          compiled.keycodes[Padding.place lulu.layoutSize p]? = some code) positions codes := by
  obtain ⟨compiled, compiles⟩ : ∃ compiled, (letters.compile lettersLayer lulu).1 = .ok compiled :=
    exists_eq_ok (by decide +kernel)
  obtain ⟨codes, done⟩ : ∃ codes, comboKeycodes (some letters.qmk) [lettersLayer] wideCombo = .ok codes :=
    exists_eq_ok (by decide +kernel)
  exact ⟨compiled, codes, compiles, done, combo_keycodes_in_matrix rfl rfl rfl rfl rfl rfl
    ⟨_, rfl, rfl⟩ compiles done⟩

/-- By how much a position that was moved to a board falls short of its place. -/
def shortfall : LayoutSize → Nat → Nat
  | .custom "58_from_3x6", p => if p < 25 then 0 else 2
  | _, _ => 0

def Moves (size : LayoutSize) : Prop :=
  size = .split36 ∨ size = .split42 ∨ size = .custom "58_from_3x6"

theorem positionOn42_whole : positionOn42 (.whole p) = .whole (Padding.place .split42 p : Nat) := by
  by_cases hth : 30 ≤ p
  · have ht : (30 : Int) ≤ p := by omega
    have h : Padding.place .split42 p = p + 6 := by
      simp only [Padding.place, corePlace]
      split_ifs <;> omega
    simp [positionOn42, Document.Number.isAtLeast, Document.Number.plus, ht, h]
  · have hf : ¬ (30 : Int) ≤ p := by omega
    have h : Padding.place .split42 p = p / 10 * 12 + p % 10 + 1 := by
      simp only [Padding.place, corePlace]
      split_ifs <;> omega
    simp [positionOn42, Document.Number.isAtLeast, Document.Number.floorDiv, Document.Number.times,
      Document.Number.floorMod, Document.Number.sum, Document.Number.plus, hf, h]
    omega

theorem positionOn58_whole : positionOn58 (.whole p) = .whole (Padding.place (.custom "58_from_3x6") p -
      shortfall (.custom "58_from_3x6") p : Nat) := by
  by_cases hth : 30 ≤ p
  · have ht : (30 : Int) ≤ p := by omega
    have h : Padding.place (.custom "58_from_3x6") p - shortfall (.custom "58_from_3x6") p =
        p + 19 := by
      simp only [Padding.place, shortfall]
      split_ifs <;> omega
    simp [positionOn58, Document.Number.isAtLeast, Document.Number.plus, ht, h]
    omega
  · have hf : ¬ (30 : Int) ≤ p := by omega
    have h : Padding.place (.custom "58_from_3x6") p - shortfall (.custom "58_from_3x6") p =
        p / 10 * 12 + 12 + p % 10 + 1 := by
      simp only [Padding.place, shortfall, corePlace]
      split_ifs <;> omega
    simp [positionOn58, Document.Number.isAtLeast, Document.Number.floorDiv, Document.Number.times,
      Document.Number.floorMod, Document.Number.sum, Document.Number.plus, hf, h]
    omega

theorem placeAll_members {move : Document.Number → Document.Number} {target : Nat → Nat}
    (hp : positions.members = .ok ds) (hc : ∀ d ∈ ds, ∃ p < 36, d.Counts p)
    (moves : ∀ p : Nat, move (.whole p) = .whole (target p)) :
    ∃ indices, (placeAll move positions >>= Document.members) = .ok indices ∧
      Forall₂ (fun d index => ∃ p < 36, d.Counts p ∧ index.Counts (target p)) ds indices := by
  have he : ∀ d ∈ ds, Requires True (do return (move (← d.comparable ">=")).toDocument)
      fun index => ∃ p < 36, d.Counts p ∧ index.Counts (target p) := by
    intro d hm
    obtain ⟨p, hs, h⟩ := hc d hm
    have hn : d.comparable ">=" = .ok (.whole p) := by
      rw [Document.comparable, h]
    refine .ok_of (a := Document.whole (target p)) ?_ ⟨p, hs, h, rfl⟩
    rw [hn, ok_bind, moves]
    rfl
  obtain ⟨indices, hmv, hr⟩ := (Requires.mapM he).1 fun _ _ => trivial
  refine ⟨indices, ?_, hr⟩
  rw [placeAll, hp, ok_bind, hmv]
  rfl

theorem boardPositions_members (hk : Moves size) (hp : positions.members = .ok ds)
    (h : ∀ d ∈ ds, ∃ p < 36, d.Counts p) :
    ∃ indices, (boardPositions size positions >>= Document.members) = .ok indices ∧
      Forall₂ (fun d index => ∃ p < 36, d.Counts p ∧
        index.Counts (Padding.place size p - shortfall size p)) ds indices := by
  rcases hk with rfl | rfl | rfl
  · refine ⟨ds, hp, forall₂_same.mpr fun d hm => ?_⟩
    obtain ⟨p, hs, hps⟩ := h d hm
    exact ⟨p, hs, hps, hps⟩
  · exact placeAll_members hp h fun _ => positionOn42_whole
  · exact placeAll_members hp h fun _ => positionOn58_whole

theorem place_lt (hk : Moves size) (h : p < 36) : Padding.place size p < 64 := by
  rcases hk with rfl | rfl | rfl
  · exact Nat.lt_trans h (by omega)
  · simp only [Padding.place, corePlace]
    split_ifs <;> omega
  · simp only [Padding.place, corePlace]
    split_ifs <;> omega

theorem shortfall_cases (size : LayoutSize) (p : Nat) :
    shortfall size p = 2 ∧ size = .custom "58_from_3x6" ∧ 25 ≤ p ∨
      shortfall size p = 0 ∧ ¬ (size = .custom "58_from_3x6" ∧ 25 ≤ p) := by
  unfold shortfall
  split
  · split_ifs
    · right
      omega
    · left
      exact ⟨rfl, rfl, by omega⟩
  · rename_i ho
    exact .inr ⟨rfl, fun h => ho h.1⟩

/-- The places to which the positions of a combo are moved have the keycodes that the combo listens
to, unless a key of 58 falls short of its place and the keys at both places differ. -/
theorem combo_places_agree_iff {c : Compiler} {board : Board} {layers : List Layer} {layer : Layer}
    {core : KeyGrid} {combo : Combo} {compiled : CompiledLayer} {codes : List Document}
    (qmk : board.firmware = .qmk) (known : Moves board.layoutSize)
    (noFull : layer.fullLayout = none) (isCore : layer.core = some core)
    (shape : core.rows.map List.length = [5, 5, 5, 5, 5, 5, 3, 3])
    (valid : combo.validate = .ok ()) (looked : LooksUp combo layers layer)
    (compiles : (c.compile layer board).1 = .ok compiled)
    (done : comboKeycodes (some c.qmk) layers combo = .ok codes) :
    ∃ positions indices, combo.positions.members = .ok positions ∧
      (boardPositions board.layoutSize combo.positions >>= Document.members) = .ok indices ∧
      (indices.mapM (Document.elementBy compiled.keycodes) = .ok codes ↔
        ∀ position ∈ positions, ∀ p, position.Counts p → board.layoutSize = .custom "58_from_3x6" → 25 ≤ p →
          compiled.keycodes[Padding.place board.layoutSize p - 2]? =
            compiled.keycodes[Padding.place board.layoutSize p]?) := by
  have size : ∃ count, board.layoutSize.keyCount? = some count := by
    rcases known with isSize | isSize | isSize <;> exact ⟨_, by rw [isSize]; rfl⟩
  obtain ⟨count, size⟩ := size
  have rows : core.rows.length = 8 := by simpa using congrArg List.length shape
  obtain ⟨positions, isPositions, each⟩ := comboKeycodes_eq_ok looked isCore rows valid done
  have inCore : ∀ d ∈ positions, ∃ p < 36, d.Counts p := by
    intro d member
    obtain ⟨_, -, p, small, isPosition, -⟩ := forall₂_mem_right each.flip member
    exact ⟨p, small, isPosition⟩
  obtain ⟨indices, moved, related⟩ := boardPositions_members known isPositions inCore
  refine ⟨positions, indices, isPositions, moved, ?_⟩
  rw [mapM_eq_ok]
  apply forall₂_iff_forall_mem related each
  rintro position index code ⟨p, small, isPosition, isIndex⟩ ⟨p', -, isPosition', entry, found, isCode⟩
  obtain rfl := isPosition.unique isPosition'
  have there := (Compiler.compile_encodes compiles).keycode_of_core qmk noFull isCore
    (KeyGrid.length_flatten_of_shape shape) (Padding.places_place size layer small) found isCode
  have bound := place_lt known small
  rw [Document.elementBy_eq_ok isIndex (Document.isSize_of_lt (by omega))]
  constructor
  · intro here p'' isPosition'' is58 past
    obtain rfl := isPosition.unique isPosition''
    rcases shortfall_cases board.layoutSize p with ⟨two, -⟩ | ⟨-, never⟩
    · rw [← two, here, there]
    · exact absurd ⟨is58, past⟩ never
  · intro same
    rcases shortfall_cases board.layoutSize p with ⟨two, is58, past⟩ | ⟨zero, -⟩
    · rw [two, same p isPosition is58 past, there]
    · rw [zero, Nat.sub_zero, there]

/-- The right half of the bottom row and the thumbs are designated two keys to the left. -/
theorem combo_places_agree_iff_lulu :
    ∃ compiled codes indices, (letters.compile lettersLayer lulu).1 = .ok compiled ∧
      comboKeycodes (some letters.qmk) [lettersLayer] wideCombo = .ok codes ∧
      (boardPositions lulu.layoutSize wideCombo.positions >>= Document.members) = .ok indices ∧
      indices.mapM (Document.elementBy compiled.keycodes) ≠ .ok codes := by
  obtain ⟨compiled, compiles⟩ : ∃ compiled, (letters.compile lettersLayer lulu).1 = .ok compiled :=
    exists_eq_ok (by decide +kernel)
  obtain ⟨codes, done⟩ : ∃ codes, comboKeycodes (some letters.qmk) [lettersLayer] wideCombo = .ok codes :=
    exists_eq_ok (by decide +kernel)
  obtain ⟨positions, indices, isPositions, isIndices, agree⟩ := combo_places_agree_iff
    rfl (.inr (.inr rfl) : Moves lulu.layoutSize) rfl rfl rfl rfl ⟨_, rfl, rfl⟩ compiles done
  refine ⟨compiled, codes, indices, compiles, done, isIndices, fun same => ?_⟩
  obtain rfl := Except.ok.inj isPositions
  have alike := agree.mp same (.whole 25) (by simp) 25 rfl rfl (by omega)
  have differ : ((letters.compile lettersLayer lulu).1.toOption.map fun l =>
      (l.keycodes[42]?.map Document.toText, l.keycodes[44]?.map Document.toText)) =
        some (some "KC_NO", some "LGUI_T(KC_B)") := by
    decide +kernel
  rw [compiles] at differ
  obtain ⟨inner, right⟩ := Prod.mk.inj (Option.some.inj differ)
  have clash := inner.symm.trans ((congrArg (Option.map Document.toText) alike).trans right)
  exact absurd clash (by decide)

end Qmk

end Keymap
