import Keymap.Proofs.Outcome
import Keymap.Qmk.Combos
import Keymap.Zmk.Combos

namespace Keymap

open List

variable {combo : Combo} {listed names : List String}

/-- A node without layers is active on all of them. -/
def Zmk.ComboNode.ActiveOn (node : ComboNode) (names : List String) (name : String) : Prop :=
  node.layers = [] ∨ ∃ i ∈ node.layers, names[i]? = some name

/-- What `combo_should_trigger` answers for a combo: without a case of its own it is always true. -/
def Qmk.triggers (filter : Option ComboFilter) (layer : String) : Prop :=
  ∀ case ∈ filter, layer ∈ case.tested

/-- What is restricted if it has a layer to be restricted to, and otherwise active on all layers, stays
where it belongs unless it has no such layer but others. -/
theorem stays_iff {active : String → Prop}
    (kept : (∃ name ∈ names, name ∈ listed) → ∀ name ∈ names, active name → name ∈ listed)
    (lost : (∀ name ∈ names, name ∉ listed) → ∀ name ∈ names, active name) :
    (∀ name ∈ names, active name → name ∈ listed) ↔ names = [] ∨ ∃ name ∈ names, name ∈ listed := by
  constructor
  · intro stays
    by_contra none
    push Not at none
    obtain ⟨name, member⟩ := exists_mem_of_ne_nil names none.1
    exact none.2 name member (stays name member (lost none.2 name member))
  · rintro (rfl | common)
    · simp
    · exact kept common

theorem Zmk.layers_comboNode {node : ComboNode} {size : LayoutSize}
    (lists : combo.layers = .list (listed.map .text)) (nonempty : listed ≠ [])
    (isNode : comboNode (names.map .text) size combo = .ok node) :
    node.layers = listed.filterMap fun n => names.findIdx? (n == ·) := by
  have present : combo.layers.isPresent = true := by
    simp [lists, Document.isPresent, nonempty]
  obtain ⟨_, -, isNode⟩ := bind_eq_ok.mp isNode
  obtain ⟨_, -, isNode⟩ := bind_eq_ok.mp isNode
  obtain ⟨layers, isLayers, isNode⟩ := bind_eq_ok.mp isNode
  obtain ⟨_, -, isNode⟩ := bind_eq_ok.mp isNode
  obtain rfl := pure_eq_ok.mp isNode
  rw [comboLayers, present, lists] at isLayers
  obtain rfl := Except.ok.inj isLayers
  simp [filterMap_map, findIdx?_map, Function.comp_def, Document.same, Document.isWord]

namespace Qmk

theorem checkTextsFrom_texts (i : Nat) (xs : List String) :
    Document.checkTextsFrom i (xs.map .text) = .ok xs := by
  induction xs generalizing i with
  | nil => rfl
  | cons x xs ih => simp [Document.checkTextsFrom, ih]

theorem knownFilter?_texts {filter : Option ComboFilter} (lists : combo.layers = .list (listed.map .text))
    (isFilter : knownFilter? (names.map .text) combo = .ok filter) :
    ∃ event, filter = if listed.filter (names.contains ·) = [] then none
      else some ⟨event, listed, listed.filter (names.contains ·)⟩ := by
  have known : (listed.map Document.text).filter (fun n => (names.map Document.text).any (·.same n)) =
      (listed.filter (names.contains ·)).map .text := by
    rw [filter_map]
    congr 2
    funext n
    rw [Function.comp_apply, any_map, contains_eq_any_beq]
    rfl
  rw [knownFilter?, lists] at isFilter
  obtain ⟨event, -, isFilter⟩ := bind_eq_ok.mp isFilter
  simp only [Document.members, ok_bind, known] at isFilter
  refine ⟨event, ?_⟩
  cases tested : listed.filter (names.contains ·) with
  | nil =>
    rw [tested] at isFilter
    cases isFilter
    rfl
  | cons n rest =>
    rw [tested] at isFilter
    simp [checkTextsFrom_texts, Function.comp_def, Document.toText] at isFilter
    simp [isFilter]

end Qmk

/-- A combo that lists layers is active on no other one exactly if one of them is compiled, or nothing
is. With none of them compiled it has no restriction, neither as a node nor in the switch over combos. -/
theorem combo_stays_on_listed_iff (listed names : List String) {node : Zmk.ComboNode} {size : LayoutSize}
    {filter : Option Qmk.ComboFilter} (nonempty : listed ≠ []) (lists : combo.layers = .list (listed.map .text))
    (isNode : Zmk.comboNode (names.map .text) size combo = .ok node)
    (isFilter : Qmk.knownFilter? (names.map .text) combo = .ok filter) :
    ((∀ name ∈ names, node.ActiveOn names name → name ∈ listed) ↔ names = [] ∨ ∃ name ∈ names, name ∈ listed) ∧
    ((∀ name ∈ names, Qmk.triggers filter name → name ∈ listed) ↔
      names = [] ∨ ∃ name ∈ names, name ∈ listed) := by
  obtain ⟨event, rfl⟩ := Qmk.knownFilter?_texts lists isFilter
  refine ⟨stays_iff ?_ ?_, stays_iff ?_ ?_⟩
  · rintro ⟨other, known, isListed⟩ name - active
    rw [Zmk.ComboNode.ActiveOn, Zmk.layers_comboNode lists nonempty isNode] at active
    rcases active with empty | ⟨i, inLayers, there⟩
    · have absent := filterMap_eq_nil_iff.mp empty other isListed
      simpa using findIdx?_eq_none_iff.mp absent other known
    · obtain ⟨n, isListed, index⟩ := mem_filterMap.mp inLayers
      obtain ⟨bound, same, -⟩ := findIdx?_eq_some_iff_getElem.mp index
      rw [getElem?_eq_getElem bound, Option.some.injEq] at there
      rwa [← there, ← beq_iff_eq.mp same]
  · intro none name _
    rw [Zmk.ComboNode.ActiveOn, Zmk.layers_comboNode lists nonempty isNode]
    refine .inl (filterMap_eq_nil_iff.mpr fun n isListed => findIdx?_eq_none_iff.mpr fun m known => ?_)
    rw [beq_eq_false_iff_ne]
    rintro rfl
    exact none n known isListed
  · rintro ⟨other, known, isListed⟩ name - active
    rw [if_neg (ne_nil_of_mem (mem_filter.mpr ⟨isListed, contains_iff_mem.mpr known⟩))] at active
    exact (mem_filter.mp (active _ rfl)).1
  · intro none name _
    rw [if_pos (filter_eq_nil_iff.mpr fun n isListed known => none n (contains_iff_mem.mp known) isListed)]
    exact fun _ absent => absurd absent (by simp)

def gamesCombo : Combo where
  name := "esc"
  description := "escape"
  positions := .list [.whole 0, .whole 1]
  action := "ESC"
  layers := .list ["GAMES"]

/-- A combo for `GAMES` is active on `BASE` if only that is compiled. -/
theorem gamesCombo_strays : ∃ node filter, Zmk.comboNode ["BASE"] .split36 gamesCombo = .ok node ∧
    Qmk.knownFilter? ["BASE"] gamesCombo = .ok filter ∧
    ¬ (∀ name ∈ ["BASE"], node.ActiveOn ["BASE"] name → name ∈ ["GAMES"]) ∧
    ¬ (∀ name ∈ ["BASE"], Qmk.triggers filter name → name ∈ ["GAMES"]) := by
  obtain ⟨node, isNode⟩ : ∃ node, Zmk.comboNode ["BASE"] .split36 gamesCombo = .ok node :=
    exists_eq_ok (by decide)
  obtain ⟨filter, isFilter⟩ : ∃ filter, Qmk.knownFilter? ["BASE"] gamesCombo = .ok filter :=
    exists_eq_ok (by decide)
  have ⟨active, triggers⟩ := combo_stays_on_listed_iff ["GAMES"] ["BASE"] (by decide) rfl isNode isFilter
  exact ⟨node, filter, isNode, isFilter, active.not.mpr (by decide), triggers.not.mpr (by decide)⟩

end Keymap
