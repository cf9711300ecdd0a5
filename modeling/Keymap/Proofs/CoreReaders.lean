import Keymap.Proofs.QmkCombos

namespace Keymap

open List

variable {core full : KeyGrid} {layer : Layer} {board : Board} {entries : List Entry}

namespace KeyGrid

/-- A core that reads alike row after row and row by row across both hands. Either it has the eight rows of
a core, or there are no keys below them and the rows between the first and the last keep their order. -/
def ReadsAlike (core : KeyGrid) : Prop :=
  ∃ l₀ l₁ l₂ r₀ r₁ r₂ left right more, core.rows = l₀ :: l₁ :: l₂ :: r₀ :: r₁ :: r₂ :: left :: right :: more ∧
    (more = [] ∨ more.flatten = [] ∧ r₀ ++ (l₁ ++ (r₁ ++ l₂)) = l₁ ++ (l₂ ++ (r₀ ++ r₁)))

theorem row_eq_ok {i : Nat} {row : List Entry} : core.row i = .ok row ↔ core.rows[i]? = some row := by
  unfold KeyGrid.row
  split <;> simp_all

theorem byPosition_eq_ok (h : core.byPosition = .ok entries) : ∃ l₀ l₁ l₂ r₀ r₁ r₂ left right more,
      core.rows = l₀ :: l₁ :: l₂ :: r₀ :: r₁ :: r₂ :: left :: right :: more ∧
      entries = l₀ ++ r₀ ++ l₁ ++ r₁ ++ l₂ ++ r₂ ++ left ++ right := by
  simp only [byPosition, bind_eq_ok, pure_eq_ok, row_eq_ok] at h
  obtain ⟨l₀, h₀, r₀, h₃, l₁, h₁, r₁, h₄, l₂, h₂, r₂, h₅, left, h₆, right, h₇, rfl⟩ := h
  refine ⟨l₀, l₁, l₂, r₀, r₁, r₂, left, right, core.rows.drop 8, ?_, rfl⟩
  rw [← take_append_drop 8 core.rows]
  simp [take_add_one, h₀, h₁, h₂, h₃, h₄, h₅, h₆, h₇]

theorem interleaved_eq_iff {l₀ l₁ l₂ r₀ r₁ r₂ left right : List Entry} {more : List (List Entry)} :
    l₀ ++ r₀ ++ l₁ ++ r₁ ++ l₂ ++ r₂ ++ left ++ right =
        (l₀ :: l₁ :: l₂ :: r₀ :: r₁ :: r₂ :: left :: right :: more).flatten ↔
      more.flatten = [] ∧ r₀ ++ (l₁ ++ (r₁ ++ l₂)) = l₁ ++ (l₂ ++ (r₀ ++ r₁)) := by
  have ha (x y : List Entry) : l₀ ++ (x ++ (r₂ ++ (left ++ right))) = l₀ ++ (y ++ (r₂ ++ (left ++ right))) ↔
      x = y := by rw [append_cancel_left_eq, append_cancel_right_eq]
  rw [← ha (r₀ ++ (l₁ ++ (r₁ ++ l₂)))]
  constructor
  · intro hs
    have hl := congrArg length hs
    simp only [flatten_cons, length_append] at hl
    have h : more.flatten = [] := length_eq_zero_iff.mp (by omega)
    exact ⟨h, by simpa only [flatten_cons, h, append_nil, append_assoc] using hs⟩
  · rintro ⟨h, hs⟩
    simpa only [flatten_cons, h, append_nil, append_assoc] using hs

theorem byPosition_eq_flatten_iff : core.byPosition = .ok core.flatten ↔ core.ReadsAlike := by
  constructor
  · intro hd
    obtain ⟨l₀, l₁, l₂, r₀, r₁, r₂, left, right, more, h, hf⟩ := byPosition_eq_ok hd
    refine ⟨l₀, l₁, l₂, r₀, r₁, r₂, left, right, more, h, ?_⟩
    cases more with
    | nil => exact .inl rfl
    | cons row rows =>
      rw [KeyGrid.flatten, h] at hf
      exact .inr (interleaved_eq_iff.mp hf.symm)
  · rintro ⟨l₀, l₁, l₂, r₀, r₁, r₂, left, right, more, h, ha⟩
    have hr : core.byPosition = .ok (l₀ ++ r₀ ++ l₁ ++ r₁ ++ l₂ ++ r₂ ++ left ++ right) := by
      simp only [byPosition, KeyGrid.row, h]
      rfl
    rw [hr, KeyGrid.flatten, h]
    cases more with
    | nil => rfl
    | cons row rows => exact congrArg Except.ok (interleaved_eq_iff.mpr (ha.resolve_left (cons_ne_nil _ _)))

theorem referenceKeys_eq_ok : Compile.referenceKeys core = .ok entries ↔
    core.byPosition = .ok entries ∧ entries.length = 36 := by
  simp only [Compile.referenceKeys, bind_eq_ok, check_eq_ok, not_not, pure_eq_ok]
  constructor
  · rintro ⟨_, hr, h, rfl⟩
    exact ⟨hr, h⟩
  · rintro ⟨hr, h⟩
    exact ⟨entries, hr, h, rfl⟩

end KeyGrid

/-- All readers of a validated core see the same 36 keys exactly if the core reads alike across the hands. -/
theorem core_read_alike_iff (valid : layer.validate = .ok ()) (isCore : layer.core = some core) :
    core.flatten.length = 36 ∧
      (core.byPosition = .ok core.flatten ∧ Compile.referenceKeys core = .ok core.flatten ↔ core.ReadsAlike) := by
  have count := (Layer.checked_of_validate valid).core core isCore
  refine ⟨count, ?_⟩
  rw [KeyGrid.referenceKeys_eq_ok, KeyGrid.byPosition_eq_flatten_iff]
  simp [count]

def nineRows : KeyGrid :=
  ⟨["A", "B", "C", "D", "E", "F", "G", "H", "I"].map fun key => replicate 4 (.key key)⟩

theorem nineRows_differ : ({ name := "BASE", core := some nineRows } : Layer).validate = .ok () ∧
    ¬ (nineRows.byPosition = .ok nineRows.flatten ∧ Compile.referenceKeys nineRows = .ok nineRows.flatten) := by
  have valid : ({ name := "BASE", core := some nineRows } : Layer).validate = .ok () :=
    eq_ok_of_toOption (by decide)
  refine ⟨valid, fun alike => ?_⟩
  obtain ⟨_, _, _, _, _, _, _, _, _, isRows, alike⟩ := (core_read_alike_iff valid rfl).2.mp alike
  cases isRows
  revert alike
  decide

/-- A code that an entry of a full layout gets: that of a position of the core, or its own. -/
def CodeOf (v : Vocabulary) (codes : List Document) : Entry → Document → Prop
  | .position n, code => codes[n]? = some code
  | .key text, code => Qmk.value v text = .ok code

theorem forall₂_through {α β γ : Type} {r : α → β → Prop} {s : β → γ → Prop} {t : α → γ → Prop} {xs : List α}
    {ys : List β} {zs : List γ} (hf : Forall₂ r xs ys) (h : Forall₂ s ys zs)
    (hb : ∀ x y z, r x y → s y z → t x z) : Forall₂ t xs zs := by
  induction hf generalizing zs with
  | nil =>
    cases h
    exact .nil
  | cons hh _ ih =>
    cases h with
    | cons hhd hr => exact .cons (hb _ _ _ hh hhd) (ih hr)

namespace Compiler

variable {c : Compiler} {compiled : CompiledLayer} {keys : List String}

theorem Encodes.qmk_values (he : c.Encodes board layer compiled) (qmk : board.firmware = .qmk)
    (hk : Compile.keys layer board = .ok keys) :
    Forall₂ (fun key code => Qmk.value c.qmk key = .ok code) keys compiled.keycodes := by
  obtain ⟨-, _, hky, hv⟩ := he
  obtain rfl := Except.ok.inj (hk.symm.trans hky)
  have h := mapM_eq_ok.mp hv
  simp only [valueAt, qmk, Firmware.isQmk, if_true] at h
  rwa [← forall₂_map_left_iff (f := Prod.fst) (R := fun key code => Qmk.value c.qmk key = .ok code),
    zipIdx_map_fst] at h

theorem resolve_code {core : List Entry} {entry found : Entry} {codes : List Document} {code : Document}
    {v : Vocabulary} (values : Forall₂ (fun entry code => Qmk.value v entry.text = .ok code) core codes)
    (h : Compile.resolve core entry = .ok found) (hc : Qmk.value v found.text = .ok code) :
    CodeOf v codes entry code := by
  cases entry with
  | key text =>
    cases h
    exact hc
  | position n =>
    simp only [Compile.resolve] at h
    split at h
    · rename_i ht
      cases h
      obtain ⟨hi, rfl⟩ := List.getElem?_eq_some_iff.mp ht
      have hin : n < codes.length := values.length_eq ▸ hi
      have hv := values.get hi hin
      simp only [get_eq_getElem] at hv
      rw [CodeOf, getElem?_eq_getElem hin, ← Except.ok.inj (hc.symm.trans hv)]
    · cases h

/-- A full layout with references has one keycode for each of its entries. Those of references are the
keycodes that a board of 36 keys has at these positions, and all others are those of the entries themselves. -/
theorem reference_keycodes_agree {d : Compiler} {standard : Board} {reference : CompiledLayer}
    (rules : d.qmk = c.qmk) (qmk : board.firmware = .qmk) (standardQmk : standard.firmware = .qmk)
    (standardSize : standard.layoutSize = .split36) (isCore : layer.core = some core)
    (shape : core.rows.map length = [5, 5, 5, 5, 5, 5, 3, 3]) (isFull : layer.fullLayout = some full)
    (refers : ∃ n, Entry.position n ∈ full.flatten) (done : (c.compile layer board).1 = .ok compiled)
    (standardDone : (d.compile { layer with fullLayout := none } standard).1 = .ok reference) :
    Forall₂ (CodeOf c.qmk reference.keycodes) full.flatten compiled.keycodes := by
  have rows : core.rows.length = 8 := by simpa using congrArg length shape
  have isRead : Compile.referenceKeys core = .ok core.flatten := KeyGrid.referenceKeys_eq_ok.mpr
    ⟨KeyGrid.byPosition_eq_flatten rows, KeyGrid.length_flatten_of_shape shape⟩
  have some : full.flatten.any Compile.isReference = true := by
    obtain ⟨n, member⟩ := refers
    exact any_eq_true.mpr ⟨_, member, rfl⟩
  have standardKeys : Compile.keys { layer with fullLayout := none } standard =
      .ok (core.flatten.map Entry.text) := by
    simp only [Compile.keys, isCore, Padding.pad, standardSize]
  have expected := (compile_encodes standardDone).qmk_values standardQmk standardKeys
  rw [forall₂_map_left_iff, rules] at expected
  obtain ⟨-, keys, isKeys, -⟩ := compile_encodes done
  have values := (compile_encodes done).qmk_values qmk isKeys
  simp only [Compile.keys, isFull, some, isCore, isRead, if_true, ok_bind] at isKeys
  obtain ⟨found, resolved, isKeys⟩ := bind_eq_ok.mp isKeys
  rw [← pure_eq_ok.mp isKeys, forall₂_map_left_iff] at values
  exact forall₂_through (mapM_eq_ok.mp resolved) values fun _ _ _ isFound isCode =>
    resolve_code expected isFound isCode

open Qmk (letters lettersLayer lulu)

def referring : Layer :=
  { lettersLayer with fullLayout := some ⟨[[.position 11, .key "B", .position 35]]⟩ }

theorem reference_keycodes_agree_lulu :
    ∃ compiled reference, (letters.compile referring lulu).1 = .ok compiled ∧
      (letters.compile lettersLayer { lulu with layoutSize := .split36 }).1 = .ok reference ∧
      Forall₂ (CodeOf letters.qmk reference.keycodes) [.position 11, .key "B", .position 35] compiled.keycodes := by
  obtain ⟨compiled, done⟩ : ∃ compiled, (letters.compile referring lulu).1 = .ok compiled :=
    exists_eq_ok (by decide +kernel)
  obtain ⟨reference, standardDone⟩ : ∃ reference,
      (letters.compile lettersLayer { lulu with layoutSize := .split36 }).1 = .ok reference :=
    exists_eq_ok (by decide +kernel)
  refine ⟨compiled, reference, done, standardDone, ?_⟩
  have standardDone : (letters.compile { referring with fullLayout := none }
      { lulu with layoutSize := .split36 }).1 = .ok reference := standardDone
  exact reference_keycodes_agree rfl rfl rfl rfl rfl rfl rfl ⟨11, mem_cons_self⟩ done standardDone

end Compiler

end Keymap
