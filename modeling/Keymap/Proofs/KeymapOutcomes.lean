import Keymap.Proofs.TrainedGroups

namespace Keymap

open List

variable {α β : Type} {xs : List α} {size : Nat} {f : α → Result β} {x : Result α}

theorem exists_mapM_eq_ok : (∃ ys, xs.mapM f = .ok ys) ↔ ∀ x ∈ xs, ∃ y, f x = .ok y := by
  constructor
  · rintro ⟨ys, h⟩ x hm
    obtain ⟨y, -, hv⟩ := forall₂_mem_right (mapM_eq_ok.mp h).flip hm
    exact ⟨y, hv⟩
  · intro he
    induction xs with
    | nil => exact ⟨[], rfl⟩
    | cons x xs ih =>
      obtain ⟨hh, hl⟩ := forall_mem_cons.mp he
      obtain ⟨y, hv⟩ := hh
      obtain ⟨ys, h⟩ := ih hl
      refine ⟨y :: ys, mapM_eq_ok.mpr (.cons hv (mapM_eq_ok.mp h))⟩

theorem exists_bind_eq_ok : (∃ b, x >>= f = .ok b) ↔ ∃ a, x = .ok a ∧ ∃ b, f a = .ok b := by
  constructor
  · rintro ⟨b, h⟩
    obtain ⟨a, hv, h⟩ := bind_eq_ok.mp h
    exact ⟨a, hv, b, h⟩
  · rintro ⟨a, hv, b, h⟩
    exact ⟨b, bind_eq_ok.mpr ⟨a, hv, h⟩⟩

theorem exists_bind_pure {f : α → β} : (∃ b, (x >>= fun a => pure (f a)) = .ok b) ↔ ∃ a, x = .ok a := by
  rw [exists_bind_eq_ok]
  exact ⟨fun ⟨a, h, _⟩ => ⟨a, h⟩, fun ⟨a, h⟩ => ⟨a, h, f a, rfl⟩⟩

theorem exists_run_bind {σ : Type} {x : ExceptT Fault (StateM σ) α} {f : α → ExceptT Fault (StateM σ) β}
    {s : σ} : (∃ b after, (x >>= f).run.run s = (.ok b, after)) ↔
      ∃ a middle, x.run.run s = (.ok a, middle) ∧ ∃ b after, (f a).run.run middle = (.ok b, after) := by
  constructor
  · rintro ⟨b, after, h⟩
    obtain ⟨a, middle, hf, h⟩ := run_bind_eq_ok.mp h
    exact ⟨a, middle, hf, b, after, h⟩
  · rintro ⟨a, middle, hf, b, after, h⟩
    exact ⟨b, after, run_bind_eq_ok.mpr ⟨a, middle, hf, h⟩⟩

section Rows

theorem flatten_chunksFrom (hp : 0 < size) {fuel : Nat} (h : xs.length ≤ fuel) :
    (chunksFrom size fuel xs).flatten = xs := by
  induction fuel generalizing xs with
  | zero => rw [eq_nil_of_length_eq_zero (Nat.le_zero.mp h)]; rfl
  | succ fuel ih =>
    cases xs with
    | nil => rfl
    | cons x xs =>
      have hs : ((x :: xs).drop size).length ≤ fuel := by
        rw [length_drop, length_cons] at *
        omega
      rw [chunksFrom, flatten_cons, ih hs, take_append_drop]

theorem flatten_chunks (h : 0 < size) (xs : List α) : (chunks size xs).flatten = xs :=
  flatten_chunksFrom h (Nat.le_refl _)

theorem flatten_splitRows (widths : List Nat) (xs : List α) :
    (splitRows widths xs).flatten = xs.take (widths.foldr (· + ·) 0) := by
  induction widths generalizing xs with
  | nil => rfl
  | cons width rest ih => rw [splitRows, flatten_cons, ih, foldr_cons, take_add]

theorem Zmk.flatten_bindingRows (size : LayoutSize) (keys : List α) : (Zmk.bindingRows size keys).flatten = keys := by
  unfold Zmk.bindingRows
  split
  · rename_i h
    rw [flatten_splitRows, take_of_length_le (by simp [h])]
  · rename_i h
    rw [flatten_splitRows, take_of_length_le (by simp [h])]
  · rename_i h
    rw [flatten_splitRows, take_of_length_le (by simp [h])]
  · exact flatten_chunks (by decide) keys
  · exact flatten_chunks (by decide) keys

end Rows

end Keymap

namespace Keymap.Zmk

section Layers

variable {size : LayoutSize} {keys : List Document}

def IsText (d : Document) : Prop :=
  ∃ s, d = .text s

theorem exists_checkTexts (i : Nat) :
    (∃ texts, Document.checkTextsFrom i keys = .ok texts) ↔ ∀ key ∈ keys, IsText key := by
  induction keys generalizing i with
  | nil => exact ⟨fun _ _ hm => absurd hm List.not_mem_nil, fun _ => ⟨[], rfl⟩⟩
  | cons key keys ih =>
    rw [List.forall_mem_cons, ← ih (i + 1)]
    cases key with
    | text s =>
      rw [Document.checkTextsFrom, exists_bind_eq_ok]
      exact ⟨fun ⟨texts, h, _⟩ => ⟨⟨s, rfl⟩, texts, h⟩, fun ⟨_, texts, h⟩ => ⟨texts, h, _, rfl⟩⟩
    | null | flag _ | whole _ | decimal _ | list _ | record _ =>
      constructor
      · rintro ⟨_, ⟨⟩⟩
      · rintro ⟨⟨_, ⟨⟩⟩, -⟩

theorem exists_bindingsText : (∃ body, bindingsText size keys = .ok body) ↔ ∀ key ∈ keys, IsText key := by
  have rows : (∃ rows, (bindingRows size keys).mapM (Document.joinTexts " ") = .ok rows) ↔
      ∀ row ∈ bindingRows size keys, ∀ key ∈ row, IsText key := by
    rw [exists_mapM_eq_ok]
    refine forall₂_congr fun row _ => ?_
    rw [← exists_checkTexts 0]
    constructor
    · rintro ⟨text, h⟩
      obtain ⟨texts, h, -⟩ := map_eq_ok.mp h
      exact ⟨texts, h⟩
    · rintro ⟨texts, h⟩
      exact ⟨_, map_eq_ok.mpr ⟨texts, h, rfl⟩⟩
  rw [bindingsText, exists_bind_eq_ok]
  constructor
  · rintro ⟨texts, h, -⟩ key hm
    rw [← flatten_bindingRows size keys, List.mem_flatten] at hm
    obtain ⟨row, hr, hm⟩ := hm
    exact rows.mp ⟨texts, h⟩ row hr key hm
  · intro he
    obtain ⟨texts, h⟩ := rows.mpr fun row hr key hm => he key (mem_of_mem_bindingRows hr hm)
    exact ⟨texts, h, _, rfl⟩

theorem exists_layerNode {r : Replacements} {magic : Option MagicConfig} {layer : CompiledLayer} :
    (∃ text, layerNode size r magic layer = .ok text) ↔
      ∃ name outs, layer.name = .text name ∧ trainedKeys r magic name layer.keycodes = .ok outs ∧
        ∀ out ∈ outs, IsText out := by
  constructor
  · rintro ⟨text, hd⟩
    obtain ⟨name, outs, body, hn, ho, h, -⟩ := layerNode_eq_ok hd
    exact ⟨name, outs, hn, ho, exists_bindingsText.mp ⟨body, h⟩⟩
  · rintro ⟨name, outs, hn, ho, ht⟩
    obtain ⟨body, h⟩ : ∃ body, bindingsText size outs = .ok body := exists_bindingsText.mpr ht
    rw [layerNode, hn, exists_bind_eq_ok]
    refine ⟨name, rfl, ?_⟩
    rw [ho, ok_bind, h]
    exact ⟨_, rfl⟩

end Layers

section Files

variable {settings : Settings} {s : Source} {start : Progress} {table : BehaviorTable} {refs : MacroRefs}

theorem behaviorSections_eq : behaviorSections settings table refs s = do
    let magic ← magicPart settings table refs s
    let training ← magicTrainingPart settings table refs s
    let combo ← comboTrainingPart settings table s
    let morphs ← morphPart settings s
    return (magic ++ training.1 ++ combo.1 ++ morphs, mergeReplacements training.2 combo.2) := by
  unfold behaviorSections magicPart magicTrainingPart comboTrainingPart morphPart
  dsimp only
  have h : ∀ {γ δ : Type} (x : Result γ) (f : γ → δ) , x.map f = x >>= fun a => pure (f a) := by
    intro γ δ x f
    cases x <;> rfl
  split <;> split <;> split <;> split <;> simp only [h, bind_assoc, pure_bind]

def Generates (settings : Settings) (s : Source) (start : Progress) : Prop :=
  ∃ text, ((keymapFile settings s).run.run start).1 = .ok text

def MacrosDefined (keycodes : Entries) (s : Source) (start : Progress) : Prop :=
  ∃ comboMacros names magicMacros allNames,
    defineMacros keycodes start.macros (comboRequests s.combos) = (.ok comboMacros, names) ∧
    defineMacros keycodes names (magicRequests (s.magic.getD [])) = (.ok magicMacros, allNames)

theorem define_run {requests : List (Result MacroRequest)} {p : Progress} {texts names : List String}
    (h : defineMacros settings.keycodes p.macros requests = (.ok texts, names)) :
    (define settings requests).run.run p = (.ok texts, { p with macros := names }) := by
  refine run_bind_eq_ok.mpr ⟨p, p, rfl, ?_⟩
  rw [h]
  exact run_bind_eq_ok.mpr ⟨⟨⟩, _, rfl, rfl⟩

theorem generates_iff (noCombos : s.combos = []) : Generates settings s start ↔
    MacrosDefined settings.keycodes s start ∧ ∃ nodes, layerNodes settings s start = .ok nodes := by
  constructor
  · rintro ⟨text, h⟩
    obtain ⟨parts, -⟩ := keymapFile_parts h
    exact ⟨⟨_, _, _, _, parts.isComboMacros, parts.isMagicMacros⟩, _, parts.layerNodes_eq⟩
  · rintro ⟨⟨comboMacros, names, magicMacros, allNames, hc, hm⟩, nodes, h⟩
    obtain ⟨sections, hs, hl⟩ := bind_eq_ok.mp h
    have run : ∃ text after, (keymapFile settings s).run.run start = (.ok text, after) := by
      unfold keymapFile
      extract_lets size shield rest
      have hn : ∃ text after, (rest "").run.run start = (.ok text, after) := by
        refine exists_run_bind.mpr ⟨comboMacros, _, define_run hc, ?_⟩
        have hw : (defineMagicMacros settings (s.magic.getD [])).run.run { start with macros := names } =
            (.ok (magicMacros, magicRefs (s.magic.getD [])), { start with macros := allNames }) :=
          run_bind_eq_ok.mpr ⟨magicMacros, _, define_run hm, run_pure_eq_ok.mpr ⟨rfl, rfl⟩⟩
        refine exists_run_bind.mpr ⟨_, _, hw, ?_⟩
        refine exists_run_bind.mpr ⟨homeRowSection settings.behaviors size, _, rfl, ?_⟩
        refine exists_run_bind.mpr ⟨_, _, rfl, ?_⟩
        refine exists_run_bind.mpr ⟨sections, _, run_liftM_eq_ok.mpr ⟨hs, rfl⟩, ?_⟩
        refine exists_run_bind.mpr ⟨nodes, _, run_liftM_eq_ok.mpr ⟨hl, rfl⟩, ?_⟩
        exact ⟨_, _, run_pure_eq_ok.mpr ⟨rfl, rfl⟩⟩
      rw [noCombos]
      exact hn
    obtain ⟨text, after, run⟩ := run
    exact ⟨text, by rw [run]⟩

end Files

end Keymap.Zmk
