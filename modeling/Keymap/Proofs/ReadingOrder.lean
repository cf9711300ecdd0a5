import Keymap.Proofs.Outcome
import Keymap.Reading.Session

namespace Keymap

namespace Document

variable {d : Document} {name : String}

theorem asWordsItems_eq_map (items : List Document) : asWordsItems items = items.map asWords := by
  induction items with
  | nil => rfl
  | cons d ds ih => rw [asWordsItems, ih, List.map_cons]

theorem asWordsEntries_eq_map (entries : Entries) :
    asWordsEntries entries = entries.map fun e => (e.1, e.2.asWords) := by
  induction entries with
  | nil => rfl
  | cons e es ih => rw [asWordsEntries, ih, List.map_cons]

mutual

theorem asWords_eq_self_iff : (d : Document) → (d.asWords = d ↔ d.hasFlag = false)
  | .null | .whole _ | .decimal _ | .text _ => by simp [asWords, hasFlag]
  | .flag b => by simp [asWords, hasFlag]
  | .list items => by simpa [asWords, hasFlag] using asWordsItems_eq_self_iff items
  | .record entries => by simpa [asWords, hasFlag] using asWordsEntries_eq_self_iff entries

theorem asWordsItems_eq_self_iff :
    (items : List Document) → (asWordsItems items = items ↔ hasFlagItem items = false)
  | [] => by simp [asWordsItems, hasFlagItem]
  | d :: ds => by
    simp [asWordsItems, hasFlagItem, asWords_eq_self_iff d, asWordsItems_eq_self_iff ds]

theorem asWordsEntries_eq_self_iff :
    (entries : Entries) → (asWordsEntries entries = entries ↔ hasFlagEntry entries = false)
  | [] => by simp [asWordsEntries, hasFlagEntry]
  | (f, d) :: es => by
    simp [asWordsEntries, hasFlagEntry, asWords_eq_self_iff d, asWordsEntries_eq_self_iff es]

end

theorem get?_asWords (d : Document) (name : Field) : d.asWords.get? name = (d.get? name).map asWords := by
  cases d with
  | record entries =>
    change (asWordsEntries entries).lookup name = (entries.lookup name).map asWords
    induction entries with
    | nil => rfl
    | cons e es ih =>
      rw [asWordsEntries, List.lookup_cons, List.lookup_cons, ih]
      cases name == e.1 <;> rfl
  | _ => rfl

def Unflagged (d : Document) (name : Field) : Prop :=
  ∀ value, d.get? name = some value → value.hasFlag = false

theorem unflagged_of_hasFlag (hp : d.hasFlag = false) (name : Field) : d.Unflagged name := by
  intro value hf
  have h := get?_asWords d name
  rw [(asWords_eq_self_iff d).mpr hp, hf, Option.map_some] at h
  exact (asWords_eq_self_iff value).mp (Option.some.inj h).symm

theorem made_getD_asWords_iff {α : Type} {make : Document → α} {name : Field} {default : Document}
    (h : ∀ value, make value.asWords = make value ↔ value.hasFlag = false) :
    make (d.asWords.getD name default) = make (d.getD name default) ↔ d.Unflagged name := by
  rw [getD, getD, get?_asWords, Unflagged]
  cases d.get? name with
  | none => simp
  | some value => simp [h]

theorem getD_asWords_iff {name : Field} {default : Document} :
    d.asWords.getD name default = d.getD name default ↔ d.Unflagged name :=
  @made_getD_asWords_iff d Document id name default asWords_eq_self_iff

theorem isPresent_asWords (h : d ≠ .flag false) : d.asWords.isPresent = d.isPresent := by
  cases d with
  | flag b => cases b with
    | false => exact absurd rfl h
    | true => rfl
  | list items => simp [asWords, asWordsItems_eq_map, isPresent]
  | record entries => simp [asWords, asWordsEntries_eq_map, isPresent]
  | _ => rfl

theorem same_asWords_text (d : Document) (hn : name ≠ "true") (h : name ≠ "false") :
    d.asWords.same (.text name) = d.same (.text name) := by
  cases d with
  | flag b => cases b with
    | false => exact beq_false_of_ne h
    | true => exact beq_false_of_ne hn
  | list items => simp [asWords, same]
  | record entries => simp [asWords, same]
  | _ => rfl

theorem has_asWords {found : Bool} (notTrue : name ≠ "true") (hn : name ≠ "false")
    (h : d.has name = .ok found) : d.asWords.has name = .ok found := by
  rw [← h]
  cases d with
  | list items =>
    simp [asWords, has, holds, asWordsItems_eq_map, same_asWords_text _ notTrue hn, Function.comp_def]
  | record entries =>
    have hs := congrArg Option.isSome (get?_asWords (.record entries) (.word name))
    rw [Option.isSome_map] at hs
    exact congrArg Except.ok hs
  | flag b => cases h
  | _ => rfl

theorem has_record (entries : Entries) (name : String) :
    (record entries).has name = .ok ((record entries).get? name).isSome := rfl

theorem findD_record (entries : Entries) (name : Field) (default : Document) :
    (record entries).findD name default = .ok ((record entries).getD name default) := rfl

theorem find_record (entries : Entries) (name : Field) :
    (record entries).find name = .ok ((record entries).get? name) := rfl

theorem field_eq_ok {value : Document} : d.field (.word name) = .ok value ↔ d.get? name = some value := by
  cases d with
  | record entries => cases h : entries.lookup (.word name) <;> simp [field, get?, h]
  | _ => simp [field, get?]

end Document

namespace Reading

open Document

variable {α : Type} {name : String} {clear : Document → Prop} {d : Document} {read : Document → Result α}
  {id base : Field} {as : List α} {c : Combo} {message : String}

theorem required_eq_ok {message : String → String} {names : List String} :
    (forIn names PUnit.unit fun name _ => d.has name >>= fun found => if (!found) = true then
        (invalid (message name) : Result PUnit) >>= fun _ => pure (ForInStep.yield PUnit.unit)
      else pure (ForInStep.yield PUnit.unit)) = .ok PUnit.unit ↔
    ∀ name ∈ names, d.has name = .ok true := by
  induction names with
  | nil => simp [ok_pure]
  | cons name names ih =>
    rw [List.forIn_cons, List.forall_mem_cons, ← ih]
    rcases d.has name with fault | found
    · simp [Bind.bind, Except.bind]
    · cases found <;> simp [invalid, Bind.bind, Except.bind, ok_pure]

def comboOf (d : Document) : Combo where
  name := d.getD "name"
  description := d.getD "description"
  positions := d.getD "key_positions"
  action := d.getD "action"
  macroText := d.getD "macro_text"
  timeout := d.getD "timeout_ms" (.whole 50)
  priorIdle := d.getD "require_prior_idle_ms"
  layers := d.getD "layers"
  slowRelease := d.getD "slow_release" (.flag false)
  hold := d.getD "hold_ms"
  training := d.getD "training" (.flag false)

theorem comboOfFields_eq_ok : Combo.ofFields d = .ok c ↔
      (∀ name ∈ Combo.required, (d.get? name).isSome) ∧ c = comboOf d := by
  cases d with
  | record entries =>
    simp only [Combo.ofFields, bind_eq_ok, pure_eq_ok, field_eq_ok, findD_record, Combo.required,
      List.forall_mem_cons, Option.isSome_iff_exists, comboOf, getD]
    constructor
    · rintro ⟨_, name, _, hd, _, hp, _, h, hr⟩
      simp_all
    · rintro ⟨⟨⟨_, name⟩, ⟨_, hd⟩, ⟨_, hp⟩, ⟨_, h⟩, -⟩, rfl⟩
      simp [name, hd, hp, h]
  | _ =>
    constructor
    · rintro ⟨⟩
    · rintro ⟨hf, -⟩
      cases hf "name" List.mem_cons_self

theorem has_of_get? (h : (d.get? name).isSome) : d.has name = .ok true := by
  cases d with
  | record entries => exact congrArg Except.ok h
  | _ => cases h

theorem combo_eq_ok : combo d = .ok c ↔ (∀ name ∈ Combo.required, (d.get? name).isSome) ∧ c = comboOf d ∧
      c.validate = .ok () := by
  simp only [combo, bind_eq_ok, pure_eq_ok, comboOfFields_eq_ok]
  constructor
  · rintro ⟨-, -, _, ⟨h, rfl⟩, ⟨⟩, hv, rfl⟩
    exact ⟨h, rfl, hv⟩
  · rintro ⟨h, rfl, hv⟩
    exact ⟨_, required_eq_ok.mpr fun name hm => has_of_get? (h name hm), _, ⟨h, rfl⟩, _, hv, rfl⟩

/-- A reader that takes a document in the same way, once its truth values are words, exactly if the
document is clear. -/
def Sees {α : Type} (read : Document → Result α) (clear : Document → Prop) : Prop :=
  ∀ ⦃d : Document⦄ ⦃a : α⦄, read d = .ok a → (read d.asWords = .ok a ↔ clear d)

theorem mapM_eq_ok_iff {β : Type} {f g : α → Result β} {clear : α → Prop} {xs : List α} {ys : List β}
    (he : ∀ x y, f x = .ok y → (g x = .ok y ↔ clear x)) (h : xs.mapM f = .ok ys) :
    xs.mapM g = .ok ys ↔ ∀ x ∈ xs, clear x := by
  rw [mapM_eq_ok] at h ⊢
  induction h with
  | nil => simp
  | cons hh _ ih => rw [List.forall₂_cons, List.forall_mem_cons, he _ _ hh, ih]

theorem Sees.items (hs : Sees read clear) {items : List Document} (h : items.mapM read = .ok as) :
    (asWordsItems items).mapM read = .ok as ↔ ∀ d ∈ items, clear d := by
  rw [asWordsItems_eq_map, List.mapM_map]
  exact mapM_eq_ok_iff (fun d a hf => hs hf) h

theorem Sees.entries {read : Field → Document → Result α} (hs : ∀ name, Sees (read name) clear)
    {entries : Entries} (h : (entries.mapM fun e => read e.1 e.2) = .ok as) :
    ((asWordsEntries entries).mapM fun e => read e.1 e.2) = .ok as ↔ ∀ e ∈ entries, clear e.2 := by
  rw [asWordsEntries_eq_map, List.mapM_map]
  exact mapM_eq_ok_iff (fun e a hf => hs e.1 hf) h

def comboFields : List Field :=
  ["name", "description", "key_positions", "action", "macro_text", "timeout_ms",
   "require_prior_idle_ms", "layers", "slow_release", "hold_ms", "training"]

def Clear (fields : List Field) (d : Document) : Prop :=
  ∀ name ∈ fields, d.Unflagged name

theorem sees_of_fields {needed : List String} {build : Document → α} {valid : α → Prop}
    (h : ∀ d a, read d = .ok a ↔ (∀ name ∈ needed, (d.get? name).isSome) ∧ a = build d ∧ valid a)
    (hs : ∀ d, build d.asWords = build d ↔ clear d) : Sees read clear := by
  intro d a hd
  obtain ⟨hf, rfl, hh⟩ := (h d a).mp hd
  rw [h, eq_comm (a := build d), hs]
  simp only [get?_asWords, Option.isSome_map]
  exact ⟨fun ha => ha.2.1, fun clear => ⟨hf, clear, hh⟩⟩

theorem sees_combo : Sees combo (Clear comboFields) :=
  sees_of_fields (fun _ _ => combo_eq_ok) fun _ => by simp [comboOf, getD_asWords_iff, Clear, comboFields]

def Lacking (d : Document) (name : String) : Prop :=
  d.isPresent = false ∨ d.has name = .ok false

theorem Lacking.asWords (hl : Lacking d name) (notTrue : name ≠ "true")
    (h : Text.contains "false" name = false) : Lacking d.asWords name := by
  have hn : name ≠ "false" := by
    rintro rfl
    exact absurd h (by decide)
  rcases hl with ha | hw
  · by_cases off : d = .flag false
    · exact .inr (by rw [off]; exact congrArg Except.ok h)
    · exact .inl (isPresent_asWords off ▸ ha)
  · exact .inr (has_asWords notTrue hn hw)

theorem Lacking.get? (hl : Lacking d name) : d.get? name = none := by
  cases d with
  | record entries =>
    rcases hl with h | hw
    · have he : entries = [] := by simpa [isPresent] using h
      rw [he]
      rfl
    · exact Option.isNone_iff_eq_none.mp (by simpa [has_record] using hw)
  | _ => rfl

theorem has_eq_ok_true_of_get? {value : Document} (h : d.get? name = some value) :
    d.isPresent ∧ d.has name = .ok true := by
  refine ⟨?_, has_of_get? (h ▸ rfl)⟩
  cases d with
  | record entries => cases entries with
    | nil => cases h
    | cons e es => rfl
  | _ => cases h

def sectionIfPresent {α : Type} (name : String) (none : α) (read : Document → Result α) (d : Document) :
    Result α := do
  if !d.isPresent then return none
  if !(← d.has name) then return none
  read (← d.field name)

theorem sectionIfPresent_eq_ok {none a : α} : sectionIfPresent name none read d = .ok a ↔
      (Lacking d name ∧ a = none) ∨ ∃ value, d.get? name = some value ∧ read value = .ok a := by
  unfold sectionIfPresent
  constructor
  · intro h
    split at h
    · rename_i ha
      exact .inl ⟨.inl (by simpa using ha), (pure_eq_ok.mp h).symm⟩
    · obtain ⟨found, hak, h⟩ := bind_eq_ok.mp h
      cases found with
      | false => exact .inl ⟨.inr hak, (pure_eq_ok.mp h).symm⟩
      | true =>
        obtain ⟨value, found, h⟩ := bind_eq_ok.mp h
        exact .inr ⟨value, field_eq_ok.mp found, h⟩
  · rintro (⟨ha | hw, rfl⟩ | ⟨value, found, h⟩)
    · rw [ha]
      rfl
    · split
      · rfl
      · rw [hw]
        rfl
    · obtain ⟨hp, has⟩ := has_eq_ok_true_of_get? found
      rw [hp, has, field_eq_ok.mpr found]
      exact h

theorem Sees.sectionIfPresent (sees : Sees read clear) (name : String) (none : α) (hn : name ≠ "true")
    (ha : Text.contains "false" name = false) :
    Sees (Reading.sectionIfPresent name none read) fun d =>
      ∀ value, d.get? name = some value → clear value := by
  intro d a hd
  rcases sectionIfPresent_eq_ok.mp hd with ⟨hl, rfl⟩ | ⟨value, hf, hd⟩
  · refine iff_of_true (sectionIfPresent_eq_ok.mpr (.inl ⟨hl.asWords hn ha, rfl⟩)) ?_
    intro value hf
    cases hl.get?.symm.trans hf
  · have ht : d.asWords.get? name = some value.asWords := by
      rw [get?_asWords, hf, Option.map_some]
    simp only [hf, Option.some.injEq, forall_eq', ← sees hd]
    constructor
    · intro h
      rcases sectionIfPresent_eq_ok.mp h with ⟨hl, -⟩ | ⟨_, hs, h⟩
      · cases hl.get?.symm.trans ht
      · rw [Option.some.inj (ht.symm.trans hs)]
        exact h
    · exact fun h => sectionIfPresent_eq_ok.mpr (.inr ⟨_, ht, h⟩)

def comboList (value : Document) : Result (List Combo) :=
  match value with
  | .list items => do
    let combos ← items.mapM combo
    Combos.validate combos
    return combos
  | _ => invalid "'combos' must be a list"

theorem sees_comboList : Sees comboList fun value => ∀ items, value = .list items →
    ∀ item ∈ items, Clear comboFields item := by
  intro value cs h
  cases value with
  | list items =>
    simp only [comboList, asWords, bind_eq_ok, pure_eq_ok] at h ⊢
    obtain ⟨_, read, _, hv, rfl⟩ := h
    simpa [hv] using sees_combo.items read
  | _ => cases h

def defaultOf (d : Document) : Document :=
  match d.getD "default" with
  | .null => if (d.getD "default_repeat" (.flag true)).isPresent then "REPEAT" else "NONE"
  | value => value

theorem magicDefault_record (entries : Entries) :
    magicDefault (.record entries) = .ok (defaultOf (.record entries)) := by
  simp only [magicDefault, findD_record, find_record, ok_bind, defaultOf]
  cases (record entries).getD "default" with
  | null =>
    rw [getD]
    cases (record entries).get? "default_repeat" <;> rfl
  | _ => rfl

theorem repeatOf_asWords_iff : (d.asWords.getD "default_repeat" (.flag true)).isPresent =
        (d.getD "default_repeat" (.flag true)).isPresent ↔ d.get? "default_repeat" ≠ some (.flag false) := by
  rw [getD, getD, get?_asWords]
  cases d.get? "default_repeat" with
  | none => simp
  | some value =>
    by_cases off : value = .flag false
    · simp [off, asWords, isPresent]
    · simpa [off] using isPresent_asWords off

theorem defaultOf_asWords_iff : defaultOf d.asWords = defaultOf d ↔ d.Unflagged "default" ∧
      (d.getD "default" = .null → d.get? "default_repeat" ≠ some (.flag false)) := by
  have h : d.asWords.getD "default" = (d.getD "default").asWords := by
    rw [getD, getD, get?_asWords]
    cases d.get? "default" <;> rfl
  rw [defaultOf, defaultOf, ← getD_asWords_iff, h]
  cases d.getD "default" with
  | null =>
    simp only [asWords, true_and, forall_const, ← repeatOf_asWords_iff]
    cases (d.asWords.getD "default_repeat" (.flag true)).isPresent <;>
      cases (d.getD "default_repeat" (.flag true)).isPresent <;> simp
  | _ => simp [asWords]

def magicOf (base : Field) (d : Document) : MagicMapping where
  baseLayer := base.toDocument
  timeout := d.getD "timeout_ms" (.whole 150)
  mappings := d.getD "mappings" (.record [])
  default := defaultOf d

theorem magicMapping_eq_ok {m : MagicMapping} :
    magicMapping base d = .ok m ↔ (∀ name ∈ ["mappings"], (d.get? name).isSome) ∧
      m = magicOf base d ∧ m.validate = .ok () := by
  rw [List.forall_mem_singleton, magicMapping]
  cases d with
  | record entries =>
    simp only [has_record, ok_bind, magicDefault_record, findD_record, check_eq_ok, bind_eq_ok, pure_eq_ok]
    constructor
    · rintro ⟨ht, _, hv, rfl⟩
      exact ⟨by simpa [Option.isSome_iff_ne_none] using ht, rfl, hv⟩
    · rintro ⟨ht, rfl, hv⟩
      exact ⟨by simpa [Option.isSome_iff_ne_none] using ht, _, hv, rfl⟩
  | _ =>
    constructor
    · intro h
      obtain ⟨found, ha, h⟩ := bind_eq_ok.mp h
      cases (check_eq_ok.mp h).2
    · rintro ⟨⟨⟩, -⟩

/-- What changes in the magic key of a base layer if truth values become words: nothing in a clear
record. -/
def MagicClear (d : Document) : Prop :=
  d.Unflagged "timeout_ms" ∧ d.Unflagged "mappings" ∧ d.Unflagged "default" ∧
    (d.getD "default" = .null → d.get? "default_repeat" ≠ some (.flag false))

theorem sees_magicMapping (base : Field) : Sees (magicMapping base) MagicClear :=
  sees_of_fields (fun _ _ => magicMapping_eq_ok) fun _ => by
    simp [magicOf, getD_asWords_iff, defaultOf_asWords_iff, MagicClear]

def magicTable (value : Document) : Result MagicConfig :=
  match value with
  | .record entries => do
    let config ← entries.mapM fun (base, m) => magicMapping base m
    MagicConfig.validate config
    return config
  | _ => invalid "'magic_keys' must be a dictionary mapping base layers to configurations"

theorem sees_magicTable : Sees magicTable fun value => ∀ entries, value = .record entries →
    ∀ e ∈ entries, MagicClear e.2 := by
  intro value config h
  cases value with
  | record entries =>
    simp only [magicTable, asWords, bind_eq_ok, pure_eq_ok] at h ⊢
    obtain ⟨_, read, _, hv, rfl⟩ := h
    simpa [hv] using Sees.entries sees_magicMapping read
  | _ => cases h

def aliasOf (name : Field) (d : Document) : Alias where
  name := name
  description := d.getD "description"
  params := d.getD "params"
  qmkPattern := d.getD "qmk_pattern"
  zmkPattern := d.getD "zmk_pattern"
  support := d.getD "firmware_support" (.list ["qmk", "zmk"])

def aliasNeeds : List String :=
  ["description", "qmk_pattern", "zmk_pattern", "params"]

theorem aliasRule_eq_ok {name : Field} {rule : Alias} :
    aliasRule name d = .ok rule ↔ (∀ field ∈ aliasNeeds, (d.get? field).isSome) ∧
      rule = aliasOf name d ∧ True := by
  rw [aliasRule, bind_eq_ok]
  cases d with
  | record entries =>
    constructor
    · rintro ⟨⟨⟩, hl, hdn⟩
      have h := required_eq_ok.mp hl
      simp only [has_record, Except.ok.injEq] at h
      simp only [bind_eq_ok, pure_eq_ok, field_eq_ok, findD_record, Except.ok.injEq, exists_eq_left'] at hdn
      obtain ⟨_, hd, _, hp, _, qmk, _, zmk, rfl⟩ := hdn
      exact ⟨h, by simp [aliasOf, getD, hd, hp, qmk, zmk], trivial⟩
    · rintro ⟨h, rfl, -⟩
      refine ⟨_, required_eq_ok.mpr fun name hm => has_of_get? (h name hm), ?_⟩
      simp only [aliasNeeds, List.forall_mem_cons, Option.isSome_iff_exists] at h
      obtain ⟨⟨_, hd⟩, ⟨_, qmk⟩, ⟨_, zmk⟩, ⟨_, hp⟩, -⟩ := h
      simp [field_eq_ok.mpr hd, field_eq_ok.mpr hp, field_eq_ok.mpr qmk,
        field_eq_ok.mpr zmk, findD_record, ok_bind, aliasOf, getD, hd, hp, qmk, zmk]
  | _ =>
    constructor
    · rintro ⟨-, -, ⟨⟩⟩
    · rintro ⟨h, -⟩
      cases h "description" List.mem_cons_self

def aliasFields : List Field :=
  ["description", "params", "qmk_pattern", "zmk_pattern", "firmware_support"]

theorem sees_aliasRule (name : Field) : Sees (aliasRule name) (Clear aliasFields) :=
  sees_of_fields (fun _ _ => aliasRule_eq_ok) fun _ => by simp [aliasOf, getD_asWords_iff, Clear, aliasFields]

theorem requireSection_eq_ok {value : Document} :
    requireSection d name message = .ok value ↔ d.get? name = some value := by
  rw [requireSection, check_eq_ok, bind_eq_ok]
  constructor
  · rintro ⟨-, _, -, hd⟩
    exact field_eq_ok.mp (check_eq_ok.mp hd).2
  · intro h
    obtain ⟨hp, has⟩ := has_eq_ok_true_of_get? h
    exact ⟨by simp [hp], true, has, field_eq_ok.mpr h⟩

theorem sectionEntries_eq_ok {entries : Entries} :
    (requireSection d name message >>= Document.entries) = .ok entries ↔
      d.get? name = some (.record entries) := by
  simp only [bind_eq_ok, requireSection_eq_ok]
  constructor
  · rintro ⟨value, h, hr⟩
    cases value with
    | record _ =>
      cases hr
      exact h
    | _ => cases hr
  · exact fun h => ⟨_, h, rfl⟩

theorem sees_section (each : Entries → Result α)
    (hr : ∀ d a, read d = .ok a ↔ ∃ entries, d.get? name = some (.record entries) ∧ each entries = .ok a)
    (hs : ∀ entries a, each entries = .ok a → (each (asWordsEntries entries) = .ok a ↔ ∀ e ∈ entries, clear e.2)) :
    Sees read fun d => ∀ entries, d.get? name = some (.record entries) → ∀ e ∈ entries, clear e.2 := by
  intro d a h
  obtain ⟨entries, hf, h⟩ := (hr d a).mp h
  have ht : d.asWords.get? name = some (.record (asWordsEntries entries)) := by
    rw [get?_asWords, hf]
    rfl
  rw [hr, ht]
  simpa [hf] using hs entries a h

theorem sees_aliases : Sees aliases fun d => ∀ entries, d.get? "behaviors" = some (.record entries) →
    ∀ e ∈ entries, Clear aliasFields e.2 := by
  refine sees_section (List.mapM fun e => aliasRule e.1 e.2) (fun d rules => ?_)
    fun _ _ => Sees.entries sees_aliasRule
  rw [aliases, ← bind_assoc, bind_eq_ok]
  simp only [sectionEntries_eq_ok]

theorem firmware_asWords_iff : Firmware.ofDocument d.asWords = Firmware.ofDocument d ↔ d.hasFlag = false := by
  cases d with
  | flag b => cases b <;> simp [asWords, Firmware.ofDocument, hasFlag]
  | list items => simpa [asWords, Firmware.ofDocument, hasFlag] using asWordsItems_eq_self_iff items
  | record entries =>
    simpa [asWords, Firmware.ofDocument, hasFlag] using asWordsEntries_eq_self_iff entries
  | _ => simp [asWords, hasFlag]

theorem layoutSize_asWords_iff :
    LayoutSize.ofDocument d.asWords = LayoutSize.ofDocument d ↔ d.hasFlag = false := by
  cases d with
  | flag b => cases b <;> simp [asWords, LayoutSize.ofDocument, LayoutSize.ofText, Text.startsWith, hasFlag]
  | list items => simpa [asWords, LayoutSize.ofDocument, hasFlag] using asWordsItems_eq_self_iff items
  | record entries =>
    simpa [asWords, LayoutSize.ofDocument, hasFlag] using asWordsEntries_eq_self_iff entries
  | _ => simp [asWords, hasFlag]

def boardOf (id : Field) (d : Document) : Board where
  id := id.toDocument
  name := d.getD "name"
  firmware := .ofDocument (d.getD "firmware")
  layoutSize := .ofDocument (d.getD "layout_size" "3x5_3")
  extraLayers := d.getD "extra_layers" (.list [])
  keymapFile := d.getD "keymap_file"
  qmkKeyboard := d.getD "qmk_keyboard"
  zmkShield := d.getD "zmk_shield"
  zmkBoard := d.getD "zmk_board"

theorem board_eq_ok {b : Board} : board id d = .ok b ↔ (∀ field ∈ ["name", "firmware"], (d.get? field).isSome) ∧
      b = boardOf id d ∧ b.validate = .ok () := by
  cases d with
  | record entries =>
    simp only [board, has_record, ok_bind, check_eq_ok, findD_record, bind_eq_ok, pure_eq_ok,
      field_eq_ok, List.forall_mem_cons, Option.isSome_iff_exists]
    constructor
    · rintro ⟨-, -, _, name, _, h, _, hv, rfl⟩
      exact ⟨⟨⟨_, name⟩, ⟨_, h⟩, by simp⟩, by simp [boardOf, getD, name, h], hv⟩
    · rintro ⟨⟨⟨_, name⟩, ⟨_, h⟩, -⟩, rfl, hv⟩
      refine ⟨by simp [name], by simp [h], _, name, _, h, ?_⟩
      simp only [boardOf, getD, name, h, Option.getD_some] at hv ⊢
      exact ⟨_, hv, trivial⟩
  | _ =>
    constructor
    · intro hd
      obtain ⟨named, ha, hd⟩ := bind_eq_ok.mp hd
      obtain ⟨firm, ha, hd⟩ := bind_eq_ok.mp (check_eq_ok.mp hd).2
      cases (check_eq_ok.mp hd).2
    · rintro ⟨hf, -⟩
      cases hf "name" List.mem_cons_self

def boardFields : List Field :=
  ["name", "firmware", "layout_size", "extra_layers", "keymap_file", "qmk_keyboard", "zmk_shield",
   "zmk_board"]

theorem sees_board (id : Field) : Sees (board id) (Clear boardFields) :=
  sees_of_fields (fun _ _ => board_eq_ok) fun _ => by
    simp [boardOf, Clear, boardFields, getD_asWords_iff, made_getD_asWords_iff fun _ => firmware_asWords_iff,
      made_getD_asWords_iff fun _ => layoutSize_asWords_iff]

theorem sees_boards : Sees boards fun d => ∀ entries, d.get? "boards" = some (.record entries) →
    ∀ e ∈ entries, Clear boardFields e.2 := by
  refine sees_section (fun entries => do
    let inventory : Inventory := ⟨← entries.mapM fun e => board e.1 e.2⟩
    inventory.validate
    return inventory) (fun d inventory => ?_) fun entries inventory h => ?_
  · rw [boards, ← bind_assoc, bind_eq_ok]
    simp only [sectionEntries_eq_ok]
  · simp only [bind_eq_ok, pure_eq_ok] at h ⊢
    obtain ⟨_, read, _, hv, rfl⟩ := h
    simpa [hv] using Sees.entries sees_board read

theorem sees_keycodes : Sees (fun d => .ok (keycodes d)) fun d =>
    ∀ entries, d = .record entries → d.hasFlag = false := by
  intro d table h
  cases h
  cases d with
  | record entries => simpa [keycodes, asWords, hasFlag] using asWordsEntries_eq_self_iff entries
  | _ => simp [keycodes, asWords]

theorem sees_specialKeycodes : Sees specialKeycodes fun d =>
    ∀ value, d.get? "keycodes" = some value → value.hasFlag = false := by
  have hs : Sees (fun value => .ok value) fun value => value.hasFlag = false := by
    intro value _ h
    cases h
    rw [Except.ok.injEq, asWords_eq_self_iff]
  have hw : specialKeycodes = sectionIfPresent "keycodes" (.record []) fun value => .ok value := by
    funext d
    unfold specialKeycodes sectionIfPresent
    split
    · rfl
    · refine bind_congr fun found => ?_
      cases found with
      | false => rfl
      | true => exact (bind_pure _).symm
  exact hw ▸ hs.sectionIfPresent "keycodes" (.record []) (by decide) (by decide)

namespace Request

def isKeymap : Request → Bool
  | .keymap _ _ => true
  | _ => false

def isRowStagger : Request → Bool
  | .rowStagger _ => true
  | _ => false

/-- No truth value stands where the request reads. Keymaps are always read with words, and
`default_repeat` only counts if it says no and `default` says nothing. -/
def Clear : Request → Prop
  | .keymap _ _ => True
  | .boards d => ∀ entries, d.get? "boards" = some (.record entries) →
      ∀ e ∈ entries, Reading.Clear boardFields e.2
  | .aliases d => ∀ entries, d.get? "behaviors" = some (.record entries) →
      ∀ e ∈ entries, Reading.Clear aliasFields e.2
  | .combos d => ∀ items, d.get? "combos" = some (.list items) →
      ∀ item ∈ items, Reading.Clear comboFields item
  | .magic d => ∀ entries, d.get? "magic_keys" = some (.record entries) →
      ∀ e ∈ entries, MagicClear e.2
  | .specialKeycodes d => d.Unflagged "keycodes"
  | .keycodes d => ∀ entries, d = .record entries → d.hasFlag = false
  | .rowStagger d => d.hasFlag = false

theorem answer_words_iff_of_sees (sees : Sees read clear) (wrap : α → Answer)
    (inj : ∀ a b, wrap a = wrap b → a = b) (h : ∃ answer, (read d).map wrap = .ok answer) :
    (read d.asWords).map wrap = (read d).map wrap ↔ clear d := by
  obtain ⟨_, h⟩ := h
  obtain ⟨a, hd, rfl⟩ := map_eq_ok.mp h
  rw [← sees hd, h]
  constructor
  · intro hs
    obtain ⟨b, ha, hw⟩ := map_eq_ok.mp hs
    rw [ha, inj b a hw]
  · intro ha
    rw [ha]
    rfl

theorem answer_words_iff {r : Request} (hk : r.isRowStagger = false)
    (ha : ∃ answer, r.answer .flags = .ok answer) : r.answer .words = r.answer .flags ↔ r.Clear := by
  cases r with
  | keymap d overlay => simp [answer, Clear]
  | boards d => exact answer_words_iff_of_sees sees_boards .boards (by simp) ha
  | aliases d => exact answer_words_iff_of_sees sees_aliases .aliases (by simp) ha
  | combos d =>
    have hs := sees_comboList.sectionIfPresent "combos" [] (by decide) (by decide)
    refine (answer_words_iff_of_sees hs .combos (by simp) ha).trans ?_
    exact ⟨fun clear items h => clear _ h items rfl, fun clear _ h items hl => clear items (hl ▸ h)⟩
  | magic d =>
    have hs := sees_magicTable.sectionIfPresent "magic_keys" [] (by decide) (by decide)
    refine (answer_words_iff_of_sees hs .magic (by simp) ha).trans ?_
    exact ⟨fun clear entries h => clear _ h entries rfl, fun clear _ h entries hr => clear entries (hr ▸ h)⟩
  | specialKeycodes d => exact answer_words_iff_of_sees sees_specialKeycodes .keycodes (by simp) ha
  | keycodes d => exact answer_words_iff_of_sees sees_keycodes .keycodes (by simp) ha
  | rowStagger d => cases hk

end Request

theorem next_eq (mode : ReadingMode) (r : Request) :
    r.next mode = if r.isKeymap then .words else mode := by
  cases r <;> rfl

theorem session_words (rs : List Request) : session .words rs = rs.map (Request.answer .words) := by
  induction rs with
  | nil => rfl
  | cons r rs ih =>
    have h : r.next .words = .words := by cases r <;> rfl
    rw [session, h, ih, List.map_cons]

theorem alone_eq_map (rs : List Request) :
    (rs.flatMap fun r => session .flags [r]) = rs.map (Request.answer .flags) := by
  induction rs with
  | nil => rfl
  | cons r rs ih => rw [List.flatMap_cons, ih, List.map_cons, session, session, List.singleton_append]

theorem session_eq_iff (rs : List Request) : session .flags rs = rs.map (Request.answer .flags) ↔
      rs.Pairwise fun first later =>
        first.isKeymap → later.answer .words = later.answer .flags := by
  induction rs with
  | nil => simp [session]
  | cons r rs ih =>
    rw [session, List.map_cons, List.cons.injEq, List.pairwise_cons, next_eq]
    cases r.isKeymap with
    | false => simpa using ih
    | true =>
      simp only [if_true, session_words, List.map_inj_left, true_and, forall_const]
      refine ⟨fun hs => ⟨hs, ?_⟩, fun h => h.1⟩
      exact List.pairwise_of_forall_mem_list fun _ _ later hm _ => hs later hm

/-- Reading one file after another gives what reading each alone gives exactly if nothing that is read
after a keymap depends on the mode; if all are accepted alone, exactly if no truth value stands in a
field that is read after a keymap. -/
theorem answers_alone_iff (rs : List Request) :
    (session .flags rs = (rs.flatMap fun r => session .flags [r]) ↔ rs.Pairwise fun first later =>
        first.isKeymap = true → later.answer .words = later.answer .flags) ∧
    ((∀ r ∈ rs, r.isRowStagger = false ∧ ∃ answer, r.answer .flags = .ok answer) →
      (session .flags rs = (rs.flatMap fun r => session .flags [r]) ↔
        rs.Pairwise fun first later => first.isKeymap = true → later.Clear)) := by
  rw [alone_eq_map, session_eq_iff]
  refine ⟨Iff.rfl, fun accepted => ?_⟩
  refine List.Pairwise.iff_of_mem fun {first later} _ member => ?_
  rw [Request.answer_words_iff (accepted later member).1 (accepted later member).2]

def slowCombo (slow : Document) : List Request :=
  [.keymap (.record [("layers", .record [("BASE", .record [("full_layout", .list ["A"])])])]) none,
   .combos (.record [("combos", .list [.record [("name", "esc"), ("description", "Escape"),
     ("key_positions", .list [.whole 1, .whole 2]), ("action", "ESC"), ("slow_release", slow)]])])]

theorem slowCombo_answers : session .flags (slowCombo (.flag false)) ≠
        ((slowCombo (.flag false)).flatMap fun r => session .flags [r]) ∧
      session .flags (slowCombo (.whole 0)) = ((slowCombo (.whole 0)).flatMap fun r => session .flags [r]) := by
  have accepted (slow : Document) : ∀ r ∈ slowCombo slow,
      r.isRowStagger = false ∧ ∃ answer, r.answer .flags = .ok answer := by
    simp only [slowCombo, List.forall_mem_cons]
    exact ⟨⟨rfl, exists_eq_ok (by decide +kernel)⟩, ⟨rfl, exists_eq_ok (by rfl)⟩, by simp⟩
  rw [ne_eq, (answers_alone_iff _).2 (accepted _), (answers_alone_iff _).2 (accepted _)]
  constructor
  · intro clear
    have slow := (List.pairwise_cons.mp clear).1 _ List.mem_cons_self rfl _ rfl _ List.mem_cons_self
      "slow_release" (by simp [comboFields]) _ rfl
    cases slow
  · refine List.pairwise_pair.mpr fun _ items found item member => ?_
    cases found
    cases List.mem_singleton.mp member
    exact fun name _ => unflagged_of_hasFlag rfl name

end Reading

end Keymap
