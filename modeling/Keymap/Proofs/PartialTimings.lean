import Keymap.Proofs.ReadingOrder

namespace Keymap

variable {d part value : Document} {name : String}

def Document.Gives (d : Document) (name : Field) : Prop :=
  (d.get? name).isSome = true

theorem Document.getD_eq_getD_iff {name : Field} {a b : Document} :
    d.getD name a = d.getD name b ↔ d.Gives name ∨ a = b := by
  unfold Document.getD Document.Gives
  cases d.get? name with
  | none => simp
  | some value => simp

namespace Timing

def updated (t : Timing) (part : Document) : Timing where
  tappingTerm := part.getD "tapping_term_ms" t.tappingTerm
  quickTap := part.getD "quick_tap_ms" t.quickTap
  priorIdle := part.getD "require_prior_idle_ms" t.priorIdle
  flavor := part.getD "flavor" t.flavor

/-- After an update two timings are the same just if those of their fields are that it does not give. -/
theorem updated_eq_iff {t t' : Timing} : t.updated part = t'.updated part ↔
    (part.Gives "tapping_term_ms" ∨ t.tappingTerm = t'.tappingTerm) ∧
    (part.Gives "quick_tap_ms" ∨ t.quickTap = t'.quickTap) ∧
    (part.Gives "require_prior_idle_ms" ∨ t.priorIdle = t'.priorIdle) ∧
    (part.Gives "flavor" ∨ t.flavor = t'.flavor) := by
  simp only [updated, Timing.mk.injEq, Document.getD_eq_getD_iff]

theorem ofDocument_record (fields : Entries) :
    ofDocument (.record fields) = .ok (({} : Timing).updated (.record fields)) := rfl

theorem ofDocument_eq_ok {t : Timing} : ofDocument part = .ok t ↔
    (∃ fields, part = .record fields) ∧ t = ({} : Timing).updated part := by
  constructor
  · intro h
    cases part with
    | record fields => exact ⟨⟨fields, rfl⟩, (Except.ok.inj h).symm⟩
    | _ => cases h
  · rintro ⟨⟨fields, rfl⟩, rfl⟩
    exact ofDocument_record fields

end Timing

namespace Behaviors

abbrev standard : Behaviors := {}

def sectionOf (d : Document) (name : String) : Document :=
  d.getD name (.record [])

/-- A section can be read if the document can be asked for it and has a record in its place, or
nothing. -/
def Readable (d : Document) (name : String) : Prop :=
  d.has name = .ok false ∨ ∃ fields, d.get? name = some (.record fields)

variable {default t : Timing}

theorem sectionOf_of_lacks (hl : d.has name = .ok false) : sectionOf d name = .record [] := by
  cases d with
  | record fields =>
    have h : (Document.record fields).get? name = none := by
      simpa [Document.has_record] using hl
    rw [sectionOf, Document.getD, h]
    rfl
  | _ => rfl

theorem has_of_get? (h : d.get? name = some value) : d.has name = .ok true := by
  cases d with
  | record fields => rw [Document.has_record, h]; rfl
  | _ => cases h

theorem timingOf_eq_ok : timingOf d name default = .ok t ↔ (d.has name = .ok false ∧ t = default) ∨
    (∃ fields, d.get? name = some (.record fields)) ∧ t = ({} : Timing).updated (sectionOf d name) := by
  constructor
  · intro hd
    obtain ⟨there, ha, hd⟩ := bind_eq_ok.mp hd
    cases there with
    | false => exact .inl ⟨ha, (pure_eq_ok.mp hd).symm⟩
    | true =>
      obtain ⟨part, h, hd⟩ := bind_eq_ok.mp hd
      rw [Document.field_eq_ok] at h
      obtain ⟨⟨fields, rfl⟩, rfl⟩ := Timing.ofDocument_eq_ok.mp hd
      refine .inr ⟨⟨fields, h⟩, ?_⟩
      rw [sectionOf, Document.getD, h]
      rfl
  · rintro (⟨hl, rfl⟩ | ⟨⟨fields, h⟩, rfl⟩)
    · rw [timingOf, hl]
      rfl
    · have hr : d.field (.word name) = .ok (.record fields) := Document.field_eq_ok.mpr h
      rw [timingOf, has_of_get? h, ok_bind, if_pos rfl, hr, sectionOf, Document.getD, h]
      rfl

theorem exists_timingOf_iff : (∃ t, timingOf d name default = .ok t) ↔ Readable d name := by
  constructor
  · rintro ⟨t, hd⟩
    rcases timingOf_eq_ok.mp hd with ⟨hl, -⟩ | ⟨h, -⟩
    · exact .inl hl
    · exact .inr h
  · rintro (hl | h)
    · exact ⟨default, timingOf_eq_ok.mpr (.inl ⟨hl, rfl⟩)⟩
    · exact ⟨_, timingOf_eq_ok.mpr (.inr ⟨h, rfl⟩)⟩

/-- The merge law for one behaviour: it holds if the section is missing, and otherwise if the section
gives every field in which the behaviour's defaults are not the general ones. -/
theorem timingOf_eq_updated_iff (hd : timingOf d name default = .ok t) :
    t = default.updated (sectionOf d name) ↔
      (d.Gives name → ({} : Timing).updated (sectionOf d name) = default.updated (sectionOf d name)) := by
  rcases timingOf_eq_ok.mp hd with ⟨hl, rfl⟩ | ⟨⟨fields, hf⟩, rfl⟩
  · have hn : ¬ d.Gives name := by
      intro h
      obtain ⟨value, hf⟩ := Option.isSome_iff_exists.mp h
      rw [has_of_get? hf] at hl
      cases hl
    rw [sectionOf_of_lacks hl]
    exact ⟨fun _ h => absurd h hn, fun _ => rfl⟩
  · have h : d.Gives name := by
      rw [Document.Gives, hf]
      rfl
    exact ⟨fun hs _ => hs, fun hs => hs h⟩

theorem ofDocument_eq_ok {b : Behaviors} : ofDocument d = .ok b ↔
    timingOf d "home_row_mods" standard.homeRowMods = .ok b.homeRowMods ∧
    timingOf d "layer_tap" standard.layerTap = .ok b.layerTap ∧
    timingOf d "mod_tap" standard.modTap = .ok b.modTap := by
  obtain ⟨homeRowMods, layerTap, modTap⟩ := b
  simp only [ofDocument, bind_eq_ok, pure_eq_ok, Behaviors.mk.injEq]
  constructor
  · rintro ⟨_, h, _, hl, _, mod, rfl, rfl, rfl⟩
    exact ⟨h, hl, mod⟩
  · rintro ⟨h, hl, mod⟩
    exact ⟨_, h, _, hl, _, mod, rfl, rfl, rfl⟩

theorem exists_ofDocument_iff : (∃ b, ofDocument d = .ok b) ↔
    Readable d "home_row_mods" ∧ Readable d "layer_tap" ∧ Readable d "mod_tap" := by
  constructor
  · rintro ⟨b, hd⟩
    obtain ⟨h, hl, mod⟩ := ofDocument_eq_ok.mp hd
    exact ⟨exists_timingOf_iff.mp ⟨_, h⟩, exists_timingOf_iff.mp ⟨_, hl⟩, exists_timingOf_iff.mp ⟨_, mod⟩⟩
  · rintro ⟨h, hl, mod⟩
    obtain ⟨homeRowMods, h⟩ := exists_timingOf_iff.mpr h
    obtain ⟨layerTap, hl⟩ := exists_timingOf_iff.mpr hl
    obtain ⟨modTap, mod⟩ := exists_timingOf_iff.mpr mod
    exact ⟨⟨homeRowMods, layerTap, modTap⟩, ofDocument_eq_ok.mpr ⟨h, hl, mod⟩⟩

/-- A document is read just if each of its three sections can be. Then a layer-tap section changes only
what it gives; a section of home-row mods does so just if it is missing or gives its tapping term and its
idle time, and a mod-tap section just if it is missing or gives its flavor. -/
theorem sections_change_only_given_iff (d : Document) : ((∃ b, ofDocument d = .ok b) ↔
      Readable d "home_row_mods" ∧ Readable d "layer_tap" ∧ Readable d "mod_tap") ∧ ∀ b, ofDocument d = .ok b →
      (b.homeRowMods = standard.homeRowMods.updated (sectionOf d "home_row_mods") ↔
        (d.Gives "home_row_mods" → (sectionOf d "home_row_mods").Gives "tapping_term_ms" ∧
          (sectionOf d "home_row_mods").Gives "require_prior_idle_ms")) ∧
      b.layerTap = standard.layerTap.updated (sectionOf d "layer_tap") ∧
      (b.modTap = standard.modTap.updated (sectionOf d "mod_tap") ↔
        (d.Gives "mod_tap" → (sectionOf d "mod_tap").Gives "flavor")) := by
  refine ⟨exists_ofDocument_iff, fun b done => ?_⟩
  obtain ⟨home, layer, mod⟩ := ofDocument_eq_ok.mp done
  refine ⟨?_, ?_, ?_⟩
  · rw [timingOf_eq_updated_iff home, Timing.updated_eq_iff]
    simp
  · exact (timingOf_eq_updated_iff layer).mpr fun _ => rfl
  · rw [timingOf_eq_updated_iff mod, Timing.updated_eq_iff]
    simp

def quickHomeRow : Document :=
  .record [("home_row_mods", .record [("quick_tap_ms", .whole 100)]),
    ("mod_tap", .record [("tapping_term_ms", .whole 180), ("flavor", "tap-preferred")])]

/-- A section that gives only its quick tap takes 80 ms from the tapping term of home-row mods. -/
theorem quickHomeRow_loses_tappingTerm : ∃ b, ofDocument quickHomeRow = .ok b ∧
    b.homeRowMods.tappingTerm = .whole 200 ∧ standard.homeRowMods.tappingTerm = .whole 280 ∧
    b.homeRowMods ≠ standard.homeRowMods.updated (sectionOf quickHomeRow "home_row_mods") ∧
    b.modTap = standard.modTap.updated (sectionOf quickHomeRow "mod_tap") := by
  obtain ⟨accepted, merged⟩ := sections_change_only_given_iff quickHomeRow
  have readable : Readable quickHomeRow "home_row_mods" ∧ Readable quickHomeRow "layer_tap" ∧
      Readable quickHomeRow "mod_tap" := ⟨.inr ⟨_, rfl⟩, .inl rfl, .inr ⟨_, rfl⟩⟩
  obtain ⟨b, read⟩ := accepted.mpr readable
  obtain ⟨home, -, mod⟩ := merged b read
  obtain rfl := Except.ok.inj read
  refine ⟨_, read, rfl, rfl, ?_, mod.mpr fun _ => rfl⟩
  intro same
  cases (home.mp same rfl).1

end Behaviors

end Keymap
