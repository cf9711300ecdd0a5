import Keymap.OneShot
import Keymap.Proofs.Outcome

namespace Keymap

open List

variable {code : String}

variable {layer : Layer} {d : Document} {kind place : Field} {entries : Entries} {old new : KeyGrid}
  {keys : Document}

inductive Layer.HasKey (layer : Layer) (code : String) : Prop
  | core {grid : KeyGrid} {row : List Entry} (isCore : layer.core = some grid)
      (inGrid : row ∈ grid.rows) (inRow : .key code ∈ row)
  | full {grid : KeyGrid} {row : List Entry} (isFull : layer.fullLayout = some grid)
      (inGrid : row ∈ grid.rows) (inRow : .key code ∈ row)
  | listed {e : Extension} {entries : Entries} {place : Field} {items : List Document}
      (extended : e ∈ layer.extensions) (isRecord : e.keys = .record entries)
      (isPlace : (place, .list items) ∈ entries) (inList : .text code ∈ items)
  | single {e : Extension} {entries : Entries} {place : Field}
      (extended : e ∈ layer.extensions) (isRecord : e.keys = .record entries)
      (isPlace : (place, .text code) ∈ entries)

theorem Layer.hasKey_rename {name : Document} :
    Layer.HasKey { layer with name := name } code ↔ layer.HasKey code := by
  constructor
  · rintro (⟨hc, hg, hr⟩ | ⟨hf, hg, hr⟩ | ⟨h, hrc, hp, hl⟩ | ⟨h, hrc, hp⟩)
    · exact .core hc hg hr
    · exact .full hf hg hr
    · exact .listed h hrc hp hl
    · exact .single h hrc hp
  · rintro (⟨hc, hg, hr⟩ | ⟨hf, hg, hr⟩ | ⟨h, hrc, hp, hl⟩ | ⟨h, hrc, hp⟩)
    · exact .core hc hg hr
    · exact .full hf hg hr
    · exact .listed h hrc hp hl
    · exact .single h hrc hp

theorem KeyGrid.mem_codes {grid : KeyGrid} : code ∈ grid.codes ↔ ∃ row ∈ grid.rows, .key code ∈ row := by
  have he : ∀ row : List Entry, code ∈ row.filterMap Entry.code? ↔ .key code ∈ row := by
    intro row
    rw [mem_filterMap]
    constructor
    · rintro ⟨e, h, ht⟩
      cases e with
      | key other => cases ht; exact h
      | position i => cases ht
    · exact fun h => ⟨.key code, h, rfl⟩
  simp only [codes, mem_flatMap, he]

theorem Layer.mem_gridCodes {grid : Option KeyGrid} :
    code ∈ gridCodes grid ↔ ∃ g, grid = some g ∧ ∃ row ∈ g.rows, .key code ∈ row := by
  cases grid with
  | none => simp [gridCodes]
  | some g => simp [gridCodes, KeyGrid.mem_codes]

theorem Document.text?_eq_some : d.text? = some code ↔ d = .text code := by
  cases d <;> simp [text?]

theorem Document.mem_codes :
    code ∈ d.codes ↔ (∃ items, d = .list items ∧ .text code ∈ items) ∨ d = .text code := by
  cases d with
  | list items => simp [codes, text?_eq_some]
  | text | null | flag | whole | decimal | record => simp [codes, text?, eq_comm]

theorem Extension.mem_codes (e : Extension) (entries : Entries) (code : String)
    (hr : e.keys = .record entries) : ∃ codes, e.codes = .ok codes ∧
      (code ∈ codes ↔ (∃ place items, (place, .list items) ∈ entries ∧ .text code ∈ items) ∨
        ∃ place, (place, .text code) ∈ entries) := by
  unfold codes
  rw [hr]
  refine ⟨_, rfl, ?_⟩
  rw [mem_flatMap]
  constructor
  · rintro ⟨⟨place, keys⟩, h, hf⟩
    rcases Document.mem_codes.mp hf with ⟨items, rfl, hl⟩ | rfl
    · exact .inl ⟨place, items, h, hl⟩
    · exact .inr ⟨place, h⟩
  · rintro (⟨place, items, h, hl⟩ | ⟨place, h⟩)
    · exact ⟨_, h, Document.mem_codes.mpr (.inl ⟨items, rfl, hl⟩)⟩
    · exact ⟨_, h, Document.mem_codes.mpr (.inr rfl)⟩

/-- The keys that an extension of a layer has at a place. -/
def Layer.KeysAt (layer : Layer) (kind place : Field) (keys : Document) : Prop :=
  ∃ e ∈ layer.extensions, e.kind = kind ∧ ∃ entries, e.keys = .record entries ∧ (place, keys) ∈ entries

theorem Layer.KeysAt.hasKey
   
    (found : layer.KeysAt kind place keys) (key : code ∈ keys.codes) : layer.HasKey code := by
  obtain ⟨e, extended, -, entries, isRecord, isPlace⟩ := found
  rcases Document.mem_codes.mp key with ⟨items, rfl, inList⟩ | rfl
  · exact .listed extended isRecord isPlace inList
  · exact .single extended isRecord isPlace

theorem Layer.hasKey_iff (records : ∀ e ∈ layer.extensions, ∃ entries, e.keys = .record entries) :
    layer.HasKey code ↔ code ∈ gridCodes layer.core ++ gridCodes layer.fullLayout ∨
      ∃ e ∈ layer.extensions, ∃ codes, e.codes = .ok codes ∧ code ∈ codes := by
  rw [mem_append, mem_gridCodes, mem_gridCodes]
  constructor
  · rintro (⟨hc, hg, hr⟩ | ⟨hf, hg, hr⟩ | ⟨h, hrc, hp, hl⟩ | ⟨h, hrc, hp⟩)
    · exact .inl (.inl ⟨_, hc, _, hg, hr⟩)
    · exact .inl (.inr ⟨_, hf, _, hg, hr⟩)
    · obtain ⟨codes, hd, hm⟩ := Extension.mem_codes _ _ code hrc
      exact .inr ⟨_, h, codes, hd, hm.mpr (.inl ⟨_, _, hp, hl⟩)⟩
    · obtain ⟨codes, hd, hm⟩ := Extension.mem_codes _ _ code hrc
      exact .inr ⟨_, h, codes, hd, hm.mpr (.inr ⟨_, hp⟩)⟩
  · rintro ((⟨g, hc, row, hg, hr⟩ | ⟨g, hf, row, hg, hr⟩) | ⟨e, h, codes, hd, hm⟩)
    · exact .core hc hg hr
    · exact .full hf hg hr
    · obtain ⟨entries, hrc⟩ := records e h
      obtain ⟨codes', hdn, iff⟩ := Extension.mem_codes _ _ code hrc
      obtain rfl : codes = codes' := Except.ok.inj (hd.symm.trans hdn)
      rcases iff.mp hm with ⟨place, items, hp, hl⟩ | ⟨place, hp⟩
      · exact .listed h hrc hp hl
      · exact .single h hrc hp

inductive Entry.Reads (R : String → String → Prop) : Entry → Entry → Prop
  | key {old new : String} (texts : R old new) : Reads R (.key old) (.key new)
  | position (i : Nat) : Reads R (.position i) (.position i)

def KeyGrid.Reads (R : String → String → Prop) (old new : KeyGrid) : Prop :=
  List.Forall₂ (List.Forall₂ (Entry.Reads R)) old.rows new.rows

inductive Document.Reads (R : String → String → Prop) : Document → Document → Prop
  | text {old new : String} (texts : R old new) : Reads R (.text old) (.text new)
  | other {d : Document} (noText : d.isText = false) : Reads R d d

inductive Document.KeysRead (R : String → String → Prop) : Document → Document → Prop
  | list {old new : List Document} (items : List.Forall₂ (Document.Reads R) old new) :
      KeysRead R (.list old) (.list new)
  | single {old new : Document} (noList : old.items? = none) (same : old.Reads R new) :
      KeysRead R old new

structure Extension.Reads (R : String → String → Prop) (old new : Extension) : Prop where
  kind : new.kind = old.kind
  keys : ∃ entries entries', old.keys = .record entries ∧ new.keys = .record entries' ∧
    List.Forall₂ (fun a b => b.1 = a.1 ∧ a.2.KeysRead R b.2) entries entries'

structure Layer.Reads (R : String → String → Prop) (old new : Layer) : Prop where
  name : new.name = old.name
  core : Option.Rel (KeyGrid.Reads R) old.core new.core
  fullLayout : Option.Rel (KeyGrid.Reads R) old.fullLayout new.fullLayout
  extensions : List.Forall₂ (Extension.Reads R) old.extensions new.extensions

variable {R : String → String → Prop} {f : String → String}

theorem Entry.reads_mapCode (entry : Entry) (h : ∀ code, entry = .key code → R code (f code)) :
    Entry.Reads R entry (entry.mapCode f) := by
  cases entry with
  | key code => exact .key (h code rfl)
  | position i => exact .position i

theorem KeyGrid.reads_mapCodes (grid : KeyGrid)
    (related : ∀ row ∈ grid.rows, ∀ code, .key code ∈ row → R code (f code)) :
    grid.Reads R (grid.mapCodes f) := by
  refine forall₂_map_right_iff.mpr (forall₂_same.mpr fun row h => ?_)
  refine forall₂_map_right_iff.mpr (forall₂_same.mpr fun entry hr => ?_)
  exact Entry.reads_mapCode entry fun code hk => related row h code (hk ▸ hr)

theorem Document.reads_mapText (d : Document) (h : ∀ code, d = .text code → R code (f code)) :
    d.Reads R (d.mapText f) := by
  cases d with
  | text s => exact .text (h s rfl)
  | null | flag _ | whole _ | decimal _ | list _ | record _ => exact .other rfl

theorem Document.Reads.texts {d d' : Document} {old new : String} (reads : d.Reads R d')
    (isOld : d = .text old) (isNew : d' = .text new) : R old new := by
  cases reads with
  | text texts =>
    cases isOld
    cases isNew
    exact texts
  | other noText =>
    subst isOld
    cases noText

theorem Document.keysRead_mapCodes_iff : d.KeysRead R (d.mapCodes f) ↔ ∀ code ∈ d.codes, R code (f code) := by
  constructor
  · intro reads code key
    rcases mem_codes.mp key with ⟨items, rfl, inList⟩ | rfl
    · cases reads with
      | list reads => exact (forall₂_same.mp (forall₂_map_right_iff.mp reads) _ inList).texts rfl rfl
      | single noList => cases noList
    · cases reads with
      | single _ one => exact one.texts rfl rfl
  · intro reads
    cases d with
    | list items =>
      refine .list (forall₂_map_right_iff.mpr (forall₂_same.mpr fun d inList => ?_))
      exact Document.reads_mapText d fun code h => reads code (mem_codes.mpr (.inl ⟨_, rfl, h ▸ inList⟩))
    | text | null | flag | whole | decimal | record =>
      exact .single rfl (Document.reads_mapText _ fun code h => reads code (mem_codes.mpr (.inr h)))

variable {g : Field → Field → String → String}

theorem Extension.reads_mapCodes_iff {e : Extension} (hr : e.keys = .record entries) :
    e.Reads R (e.mapCodes (g e.kind)) ↔
      ∀ entry ∈ entries, ∀ code ∈ entry.2.codes, R code (g e.kind entry.1 code) := by
  have keys : (e.mapCodes (g e.kind)).keys =
      .record (entries.map fun entry => (entry.1, entry.2.mapCodes (g e.kind entry.1))) := by
    simp only [mapCodes, hr]
  have kind : (e.mapCodes (g e.kind)).kind = e.kind := by simp only [mapCodes, hr]
  have each : Forall₂ (fun a b => b.1 = a.1 ∧ a.2.KeysRead R b.2) entries
      (entries.map fun entry => (entry.1, entry.2.mapCodes (g e.kind entry.1))) ↔
        ∀ entry ∈ entries, ∀ code ∈ entry.2.codes, R code (g e.kind entry.1 code) := by
    rw [forall₂_map_right_iff, forall₂_same]
    simp only [true_and, Document.keysRead_mapCodes_iff]
  rw [← each]
  constructor
  · rintro ⟨-, old, new, isOld, isNew, reads⟩
    obtain rfl := Document.record.inj (hr.symm.trans isOld)
    obtain rfl := Document.record.inj (keys.symm.trans isNew)
    exact reads
  · exact fun reads => ⟨kind, entries, _, hr, keys, reads⟩

theorem Layer.reads_mapCodes (layer : Layer) (hrr : ∀ e ∈ layer.extensions, ∃ entries, e.keys = .record entries)
    (hr : ∀ code, layer.HasKey code → R code (f code))
    (listed : ∀ kind place keys, layer.KeysAt kind place keys → ∀ code ∈ keys.codes, R code (g kind place code)) :
    layer.Reads R (layer.mapCodes f g) := by
  have hgr : ∀ g : Option KeyGrid,
      (∀ h, g = some h → ∀ row ∈ h.rows, ∀ code, .key code ∈ row → R code (f code)) →
      Option.Rel (KeyGrid.Reads R) g (g.map (KeyGrid.mapCodes f)) := by
    intro g hk
    cases g with
    | none => exact .none
    | some h => exact .some (KeyGrid.reads_mapCodes h (hk h rfl))
  refine ⟨rfl, hgr _ ?_, hgr _ ?_, ?_⟩
  · exact fun h hc row hg code hrw => hr code (.core hc hg hrw)
  · exact fun h hf row hg code hrw => hr code (.full hf hg hrw)
  · refine forall₂_map_right_iff.mpr (forall₂_same.mpr fun e he => ?_)
    obtain ⟨entries, hrc⟩ := hrr e he
    exact (Extension.reads_mapCodes_iff hrc).mpr fun entry hp =>
      listed e.kind entry.1 entry.2 ⟨e, he, rfl, entries, hrc, hp⟩

theorem Layer.Reads.keysAt (reads : layer.Reads R (layer.mapCodes f g))
    (found : layer.KeysAt kind place keys) (key : code ∈ keys.codes) :
    R code (g kind place code) := by
  obtain ⟨e, extended, rfl, entries, isRecord, isPlace⟩ := found
  have one := forall₂_same.mp (forall₂_map_right_iff.mp reads.extensions) e extended
  exact (Extension.reads_mapCodes_iff isRecord).mp one _ isPlace code key

theorem KeyGrid.Reads.source (hs : old.Reads R new) {row : List Entry}
    (h : row ∈ new.rows) (hr : .key code ∈ row) :
    ∃ before, (∃ row ∈ old.rows, .key before ∈ row) ∧ R before code := by
  obtain ⟨row', ho, hrs⟩ := forall₂_mem_right hs h
  obtain ⟨entry, hrw, hrl⟩ := forall₂_mem_right hrs hr
  cases hrl with
  | key ht => exact ⟨_, ⟨row', ho, hrw⟩, ht⟩

theorem Layer.Reads.source {old new : Layer} (hs : old.Reads R new) (key : new.HasKey code) :
    ∃ before, old.HasKey before ∧ R before code := by
  cases key with
  | core hc hgr hr =>
    have hg := hs.core
    rw [hc] at hg
    cases h : old.core with
    | none => rw [h] at hg; cases hg
    | some grid =>
      rw [h] at hg
      cases hg with
      | some hg =>
        obtain ⟨before, ⟨row, ho, hrw⟩, ht⟩ := KeyGrid.Reads.source hg hgr hr
        exact ⟨before, .core h ho hrw, ht⟩
  | full hf hgr hr =>
    have hg := hs.fullLayout
    rw [hf] at hg
    cases h : old.fullLayout with
    | none => rw [h] at hg; cases hg
    | some grid =>
      rw [h] at hg
      cases hg with
      | some hg =>
        obtain ⟨before, ⟨row, ho, hrw⟩, ht⟩ := KeyGrid.Reads.source hg hgr hr
        exact ⟨before, .full h ho hrw, ht⟩
  | listed he hrc hp hls =>
    obtain ⟨e, het, hrl⟩ := forall₂_mem_right hs.extensions he
    obtain ⟨entries, entries', hol, hn, hpc⟩ := hrl.keys
    obtain rfl := Document.record.inj (hrc.symm.trans hn)
    obtain ⟨⟨place, keys⟩, hpl, -, hrd⟩ := forall₂_mem_right hpc hp
    cases hrd with
    | list hi =>
      obtain ⟨d, hlt, ht⟩ := forall₂_mem_right hi hls
      cases ht with
      | text ht => exact ⟨_, .listed het hol hpl hlt, ht⟩
      | other htx => cases htx
    | single hl one => cases one; cases hl
  | single he hrc hp =>
    obtain ⟨e, het, hrl⟩ := forall₂_mem_right hs.extensions he
    obtain ⟨entries, entries', hol, hn, hpc⟩ := hrl.keys
    obtain rfl := Document.record.inj (hrc.symm.trans hn)
    obtain ⟨⟨place, keys⟩, hpl, -, hrd⟩ := forall₂_mem_right hpc hp
    cases hrd with
    | single hl one =>
      cases one with
      | text ht => exact ⟨_, .single het hol hpl, ht⟩
      | other htx => cases htx

theorem KeyGrid.Reads.eq_of_fixed (hs : old.Reads R new)
    (hf : ∀ row ∈ old.rows, ∀ code, .key code ∈ row → ∀ code', R code code' → code' = code) : new = old := by
  have hrw : new.rows = old.rows := by
    apply eq_of_forall₂ hs
    intro row hg row' h
    apply eq_of_forall₂ h
    intro entry hr entry' hrl
    cases hrl with
    | key ht => rw [hf row hg _ hr _ ht]
    | position i => rfl
  cases new
  cases old
  rw [KeyGrid.mk.injEq]
  exact hrw

theorem Document.Reads.eq_of_fixed {old new : Document} (hs : old.Reads R new)
    (h : ∀ code, old = .text code → ∀ code', R code code' → code' = code) : new = old := by
  cases hs with
  | text ht => rw [h _ rfl _ ht]
  | other _ => rfl

theorem Extension.Reads.eq_of_fixed {old new : Extension} (hs : old.Reads R new)
    (hr : old.keys = .record entries)
    (listed : ∀ place items, (place, .list items) ∈ entries → ∀ code, .text code ∈ items →
      ∀ code', R code code' → code' = code)
    (single : ∀ place code, (place, .text code) ∈ entries → ∀ code', R code code' → code' = code) :
    new = old := by
  obtain ⟨hk, entries', news, ho, hn, hp⟩ := hs
  obtain rfl := Document.record.inj (hr.symm.trans ho)
  have he : news = entries := by
    apply eq_of_forall₂ hp
    rintro ⟨place, keys⟩ hm ⟨place', keys'⟩ ⟨hsp, hrd⟩
    have hsk : keys' = keys := by
      cases hrd with
      | list items =>
        congr 1
        apply eq_of_forall₂ items
        intro d hl d' hrl
        exact hrl.eq_of_fixed fun code h => listed place _ hm code (h ▸ hl)
      | single _ one => exact one.eq_of_fixed fun code h => single place code (h ▸ hm)
    rw [Prod.mk.injEq]
    exact ⟨hsp, hsk⟩
  cases new
  cases old
  rw [Extension.mk.injEq]
  exact ⟨hk, hn.trans (he ▸ hr.symm)⟩

theorem Layer.Reads.eq_of_fixed {old new : Layer} (hs : old.Reads R new)
    (hf : ∀ code, old.HasKey code → ∀ code', R code code' → code' = code) : new = old := by
  have hgr : ∀ g g' : Option KeyGrid, Option.Rel (KeyGrid.Reads R) g g' →
      (∀ h, g = some h → ∀ row ∈ h.rows, ∀ code, .key code ∈ row →
        ∀ code', R code code' → code' = code) → g' = g := by
    intro g g' hrl hk
    cases hrl with
    | none => rfl
    | some hr => rw [hr.eq_of_fixed (hk _ rfl)]
  have hc : new.core = old.core := hgr _ _ hs.core fun h hcr row hg code hrw => hf code (.core hcr hg hrw)
  have hfl : new.fullLayout = old.fullLayout :=
    hgr _ _ hs.fullLayout fun h hfu row hg code hrw => hf code (.full hfu hg hrw)
  have het : new.extensions = old.extensions := by
    apply eq_of_forall₂ hs.extensions
    intro e he e' hr
    obtain ⟨entries, -, hrc, -⟩ := hr.keys
    apply hr.eq_of_fixed hrc
    · exact fun place items hp code hl =>
        hf code (.listed he hrc hp hl)
    · exact fun place code hp => hf code (.single he hrc hp)
  cases new
  cases old
  rw [Layer.mk.injEq]
  exact ⟨hs.name, hc, hfl, het⟩

end Keymap
