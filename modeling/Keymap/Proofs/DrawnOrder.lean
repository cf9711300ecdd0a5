import Keymap.Proofs.LayerHeader

namespace Keymap

open List

theorem filter_append_filter_not {α : Type} {p : α → Bool} {xs : List α}
    (hf : xs.Pairwise fun a b => p b → p a) : xs.filter p ++ xs.filter (fun x => !p x) = xs := by
  induction xs with
  | nil => rfl
  | cons x xs ih =>
    obtain ⟨hb, hf⟩ := pairwise_cons.mp hf
    by_cases h : p x
    · rw [filter_cons_of_pos h, filter_cons_of_neg (by simp [h]), cons_append, ih hf]
    · have hl : ∀ y ∈ x :: xs, p y = false := by
        intro y hm
        rcases mem_cons.mp hm with rfl | hm
        · simpa using h
        · exact Bool.eq_false_iff.mpr fun ht => h (hb y hm ht)
      rw [filter_eq_nil_iff.mpr (by simpa using hl), nil_append, filter_eq_self]
      simpa using hl

namespace Families

variable {f : Families} {name : String}

def utilityOrder : List String :=
  let order := ["NUM", "SYM", "NAV", "MEDIA", "FUN"]
  order ++ order.flatMap fun name => [name ++ "_NIGHT", name ++ "_V2"]

def isDrawn (name : String) : Bool :=
  isBase name || utilityOrder.contains name

/-- Base layers come first, then each utility layer in its place. Layers that are not drawn come last. -/
def place (name : String) : Nat :=
  if isBase name then 0 else utilityOrder.idxOf name + 1

def InOrder (names : List String) : Prop :=
  names.Pairwise fun a b => place a ≤ place b

instance (names : List String) : Decidable (InOrder names) :=
  inferInstanceAs (Decidable (List.Pairwise _ _))

theorem drawnNames_eq (f : Families) : f.drawnNames = f.bases ++ utilityOrder.filter f.names.contains := by
  rw [utilityOrder, filter_append, ← append_assoc]
  rfl

theorem utilityOrder_not_isBase : ∀ name ∈ utilityOrder, isBase name = false := by decide

theorem place_eq_zero_iff : place name = 0 ↔ isBase name := by
  rw [place]
  split <;> simp_all

theorem place_le (name : String) : place name ≤ utilityOrder.length + 1 := by
  rw [place]
  split
  · exact Nat.zero_le _
  · exact Nat.succ_le_succ idxOf_le_length

theorem place_of_not_isDrawn (h : isDrawn name = false) : place name = utilityOrder.length + 1 := by
  rw [isDrawn, Bool.or_eq_false_iff, contains_eq_mem, decide_eq_false_iff_not] at h
  rw [place, if_neg (by simp [h.1]), idxOf_eq_length h.2]

theorem place_lt_iff : place name < utilityOrder.length + 1 ↔ isDrawn name := by
  constructor
  · intro he
    by_contra h
    rw [place_of_not_isDrawn (Bool.eq_false_iff.mpr h)] at he
    omega
  · intro hd
    rw [isDrawn, Bool.or_eq_true, contains_iff_mem] at hd
    rw [place]
    split
    · omega
    · rename_i h
      exact Nat.succ_lt_succ (idxOf_lt_length_iff.mpr (hd.resolve_left h))

theorem eq_of_place_eq {a b : String} (h : a ∈ utilityOrder) (ho : b ∈ utilityOrder)
    (hs : place a = place b) : a = b := by
  rw [place, place, if_neg (by simp [utilityOrder_not_isBase a h]),
    if_neg (by simp [utilityOrder_not_isBase b ho])] at hs
  exact (idxOf_inj h).mp (Nat.succ.inj hs)

theorem mem_drawnNames : name ∈ f.drawnNames ↔ name ∈ f.names ∧ isDrawn name := by
  rw [drawnNames_eq, mem_append, bases, mem_filter, mem_filter, isDrawn, Bool.or_eq_true,
    contains_iff_mem, contains_iff_mem]
  tauto

theorem inOrder_utilityOrder : InOrder utilityOrder := by decide

theorem inOrder_drawnNames (f : Families) : InOrder f.drawnNames := by
  have hf : ∀ a ∈ f.bases, place a = 0 := fun a h =>
    place_eq_zero_iff.mpr (mem_filter.mp h).2
  rw [drawnNames_eq]
  refine pairwise_append.mpr ⟨?_, inOrder_utilityOrder.filter _, ?_⟩
  · exact pairwise_of_forall_mem_list fun a h b _ => by simp [hf a h]
  · intro a h b _
    simp [hf a h]

theorem filter_isDrawn_of_inOrder (hd : f.names.Nodup) (ho : InOrder f.names) :
    f.names.filter isDrawn = f.drawnNames := by
  have hbf := filter_append_filter_not (p := isBase) ((ho.filter isDrawn).imp fun {a b} hb h => by
      rw [← place_eq_zero_iff] at h ⊢
      omega)
  have hbs : (f.names.filter isDrawn).filter isBase = f.bases := by
    rw [filter_filter, bases]
    apply filter_congr
    intro name _
    cases h : isBase name <;> simp [isDrawn, h]
  have hul : (f.names.filter isDrawn).filter (fun name => !isBase name) =
      utilityOrder.filter f.names.contains := by
    have hm : ∀ a, a ∈ (f.names.filter isDrawn).filter (fun name => !isBase name) ↔
        a ∈ utilityOrder.filter f.names.contains := by
      intro a
      simp only [mem_filter, isDrawn, Bool.or_eq_true, contains_iff_mem, Bool.not_eq_true']
      constructor
      · rintro ⟨⟨hn, hdr⟩, hoh⟩
        exact ⟨hdr.resolve_left (by simp [hoh]), hn⟩
      · rintro ⟨hu, hn⟩
        exact ⟨⟨hn, .inr hu⟩, utilityOrder_not_isBase a hu⟩
    refine Perm.eq_of_pairwise ?_ ((ho.filter _).filter _) (inOrder_utilityOrder.filter _) ?_
    · intro a b hl hr hb ha
      exact eq_of_place_eq (mem_filter.mp ((hm a).mp hl)).1 (mem_filter.mp hr).1 (Nat.le_antisymm hb ha)
    · have hdo : utilityOrder.Nodup := by decide
      rw [perm_ext_iff_of_nodup ((hd.filter _).filter _) (hdo.filter _)]
      exact hm
  rw [← hbf, hbs, hul, drawnNames_eq]

theorem drawnNames_prefix_iff (hd : f.names.Nodup) : f.drawnNames <+: f.names ↔ InOrder f.names := by
  constructor
  · rintro ⟨rest, hn⟩
    rw [← hn]
    rw [← hn] at hd
    have hl : ∀ b ∈ rest, place b = utilityOrder.length + 1 := by
      intro b h
      apply place_of_not_isDrawn
      by_contra hdr
      have hnm : b ∈ f.names := hn ▸ mem_append_right _ h
      have hf := mem_drawnNames.mpr ⟨hnm, eq_true_of_ne_false hdr⟩
      exact (nodup_append.mp hd).2.2 b hf b h rfl
    refine pairwise_append.mpr ⟨inOrder_drawnNames f, ?_, ?_⟩
    · exact pairwise_of_forall_mem_list fun a _ b h => by
        rw [hl b h]
        exact place_le a
    · intro a _ b h
      rw [hl b h]
      exact place_le a
  · intro ho
    have hdf := filter_append_filter_not (p := isDrawn) (ho.imp fun {a b} hb hdr =>
      place_lt_iff.mp (Nat.lt_of_le_of_lt hb (place_lt_iff.mpr hdr)))
    exact ⟨_, filter_isDrawn_of_inOrder hd ho ▸ hdf⟩

theorem drawnNames_eq_names_iff (hd : f.names.Nodup) :
    f.drawnNames = f.names ↔ InOrder f.names ∧ ∀ name ∈ f.names, isDrawn name := by
  constructor
  · intro hs
    refine ⟨hs ▸ inOrder_drawnNames f, fun name h => ?_⟩
    rw [← hs] at h
    exact (mem_drawnNames.mp h).2
  · rintro ⟨ho, hdr⟩
    rw [← filter_isDrawn_of_inOrder hd ho]
    exact filter_eq_self.mpr hdr

theorem names_of_layerNames {shown : LayerNames} (h : f.layerNames = .ok shown) :
    shown.names = f.drawnNames := by
  obtain ⟨_, -, h⟩ := bind_eq_ok.mp h
  obtain ⟨_, -, h⟩ := bind_eq_ok.mp h
  rw [← pure_eq_ok.mp h]

end Families

namespace Generate

open Qmk (Enumerator)

section Numbers

variable {c : Configuration} {options : Options} {id : Document} {b : Board} {s : Session}
  {k : KeymapConfig}

theorem layersFor_of_unshadowed (b : Board) (hp : ∀ layer ∈ c.keymap.layers, layer.fullLayout = none)
    (isKeymap : OneShot.addShadows c.keymap = .ok k) (hu : k.layers.length = c.keymap.layers.length) :
    layersFor b k = c.keymap.layers.map (·.name) := by
  obtain ⟨targets, -, h⟩ := bind_eq_ok.mp isKeymap
  obtain ⟨_, -, h⟩ := bind_eq_ok.mp h
  obtain ⟨_, -, h⟩ := bind_eq_ok.mp h
  obtain rfl := pure_eq_ok.mp h
  have hn := hu
  rw [OneShot.withShadows, length_append, length_map, Nat.add_eq_left, length_eq_zero_iff] at hn
  rw [layersFor, OneShot.withShadows, hn, append_nil, filter_eq_self.mpr, map_map]
  · rfl
  · intro layer hm
    obtain ⟨source, hk, rfl⟩ := mem_map.mp hm
    apply included_of_includes
    simp [includes, OneShot.rewrite, Layer.mapCodes, hp source hk]

theorem header_numbers (tidy : s.workspace.disk.Tidy) (valid : c.keymap.validate = .ok ())
    (found : c.inventory.find? id = some b) (inside : b.Inside) (isQmk : b.firmware.isQmk)
    (common : b.keymapFile.isPresent = false) (plain : ∀ layer ∈ c.keymap.layers, layer.fullLayout = none)
    (h : OneShot.addShadows c.keymap = .ok k) (unshadowed : k.layers.length = c.keymap.layers.length) {s' : Session}
    (done : (board c options id).run.run s = (.ok true, s')) :
    ∃ text, s'.workspace.disk.node? (s'.workspace.home ++ header) = some (.file (.text text)) ∧
      ∀ symbol, Enumerator.values symbol (Enumerator.read text) = c.layerNames.zipIdx := by
  obtain ⟨made, hp, -, header⟩ := holdsOnly_of_succeeded tidy found inside done
  obtain ⟨text, ht, hwr⟩ := header isQmk
  have hm := (produced_eq_some found).mp hp
  have hl := makeBoard_common common (Prod.ext hm rfl) h
  have hnm := OneShot.named_addShadows (KeymapConfig.named_of_validate valid) h
  obtain ⟨names, hn, hw⟩ := exists_names (b := b) hnm
  have htt : c.layerNames = names := by
    have htx := (layersFor_of_unshadowed b plain h unshadowed).symm.trans hn
    have hs := congrArg (map Document.toText) htx
    rw [map_map, map_map] at hs
    rw [Configuration.layerNames]
    exact hs.trans (map_id names)
  rw [hl, hn] at ht
  refine ⟨text, hwr, fun symbol => ?_⟩
  rw [read_layersHeader hw ht, htt]
  exact Enumerator.valuesFrom_unvalued symbol 0 names

end Numbers

def Configuration.families (c : Configuration) : Families :=
  { layers := c.keymap.layers, metadata := c.keymap.metadata }

/-- After a QMK board with the common keymap is generated, where no layer has a full layout and none is
added, each drawn layer has the number of its place in the header exactly if the keymap has its layers
in the order of their kinds. The two lists are the same exactly if also every layer is drawn. -/
theorem drawn_places_are_numbers_iff (c : Configuration) (options : Options) (id : Document) (b : Board)
    (s : Session) (tidy : s.workspace.disk.Tidy) (valid : c.keymap.validate = .ok ())
    (distinct : c.layerNames.Nodup) (found : c.inventory.find? id = some b) (inside : b.Inside)
    (isQmk : b.firmware.isQmk = true) (common : b.keymapFile.isPresent = false)
    (plain : ∀ layer ∈ c.keymap.layers, layer.fullLayout = none) {k : KeymapConfig}
    (isKeymap : OneShot.addShadows c.keymap = .ok k) (unshadowed : k.layers.length = c.keymap.layers.length)
    (done : ((board c options id).run.run s).1 = .ok true) {shown : Families.LayerNames}
    (isShown : c.families.layerNames = .ok shown) :
    let final := ((board c options id).run.run s).2.workspace
    ∃ text, final.disk.node? (final.home ++ header) = some (.file (.text text)) ∧ ∀ symbol,
      let numbered := Enumerator.values symbol (Enumerator.read text)
      ((∀ i name, shown.names[i]? = some name → (name, i) ∈ numbered) ↔ Families.InOrder c.layerNames) ∧
      ((∀ i name, shown.names[i]? = some name ↔ (name, i) ∈ numbered) ↔
        Families.InOrder c.layerNames ∧ ∀ name ∈ c.layerNames, Families.isDrawn name = true) := by
  obtain ⟨text, written, numbers⟩ := header_numbers tidy valid found inside isQmk common plain isKeymap
    unshadowed (Prod.ext done rfl)
  have isNames : c.families.names = c.layerNames := rfl
  rw [← isNames] at distinct
  refine ⟨text, written, fun symbol => ⟨?_, ?_⟩⟩
  · rw [numbers, Families.names_of_layerNames isShown, ← isNames,
      ← Families.drawnNames_prefix_iff distinct, List.prefix_iff_getElem?]
    constructor
    · intro follows i bound
      exact List.mk_mem_zipIdx_iff_getElem?.mp (follows i _ (List.getElem?_eq_getElem bound))
    · intro follows i name isName
      obtain ⟨bound, rfl⟩ := List.getElem?_eq_some_iff.mp isName
      exact List.mk_mem_zipIdx_iff_getElem?.mpr (follows i bound)
  · rw [numbers, Families.names_of_layerNames isShown, ← isNames,
      ← Families.drawnNames_eq_names_iff distinct, List.ext_getElem?_iff]
    constructor
    · intro same i
      apply Option.ext
      intro name
      rw [same i name]
      exact List.mk_mem_zipIdx_iff_getElem?
    · intro same i name
      rw [same i]
      exact List.mk_mem_zipIdx_iff_getElem?.symm

def weekly : Configuration where
  keymap := { layers := ["BASE_DAY", "NAV", "NUM"].map fun name =>
    { name := .text name, core := some ⟨[List.replicate 36 (.key "NONE")]⟩ } }
  inventory := { boards := [keyboard "plain" []] }
  aliases := []
  combos := []
  magic := []
  keycodes := [("NONE", .record [("qmk", "KC_NO")])]

theorem weekly_succeeds : ((board weekly {} "plain").run.run ⟨emptyWorkspace, weekly.compiler⟩).1 = .ok true :=
  eq_ok_of_toOption (by decide +kernel)

/-- The board is generated, but not every drawn layer has the number of its place. -/
theorem weekly_misnumbered :
    let final := ((board weekly {} "plain").run.run ⟨emptyWorkspace, weekly.compiler⟩).2.workspace
    ∃ shown, weekly.families.layerNames = .ok shown ∧
      ∃ text, final.disk.node? (final.home ++ header) = some (.file (.text text)) ∧ ∀ symbol,
        ¬ ∀ i name, shown.names[i]? = some name →
          (name, i) ∈ Enumerator.values symbol (Enumerator.read text) := by
  intro final
  have valid : weekly.keymap.validate = .ok () := eq_ok_of_toOption (by decide)
  have inside : (keyboard "plain" []).Inside := by decide
  have plain : ∀ layer ∈ weekly.keymap.layers, layer.fullLayout = none := by simp [weekly]
  have added : (OneShot.addShadows weekly.keymap).toOption.map (·.layers.length) = some 3 := by
    decide
  obtain ⟨k, isKeymap⟩ : ∃ k, OneShot.addShadows weekly.keymap = .ok k := exists_eq_ok (by decide)
  rw [isKeymap] at added
  obtain ⟨shown, isShown⟩ : ∃ shown, weekly.families.layerNames = .ok shown := exists_eq_ok (by decide)
  obtain ⟨text, written, numbers⟩ := drawn_places_are_numbers_iff weekly {} "plain" (keyboard "plain" [])
    ⟨emptyWorkspace, weekly.compiler⟩ tidy_emptyWorkspace valid (by decide) rfl inside rfl rfl plain isKeymap
    (Option.some.inj added) weekly_succeeds isShown
  refine ⟨shown, isShown, text, written, fun symbol follows => ?_⟩
  exact absurd ((numbers symbol).1.mp follows) (by decide)

end Generate

end Keymap
