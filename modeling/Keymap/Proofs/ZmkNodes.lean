import Keymap.Proofs.ZmkKeys
import Keymap.Zmk.HomeRow

namespace Keymap.Zmk

open Devicetree List

variable {known : String → Prop} {h : HoldTap} {m : Macro} {name note : String} {k : AdaptiveKey}

structure Trigger.Closed (known : String → Prop) (t : Trigger) : Prop where
  name : Quiet t.name
  keys : ∀ key ∈ t.keys, Within known key
  binding : Within known t.binding
  maxIdle : ∀ ms, t.maxIdle = some ms → Within known ms

theorem Trigger.Closed.lines {t : Trigger} (h : t.Closed known) (hq : Quiet note) :
    AllWithin known (t.lines note) := by
  have row := within_join " " (lacks_literal (by decide)) rfl (by decide) h.keys
  refine ((AllWithin.append ?_ ?_).append ?_).append (.literal (by decide) .nil)
  · refine .cons ?_ (.cons ?_ (.cons ?_ .nil))
    · exact h.name.within.surround (by decide)
    · exact row.surround (by decide)
    · exact h.binding.surround (by decide)
  · split
    · exact .cons (hq.within.quiet_append (lacks_literal (by decide))) .nil
    · exact .nil
  · split
    · rename_i ms hl
      exact .cons ((h.maxIdle ms hl).surround (by decide)) .nil
    · exact .nil

theorem within_opening {node : String} (h : Text.IsIdentifier name) (hn : Text.IsIdentifier node) :
    Within known s!"        {name}: {node} \x7b" := by
  apply Lacks.within
  simp only [lacks_append]
  exact ⟨⟨⟨⟨lacks_literal (by decide), lacks_of_isIdentifier h⟩, lacks_literal (by decide)⟩,
    lacks_of_isIdentifier hn⟩, lacks_literal (by decide)⟩

structure AdaptiveKey.Closed (known : String → Prop) (k : AdaptiveKey) : Prop where
  name : Text.IsIdentifier k.name
  binding : Within known k.binding
  triggers : ∀ t ∈ k.triggers, t.Closed known

theorem AdaptiveKey.Closed.lines (h : k.Closed known) {gap : List String} (hb : AllWithin known gap)
    (hq : Quiet note) : AllWithin known (k.lines gap note) := by
  refine ((AllWithin.append ?_ hb).append ?_).append (.literal (by decide) (.literal (by decide) .nil))
  · refine .cons (within_opening h.name h.name) ?_
    refine .literal (by decide) (.literal (by decide) (.cons ?_ .nil))
    exact h.binding.surround (by decide)
  · exact .flatMap fun t hm => (h.triggers t hm).lines hq

theorem AdaptiveKey.defines (h : Text.IsIdentifier k.name) (hp : k.name ≠ "") (gap : List String)
    (note : String) : Defines (k.lines gap note) k.name :=
  ⟨_, mem_append_left _ (mem_append_left _ (mem_append_left _ mem_cons_self)),
    mem_labels_node _ h hp h (by decide) (by decide)⟩

def Property.content : Property → String
  | .number value => value.toText
  | .cells content => content
  | .text value => value.toText
  | .flag => ""

def Properties.Closed (known : String → Prop) (properties : Properties) : Prop :=
  ∀ p ∈ properties, Quiet p.1 ∧ Within known p.2.content

theorem Property.within_statement {p : Property} (h : Quiet name) (hw : Within known p.content) :
    Within known (p.statement name) := by
  cases p with
  | number value =>
    change Within known (name ++ " = <" ++ value.toText ++ ">;")
    exact hw.between (lacks_append.mpr ⟨h, lacks_literal (by decide)⟩) (by decide)
  | cells content =>
    change Within known (name ++ " = <" ++ content ++ ">;")
    exact hw.between (lacks_append.mpr ⟨h, lacks_literal (by decide)⟩) (by decide)
  | text value =>
    change Within known (name ++ " = \"" ++ value.toText ++ "\";")
    exact hw.between (lacks_append.mpr ⟨h, lacks_literal (by decide)⟩) (by decide)
  | flag =>
    change Within known (name ++ ";")
    exact (lacks_append.mpr ⟨h, lacks_literal (by decide)⟩).within

theorem Properties.Closed.lines {properties : Properties} (h : properties.Closed known)
    (excluded : List String) : AllWithin known (propertyLines properties excluded) := by
  intro s hm
  obtain ⟨p, hk, rfl⟩ := mem_map.mp hm
  have ⟨hq, hw⟩ := h p (mem_filter.mp hk).1
  exact (Property.within_statement hq hw).quiet_append (lacks_literal (by decide))

structure HoldTap.Closed (known : String → Prop) (h : HoldTap) : Prop where
  name : Text.IsIdentifier h.name
  label : Quiet h.label
  properties : Properties.Closed known h.properties
  hold : Within known h.hold
  tap : Within known h.tap

theorem HoldTap.Closed.lines (hc : h.Closed known) : AllWithin known h.lines := by
  refine (AllWithin.append ?_ (hc.properties.lines _)).append ?_
  · refine .cons (within_opening hc.name hc.name) (.literal (by decide) (.cons ?_ ?_))
    · exact hc.label.within.surround (by decide)
    · exact .literal (by decide) .nil
  · refine .cons ?_ (.literal (by decide) (.literal (by decide) .nil))
    exact within_bindings hc.hold hc.tap

theorem HoldTap.defines (hn : Text.IsIdentifier h.name) (hp : h.name ≠ "") : Defines h.lines h.name :=
  ⟨_, mem_append_left _ (mem_append_left _ mem_cons_self), mem_labels_node _ hn hp hn (by decide) (by decide)⟩

structure Macro.Closed (known : String → Prop) (m : Macro) : Prop where
  name : Text.IsIdentifier m.name
  keys : ∀ group ∈ m.groups, ∀ key ∈ group, Within known key

theorem Macro.Closed.render (hb : KnowsOthers known) (hc : m.Closed known) : Within known m.render := by
  have h : ∀ {s}, Plain s → Within known s := fun h => h.within hb
  refine within_unlines (((AllWithin.append ?_ ?_).append ?_).append ?_)
  · refine .cons ?_ (.literal (by decide) (.cons ?_ (.literal (by decide) (.literal (by decide) .nil))))
    · refine Lacks.within ?_
      simp only [lacks_append]
      exact ⟨⟨⟨⟨lacks_literal (by decide), lacks_of_isIdentifier hc.name⟩,
        lacks_literal (by decide)⟩, lacks_of_isIdentifier hc.name⟩, lacks_literal (by decide)⟩
    · exact (lacks_of_isIdentifier hc.name.upper).within.surround (by decide)
  · exact .cons (h (plain_literal (by decide))) (.cons (h (plain_literal (by decide))) .nil)
  · intro s hmm
    obtain ⟨group, hm, rfl⟩ := mem_map.mp hmm
    have row := within_join " " (lacks_literal (by decide)) rfl (by decide) (hc.keys group hm)
    have hs : Within known "                , <&macro_tap " := h (plain_literal (by decide))
    exact (hs.append row (.inl (by decide))).append (lacks_literal (by decide)).within (.inr rfl)
  · exact .literal (by decide) (.literal (by decide) .nil)

theorem Macro.mem_labels_render (h : Text.IsIdentifier m.name) (hp : m.name ≠ "") : m.name ∈ labels m.render :=
  mem_labels_unlines.mpr ⟨_, mem_append_left _ (mem_append_left _ (mem_append_left _
    mem_cons_self)), mem_labels_node _ h hp h (by decide) (by decide)⟩

theorem mem_of_mem_chunks {α : Type} {size : Nat} {xs row : List α} {x : α}
    (h : row ∈ chunks size xs) (hm : x ∈ row) : x ∈ xs := by
  have hr : ∀ fuel (ys : List α), row ∈ chunksFrom size fuel ys → x ∈ ys := by
    intro fuel
    induction fuel with
    | zero => intro ys h; cases h
    | succ fuel ih =>
      intro ys h
      cases ys with
      | nil => cases h
      | cons y ys =>
        rcases mem_cons.mp h with rfl | hl
        · exact mem_of_mem_take hm
        · exact mem_of_mem_drop (ih _ hl)
  exact hr _ _ h

theorem Macro.ofDocument_closed (h : KnowsOthers known) {keycodes : Entries}
    (ht : TidyTable known keycodes) (hn : Text.IsIdentifier name) (typed : Document) :
    Yields (Macro.ofDocument keycodes name typed) fun m => m.name = name ∧ m.Closed known := by
  refine Yields.trivial.bind fun pieces _ => ?_
  refine Yields.bind (q := fun m : Macro => m.name = name ∧ m.Closed known) ?_ fun m hc => ?_
  · refine (keyPresses_tidy h ht _).bind fun keys htd => .ok ⟨rfl, hn, ?_⟩
    exact fun group hg key hm => (htd key (mem_of_mem_chunks hg hm)).within
  · exact Yields.trivial.bind fun _ _ => .ok hc

end Keymap.Zmk
