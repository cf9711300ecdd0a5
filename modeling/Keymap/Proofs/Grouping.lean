import Keymap.Zmk.Training

namespace Keymap.Zmk

open List

variable {β : Type} {pairs : List (Document × β)} {groups : List (Document × List β)} {key : Document} {value : β}

def InGroup (p : Document × β) (g : Document × List β) : Prop :=
  p.2 ∈ g.2 ∧ (p.1 = g.1 ∨ g.1.same p.1 = true)

structure Gathers (pairs : List (Document × β)) (g : Document × List β) : Prop where
  first : ∃ value, g.2.head? = some value ∧ (g.1, value) ∈ pairs
  each : ∀ value ∈ g.2, ∃ key, (key, value) ∈ pairs ∧ InGroup (key, value) g

theorem Gathers.addToGroup (hm : (key, value) ∈ pairs) (hg : ∀ g ∈ groups, Gathers pairs g) :
    ∀ g ∈ addToGroup key value groups, Gathers pairs g := by
  induction groups with
  | nil =>
    intro g hgr
    rw [mem_singleton.mp hgr]
    refine ⟨⟨value, rfl, hm⟩, fun other hv => ?_⟩
    rw [mem_singleton.mp hv]
    exact ⟨key, hm, mem_singleton_self value, .inl rfl⟩
  | cons first rest ih =>
    obtain ⟨hh, ht⟩ := forall_mem_cons.mp hg
    rw [Zmk.addToGroup]
    split
    · rename_i hs
      refine forall_mem_cons.mpr ⟨⟨?_, fun other h => ?_⟩, ht⟩
      · obtain ⟨old, hf, hp⟩ := hh.first
        exact ⟨old, by rw [head?_append, hf]; rfl, hp⟩
      · rcases mem_append.mp h with old | new
        · obtain ⟨k, hp, -, hk⟩ := hh.each other old
          exact ⟨k, hp, h, hk⟩
        · rw [mem_singleton.mp new] at h ⊢
          exact ⟨key, hm, h, .inr hs⟩
    · exact forall_mem_cons.mpr ⟨hh, ih ht⟩

theorem exists_inGroup_addToGroup {p : Document × β} (hf : p = (key, value) ∨ ∃ g ∈ groups, InGroup p g) :
    ∃ g ∈ addToGroup key value groups, InGroup p g := by
  induction groups with
  | nil =>
    obtain rfl := hf.resolve_right (by simp)
    exact ⟨_, mem_singleton_self _, mem_singleton_self _, .inl rfl⟩
  | cons first rest ih =>
    rw [addToGroup]
    split
    · rename_i hs
      rcases hf with rfl | ⟨g, hm, h⟩
      · exact ⟨_, mem_cons_self, mem_append_right _ (mem_singleton_self _), .inr hs⟩
      · rcases mem_cons.mp hm with rfl | hl
        · exact ⟨_, mem_cons_self, mem_append_left _ h.1, h.2⟩
        · exact ⟨g, mem_cons_of_mem _ hl, h⟩
    · have ho : (∃ g ∈ rest, InGroup p g) ∨ p = (key, value) → ∃ g ∈ first :: addToGroup key value rest,
          InGroup p g := by
        intro hf
        obtain ⟨g, hm, h⟩ := ih hf.symm
        exact ⟨g, mem_cons_of_mem _ hm, h⟩
      rcases hf with hn | ⟨g, hm, h⟩
      · exact ho (.inr hn)
      · rcases mem_cons.mp hm with rfl | hl
        · exact ⟨_, mem_cons_self, h⟩
        · exact ho (.inl ⟨g, hl, h⟩)

theorem mem_addToGroup {g : Document × List β} (h : g ∈ addToGroup key value groups) :
    g.1 = key ∨ ∃ g' ∈ groups, g.1 = g'.1 := by
  induction groups with
  | nil =>
    obtain rfl := mem_singleton.mp h
    exact .inl rfl
  | cons first rest ih =>
    rw [addToGroup] at h
    split at h
    · rcases mem_cons.mp h with rfl | hl
      · exact .inr ⟨first, mem_cons_self, rfl⟩
      · exact .inr ⟨g, mem_cons_of_mem _ hl, rfl⟩
    · rcases mem_cons.mp h with rfl | hl
      · exact .inr ⟨first, mem_cons_self, rfl⟩
      · rcases ih hl with hs | ⟨g', hr, hs⟩
        · exact .inl hs
        · exact .inr ⟨g', mem_cons_of_mem _ hr, hs⟩

theorem addToGroup_apart (h : groups.Pairwise fun a b => a.1.same b.1 = false) :
    (addToGroup key value groups).Pairwise fun a b => a.1.same b.1 = false := by
  induction groups with
  | nil => exact pairwise_singleton _ _
  | cons first rest ih =>
    obtain ⟨hf, h⟩ := pairwise_cons.mp h
    rw [addToGroup]
    split
    · exact pairwise_cons.mpr ⟨hf, h⟩
    · rename_i ho
      refine pairwise_cons.mpr ⟨fun g hm => ?_, ih h⟩
      rcases mem_addToGroup hm with hk | ⟨g', hr, hk⟩
      · rw [hk]
        exact Bool.eq_false_iff.mpr ho
      · rw [hk]
        exact hf g' hr

structure Grouped (pairs : List (Document × β)) (groups : List (Document × List β)) : Prop where
  apart : groups.Pairwise fun a b => a.1.same b.1 = false
  gathers : ∀ g ∈ groups, Gathers pairs g
  found : ∀ p ∈ pairs, ∃ g ∈ groups, InGroup p g

theorem grouped_groupBy (pairs : List (Document × β)) : Grouped pairs (groupBy pairs) := by
  have hfl : ∀ rest : List (Document × β), (∀ p ∈ rest, p ∈ pairs) → ∀ groups : List (Document × List β),
      (groups.Pairwise fun a b => a.1.same b.1 = false) → (∀ g ∈ groups, Gathers pairs g) →
      let result := rest.foldl (fun acc p => addToGroup p.1 p.2 acc) groups
      (result.Pairwise fun a b => a.1.same b.1 = false) ∧ (∀ g ∈ result, Gathers pairs g) ∧
        ∀ p, (p ∈ rest ∨ ∃ g ∈ groups, InGroup p g) → ∃ g ∈ result, InGroup p g := by
    intro rest
    induction rest with
    | nil => exact fun _ groups h hg => ⟨h, hg, fun p hf => hf.resolve_left (by simp)⟩
    | cons first rest ih =>
      intro hw groups h hg
      obtain ⟨hp, hw⟩ := forall_mem_cons.mp hw
      obtain ⟨h, hg, hf⟩ := ih hw _ (addToGroup_apart h) (Gathers.addToGroup hp hg)
      refine ⟨h, hg, fun p hm => hf p ?_⟩
      rcases hm with hm | old
      · rcases mem_cons.mp hm with rfl | hl
        · exact .inr (exists_inGroup_addToGroup (.inl rfl))
        · exact .inl hl
      · exact .inr (exists_inGroup_addToGroup (.inr old))
  obtain ⟨h, hg, hf⟩ := hfl pairs (fun _ hm => hm) [] .nil (by simp)
  exact ⟨h, hg, fun p hm => hf p (.inl hm)⟩

end Keymap.Zmk
