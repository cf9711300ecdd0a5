import Keymap.Vocabulary
import Mathlib.Data.List.Basic

namespace Keymap

open List

variable {α β : Type} [BEq α] [LawfulBEq α] {name key : α} {table entries : List (α × β)} {value : β}
  {e : α × β} {s : String} {d : Document} {start : List (α × β)}

theorem mem_assign (h : e ∈ assign key value table) : e = (key, value) ∨ e ∈ table := by
  induction table with
  | nil => exact .inl (mem_singleton.mp h)
  | cons first rest ih =>
    rw [assign] at h
    split at h
    · rename_i hs
      rcases mem_cons.mp h with rfl | hl
      · exact .inl (by rw [eq_of_beq hs])
      · exact .inr (mem_cons_of_mem _ hl)
    · rcases mem_cons.mp h with rfl | hl
      · exact .inr mem_cons_self
      · exact (ih hl).imp_right (mem_cons_of_mem _)

theorem exists_mem_assign (key : α) (value : β) (table : List (α × β)) (name : α)
    (h : name = key ∨ name ∈ table.map (·.1)) : name ∈ (assign key value table).map (·.1) := by
  induction table with
  | nil => simpa [assign] using h
  | cons first rest ih =>
    rw [assign]
    split
    · rename_i hs
      rcases h with rfl | h
      · rw [← eq_of_beq hs]
        exact mem_cons_self
      · exact h
    · rw [map_cons, mem_cons] at h ⊢
      rcases h with rfl | rfl | h
      · exact .inr (ih (.inl rfl))
      · exact .inl rfl
      · exact .inr (ih (.inr h))

theorem lookup_assign (key name : α) (value : β) (table : List (α × β)) : (assign key value table).lookup name =
      if name == key then some value else table.lookup name := by
  induction table with
  | nil =>
    rw [assign, lookup_cons]
    cases name == key <;> rfl
  | cons first rest ih =>
    rw [assign]
    split
    · rename_i hs
      rw [lookup_cons, lookup_cons, eq_of_beq hs]
      cases name == key <;> rfl
    · rename_i ho
      rw [lookup_cons, lookup_cons, ih]
      by_cases h : (name == first.1)
      · have ha : (name == key) = false := by
          rw [eq_of_beq h]
          simpa using ho
        simp [h, ha]
      · simp [h]

theorem assign_of_not_mem (h : key ∉ table.map (·.1)) : assign key value table = table ++ [(key, value)] := by
  induction table with
  | nil => rfl
  | cons first rest ih =>
    rw [map_cons, mem_cons, not_or] at h
    rw [assign, if_neg (by simpa using Ne.symm h.1), ih h.2, cons_append]

theorem assign_of_mem (h : (table.map (·.1)).Nodup) (ht : key ∈ table.map (·.1)) :
    assign key value table = table.map fun e => if e.1 == key then (e.1, value) else e := by
  induction table with
  | nil => cases ht
  | cons first rest ih =>
    rw [map_cons, nodup_cons] at h
    rw [assign, map_cons]
    split
    · rename_i hs
      have ha : ∀ e ∈ rest, (if e.1 == key then (e.1, value) else e) = e := by
        intro e hm
        rw [if_neg]
        intro hh
        exact h.1 (eq_of_beq hs ▸ eq_of_beq hh ▸ mem_map_of_mem hm)
      rw [map_congr_left ha, map_id']
    · rename_i ho
      rw [map_cons, mem_cons] at ht
      rcases ht with rfl | hl
      · exact absurd (beq_self_eq_true _) ho
      · rw [ih h.2 hl]

theorem lookup_isSome_iff_mem : (table.lookup key).isSome ↔ key ∈ table.map (·.1) := by
  rw [lookup_isSome_iff, mem_map]
  exact exists_congr fun e => and_congr_right fun _ => ⟨fun h => (eq_of_beq h).symm,
    fun h => beq_iff_eq.mpr h.symm⟩

theorem lookup_eq_none_iff_not_mem : table.lookup key = none ↔ key ∉ table.map (·.1) := by
  rw [← lookup_isSome_iff_mem, Option.not_isSome_iff_eq_none]

theorem lookup_of_mem (h : (table.map (·.1)).Nodup) (hm : e ∈ table) : table.lookup e.1 = some e.2 := by
  induction table with
  | nil => cases hm
  | cons first rest ih =>
    rw [map_cons, nodup_cons] at h
    rw [lookup_cons]
    rcases mem_cons.mp hm with rfl | hl
    · rw [beq_self_eq_true]
    · have ha : e.1 ≠ first.1 := fun hs => h.1 (hs ▸ mem_map_of_mem hl)
      rw [beq_false_of_ne ha]
      exact ih h.2 hl

theorem nodup_assign (hd : (table.map (·.1)).Nodup) : ((assign key value table).map (·.1)).Nodup := by
  by_cases h : key ∈ table.map (·.1)
  · have hn : (assign key value table).map (·.1) = table.map (·.1) := by
      rw [assign_of_mem hd h, map_map]
      apply map_congr_left
      intro e _
      by_cases hs : e.1 == key <;> simp [hs]
    rwa [hn]
  · rw [assign_of_not_mem h, map_append, nodup_append]
    refine ⟨hd, by simp, ?_⟩
    rintro name hm _ hk rfl
    obtain rfl := mem_singleton.mp hk
    exact h hm

theorem mem_assignAll (h : e ∈ assignAll start entries) : e ∈ start ∨ e ∈ entries := by
  induction entries generalizing start with
  | nil => exact .inl h
  | cons first rest ih =>
    rcases ih h with old | hl
    · rcases mem_assign old with rfl | old
      · exact .inr mem_cons_self
      · exact .inl old
    · exact .inr (mem_cons_of_mem _ hl)

theorem exists_mem_assignAll (h : name ∈ start.map (·.1) ∨ name ∈ entries.map (·.1)) :
    name ∈ (assignAll start entries).map (·.1) := by
  induction entries generalizing start with
  | nil => simpa [assignAll] using h
  | cons first rest ih =>
    apply ih
    rw [map_cons, mem_cons] at h
    rcases h with old | rfl | hl
    · exact .inl (exists_mem_assign _ _ _ _ (.inr old))
    · exact .inl (exists_mem_assign _ _ _ _ (.inl rfl))
    · exact .inr hl

theorem assignAll_of_nodup (start : List (α × β)) (h : ((start ++ entries).map (·.1)).Nodup) :
    assignAll start entries = start ++ entries := by
  induction entries generalizing start with
  | nil => simp [assignAll]
  | cons e entries ih =>
    have new : e.1 ∉ start.map (·.1) := by
      rw [map_append, nodup_append] at h
      intro old
      exact h.2.2 e.1 old e.1 (by simp) rfl
    have same : start ++ e :: entries = (start ++ [e]) ++ entries := by simp
    rw [assignAll, foldl_cons, assign_of_not_mem new, ← assignAll, same]
    exact ih _ (same ▸ h)

theorem mem_names_assignAll : name ∈ (assignAll [] entries).map (·.1) ↔ name ∈ entries.map (·.1) := by
  constructor
  · intro h
    obtain ⟨e, ht, rfl⟩ := mem_map.mp h
    rcases mem_assignAll ht with hn | he
    · cases hn
    · exact mem_map_of_mem he
  · exact fun h => exists_mem_assignAll (.inr h)

theorem mem_of_lookup (h : table.lookup name = some value) : (name, value) ∈ table := by
  obtain ⟨before, after, rfl, -⟩ := lookup_eq_some_iff.mp h
  exact mem_append_right _ mem_cons_self

theorem mem_insertOnce {x y : α} {xs : List α} : y ∈ insertOnce x xs ↔ y = x ∨ y ∈ xs := by
  unfold insertOnce
  split
  · rename_i ht
    refine ⟨.inr, fun h => ?_⟩
    rcases h with rfl | h
    · exact contains_iff_mem.mp ht
    · exact h
  · rw [mem_append, mem_singleton, or_comm]

theorem Document.eq_text_of_same (h : d.same (.text s)) : d = .text s := by
  cases d with
  | text t =>
    rw [Document.same, Document.isWord] at h
    rw [eq_of_beq h]
  | null => cases h
  | flag b | whole n | decimal x | list items | record entries =>
    simp [Document.same, Document.sameNumber, Field.ofDocument?] at h

theorem Document.eq_text_of_text_same (h : (Document.text s).same d) : d = .text s := by
  cases d with
  | text t => rw [eq_of_beq h]
  | _ => cases h

end Keymap
