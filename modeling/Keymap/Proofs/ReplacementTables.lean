import Keymap.Proofs.TrainingOutcomes

namespace Keymap.Zmk

open List

variable {table : List (Document × String)} {outs keys : List Document}

section Entries

theorem entryOf_replaceAllBy (start entries : List (Document × String)) (code : String) :
    entryOf (replaceAllBy start entries) code =
      ((entries.filter fun e => e.1.same (.text code)).getLast?.map (·.2)).or (entryOf start code) := by
  induction entries generalizing start with
  | nil => rfl
  | cons first rest ih =>
    rw [replaceAllBy, foldl_cons, ← replaceAllBy, ih, entryOf_replaceBy, filter_cons]
    by_cases h : first.1.same (.text code)
    · rw [if_pos h, if_pos h, getLast?_cons]
      cases (rest.filter fun e => e.1.same (.text code)).getLast? <;> rfl
    · rw [if_neg h, if_neg h]

def Single (table : List (Document × String)) : Prop :=
  ∀ code, (table.filter fun e => e.1.same (.text code)).length ≤ 1

theorem Single.replaceBy (single : Single table) (binding : Document) (replacement : String) :
    Single (replaceBy binding replacement table) := by
  intro code
  have hc : ((Zmk.replaceBy binding replacement table).filter fun e => e.1.same (.text code)).length =
      if binding.same (.text code) then max 1 (table.filter fun e => e.1.same (.text code)).length
      else (table.filter fun e => e.1.same (.text code)).length := by
    clear single
    induction table with
    | nil =>
      rw [Zmk.replaceBy, filter_cons]
      split <;> rfl
    | cons first rest ih =>
      obtain ⟨key, old⟩ := first
      rw [Zmk.replaceBy]
      split
      · rename_i hs
        rw [filter_cons, filter_cons]
        by_cases h : binding.same (.text code)
        · obtain rfl := Document.eq_text_of_same h
          rw [if_pos hs, if_pos hs, if_pos h, length_cons, length_cons]
          omega
        · rw [if_neg h]
          split <;> rfl
      · rename_i ho
        rw [filter_cons, filter_cons]
        by_cases h : binding.same (.text code)
        · obtain rfl := Document.eq_text_of_same h
          rw [if_neg ho, if_neg ho, ih]
        · rw [if_neg h] at ih ⊢
          split
          · rw [length_cons, length_cons, ih]
          · exact ih
  have hb := single code
  rw [hc]
  split <;> omega

theorem Single.replaceAllBy {start : List (Document × String)} (h : Single start)
    (entries : List (Document × String)) : Single (replaceAllBy start entries) := by
  induction entries generalizing start with
  | nil => exact h
  | cons first rest ih => exact ih (h.replaceBy first.1 first.2)

theorem Single.entryOf_eq (hs : Single table) (code : String) :
    entryOf table code = (table.filter fun e => e.1.same (.text code)).getLast?.map (·.2) := by
  have h := hs code
  rw [entryOf, ← head?_filter]
  generalize (table.filter fun e => e.1.same (.text code)) = found at h ⊢
  cases found with
  | nil => rfl
  | cons e rest =>
    obtain rfl : rest = [] := length_eq_zero_iff.mp (Nat.le_zero.mp (Nat.le_of_succ_le_succ h))
    rfl

end Entries

section Tables

variable {code name base : String} {wrapped : List (String × Wrapped)} {r : Replacements}

def entryIn (r : Replacements) (name code : String) : Option String :=
  entryOf ((r.lookup name).getD []) code

def inTable (r : Replacements) (name code : String) : String :=
  substitute ((r.lookup name).getD []) code

theorem inTable_eq_entryIn (r : Replacements) (name code : String) :
    inTable r name code = (entryIn r name code).getD code := rfl

theorem entryIn_cons (e : String × List (Document × String)) (r : Replacements) (name code : String) :
    entryIn (e :: r) name code = if e.1 = name then entryOf e.2 code else entryIn r name code := by
  rw [entryIn, lookup_cons]
  by_cases h : e.1 = name
  · rw [if_pos h, h, beq_self_eq_true]
    rfl
  · rw [if_neg h, beq_false_of_ne (Ne.symm h)]
    rfl

theorem entryIn_of_not_mem (h : name ∉ r.map (·.1)) (code : String) : entryIn r name code = none := by
  rw [entryIn, lookup_eq_none_iff_not_mem.mpr h]
  rfl

theorem entryIn_assign (name : String) (table : List (Document × String)) (r : Replacements)
    (base code : String) :
    entryIn (assign name table r) base code = if name = base then entryOf table code else entryIn r base code := by
  rw [entryIn, lookup_assign]
  by_cases h : name = base
  · rw [if_pos h, h, beq_self_eq_true, if_pos rfl, Option.getD_some]
  · rw [if_neg h, beq_false_of_ne (Ne.symm h), if_neg Bool.false_ne_true]
    rfl

theorem entryIn_addReplacement (name replaced replacement : String) (r : Replacements) (base code : String) :
    entryIn (addReplacement name (.text replaced) replacement r) base code =
      if name = base ∧ replaced = code then some replacement else entryIn r base code := by
  rw [addReplacement, entryIn_assign, entryOf_replaceBy, same_text]
  by_cases hh : name = base
  · subst hh
    by_cases hs : replaced = code
    · rw [if_pos rfl, hs, beq_self_eq_true, if_pos rfl, if_pos ⟨rfl, rfl⟩]
    · rw [if_pos rfl, beq_false_of_ne (Ne.symm hs), if_neg Bool.false_ne_true, if_neg fun h => hs h.2]
      rfl
  · rw [if_neg hh, if_neg fun h => hh h.1]

theorem entryIn_of_unwrapped (hn : ∀ w ∈ wrapped, w.1 = base → w.2.replaced ≠ code) (r : Replacements) :
    entryIn (withWrapped wrapped r) base code = entryIn r base code := by
  induction wrapped generalizing r with
  | nil => rfl
  | cons w rest ih =>
    obtain ⟨hh, hl⟩ := forall_mem_cons.mp hn
    refine (ih hl _).trans ?_
    rw [entryIn_addReplacement, if_neg fun h => hh h.1 h.2]

theorem inTable_of_unwrapped (h : ∀ w ∈ wrapped, w.1 = base → w.2.replaced ≠ code) (r : Replacements) :
    inTable (withWrapped wrapped r) base code = inTable r base code := by
  rw [inTable_eq_entryIn, entryIn_of_unwrapped h, inTable_eq_entryIn]

theorem inTable_of_wrapped {replacement : String} (ht : ∃ w ∈ wrapped, w.1 = base ∧ w.2.replaced = code)
    (alike : ∀ w ∈ wrapped, w.1 = base → w.2.replaced = code → w.2.replacement = replacement)
    (r : Replacements) : inTable (withWrapped wrapped r) base code = replacement := by
  induction wrapped generalizing r with
  | nil =>
    obtain ⟨w, hm, -⟩ := ht
    cases hm
  | cons w rest ih =>
    obtain ⟨hh, hl⟩ := forall_mem_cons.mp alike
    by_cases ha : ∃ w ∈ rest, w.1 = base ∧ w.2.replaced = code
    · exact ih ha hl _
    · obtain ⟨w', hm, h, hc⟩ := ht
      obtain rfl : w' = w := by
        rcases mem_cons.mp hm with hs | hr
        · exact hs
        · exact absurd ⟨w', hr, h, hc⟩ ha
      refine (inTable_of_unwrapped (fun x hr h hc => ha ⟨x, hr, h, hc⟩) _).trans ?_
      rw [inTable_eq_entryIn, entryIn_addReplacement, if_pos ⟨h, hc⟩, hh h hc, Option.getD_some]

theorem names_withWrapped (hw : ∀ w ∈ wrapped, w.1 ∈ r.map (·.1)) :
    (withWrapped wrapped r).map (·.1) = r.map (·.1) := by
  induction wrapped generalizing r with
  | nil => rfl
  | cons w rest ih =>
    obtain ⟨hh, hl⟩ := forall_mem_cons.mp hw
    have h : (addReplacement w.1 (.text w.2.replaced) w.2.replacement r).map (·.1) = r.map (·.1) := by
      rw [addReplacement, names_assign, insertOnce, if_pos (contains_iff_mem.mpr hh)]
    exact (ih (h ▸ hl)).trans h

theorem single_withWrapped (wrapped : List (String × Wrapped)) (h : ∀ e ∈ r, Single e.2) :
    ∀ e ∈ withWrapped wrapped r, Single e.2 := by
  induction wrapped generalizing r with
  | nil => exact h
  | cons w rest ih =>
    have hb : Single ((r.lookup w.1).getD []) := by
      cases hf : r.lookup w.1 with
      | none => exact fun _ => Nat.zero_le 1
      | some table => exact h _ (mem_of_lookup hf)
    refine ih fun e hm => ?_
    rcases mem_assign hm with rfl | old
    · exact hb.replaceBy _ _
    · exact h e old

theorem exists_rewritten {magic : Option MagicConfig} (h : trainedKeys r magic name keys = .ok outs) :
    ∃ f, Rewritten f keys outs := by
  rw [trainedKeys] at h
  split at h
  · obtain rfl := pure_eq_ok.mp h
    exact ⟨id, .refl keys⟩
  · obtain ⟨tables, -, h⟩ := bind_eq_ok.mp h
    exact ⟨_, foldlM_replaceBindings h⟩

theorem rewritten_of_family {magic : MagicConfig} {m : MagicMapping}
    (hf : magic.forLayer? (.text name) = .ok (some m)) (hb : m.baseLayer = .text base)
    (h : trainedKeys r (some magic) name keys = .ok outs) : Rewritten (inTable r base) keys outs := by
  rw [trainedKeys] at h
  split at h
  · rename_i he
    obtain rfl := pure_eq_ok.mp h
    obtain rfl := isEmpty_iff.mp he
    exact .refl keys
  · obtain ⟨tables, ht, h⟩ := bind_eq_ok.mp h
    rw [applicable, hf, ok_bind] at ht
    obtain rfl := pure_eq_ok.mp ht
    have hr := foldlM_replaceBindings h
    rw [hb] at hr
    refine hr.imp fun key out one code hc => (one code hc).trans ?_
    rw [inTable]
    change Document.text (((r.lookup base).toList).foldl _ code) = _
    cases r.lookup base <;> rfl

end Tables

section Merging

theorem names_merge (a b : Replacements) : (mergeReplacements a b).map (·.1) =
    (b.map (·.1)).foldl (fun seen name => insertOnce name seen) (a.map (·.1)) := by
  induction b generalizing a with
  | nil => rfl
  | cons first rest ih =>
    rw [mergeReplacements, foldl_cons, ← mergeReplacements, ih, names_assign]
    rfl

theorem entryIn_merge {b : Replacements} (h : (b.map (·.1)).Nodup) (hs : ∀ e ∈ b, Single e.2)
    (a : Replacements) (name code : String) :
    entryIn (mergeReplacements a b) name code = (entryIn b name code).or (entryIn a name code) := by
  induction b generalizing a with
  | nil => rfl
  | cons first rest ih =>
    obtain ⟨base, table⟩ := first
    obtain ⟨hf, h⟩ := nodup_cons.mp h
    obtain ⟨hsn, hs⟩ := forall_mem_cons.mp hs
    rw [mergeReplacements, foldl_cons, ← mergeReplacements, ih h hs, entryIn_assign,
      entryOf_replaceAllBy, ← hsn.entryOf_eq]
    rw [entryIn_cons]
    by_cases hh : base = name
    · subst hh
      rw [entryIn_of_not_mem hf, if_pos rfl, if_pos rfl, Option.none_or]
      rfl
    · rw [if_neg hh, if_neg hh]

end Merging

end Keymap.Zmk
