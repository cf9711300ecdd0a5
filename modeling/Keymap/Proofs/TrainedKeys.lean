import Keymap.Proofs.MagicFamilies
import Keymap.Proofs.ZmkTraining
import Keymap.Zmk.Layers

namespace Keymap.Zmk

open List

section Tables

variable {β : Type}

def asBindings (table : List (String × β)) : List (Document × β) :=
  table.map fun e => (.text e.1, e.2)

theorem asBindings_cons (e : String × β) (table : List (String × β)) :
    asBindings (e :: table) = (.text e.1, e.2) :: asBindings table := rfl

theorem same_text (s t : String) : (Document.text s).same (.text t) = (t == s) := rfl

theorem addToGroup_asBindings (s : String) (v : β) (table : List (String × List β)) :
    addToGroup (.text s) v (asBindings table) =
      asBindings (assign s ((table.lookup s).getD [] ++ [v]) table) := by
  induction table with
  | nil => rfl
  | cons first rest ih =>
    rw [asBindings_cons, addToGroup, same_text, assign, lookup_cons]
    by_cases h : s = first.1
    · subst h
      simp [asBindings_cons]
    · have ha : (s == first.1) = false := beq_false_of_ne h
      rw [if_neg (by simp [ha]), if_neg (by simpa using Ne.symm h), ha]
      exact congrArg _ ih

def grouped (pairs : List (String × β)) : List (String × List β) :=
  pairs.foldl (fun table p => assign p.1 ((table.lookup p.1).getD [] ++ [p.2]) table) []

theorem groupBy_asBindings (pairs : List (String × β)) :
    groupBy (asBindings pairs) = asBindings (grouped pairs) := by
  have h : ∀ table : List (String × List β),
      (asBindings pairs).foldl (fun acc p => addToGroup p.1 p.2 acc) (asBindings table) =
        asBindings (pairs.foldl (fun table p => assign p.1 ((table.lookup p.1).getD [] ++ [p.2]) table)
          table) := by
    induction pairs with
    | nil => exact fun _ => rfl
    | cons first rest ih =>
      intro table
      rw [asBindings_cons, foldl_cons, foldl_cons, addToGroup_asBindings]
      exact ih _
  exact h []

theorem lookup_grouped (pairs : List (String × β)) (s : String) :
    ((grouped pairs).lookup s).getD [] = (pairs.filter fun p => s == p.1).map (·.2) := by
  have hf : ∀ table : List (String × List β),
      ((pairs.foldl (fun table p => assign p.1 ((table.lookup p.1).getD [] ++ [p.2]) table)
        table).lookup s).getD [] = (table.lookup s).getD [] ++ (pairs.filter fun p => s == p.1).map (·.2) := by
    induction pairs with
    | nil => simp
    | cons first rest ih =>
      intro table
      rw [foldl_cons, ih, lookup_assign, filter_cons]
      by_cases h : s = first.1
      · simp [h]
      · simp [beq_false_of_ne h]
  exact hf []

theorem grouped_invariant (pairs : List (String × β)) :
    ((grouped pairs).map (·.1)).Nodup ∧ ∀ e ∈ grouped pairs, e.2 ≠ [] := by
  have hf : ∀ table : List (String × List β), (table.map (·.1)).Nodup ∧ (∀ e ∈ table, e.2 ≠ []) →
      let result := pairs.foldl (fun table p => assign p.1 ((table.lookup p.1).getD [] ++ [p.2]) table) table
      (result.map (·.1)).Nodup ∧ ∀ e ∈ result, e.2 ≠ [] := by
    induction pairs with
    | nil => exact fun _ hh => hh
    | cons first rest ih =>
      rintro table ⟨h, hp⟩
      refine ih _ ⟨nodup_assign h, fun e hm => ?_⟩
      rcases mem_assign hm with rfl | old
      · simp
      · exact hp e old
  exact hf [] ⟨nodup_nil, by simp⟩

theorem mem_grouped {pairs : List (String × β)} {e : String × List β} (h : e ∈ grouped pairs) :
    e.2 = (pairs.filter fun p => e.1 == p.1).map (·.2) ∧ e.2 ≠ [] := by
  refine ⟨?_, (grouped_invariant pairs).2 e h⟩
  rw [← lookup_grouped, lookup_of_mem (grouped_invariant pairs).1 h, Option.getD_some]

theorem exists_mem_grouped {pairs : List (String × β)} {p : String × β} (hm : p ∈ pairs) :
    ∃ values, (p.1, values) ∈ grouped pairs := by
  cases h : (grouped pairs).lookup p.1 with
  | some values => exact ⟨values, mem_of_lookup h⟩
  | none =>
    have he := lookup_grouped pairs p.1
    rw [h, Option.getD_none, eq_comm, map_eq_nil_iff, filter_eq_nil_iff] at he
    exact absurd (beq_self_eq_true p.1) (he p hm)

end Tables

section Replacing

def substitute (r : List (Document × String)) (code : String) : String :=
  ((r.find? fun e => e.1.same (.text code)).map (·.2)).getD code

def entryOf (table : List (Document × String)) (code : String) : Option String :=
  (table.find? fun e => e.1.same (.text code)).map (·.2)

theorem entryOf_cons (e : Document × String) (table : List (Document × String)) (code : String) :
    entryOf (e :: table) code = if e.1.same (.text code) then some e.2 else entryOf table code := by
  rw [entryOf, find?_cons]
  cases e.1.same (.text code) <;> rfl

theorem entryOf_replaceBy (binding : Document) (replacement : String) (table : List (Document × String))
    (code : String) : entryOf (replaceBy binding replacement table) code =
      if binding.same (.text code) then some replacement else entryOf table code := by
  induction table with
  | nil => rw [replaceBy, entryOf_cons]
  | cons first rest ih =>
    obtain ⟨key, old⟩ := first
    rw [replaceBy]
    split
    · -- The entry in whose place the replacement comes has the key if the binding has it.
      rename_i hs
      rw [entryOf_cons, entryOf_cons]
      by_cases h : binding.same (.text code)
      · obtain rfl := Document.eq_text_of_same h
        rw [if_pos hs, if_pos h]
      · have ha : key.same (.text code) = false := by
          refine Bool.eq_false_iff.mpr fun hk => h ?_
          obtain rfl := Document.eq_text_of_same hk
          rw [Document.eq_text_of_text_same hs, same_text, beq_self_eq_true]
        rw [if_neg h, ha]
        rfl
    · rename_i ho
      rw [entryOf_cons, entryOf_cons, ih]
      by_cases h : binding.same (.text code)
      · obtain rfl := Document.eq_text_of_same h
        rw [if_pos h, if_neg ho, if_pos h]
      · rw [if_neg h, if_neg h]

theorem substitute_eq (r : List (Document × String)) (code : String) :
    substitute r code = (entryOf r code).getD code := rfl

theorem entryOf_asBindings (table : List (String × String)) (code : String) :
    entryOf (asBindings table) code = table.lookup code := by
  induction table with
  | nil => rfl
  | cons first rest ih =>
    rw [asBindings_cons, entryOf_cons, same_text, lookup_cons, ih]
    cases code == first.1 <;> rfl

theorem replaceBy_asBindings (s replacement : String) (table : List (String × String)) :
    replaceBy (.text s) replacement (asBindings table) = asBindings (assign s replacement table) := by
  induction table with
  | nil => rfl
  | cons first rest ih =>
    rw [asBindings_cons, replaceBy, same_text, assign]
    by_cases h : s = first.1
    · subst h
      simp [asBindings_cons]
    · rw [if_neg (by simpa using h), if_neg (by simpa using Ne.symm h), ih]
      rfl

theorem replaceAllBy_asBindings (start entries : List (String × String)) :
    replaceAllBy (asBindings start) (asBindings entries) = asBindings (assignAll start entries) := by
  induction entries generalizing start with
  | nil => rfl
  | cons first rest ih =>
    rw [replaceAllBy, asBindings_cons, foldl_cons, replaceBy_asBindings]
    exact ih _

theorem substitute_replaceAllBy (f : String → String) (codes : List String) (code : String) :
    substitute (replaceAllBy [] (codes.map fun s => (.text s, f s))) code =
      if code ∈ codes then f code else code := by
  have ht : codes.map (fun s => (Document.text s, f s)) = asBindings (codes.map fun s => (s, f s)) := by
    rw [asBindings, map_map]
    rfl
  rw [ht, show ([] : List (Document × String)) = asBindings [] from rfl,
    replaceAllBy_asBindings, substitute_eq, entryOf_asBindings]
  cases h : (assignAll [] (codes.map fun s => (s, f s))).lookup code with
  | none =>
    rw [lookup_eq_none_iff_not_mem, mem_names_assignAll] at h
    rw [if_neg (by simpa using h), Option.getD_none]
  | some value =>
    rcases mem_assignAll (mem_of_lookup h) with none | he
    · cases none
    · obtain ⟨s, hm, hs⟩ := mem_map.mp he
      obtain ⟨rfl, rfl⟩ := Prod.mk.inj hs
      rw [if_pos hm, Option.getD_some]

theorem substitute_replaceBy {code replaced : String} (h : code ≠ replaced) (replacement : String)
    (r : List (Document × String)) :
    substitute (replaceBy (.text replaced) replacement r) code = substitute r code := by
  rw [substitute_eq, entryOf_replaceBy, same_text, beq_false_of_ne h, if_neg Bool.false_ne_true, substitute_eq]

end Replacing

section HomeRow

variable {keycodes : Entries} {table : BehaviorTable} {kind : String}

theorem wrapLayers_eq_ok {family : CompiledLayer → Result (Option (String × List Trained))}
    {layers : List CompiledLayer} {wrapped : List (String × Wrapped)}
    (hd : wrapLayers keycodes table kind family layers = .ok wrapped) :
    (∀ layer ∈ layers, ∃ found, family layer = .ok found) ∧ ∀ w ∈ wrapped, isHomeRow w.2.replaced ∧
      ∃ layer ∈ layers, ∃ trained, family layer = .ok (some (w.1, trained)) := by
  constructor
  · intro layer h
    obtain ⟨groups, hgr, -⟩ := bind_eq_ok.mp hd
    obtain ⟨group, -, hg⟩ := forall₂_mem_right (mapM_eq_ok.mp hgr).flip h
    obtain ⟨found, hfn, -⟩ := bind_eq_ok.mp hg
    exact ⟨found, hfn⟩
  · intro w h
    obtain ⟨layer, hl, trained, hf, key, -, hw⟩ := (mem_wrapLayers hd).mp h
    obtain ⟨k, tap, t, field, hk, -, -, -, hn⟩ := wrapBinding_eq_some.mp hw
    rw [hn]
    exact ⟨(homeRowKey?_eq_some hk).2.1, layer, hl, trained, hf⟩

end HomeRow

section Counting

theorem count_identifierChars (inRun : Bool) (cs : List Char) :
    (Text.identifierChars inRun cs).count 'n' = cs.count 'n' := by
  induction cs generalizing inRun with
  | nil => rfl
  | cons c cs ih =>
    rw [Text.identifierChars]
    split
    · rw [count_cons, count_cons, ih]
    · rename_i ha
      have h : c ≠ 'n' := by
        rintro rfl
        exact ha (by decide)
      split
      · rw [ih, count_cons_of_ne h]
      · rw [count_cons_of_ne (by decide), ih, count_cons_of_ne h]

theorem count_dropWhile {drop : Char → Bool} (hk : drop 'n' = false) (cs : List Char) :
    (cs.dropWhile drop).count 'n' = cs.count 'n' := by
  induction cs with
  | nil => rfl
  | cons c cs ih =>
    rw [dropWhile_cons]
    split
    · rename_i h
      have ho : c ≠ 'n' := by
        rintro rfl
        rw [hk] at h
        cases h
      rw [ih, count_cons_of_ne ho]
    · rfl

theorem count_le_lowerChars (before cs : List Char) : cs.count 'n' ≤ (Text.lowerChars before cs).count 'n' := by
  induction cs generalizing before with
  | nil => exact Nat.zero_le _
  | cons c cs ih =>
    have hl := ih (c :: before)
    rw [Text.lowerChars, count_append, count_cons]
    by_cases h : c = 'n'
    · subst h
      have one : (Text.lowerWithin before 'n' cs).count 'n' = 1 := by
        change (Text.lowerOf 'n').count 'n' = 1
        decide +kernel
      simp only [beq_self_eq_true, if_true, one]
      omega
    · simp only [beq_iff_eq, h, if_false]
      omega

theorem count_le_replace {old : String} {w : Char} (hp : old.toList ≠ []) (ho : w ∉ old.toList)
    (new s : String) : s.toList.count w ≤ (Text.replace old new s).toList.count w := by
  cases h : old.toList with
  | nil => exact absurd h hp
  | cons first rest =>
    rw [h] at ho
    rw [Text.replace, h, isEmpty_cons, if_neg Bool.false_ne_true, String.toList_ofList]
    obtain ⟨times, hc⟩ := Text.count_replaceFrom ho new.toList 0 s.toList
    rw [hc, drop_zero]
    exact Nat.le_add_right _ _

theorem count_le_labelOf (token : String) : token.toList.count 'n' ≤ (labelOf token).toList.count 'n' := by
  unfold labelOf
  extract_lets plain fragment
  have hp : token.toList.count 'n' ≤ plain.toList.count 'n' := by
    refine Nat.le_trans ?_ (count_le_replace (by decide) (by decide) _ _)
    refine Nat.le_trans ?_ (count_le_replace (by decide) (by decide) _ _)
    refine Nat.le_trans ?_ (count_le_replace (by decide) (by decide) _ _)
    exact count_le_replace (by decide) (by decide) _ _
  have hf : plain.toList.count 'n' ≤ fragment.toList.count 'n' := by
    have h : ((· == '_') 'n') = false := by decide
    have ht : (Text.identifierFragment plain).toList.count 'n' = plain.toList.count 'n' := by
      rw [Text.identifierFragment, Text.trimBy, String.toList_ofList, Text.trimEndChars,
        count_reverse, count_dropWhile h, count_reverse, Text.trimStartChars,
        count_dropWhile h, String.toList_ofList, count_identifierChars]
    rw [← ht]
    unfold fragment
    rw [Text.lower, String.toList_ofList]
    exact count_le_lowerChars [] _
  split
  · rename_i he
    have hn : fragment.toList.count 'n' = 0 := by
      rw [String.isEmpty_iff.mp he]
      rfl
    omega
  · omega

end Counting

end Keymap.Zmk
