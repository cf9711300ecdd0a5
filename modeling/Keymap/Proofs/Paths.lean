import Keymap.Path
import Keymap.Proofs.Texts

namespace Keymap.Path

open List

variable {path : String} {parts : List String} {ending name : String} {top : Bool}

def IsName (name : String) : Prop :=
  '/' ∉ name.toList ∧ name ≠ "" ∧ name ≠ "."

theorem isName_of_mem_names (hm : name ∈ names path) : IsName name := by
  obtain ⟨hp, hpr⟩ := mem_filter.mp hm
  obtain ⟨piece, h, rfl⟩ := mem_map.mp hp
  have hs : String.ofList piece ≠ "" ∧ String.ofList piece ≠ "." := by
    simpa using hpr
  refine ⟨?_, hs⟩
  rw [String.toList_ofList]
  intro hsl
  cases (Text.mem_splitChars h hsl).2

theorem names_slash (a b : String) : names (a ++ "/" ++ b) = names a ++ names b := by
  rw [names, names, names, Text.split, Text.splitChars_joined rfl, map_append, filter_append]
  rfl

theorem names_of_isName (hp : IsName name) : names name = [name] := by
  obtain ⟨h, hne, hn⟩ := hp
  simp [names, Text.split_of_not_mem h, hne, hn]

theorem names_join_slash (h : ∀ name ∈ parts, IsName name) : names (Text.join "/" parts) = parts := by
  induction parts with
  | nil => rfl
  | cons first rest ih =>
    cases rest with
    | nil =>
      have hs : Text.join "/" [first] = first := by simp [Text.join]
      rw [hs, names_of_isName (h first mem_cons_self)]
    | cons second rest =>
      have hmr : Text.join "/" (first :: second :: rest) =
          first ++ "/" ++ Text.join "/" (second :: rest) := by
        simp [Text.join]
      rw [hmr, names_slash, names_of_isName (h first mem_cons_self),
        ih fun name hm => h name (mem_cons_of_mem _ hm)]
      rfl

theorem isAbsolute_iff : isAbsolute path ↔ ∃ rest, path.toList = '/' :: rest := by
  rw [isAbsolute, Text.startsWith, isPrefixOf_iff_prefix]
  constructor
  · rintro ⟨rest, h⟩
    exact ⟨rest, h.symm⟩
  · rintro ⟨rest, h⟩
    exact ⟨rest, h.symm⟩

theorem isAbsolute_slash {a : String} (hg : a ≠ "") (b : String) :
    isAbsolute (a ++ "/" ++ b) = isAbsolute a := by
  have h : (a ++ "/" ++ b).toList = a.toList ++ '/' :: b.toList := by
    simp [String.toList_append]
  rw [Bool.eq_iff_iff, isAbsolute_iff, isAbsolute_iff, h]
  cases hl : a.toList with
  | nil => exact absurd (String.toList_inj.mp hl) hg
  | cons c cs => simp

theorem names_ofNames (h : ∀ name ∈ parts, IsName name) : names (ofNames top parts) = parts := by
  cases top with
  | false => simpa [ofNames] using names_join_slash h
  | true =>
    have hw := names_slash "" (Text.join "/" parts)
    have he : names "" = [] := rfl
    rw [names_join_slash h, he] at hw
    simpa [ofNames] using hw

theorem isAbsolute_ofNames (hp : ∀ name ∈ parts, IsName name) : isAbsolute (ofNames top parts) = top := by
  cases top with
  | true => simp [ofNames, isAbsolute_iff, String.toList_append]
  | false =>
    rw [Bool.eq_false_iff, Ne, isAbsolute_iff]
    rintro ⟨rest, h⟩
    cases parts with
    | nil => simp [ofNames, Text.join] at h
    | cons first parts =>
      obtain ⟨hs, hn, -⟩ := hp first mem_cons_self
      have hst : ∃ tail, (ofNames false (first :: parts)).toList = first.toList ++ tail := by
        cases parts with
        | nil => exact ⟨[], by simp [ofNames, Text.join]⟩
        | cons second parts => exact ⟨_, by simp [ofNames, Text.join, String.toList_append]; rfl⟩
      obtain ⟨tail, hl⟩ := hst
      rw [hl] at h
      cases hc : first.toList with
      | nil => exact hn (String.toList_inj.mp hc)
      | cons c cs =>
        rw [hc] at h
        have hsl : c = '/' := (cons.inj h).1
        rw [hc, hsl] at hs
        exact hs mem_cons_self

theorem names_clean (path : String) : names (clean path) = names path :=
  names_ofNames fun _ => isName_of_mem_names

theorem isAbsolute_clean (path : String) : isAbsolute (clean path) = isAbsolute path :=
  isAbsolute_ofNames fun _ => isName_of_mem_names

theorem names_join (start : String) (h : isAbsolute path = false) :
    names (join start path) = names start ++ names path := by
  simp [join, h, names_clean, names_slash]

theorem isAbsolute_join {start : String} (h : start ≠ "") (hr : isAbsolute path = false) :
    isAbsolute (join start path) = isAbsolute start := by
  simp [join, hr, isAbsolute_clean, isAbsolute_slash h]

theorem names_parent (path : String) : names (parent path) = (names path).dropLast :=
  names_ofNames fun _ h => isName_of_mem_names (dropLast_subset _ h)

theorem isAbsolute_parent (path : String) : isAbsolute (parent path) = isAbsolute path :=
  isAbsolute_ofNames fun _ h => isName_of_mem_names (dropLast_subset _ h)

theorem exists_names_append (s : String) : ∃ above last, above ⊆ names s ∧ '/' ∉ last.toList ∧
    ∀ ending, names (s ++ ending) = above ++ names (last ++ ending) := by
  by_cases hs : '/' ∈ s.toList
  · obtain ⟨after, before, hw, ha⟩ := eq_append_cons_of_mem (mem_reverse.mpr hs)
    have hc : s.toList = before.reverse ++ '/' :: after.reverse := by
      simpa using congrArg reverse hw
    have h : s = String.ofList before.reverse ++ "/" ++ String.ofList after.reverse := by
      apply String.toList_inj.mp
      simp [hc, String.toList_append]
    refine ⟨names (String.ofList before.reverse), String.ofList after.reverse, ?_, ?_, fun ending => ?_⟩
    · rw [h, names_slash]
      exact subset_append_left _ _
    · simpa using ha
    · rw [h, String.append_assoc, names_slash]
  · exact ⟨[], s, nil_subset _, hs, fun ending => rfl⟩

theorem names_append (hs : '/' ∉ ending.toList) (long : 1 < ending.toList.length) (s : String) :
    ∃ above last, above ⊆ names s ∧ names (s ++ ending) = above ++ [last ++ ending] := by
  obtain ⟨above, last, hw, h, hn⟩ := exists_names_append s
  have hp : IsName (last ++ ending) := by
    have hl : (last ++ ending).toList.length = last.toList.length + ending.toList.length := by
      rw [String.toList_append, length_append]
    refine ⟨by simp [String.toList_append, h, hs], fun he => ?_, fun dot => ?_⟩
    · have hnn : (last ++ ending).toList.length = 0 := by rw [he]; rfl
      omega
    · have one : (last ++ ending).toList.length = 1 := by rw [dot]; rfl
      omega
  exact ⟨above, last, hw, by rw [hn, names_of_isName hp]⟩

structure Inner (path : String) : Prop where
  relative : isAbsolute path = false
  down : ".." ∉ names path

instance (path : String) : Decidable (Inner path) :=
  decidable_of_iff (isAbsolute path = false ∧ ".." ∉ names path)
    ⟨fun inner => ⟨inner.1, inner.2⟩, fun inner => ⟨inner.relative, inner.down⟩⟩

namespace Inner

theorem parent (h : Inner path) : Inner (Path.parent path) := by
  refine ⟨by rw [isAbsolute_parent, h.relative], fun up => h.down ?_⟩
  rw [names_parent] at up
  exact dropLast_subset _ up

theorem join {directory : String} (hi : Inner directory) (hn : names directory ≠ [])
    (h : Inner path) : Inner (Path.join directory path) := by
  have hg : directory ≠ "" := by
    rintro rfl
    exact hn rfl
  refine ⟨by rw [isAbsolute_join hg h.relative, hi.relative], ?_⟩
  rw [names_join directory h.relative, mem_append]
  exact fun up => up.elim hi.down h.down

theorem slash (h : Inner path) (hn : names path ≠ []) {rest : String} (hd : ".." ∉ names rest) :
    Inner (path ++ "/" ++ rest) := by
  have hg : path ≠ "" := by
    rintro rfl
    exact hn rfl
  refine ⟨by rw [isAbsolute_slash hg, h.relative], ?_⟩
  rw [names_slash, mem_append]
  exact fun up => up.elim h.down hd

theorem append (hi : Inner path) (hs : '/' ∉ ending.toList) (long : 2 < ending.toList.length) :
    Inner (path ++ ending) := by
  obtain ⟨above, last, hw, hn⟩ := names_append hs (by omega) path
  constructor
  · rw [Bool.eq_false_iff, Ne, isAbsolute_iff]
    rintro ⟨rest, h⟩
    rw [String.toList_append] at h
    cases hc : path.toList with
    | nil =>
      rw [hc, nil_append] at h
      exact hs (by simp [h])
    | cons c cs =>
      rw [hc, cons_append] at h
      have hsl := (cons.inj h).1
      have ha := isAbsolute_iff.mpr ⟨cs, by rw [hc, hsl]⟩
      rw [hi.relative] at ha
      cases ha
  · rw [hn, mem_append, mem_singleton]
    rintro (hm | up)
    · exact hi.down (hw hm)
    · have hl := congrArg (fun t => t.toList.length) up
      simp [String.toList_append] at hl
      omega

end Inner

end Keymap.Path
