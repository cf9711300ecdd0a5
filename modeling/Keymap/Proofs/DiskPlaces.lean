import Keymap.Disk
import Keymap.Proofs.Assignments
import Keymap.Proofs.Outcome
import Keymap.Proofs.Paths
import Mathlib.Data.List.Induction

namespace Keymap.Disk

open List

variable {α : Type} {disk disk' : Disk α} {start place : Place} {names : List String} {content : α}
  {name : String}

theorem node?_nil (disk : Disk α) : disk.node? [] = some .directory := rfl

theorem node?_of_ne_nil (disk : Disk α) (h : place ≠ []) : disk.node? place = disk.nodes.lookup place := by
  cases place with
  | nil => contradiction
  | cons name rest => rfl

theorem lookup_filter {β : Type} (keep : Place → Bool) (table : List (Place × β)) (q : Place) :
    (table.filter fun n => keep n.1).lookup q = if keep q then table.lookup q else none := by
  induction table with
  | nil => simp
  | cons first rest ih =>
    obtain ⟨place, value⟩ := first
    by_cases hh : q = place
    · subst hh
      by_cases h : keep q
      · simp [h]
      · rw [filter_cons, if_neg h, ih, if_neg h, if_neg h]
    · have ha : (q == place) = false := by simpa using hh
      by_cases h : keep place
      · rw [filter_cons, if_pos h, lookup_cons, lookup_cons, ha, ih]
      · rw [filter_cons, if_neg h, lookup_cons, ha, ih]

theorem write_eq_ok : write content disk start names = .ok disk' ↔
    ∃ place, disk.walk start names = .ok place ∧ disk.node? place ≠ some .directory ∧
      ⟨assign place (.file content) disk.nodes⟩ = disk' := by
  refine bind_eq_ok.trans (exists_congr fun place => and_congr_right fun _ => ?_)
  split
  · rename_i h
    simp [h, throw, throwThe, MonadExceptOf.throw]
  · rename_i hf
    rw [pure_eq_ok, and_iff_right hf]

theorem node?_write (hd : write content disk start names = .ok disk') :
    ∃ place, disk.walk start names = .ok place ∧ disk.node? place ≠ some .directory ∧
      disk'.node? place = some (.file content) ∧ ∀ q, q ≠ place → disk'.node? q = disk.node? q := by
  obtain ⟨place, hp, h, rfl⟩ := write_eq_ok.mp hd
  have hpr : place ≠ [] := fun top => h (by rw [top]; rfl)
  refine ⟨place, hp, h, ?_, fun q ho => ?_⟩
  · rw [node?_of_ne_nil _ hpr, lookup_assign]
    simp
  · by_cases top : q = []
    · rw [top]
      rfl
    · rw [node?_of_ne_nil _ top, node?_of_ne_nil _ top, lookup_assign]
      simp [ho]

theorem node?_filter (keep : Place → Bool) (q : Place) :
    (⟨disk.nodes.filter fun n => keep n.1⟩ : Disk α).node? q =
      if q = [] ∨ keep q = true then disk.node? q else none := by
  by_cases top : q = []
  · simp [top, node?_nil]
  · rw [node?_of_ne_nil _ top, node?_of_ne_nil _ top, lookup_filter]
    simp [top]

theorem node?_removeFile (h : removeFile disk start names = .ok disk') :
    ∃ place, disk.walk start names = .ok place ∧ (∃ content, disk.node? place = some (.file content)) ∧
      disk'.node? place = none ∧ ∀ q, q ≠ place → disk'.node? q = disk.node? q := by
  obtain ⟨place, hp, h⟩ := bind_eq_ok.mp h
  split at h
  · rename_i content hf
    obtain rfl := pure_eq_ok.mp h
    have hpr : place ≠ [] := by
      rintro rfl
      cases hf
    refine ⟨place, hp, ⟨content, hf⟩, ?_, fun q ho => ?_⟩
    · rw [node?_filter (· != place)]
      simp [hpr]
    · rw [node?_filter (· != place)]
      simp [ho]
  · cases h
  · cases h

theorem removeTree_eq_ok : removeTree disk start names = .ok disk' ↔
    ∃ place, disk.walk start names = .ok place ∧ disk.node? place = some .directory ∧
      ⟨disk.nodes.filter fun n => !place.isPrefixOf n.1⟩ = disk' := by
  refine bind_eq_ok.trans (exists_congr fun place => and_congr_right fun _ => ?_)
  split <;> simp [*, pure_eq_ok, throw, throwThe, MonadExceptOf.throw]

theorem node?_removeTree (hd : removeTree disk start names = .ok disk') :
    ∃ place, disk.walk start names = .ok place ∧ disk.node? place = some .directory ∧
      ∀ q, disk'.node? q = if q ≠ [] ∧ place <+: q then none else disk.node? q := by
  obtain ⟨place, hp, hf, rfl⟩ := removeTree_eq_ok.mp hd
  refine ⟨place, hp, hf, fun q => ?_⟩
  rw [node?_filter (fun q => !place.isPrefixOf q)]
  by_cases top : q = []
  · simp [top]
  · by_cases h : place <+: q
    · simp [top, h, isPrefixOf_iff_prefix.mpr h]
    · have ha : place.isPrefixOf q = false := by
        rw [Bool.eq_false_iff, Ne, isPrefixOf_iff_prefix]
        exact h
      simp [h, ha]

theorem makeDirectory_eq_ok : makeDirectory disk start names = .ok disk' ↔
    ∃ place, disk.walk start names = .ok place ∧
      (disk.node? place = none ∧ ⟨disk.nodes ++ [(place, .directory)]⟩ = disk' ∨
        disk.node? place = some .directory ∧ disk = disk') := by
  refine bind_eq_ok.trans (exists_congr fun place => and_congr_right fun _ => ?_)
  split <;> simp [*, pure_eq_ok, throw, throwThe, MonadExceptOf.throw]

theorem node?_makeDirectory (hd : makeDirectory disk start names = .ok disk') :
    ∃ place, disk.walk start names = .ok place ∧
      (disk.node? place = none ∨ disk.node? place = some .directory) ∧
      disk'.node? place = some .directory ∧ ∀ q, q ≠ place → disk'.node? q = disk.node? q := by
  obtain ⟨place, hp, ⟨h, rfl⟩ | ⟨h, rfl⟩⟩ := makeDirectory_eq_ok.mp hd
  · have hpr : place ≠ [] := by
      rintro rfl
      cases h
    have hu : disk.nodes.lookup place = none := by
      rw [← node?_of_ne_nil _ hpr, h]
    refine ⟨place, hp, .inl h, ?_, fun q ho => ?_⟩
    · rw [node?_of_ne_nil _ hpr, lookup_append, hu]
      simp
    · by_cases top : q = []
      · rw [top]
        rfl
      · have ha : (q == place) = false := by simpa using ho
        rw [node?_of_ne_nil _ top, node?_of_ne_nil _ top, lookup_append, lookup_cons, ha]
        simp
  · exact ⟨place, hp, .inr h, h, fun q _ => rfl⟩

theorem down_cons {rest : List String} (h : ".." ∉ name :: rest) : name ≠ ".." ∧ ".." ∉ rest :=
  ⟨fun hu => h (hu ▸ mem_cons_self), fun hm => h (mem_cons_of_mem _ hm)⟩

structure Open (disk : Disk α) (start : Place) (names : List String) : Prop where
  directories : ∀ t, t <+: names → t ≠ names → disk.node? (start ++ t) = some .directory
  short : ∀ name ∈ names, name.utf8ByteSize ≤ longestName

theorem open_cons {rest : List String} : disk.Open start (name :: rest) ↔
    disk.node? start = some .directory ∧ name.utf8ByteSize ≤ longestName ∧
      disk.Open (start ++ [name]) rest := by
  constructor
  · rintro ⟨h, hs⟩
    refine ⟨?_, hs name mem_cons_self, fun t hp hpr => ?_, ?_⟩
    · simpa using h [] nil_prefix (by simp)
    · have hh := h (name :: t) (by simpa using hp) (by simpa using hpr)
      simpa using hh
    · exact fun n hm => hs n (mem_cons_of_mem _ hm)
  · rintro ⟨hf, hsn, h, hs⟩
    refine ⟨fun t hp hpr => ?_, fun n hm => ?_⟩
    · cases t with
      | nil => simpa using hf
      | cons name' t =>
        obtain ⟨rfl, hr⟩ := cons_prefix_cons.mp hp
        have hh := h t hr (by simpa using hpr)
        simpa using hh
    · rcases mem_cons.mp hm with rfl | hl
      · exact hsn
      · exact hs n hl

theorem walk_cons (name : String) (rest : List String) :
    disk.walk start (name :: rest) = disk.step start name >>= fun next => disk.walk next rest :=
  foldlM_cons

theorem step_eq_ok (h : name ≠ "..") : disk.step start name = .ok place ↔
    disk.node? start = some .directory ∧ name.utf8ByteSize ≤ longestName ∧ place = start ++ [name] := by
  unfold step
  cases disk.node? start with
  | none => simp
  | some node =>
    cases node with
    | file content => simp
    | directory =>
      by_cases hl : name.utf8ByteSize > longestName
      · have ht : ¬ name.utf8ByteSize ≤ longestName := by omega
        simp [h, hl, ht]
      · have hf : name.utf8ByteSize ≤ longestName := by omega
        simp [h, hl, hf, eq_comm]

theorem walk_eq_ok (down : ".." ∉ names) :
    disk.walk start names = .ok place ↔ place = start ++ names ∧ disk.Open start names := by
  induction names generalizing start with
  | nil =>
    have hv : disk.Open start [] := by
      refine ⟨fun t hp hpr => ?_, fun n hm => ?_⟩
      · exact absurd (prefix_nil.mp hp) hpr
      · cases hm
    simp [walk, hv, ok_pure, eq_comm]
  | cons name rest ih =>
    obtain ⟨hdn, hdr⟩ := down_cons down
    rw [walk_cons, open_cons]
    constructor
    · intro hd
      obtain ⟨next, hn, hd⟩ := bind_eq_ok.mp hd
      obtain ⟨h, hs, rfl⟩ := (step_eq_ok hdn).mp hn
      obtain ⟨rfl, ho⟩ := (ih hdr).mp hd
      exact ⟨by simp, h, hs, ho⟩
    · rintro ⟨rfl, h, hs, ho⟩
      have hn := (step_eq_ok hdn).mpr ⟨h, hs, rfl⟩
      exact bind_eq_ok.mpr ⟨_, hn, (ih hdr).mpr ⟨by simp, ho⟩⟩

theorem walk_congr (hd : ".." ∉ names)
    (h : ∀ t, t <+: names → t ≠ names → disk'.node? (start ++ t) = disk.node? (start ++ t)) :
    disk'.walk start names = disk.walk start names := by
  induction names generalizing start with
  | nil => rfl
  | cons name rest ih =>
    obtain ⟨hdn, hdr⟩ := down_cons hd
    have hf : disk'.node? start = disk.node? start := by
      simpa using h [] nil_prefix (by simp)
    have hs : disk'.step start name = disk.step start name := by
      unfold step
      rw [hf]
    rw [walk_cons, walk_cons, hs]
    cases hn : disk.step start name with
    | error cause => rfl
    | ok next =>
      obtain ⟨-, -, rfl⟩ := (step_eq_ok hdn).mp hn
      apply ih hdr
      intro t hp hpr
      have hh := h (name :: t) (by simpa using hp) (by simpa using hpr)
      simpa using hh

theorem walk_eq_error {cause : SystemCause} (down : ".." ∉ names)
    (h : disk.walk start names = .error cause) : cause = .longName ∨
      ∃ t, t <+: names ∧ t ≠ names ∧ disk.node? (start ++ t) ≠ some .directory := by
  induction names generalizing start with
  | nil => cases h
  | cons name rest ih =>
    by_cases hd : disk.node? start = some .directory
    · obtain ⟨hdn, hdr⟩ := down_cons down
      rw [walk_cons] at h
      by_cases hln : name.utf8ByteSize > longestName
      · have hl : disk.step start name = .error .longName := by
          simp [step, hd, hdn, hln]
        rw [hl] at h
        exact .inl (Except.error.inj h).symm
      · have hn : disk.step start name = .ok (start ++ [name]) := (step_eq_ok hdn).mpr ⟨hd, by omega, rfl⟩
        rw [hn] at h
        rcases ih hdr h with hl | ⟨t, hp, hpr, hm⟩
        · exact .inl hl
        · refine .inr ⟨name :: t, by simpa using hp, by simpa using hpr, ?_⟩
          simpa using hm
    · exact .inr ⟨[], nil_prefix, by simp, by simpa using hd⟩

theorem walk_ok_or_absent (hd : ".." ∉ names) (hs : ∀ name ∈ names, name.utf8ByteSize ≤ longestName)
    (hc : ∀ t, t <+: names → t ≠ names → ∀ content, disk.node? (start ++ t) ≠ some (.file content)) :
    disk.walk start names = .ok (start ++ names) ∨ disk.walk start names = .error .absent := by
  induction names generalizing start with
  | nil => exact .inl (by simp [walk, ok_pure])
  | cons name rest ih =>
    obtain ⟨hdn, hdr⟩ := down_cons hd
    have hf := hc [] nil_prefix (by simp)
    rw [append_nil] at hf
    rw [walk_cons]
    cases h : disk.node? start with
    | none => exact .inr (by simp [step, h, Bind.bind, Except.bind])
    | some node =>
      cases node with
      | file content => exact absurd h (hf content)
      | directory =>
        have hn : disk.step start name = .ok (start ++ [name]) :=
          (step_eq_ok hdn).mpr ⟨h, hs name mem_cons_self, rfl⟩
        rw [hn]
        have hl : disk.walk (start ++ [name]) rest = .ok (start ++ [name] ++ rest) ∨
            disk.walk (start ++ [name]) rest = .error .absent := by
          apply ih hdr fun n hm => hs n (mem_cons_of_mem _ hm)
          intro t hp hpr content
          have hh := hc (name :: t) (by simpa using hp) (by simpa using hpr) content
          simpa using hh
        simpa [ok_bind] using hl

theorem mapError_eq_ok {ε ε' β : Type} {x : Except ε β} {report : ε → ε'} {b : β} :
    x.mapError report = .ok b ↔ x = .ok b := by
  cases x <;> simp [Except.mapError]

theorem makeDirectories_snoc (above : List String) (name : String) :
    makeDirectories disk start (above ++ [name]).reverse =
      match disk.makeDirectory start (above ++ [name]) with
      | .ok made => .ok made
      | .error .absent => do
        let made ← makeDirectories disk start above.reverse
        (made.makeDirectory start (above ++ [name])).mapError fun cause => (cause, above ++ [name])
      | .error cause => .error (cause, above ++ [name]) := by
  have h : (above ++ [name]).reverse = name :: above.reverse := by simp
  have names : above ++ [name] = (name :: above.reverse).reverse := by simp
  rw [h, names]
  rfl

theorem makeDirectories_snoc_eq_ok {above : List String}
    (h : makeDirectories disk start (above ++ [name]).reverse = .ok disk') :
    disk.makeDirectory start (above ++ [name]) = .ok disk' ∨
      disk.makeDirectory start (above ++ [name]) = .error .absent ∧
        ∃ made, makeDirectories disk start above.reverse = .ok made ∧
          made.makeDirectory start (above ++ [name]) = .ok disk' := by
  rw [makeDirectories_snoc] at h
  cases hm : disk.makeDirectory start (above ++ [name]) with
  | ok made =>
    rw [hm] at h
    exact .inl (by simpa using h)
  | error cause =>
    rw [hm] at h
    obtain rfl : cause = .absent := by
      cases cause <;> simp_all
    obtain ⟨made, ha, h⟩ := bind_eq_ok.mp h
    exact .inr ⟨rfl, made, ha, mapError_eq_ok.mp h⟩

theorem directory_of_makeDirectories (hd : ".." ∉ names) (proper : names ≠ [])
    (done : makeDirectories disk start names.reverse = .ok disk') : disk.node? start = some .directory := by
  induction names using reverseRecOn generalizing disk' with
  | nil => contradiction
  | append_singleton above name ih =>
    have ho : ∀ made final : Disk α, made.makeDirectory start (above ++ [name]) = .ok final →
        made.node? start = some .directory := by
      intro made final h
      obtain ⟨place, hp, -⟩ := node?_makeDirectory h
      have hf := ((walk_eq_ok hd).mp hp).2.directories [] nil_prefix (by simp)
      simpa using hf
    rcases makeDirectories_snoc_eq_ok done with h | ⟨-, made, ha, h⟩
    · exact ho disk _ h
    · by_cases top : above = []
      · subst top
        obtain rfl : disk = made := by simpa [makeDirectories] using ha
        exact ho disk _ h
      · exact ih (fun hm => hd (mem_append_left _ hm)) top ha

theorem ne_of_part (start : Place) (name : String) {above t : List String} (h : t <+: above) :
    start ++ (above ++ [name]) ≠ start ++ t := by
  intro hs
  have hl := congrArg length hs
  have hb := h.length_le
  simp at hl
  omega

theorem node?_makeDirectories (down : ".." ∉ names) (directory : disk.node? start = some .directory)
    (done : makeDirectories disk start names.reverse = .ok disk') :
    (∀ name ∈ names, name.utf8ByteSize ≤ longestName) ∧
      (∀ t, t <+: names → ∀ content, disk.node? (start ++ t) ≠ some (.file content)) ∧
      (∀ t, t <+: names → disk'.node? (start ++ t) = some .directory) ∧
      ∀ q, (∀ t, t <+: names → q ≠ start ++ t) → disk'.node? q = disk.node? q := by
  induction names using reverseRecOn generalizing disk' with
  | nil =>
    obtain rfl : disk = disk' := by simpa [makeDirectories] using done
    refine ⟨by simp, fun t h content => ?_, fun t h => ?_, fun q _ => rfl⟩
    · rw [prefix_nil.mp h, append_nil, directory]
      simp
    · rw [prefix_nil.mp h, append_nil, directory]
  | append_singleton above name ih =>
    have hda : ".." ∉ above := fun hmm => down (mem_append_left _ hmm)
    rcases makeDirectories_snoc_eq_ok done with hm | ⟨-, made, ha, hm⟩
    · obtain ⟨place, hp, hf, hd, hoh⟩ := node?_makeDirectory hm
      obtain ⟨rfl, ho⟩ := (walk_eq_ok down).mp hp
      refine ⟨ho.short, fun t h content => ?_, fun t h => ?_, fun q hos => ?_⟩
      · by_cases hw : t = above ++ [name]
        · subst hw
          rcases hf with hn | some
          · simp [hn]
          · simp [some]
        · simp [ho.directories t h hw]
      · by_cases hw : t = above ++ [name]
        · rw [hw, hd]
        · rw [hoh _ (by simpa using hw), ho.directories t h hw]
      · exact hoh q (hos _ prefix_rfl)
    · obtain ⟨hs, hc, hdc, hos⟩ := ih hda ha
      obtain ⟨place, hp, hf, hd, hoh⟩ := node?_makeDirectory hm
      obtain ⟨rfl, ho⟩ := (walk_eq_ok down).mp hp
      have hu := hos _ fun t h => ne_of_part start name h
      refine ⟨ho.short, fun t h content => ?_, fun t h => ?_, fun q har => ?_⟩
      · rcases prefix_concat_iff.mp h with rfl | ha
        · rw [← hu]
          rcases hf with hn | some
          · simp [hn]
          · simp [some]
        · exact hc t ha content
      · rcases prefix_concat_iff.mp h with rfl | ha
        · exact hd
        · by_cases hw : t = above ++ [name]
          · rw [hw, hd]
          · rw [hoh _ (by simpa using hw), hdc t ha]
      · rw [hoh q (har _ prefix_rfl)]
        exact hos q fun t h => har t (h.trans (prefix_append _ _))

theorem makeDirectories_ok (hd : ".." ∉ names) (directory : disk.node? start = some .directory)
    (hs : ∀ name ∈ names, name.utf8ByteSize ≤ longestName)
    (hc : ∀ t, t <+: names → ∀ content, disk.node? (start ++ t) ≠ some (.file content)) :
    ∃ disk', makeDirectories disk start names.reverse = .ok disk' := by
  induction names using reverseRecOn with
  | nil => exact ⟨disk, rfl⟩
  | append_singleton above name ih =>
    have hda : ".." ∉ above := fun hm => hd (mem_append_left _ hm)
    have ha : above <+: above ++ [name] := prefix_append _ _
    obtain ⟨made, hmd⟩ := ih hda (fun n hm => hs n (mem_append_left _ hm)) fun t h => hc t (h.trans ha)
    obtain ⟨-, -, hdr, hos⟩ := node?_makeDirectories hda directory hmd
    have hu := hos _ fun t h => ne_of_part start name h
    -- In either disk, the last directory can be made once the way to it is open.
    have hl : ∀ d : Disk α, d.walk start (above ++ [name]) = .ok (start ++ (above ++ [name])) →
        d.node? (start ++ (above ++ [name])) = disk.node? (start ++ (above ++ [name])) →
        ∃ final, d.makeDirectory start (above ++ [name]) = .ok final := by
      intro d hp hsm
      cases hf : disk.node? (start ++ (above ++ [name])) with
      | none => exact ⟨_, makeDirectory_eq_ok.mpr ⟨_, hp, .inl ⟨hsm.trans hf, rfl⟩⟩⟩
      | some node =>
        cases node with
        | file content => exact absurd hf (hc _ prefix_rfl content)
        | directory => exact ⟨_, makeDirectory_eq_ok.mpr ⟨_, hp, .inr ⟨hsm.trans hf, rfl⟩⟩⟩
    have ho : made.Open start (above ++ [name]) := by
      refine ⟨fun t h hpr => ?_, hs⟩
      rcases prefix_concat_iff.mp h with rfl | ha
      · contradiction
      · exact hdr t ha
    obtain ⟨final, hfn⟩ := hl made ((walk_eq_ok hd).mpr ⟨rfl, ho⟩) hu
    rw [makeDirectories_snoc]
    rcases walk_ok_or_absent hd hs fun t h _ => hc t h with ht | hab
    · obtain ⟨first, hfr⟩ := hl disk ht rfl
      exact ⟨first, by simp [hfr]⟩
    · have han : disk.makeDirectory start (above ++ [name]) = .error .absent := by
        simp [makeDirectory, hab, Bind.bind, Except.bind]
      rw [han]
      exact ⟨final, bind_eq_ok.mpr ⟨made, hmd, mapError_eq_ok.mpr hfn⟩⟩

/-- Whatever is there lies in a directory, under a name that a path can lead to. -/
def Tidy (disk : Disk α) : Prop :=
  ∀ place name, disk.node? (place ++ [name]) ≠ none →
    disk.node? place = some .directory ∧ Path.IsName name ∧ name ≠ ".."

theorem Tidy.above (tidy : disk.Tidy) {place tail : Place} (ht : disk.node? (place ++ tail) ≠ none)
    (hp : tail ≠ []) : disk.node? place = some .directory := by
  induction tail using reverseRecOn with
  | nil => contradiction
  | append_singleton tail name ih =>
    rw [← append_assoc] at ht
    have h := (tidy _ _ ht).1
    by_cases top : tail = []
    · simpa [top] using h
    · exact ih (by simp [h]) top

theorem Tidy.isName_of_mem_namesIn (tidy : disk.Tidy) (h : name ∈ disk.namesIn start names) :
    Path.IsName name := by
  unfold namesIn at h
  split at h
  · cases h
  · obtain ⟨n, hls, hl⟩ := mem_filterMap.mp h
    split at hl
    · obtain ⟨above, hp⟩ := getLast?_eq_some_iff.mp hl
      have ht : disk.node? (above ++ [name]) ≠ none := by
        rw [node?_of_ne_nil disk (by simp), ← hp, Ne, lookup_eq_none_iff]
        intro ha
        simpa using ha n hls
      exact (tidy above name ht).2.1
    · cases hl

theorem tidy_removeTree (ht : disk.Tidy) (done : removeTree disk start names = .ok disk') : disk'.Tidy := by
  obtain ⟨removed, -, -, hn⟩ := node?_removeTree done
  intro place name h
  rw [hn] at h
  split at h
  · contradiction
  · rename_i hk
    obtain ⟨hd, hp⟩ := ht place name h
    refine ⟨?_, hp⟩
    rw [hn, if_neg, hd]
    rintro ⟨-, hb⟩
    exact hk ⟨by simp, hb.trans (prefix_append _ _)⟩

theorem tidy_removeFile (tidy : disk.Tidy) (hd : removeFile disk start names = .ok disk') : disk'.Tidy := by
  obtain ⟨removed, -, ⟨content, hf⟩, hg, ho⟩ := node?_removeFile hd
  intro place name ht
  by_cases hh : place ++ [name] = removed
  · rw [hh, hg] at ht
    contradiction
  · rw [ho _ hh] at ht
    obtain ⟨h, hp⟩ := tidy place name ht
    refine ⟨?_, hp⟩
    have ha : place ≠ removed := by
      rintro rfl
      rw [hf] at h
      cases h
    rw [ho _ ha, h]

theorem concat_inj {above place : Place} {last : String}
    (h : place ++ [name] = start ++ (above ++ [last])) : place = start ++ above ∧ name = last := by
  rw [← append_assoc] at h
  exact append_singleton_inj.mp h

theorem tidy_write (tidy : disk.Tidy) (hd : ".." ∉ names) (proper : names ≠ [])
    (isNames : ∀ name ∈ names, Path.IsName name) (done : write content disk start names = .ok disk') :
    disk'.Tidy := by
  obtain ⟨written, hp, hf, hfl, ho⟩ := node?_write done
  obtain ⟨rfl, hon⟩ := (walk_eq_ok hd).mp hp
  have hk : ∀ place, disk.node? place = some .directory → disk'.node? place = some .directory := by
    intro place h
    have ha : place ≠ start ++ names := by
      rintro rfl
      exact hf h
    rw [ho _ ha, h]
  intro place name ht
  by_cases hh : place ++ [name] = start ++ names
  · obtain ⟨above, last, rfl⟩ := eq_nil_or_concat' names |>.resolve_left proper
    obtain ⟨rfl, rfl⟩ := concat_inj hh
    refine ⟨hk _ (hon.directories _ (prefix_append _ _) (by simp)), ?_, ?_⟩
    · exact isNames name (by simp)
    · rintro rfl
      exact hd (by simp)
  · rw [ho _ hh] at ht
    obtain ⟨h, hn⟩ := tidy place name ht
    exact ⟨hk place h, hn⟩

theorem tidy_makeDirectories (ht : disk.Tidy) (down : ".." ∉ names) (isNames : ∀ name ∈ names, Path.IsName name)
    (hd : makeDirectories disk start names.reverse = .ok disk') : disk'.Tidy := by
  by_cases he : names = []
  · subst he
    obtain rfl : disk = disk' := by simpa [makeDirectories] using hd
    exact ht
  · have hdt := directory_of_makeDirectories down he hd
    obtain ⟨-, -, hdc, ho⟩ := node?_makeDirectories down hdt hd
    have hk : ∀ place, disk.node? place = some .directory → disk'.node? place = some .directory := by
      intro place hdr
      by_cases hw : ∃ t, t <+: names ∧ place = start ++ t
      · obtain ⟨t, h, rfl⟩ := hw
        exact hdc t h
      · rw [ho place fun t h hs => hw ⟨t, h, hs⟩, hdr]
    intro place name hth
    by_cases hw : ∃ t, t <+: names ∧ t ≠ [] ∧ place ++ [name] = start ++ t
    · obtain ⟨t, h, hnn, hs⟩ := hw
      obtain ⟨above, last, rfl⟩ := eq_nil_or_concat' t |>.resolve_left hnn
      obtain ⟨rfl, rfl⟩ := concat_inj hs
      have hm : name ∈ names := h.subset (by simp)
      refine ⟨hdc above ((prefix_append _ _).trans h), isNames name hm, ?_⟩
      rintro rfl
      exact down hm
    · have hb : disk.node? (place ++ [name]) ≠ none := by
        by_cases top : place ++ [name] = start
        · simp [top, hdt]
        · rwa [ho _ fun t h hs => ?_] at hth
          by_cases hn : t = []
          · exact top (by simpa [hn] using hs)
          · exact hw ⟨t, h, hn, hs⟩
      obtain ⟨hdr, hnm⟩ := ht place name hb
      exact ⟨hk place hdr, hnm⟩

end Keymap.Disk
