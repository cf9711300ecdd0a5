import Keymap.Generate.Board
import Keymap.Proofs.Touches

namespace Keymap

open List

variable {home names t : List String} {v : Workspace}

namespace Disk

variable {α ε : Type} {disk disk' : Disk α} {start : Place} {on : Place → Prop}

def SameOn (on : Place → Prop) (disk disk' : Disk α) : Prop :=
  ∀ q, on q → disk'.node? q = disk.node? q

inductive Alike (on : Place → Prop) : Except ε (Disk α) → Except ε (Disk α) → Prop
  | error (e : ε) : Alike on (.error e) (.error e)
  | ok {disk disk' : Disk α} (same : SameOn on disk disk') : Alike on (.ok disk) (.ok disk')

theorem Alike.of_outcomes {x y : Except ε (Disk α)} (h : y.map (fun _ => ()) = x.map fun _ => ())
    (hr : ∀ made made', x = .ok made → y = .ok made' → SameOn on made made') : Alike on x y := by
  cases x with
  | error e =>
    cases y with
    | error e' =>
      obtain rfl : e' = e := by simpa [Except.map] using h
      exact .error e'
    | ok made' => cases h
  | ok made =>
    cases y with
    | error e' => cases h
    | ok made' => exact .ok (hr made made' rfl rfl)

variable (down : ".." ∉ names) (way : ∀ t, t <+: names → on (start ++ t)) (same : SameOn on disk disk')

include down way same

theorem alike_makeDirectory : Alike on (disk.makeDirectory start names) (disk'.makeDirectory start names) := by
  have hw : disk'.walk start names = disk.walk start names := walk_congr down fun t hpr _ => same _ (way t hpr)
  apply Alike.of_outcomes
  · unfold makeDirectory
    rw [hw]
    cases hp : disk.walk start names with
    | error cause => rfl
    | ok place =>
      obtain ⟨rfl, -⟩ := (walk_eq_ok down).mp hp
      simp only [ok_bind, same _ (way names prefix_rfl)]
      cases disk.node? (start ++ names) with
      | none => rfl
      | some node => cases node <;> rfl
  · intro made made' hm hmd q ho
    obtain ⟨place, hp, -, hd, hoh⟩ := node?_makeDirectory hm
    obtain ⟨place', hpl, -, hdr, hor⟩ := node?_makeDirectory hmd
    obtain rfl : place = place' := Except.ok.inj (hp.symm.trans (hw.symm.trans hpl))
    by_cases h : q = place
    · rw [h, hd, hdr]
    · rw [hoh q h, hor q h, same q ho]

theorem alike_makeDirectories :
    Alike on (disk.makeDirectories start names.reverse) (disk'.makeDirectories start names.reverse) := by
  induction names using reverseRecOn with
  | nil => exact .ok same
  | append_singleton above name ih =>
    have ha : above <+: above ++ [name] := prefix_append _ _
    have hr := ih (fun hmm => down (mem_append_left _ hmm)) fun t hp =>
      way t (hp.trans ha)
    have h := alike_makeDirectory down way same
    rw [makeDirectories_snoc, makeDirectories_snoc]
    generalize disk.makeDirectory start (above ++ [name]) = x at h ⊢
    generalize disk'.makeDirectory start (above ++ [name]) = y at h ⊢
    cases h with
    | ok hm => exact .ok hm
    | error cause =>
      cases cause with
      | absent =>
        generalize disk.makeDirectories start above.reverse = x at hr ⊢
        generalize disk'.makeDirectories start above.reverse = y at hr ⊢
        cases hr with
        | error report => exact .error report
        | ok hm =>
          have hl := alike_makeDirectory down way hm
          simp only [ok_bind]
          generalize makeDirectory _ start (above ++ [name]) = x at hl ⊢
          generalize makeDirectory _ start (above ++ [name]) = y at hl ⊢
          cases hl with
          | error cause => exact .error _
          | ok hf => exact .ok hf
      | present | notDirectory | directory | notEmpty | longName => exact .error _

theorem alike_write (content : α) :
    Alike on (write content disk start names) (write content disk' start names) := by
  have hw : disk'.walk start names = disk.walk start names := walk_congr down fun t hpr _ => same _ (way t hpr)
  apply Alike.of_outcomes
  · unfold write
    rw [hw]
    cases hp : disk.walk start names with
    | error cause => rfl
    | ok place =>
      obtain ⟨rfl, -⟩ := (walk_eq_ok down).mp hp
      simp only [ok_bind, same _ (way names prefix_rfl)]
      cases disk.node? (start ++ names) with
      | none => rfl
      | some node => cases node <;> rfl
  · intro made made' hm hmd q ho
    obtain ⟨place, hp, -, hf, hoh⟩ := node?_write hm
    obtain ⟨place', hpl, -, hfl, hor⟩ := node?_write hmd
    obtain rfl : place = place' := Except.ok.inj (hp.symm.trans (hw.symm.trans hpl))
    by_cases h : q = place
    · rw [h, hf, hfl]
    · rw [hoh q h, hor q h, same q ho]

end Disk

namespace Workspace

def Near (w : Workspace) (directory : List String) (q : Place) : Prop :=
  (∃ t, t <+: directory ∧ q = w.home ++ t) ∨ w.home ++ directory <+: q

structure SameNear (directory : List String) (w w' : Workspace) : Prop where
  root : w'.root = w.root
  nodes : w.disk.SameOn (w.Near directory) w'.disk

end Workspace

namespace Work

open Workspace (SameNear)

variable {w w' : Workspace} {path : String} {directory : List String}

theorem agree_settle (h : SameNear directory w w') {x y : Result (Disk Content)}
    (ha : Disk.Alike (w.Near directory) x y) : Outcomes Eq (settle w x).1 (settle w' y).1 ∧
      SameNear directory (settle w x).2 (settle w' y).2 := by
  cases ha with
  | error fault => exact ⟨.error fault, h⟩
  | ok hn => exact ⟨.ok rfl, h.root, hn⟩

theorem pathCheck_congr (same : w'.root = w.root) (path : String) : pathCheck w' path = pathCheck w path := by
  simp [pathCheck, Workspace.shown, same]

theorem alike_checked {ε : Type} {on : Place → Prop} {x y : Except ε (Disk Content)}
    (h : Disk.Alike on x y) (check : Result Unit) (report : ε → Fault) :
    Disk.Alike on (check >>= fun _ => x.mapError report) (check >>= fun _ => y.mapError report) := by
  cases check with
  | error fault => exact .error fault
  | ok =>
    cases h with
    | error e => exact .error _
    | ok same => exact .ok same

theorem near_of_part (h : directory <+: names) (hp : t <+: names) : w.Near directory (w.home ++ t) := by
  rcases prefix_or_prefix_of_prefix hp h with ha | hb
  · exact .inl ⟨t, ha, rfl⟩
  · exact .inr ((prefix_append_right_inj w.home).mpr hb)

theorem agree_makeDirectories (inner : Path.Inner path) (hb : directory <+: Path.names path) :
    Agree (SameNear directory) Eq (makeDirectories path) (makeDirectories path) := by
  intro w w' h
  have hh : w'.home = w.home := congrArg Path.names h.root
  rw [run_makeDirectories, run_makeDirectories, pathCheck_congr h.root, inner.start, inner.start, hh]
  simp only [Workspace.shown, h.root]
  apply agree_settle h
  apply alike_checked
  exact Disk.alike_makeDirectories inner.down (fun t hp => near_of_part hb hp) h.nodes

theorem agree_write (inner : Path.Inner path) (hb : directory <+: Path.names path)
    (content : Content) : Agree (SameNear directory) Eq (write path content) (write path content) := by
  intro w w' h
  have hh : w'.home = w.home := congrArg Path.names h.root
  rw [write, run_change, run_change, pathCheck_congr h.root, inner.start, inner.start, hh]
  simp only [Workspace.shown, h.root]
  apply agree_settle h
  apply alike_checked
  exact Disk.alike_write inner.down (fun t hp => near_of_part hb hp) h.nodes content

theorem agree_store (inner : Path.Inner path) (h : directory <+: (Path.names path).dropLast)
    (text : String) : Agree (SameNear directory) Eq (store path text) (store path text) := by
  have hb := h.trans <| dropLast_prefix _
  rw [← Path.names_parent] at h
  apply (agree_makeDirectories inner.parent h).bind
  intro _ _ _
  exact agree_write inner hb _

structure Storable (w : Workspace) (path : String) : Prop where
  askedParent : pathCheck w (Path.parent path) = .ok ()
  asked : pathCheck w path = .ok ()
  root : w.disk.node? w.home = some .directory
  short : ∀ name ∈ Path.names path, name.utf8ByteSize ≤ Disk.longestName
  clear : ∀ t, t <+: (Path.names path).dropLast → ∀ content,
    w.disk.node? (w.home ++ t) ≠ some (.file content)
  free : w.disk.node? (w.home ++ Path.names path) ≠ some .directory

structure Stored (path text : String) (w w' : Workspace) : Prop where
  root : w'.root = w.root
  directories : ∀ t, t <+: (Path.names path).dropLast → w'.disk.node? (w.home ++ t) = some .directory
  written : w'.disk.node? (w.home ++ Path.names path) = some (.file (.text text))
  others : ∀ q, (∀ t, t <+: Path.names path → q ≠ w.home ++ t) → w'.disk.node? q = w.disk.node? q

theorem not_part_of_dropLast (nonempty : names ≠ []) (h : t <+: names.dropLast) :
    home ++ names ≠ home ++ t := by
  obtain ⟨above, last, rfl⟩ := (eq_nil_or_concat' names).resolve_left nonempty
  rw [dropLast_concat] at h
  exact Disk.ne_of_part home last h

theorem part_of_dropLast (h : t <+: names) (hp : t ≠ names) : t <+: names.dropLast := by
  rcases eq_nil_or_concat' names with rfl | ⟨above, last, rfl⟩
  · exact absurd (prefix_nil.mp h) hp
  · rw [dropLast_concat]
    exact (prefix_concat_iff.mp h).resolve_left hp

theorem store_eq_ok (inner : Path.Inner path) (nonempty : Path.names path ≠ []) {text : String}
    (done : (store path text).run.run w = (.ok (), w')) : Storable w path ∧ Stored path text w w' := by
  have hi := inner.parent
  obtain ⟨_, middle, h, hw⟩ := run_bind_eq_ok.mp done
  rw [run_makeDirectories] at h
  obtain ⟨made, hm, rfl⟩ := settle_eq_ok h
  obtain ⟨har, h⟩ := checked_eq_ok.mp hm
  rw [writeText, write, run_change] at hw
  obtain ⟨final, hwc, rfl⟩ := settle_eq_ok hw
  obtain ⟨hak, hw⟩ := checked_eq_ok.mp hwc
  rw [hi.start] at h
  rw [inner.start] at hw
  obtain ⟨place, hpl, hf, hwr, hoh⟩ := Disk.node?_write hw
  obtain ⟨rfl, ho⟩ := (Disk.walk_eq_ok inner.down).mp hpl
  have hr : w.disk.node? w.home = some .directory := by
    by_cases he : Path.names (Path.parent path) = []
    · obtain rfl : w.disk = made := by simpa [he, Disk.makeDirectories] using h
      simpa using ho.directories [] nil_prefix nonempty.symm
    · exact Disk.directory_of_makeDirectories hi.down he h
  obtain ⟨-, hc, hd, hu⟩ := Disk.node?_makeDirectories hi.down hr h
  rw [Path.names_parent] at hc hd hu
  refine ⟨⟨har, hak, hr, ho.short, hc, ?_⟩, rfl, fun t hp => ?_, hwr, ?_⟩
  · rwa [← hu _ fun t hp => not_part_of_dropLast nonempty hp]
  · rw [← hd t hp]
    exact hoh _ (not_part_of_dropLast nonempty hp).symm
  · intro q ha
    have hb : ∀ t, t <+: (Path.names path).dropLast → q ≠ w.home ++ t :=
      fun t hp => ha t <| hp.trans <| dropLast_prefix _
    rw [← hu q hb]
    exact hoh q (ha _ prefix_rfl)

theorem store_ok (inner : Path.Inner path) (nonempty : Path.names path ≠ []) (text : String)
    (h : Storable w path) : ∃ w', (store path text).run.run w = (.ok (), w') := by
  have hi := inner.parent
  have hpr : Path.names (Path.parent path) = (Path.names path).dropLast := Path.names_parent path
  have hc := h.clear
  rw [← hpr] at hc
  have hs : ∀ name ∈ Path.names (Path.parent path), name.utf8ByteSize ≤ Disk.longestName := by
    intro name hmm
    rw [hpr] at hmm
    exact h.short name (dropLast_subset _ hmm)
  obtain ⟨made, hm⟩ := Disk.makeDirectories_ok hi.down h.root hs hc
  obtain ⟨-, -, hd, hu⟩ := Disk.node?_makeDirectories hi.down h.root hm
  rw [hpr] at hd hu
  have ho : made.Open w.home (Path.names path) := ⟨fun t hp hpp => hd t (part_of_dropLast hp hpp), h.short⟩
  have hpl := (Disk.walk_eq_ok inner.down).mpr ⟨rfl, ho⟩
  have hfr : made.node? (w.home ++ Path.names path) ≠ some .directory := by
    rw [hu _ fun t hp => not_part_of_dropLast nonempty hp]
    exact h.free
  obtain ⟨final, hw⟩ : ∃ final,
      Disk.write (.text text) made w.home (Path.names path) = .ok final :=
    ⟨_, Disk.write_eq_ok.mpr ⟨_, hpl, hfr, rfl⟩⟩
  refine ⟨{ w with disk := final }, ?_⟩
  have hf : (makeDirectories (Path.parent path)).run.run w = (.ok (), { w with disk := made }) := by
    rw [run_makeDirectories, checked_eq_ok.mpr ⟨h.askedParent, ?_⟩]
    · rfl
    · rw [hi.start]
      exact hm
  have hn : (writeText path text).run.run { w with disk := made } = (.ok (), { w with disk := final }) := by
    have ha : pathCheck { w with disk := made } path = .ok () := h.asked
    rw [writeText, write, run_change, checked_eq_ok.mpr ⟨ha, ?_⟩]
    · rfl
    · rw [inner.start]
      exact hw
  exact run_bind_eq_ok.mpr ⟨(), _, hf, hn⟩

end Work

namespace Workspace

def Holds (w : Workspace) (directory : String) (files : List (String × String)) : Prop :=
  ∀ tail content, w.disk.node? (w.home ++ Path.names directory ++ tail) = some (.file content) ↔
    ∃ f ∈ files, tail = Path.names f.1 ∧ content = .text f.2

end Workspace

namespace Generate

open Workspace (SameNear)
open Work (Stored pathCheck)

def storeAll (directory : String) : List (String × String) → Work Unit
  | [] => pure ()
  | (name, text) :: rest => do
    Work.store (Path.join directory name) text
    storeAll directory rest

theorem writeAll_eq (directory : String) (files : List (String × String)) : writeAll directory files =
      (Work.clear directory >>= fun _ => Work.makeDirectories directory) >>= fun _ =>
        storeAll directory files >>= fun _ => get >>= fun w =>
          Work.say s!"  📝 Wrote {files.length} files to {w.shown directory}" := by
  have h : ∀ files : List (String × String),
      forIn files PUnit.unit (fun f _ => do
        Work.store (Path.join directory f.1) f.2
        pure (ForInStep.yield PUnit.unit)) = storeAll directory files := by
    intro files
    induction files with
    | nil => rfl
    | cons f rest ih =>
      rw [forIn_cons, storeAll, ← ih]
      simp only [bind_assoc, pure_bind]
  unfold writeAll
  simp only [← h, bind_assoc]

/-- Names of files that lead downwards from their directory, each to a place of its own. -/
structure Proper (files : List (String × String)) : Prop where
  inner : ∀ f ∈ files, Path.Inner f.1
  some : ∀ f ∈ files, Path.names f.1 ≠ []
  apart : files.Pairwise fun f g => Path.names f.1 ≠ Path.names g.1

theorem Proper.tail {f : String × String} {rest : List (String × String)} (proper : Proper (f :: rest)) :
    Proper rest where
  inner g later := proper.inner g (mem_cons_of_mem _ later)
  some g later := proper.some g (mem_cons_of_mem _ later)
  apart := (pairwise_cons.mp proper.apart).2

section Exact

variable {directory path name text : String} {files : List (String × String)} {w w' : Workspace}

theorem holds_store (hn : Path.names path = Path.names directory ++ Path.names name)
    (new : ∀ f ∈ files, Path.names f.1 ≠ Path.names name) (storable : Work.Storable w path)
    (h : Stored path text w w') (hb : w.Holds directory files) :
    w'.Holds directory (files ++ [(name, text)]) := by
  have hhm : w'.home = w.home := congrArg Path.names h.root
  intro tail content
  have hwh : w.home ++ Path.names directory ++ Path.names name = w.home ++ Path.names path := by
    rw [hn, append_assoc]
  rw [hhm]
  by_cases hh : tail = Path.names name
  · subst hh
    rw [hwh, h.written]
    constructor
    · intro same
      obtain rfl : Content.text text = content := by simpa using same
      exact ⟨(name, text), by simp, rfl, rfl⟩
    · rintro ⟨f, hm, hs, rfl⟩
      rcases mem_append.mp hm with ho | hnw
      · exact absurd hs.symm (new f ho)
      · obtain rfl := mem_singleton.mp hnw
        rfl
  · have old : (∃ f ∈ files ++ [(name, text)], tail = Path.names f.1 ∧ content = .text f.2) ↔
        w.disk.node? (w.home ++ Path.names directory ++ tail) = some (.file content) := by
      rw [hb tail content]
      simp [or_and_right, exists_or, hh]
    rw [old]
    by_cases hw : ∃ t, t <+: Path.names path ∧ w.home ++ Path.names directory ++ tail = w.home ++ t
    · obtain ⟨t, hp, same⟩ := hw
      have hpr : t ≠ Path.names path := by
        rintro rfl
        rw [← hwh] at same
        exact hh (append_cancel_left same)
      have ha := Work.part_of_dropLast hp hpr
      rw [same, h.directories t ha]
      simp [storable.clear t ha content]
    · rw [h.others _ fun t hp same => hw ⟨t, hp, same⟩]

structure Writable (directory : String) (w : Workspace) : Prop where
  asked : pathCheck w directory = .ok ()
  root : w.disk.node? w.home = some .directory
  short : ∀ name ∈ Path.names directory, name.utf8ByteSize ≤ Disk.longestName
  clear : ∀ t, t <+: Path.names directory → ∀ content,
    w.disk.node? (w.home ++ t) ≠ some (.file content)

structure Emptied (directory : String) (w w' : Workspace) : Prop where
  root : w'.root = w.root
  directories : ∀ t, t <+: Path.names directory → w'.disk.node? (w.home ++ t) = some .directory
  empty : ∀ tail, tail ≠ [] → w'.disk.node? (w.home ++ Path.names directory ++ tail) = none

theorem not_below_part (hp : t <+: names) (proper : t ≠ names) : ¬ home ++ names <+: home ++ t := by
  intro h
  exact proper (hp.eq_of_length_le ((prefix_append_right_inj home).mp h).length_le)

theorem Emptied.homes (h : Emptied directory w w') : w'.home = w.home :=
  congrArg Path.names h.root

theorem Emptied.node? (h : Emptied directory w w') (tail : List String) :
    w'.disk.node? (w'.home ++ Path.names directory ++ tail) = if tail = [] then some .directory else none := by
  rw [h.homes]
  by_cases hh : tail = []
  · simp [hh, h.directories _ prefix_rfl]
  · rw [if_neg hh, h.empty tail hh]

theorem Emptied.sameNear {v' : Workspace} (same : v.root = w.root) (h : Emptied directory w w')
    (hs : Emptied directory v v') : w'.SameNear (Path.names directory) v' := by
  have hh := h.homes
  have hhm : v.home = w.home := congrArg Path.names same
  refine ⟨by rw [h.root, hs.root, same], ?_⟩
  rintro q (⟨t, hp, rfl⟩ | ⟨tail, rfl⟩)
  · rw [hh, h.directories t hp, ← hhm, hs.directories t hp]
  · rw [h.node?, hh, ← hhm, ← hs.homes, hs.node?]

variable (inner : Path.Inner directory) (nonempty : Path.names directory ≠ [])

include inner

include nonempty in
theorem storeAll_invariant {P : List (String × String) → Workspace → Prop} (step : ∀ {before name text v v'},
      Path.names (Path.join directory name) = Path.names directory ++ Path.names name →
      Path.names name ≠ [] → (∀ g ∈ before, Path.names g.1 ≠ Path.names name) →
      Work.Storable v (Path.join directory name) → Stored (Path.join directory name) text v v' →
      P before v → P (before ++ [(name, text)]) v')
    {before : List (String × String)} (h : Proper (before ++ files)) (start : P before w)
    (hd : (storeAll directory files).run.run w = (.ok (), w')) : P (before ++ files) w' := by
  induction files generalizing w before with
  | nil =>
    obtain rfl : w = w' := (Prod.mk.inj hd).2
    simpa using start
  | cons f rest ih =>
    obtain ⟨name, text⟩ := f
    have hm : (name, text) ∈ before ++ (name, text) :: rest := by simp
    have hn := Path.names_join directory (h.inner _ hm).relative
    have hi := inner.join nonempty (h.inner _ hm)
    have hnm := h.some _ hm
    have hnp : Path.names (Path.join directory name) ≠ [] := by
      rw [hn]
      exact append_ne_nil_of_right_ne_nil _ hnm
    obtain ⟨_, middle, hs, hr⟩ := run_bind_eq_ok.mp hd
    obtain ⟨hsr, hsd⟩ := Work.store_eq_ok hi hnp hs
    have new : ∀ g ∈ before, Path.names g.1 ≠ Path.names name := fun g old =>
      (pairwise_append.mp h.apart).2.2 g old _ mem_cons_self
    -- The file just stored joins those before it.
    have same : before ++ (name, text) :: rest = before ++ [(name, text)] ++ rest := by simp
    rw [same] at h ⊢
    exact ih h (step hn hnm new hsr hsd start) hr

include nonempty in
theorem agree_storeAll (h : Proper files) : Agree (SameNear (Path.names directory)) Eq (storeAll directory files)
      (storeAll directory files) := by
  induction files with
  | nil => exact .pure rfl
  | cons f rest ih =>
    obtain ⟨name, text⟩ := f
    have hm : (name, text) ∈ (name, text) :: rest := mem_cons_self
    have hn := Path.names_join directory (h.inner _ hm).relative
    have hi := inner.join nonempty (h.inner _ hm)
    have hb : Path.names directory <+: (Path.names (Path.join directory name)).dropLast := by
      rw [hn, dropLast_append_of_ne_nil (h.some _ hm)]
      exact prefix_append _ _
    rw [storeAll]
    apply (Work.agree_store hi hb text).bind
    intro _ _ _
    exact ih h.tail

theorem none_below_of_not_there (tidy : w.disk.Tidy) (asked : pathCheck w directory = .ok ())
    (hm : ((Work.isThere directory).run.run w).1 = .ok false) (tail : List String) :
    w.disk.node? (w.home ++ Path.names directory ++ tail) = none := by
  by_contra ht
  rw [Work.run_isThere w directory asked, inner.start] at hm
  cases h : w.disk.walk w.home (Path.names directory) with
  | ok place =>
    obtain ⟨rfl, -⟩ := (Disk.walk_eq_ok inner.down).mp h
    have ha : w.disk.node? (w.home ++ Path.names directory) = none := by
      simpa [h] using hm
    by_cases hh : tail = []
    · exact ht (by rw [hh, append_nil, ha])
    · simp [tidy.above ht hh] at ha
  | error cause =>
    rcases Disk.walk_eq_error inner.down h with rfl | ⟨t, ⟨rest, hw⟩, hp, hd⟩
    · simp [h] at hm
    · rw [← hw, ← append_assoc, append_assoc] at ht
      refine hd (tidy.above ht fun he => hp ?_)
      rw [← hw, (append_eq_nil_iff.mp he).1, append_nil]

theorem clear_ok (hw : Writable directory w) :
    ∃ disk, (Work.clear directory).run.run w = (.ok (), { w with disk }) := by
  have ht := Work.run_isThere w directory hw.asked
  rw [inner.start] at ht
  rw [Work.run_clear, ht, inner.start]
  have hc : ∀ t, t <+: Path.names directory → t ≠ Path.names directory → ∀ content,
      w.disk.node? (w.home ++ t) ≠ some (.file content) := fun t hpr _ => hw.clear t hpr
  rcases Disk.walk_ok_or_absent inner.down hw.short hc with hp | ha
  · cases h : w.disk.node? (w.home ++ Path.names directory) with
    | none => exact ⟨w.disk, by simp [hp, h, ok_bind, Work.settle]⟩
    | some node =>
      cases node with
      | file content => exact absurd h (hw.clear _ prefix_rfl content)
      | directory =>
        obtain ⟨disk, hr⟩ : ∃ disk,
            w.disk.removeTree w.home (Path.names directory) = .ok disk :=
          ⟨_, Disk.removeTree_eq_ok.mpr ⟨_, hp, h, rfl⟩⟩
        refine ⟨disk, ?_⟩
        simp [hp, h, hr, ok_bind, Except.mapError, Work.settle]
  · exact ⟨w.disk, by simp [ha, ok_bind, Work.settle]⟩

include nonempty

theorem clear_eq_ok (ht : w.disk.Tidy) (ha : pathCheck w directory = .ok ())
    (hd : (Work.clear directory).run.run w = (.ok (), w')) : w'.root = w.root ∧
      (∀ content, w.disk.node? (w.home ++ Path.names directory) ≠ some (.file content)) ∧ ∀ q, w'.disk.node? q =
        if w.home ++ Path.names directory <+: q then none else w.disk.node? q := by
  rw [Work.run_clear] at hd
  obtain ⟨disk, hc, rfl⟩ := Work.settle_eq_ok hd
  rcases Work.cleared_eq_ok hc with ⟨hm, rfl⟩ | ⟨-, hr⟩
  · have none := none_below_of_not_there inner ht ha hm
    refine ⟨rfl, fun content => ?_, fun q => ?_⟩
    · have hh := none []
      rw [append_nil] at hh
      simp [hh]
    · split
      · rename_i h
        obtain ⟨tail, rfl⟩ := h
        exact none tail
      · rfl
  · rw [inner.start] at hr
    obtain ⟨place, hp, hdr, hn⟩ := Disk.node?_removeTree hr
    obtain ⟨rfl, -⟩ := (Disk.walk_eq_ok inner.down).mp hp
    refine ⟨rfl, fun content => by simp [hdr], fun q => ?_⟩
    have hpr : w.home ++ Path.names directory <+: q → q ≠ [] := by
      rintro h rfl
      exact nonempty (append_eq_nil_iff.mp (prefix_nil.mp h)).2
    rw [hn]
    by_cases h : w.home ++ Path.names directory <+: q
    · rw [if_pos ⟨hpr h, h⟩, if_pos h]
    · rw [if_neg fun hb => h hb.2, if_neg h]

theorem emptied_eq_ok (ht : w.disk.Tidy)
    (done : (Work.clear directory >>= fun _ => Work.makeDirectories directory).run.run w = (.ok (), w')) :
    Writable directory w ∧ Emptied directory w w' := by
  obtain ⟨_, middle, hc, h⟩ := run_bind_eq_ok.mp done
  have hr := hc
  rw [Work.run_clear] at hr
  obtain ⟨disk, -, rfl⟩ := Work.settle_eq_ok hr
  rw [Work.run_makeDirectories] at h
  obtain ⟨made, hch, rfl⟩ := Work.settle_eq_ok h
  obtain ⟨ha, h⟩ := Work.checked_eq_ok.mp hch
  rw [inner.start] at h
  obtain ⟨-, hf, hn⟩ := clear_eq_ok inner nonempty ht ha hc
  have hk : ∀ t, t <+: Path.names directory → t ≠ Path.names directory →
      disk.node? (w.home ++ t) = w.disk.node? (w.home ++ t) := fun t hp hpr => by
    rw [hn, if_neg (not_below_part hp hpr)]
  have hrt : disk.node? w.home = some .directory := Disk.directory_of_makeDirectories inner.down nonempty h
  obtain ⟨hs, hcl, hd, ho⟩ := Disk.node?_makeDirectories inner.down hrt h
  refine ⟨⟨ha, ?_, hs, fun t hp content => ?_⟩, rfl, hd, fun tail hpr => ?_⟩
  · simpa [hrt] using (hk [] nil_prefix nonempty.symm).symm
  · by_cases hw : t = Path.names directory
    · rw [hw]
      exact hf content
    · rw [← hk t hp hw]
      exact hcl t hp content
  · have hb : w.home ++ Path.names directory <+: w.home ++ Path.names directory ++ tail := prefix_append _ _
    have hu := ho (w.home ++ Path.names directory ++ tail) fun t hp same => by
      have hl := congrArg length same
      have hps := length_pos_iff.mpr hpr
      have hbn := hp.length_le
      simp at hl
      omega
    rw [hn, if_pos hb] at hu
    exact hu

theorem emptied_ok (ht : w.disk.Tidy) (h : Writable directory w) :
    ∃ w', (Work.clear directory >>= fun _ => Work.makeDirectories directory).run.run w = (.ok (), w') := by
  obtain ⟨disk, hc⟩ := clear_ok inner h
  obtain ⟨-, -, hn⟩ := clear_eq_ok inner nonempty ht h.asked hc
  have hk : ∀ t, t <+: Path.names directory → t ≠ Path.names directory →
      disk.node? (w.home ++ t) = w.disk.node? (w.home ++ t) := fun t hp hpr => by
    rw [hn, if_neg (not_below_part hp hpr)]
  have hr : disk.node? w.home = some .directory := by
    have hh := hk [] nil_prefix nonempty.symm
    rwa [append_nil, h.root] at hh
  have hcl : ∀ t, t <+: Path.names directory → ∀ content,
      disk.node? (w.home ++ t) ≠ some (.file content) := by
    intro t hp content
    by_cases hw : t = Path.names directory
    · rw [hn, hw, if_pos prefix_rfl]
      simp
    · rw [hk t hp hw]
      exact h.clear t hp content
  obtain ⟨made, hm⟩ := Disk.makeDirectories_ok inner.down hr h.short hcl
  refine ⟨{ w with disk := made }, run_bind_eq_ok.mpr ⟨(), _, hc, ?_⟩⟩
  have ha : pathCheck { w with disk } directory = .ok () := h.asked
  rw [Work.run_makeDirectories, Work.checked_eq_ok.mpr ⟨ha, ?_⟩]
  · rfl
  · rw [inner.start]
    exact hm

theorem writeAll_stored (ht : w.disk.Tidy) (h : (writeAll directory files).run.run w = (.ok (), w')) :
    Writable directory w ∧ ∃ middle after log, Emptied directory w middle ∧
      (storeAll directory files).run.run middle = (.ok (), after) ∧ w' = { after with log } := by
  rw [writeAll_eq] at h
  obtain ⟨_, middle, hep, h⟩ := run_bind_eq_ok.mp h
  obtain ⟨_, after, hs, hsd⟩ := run_bind_eq_ok.mp h
  obtain ⟨hw, he⟩ := emptied_eq_ok inner nonempty ht hep
  exact ⟨hw, middle, after, _, he, hs, (Prod.mk.inj hsd).2.symm⟩

theorem writeAll_eq_ok (hp : Proper files) (ht : w.disk.Tidy)
    (h : (writeAll directory files).run.run w = (.ok (), w')) :
    Writable directory w ∧ w'.Holds directory files := by
  obtain ⟨hw, middle, after, log, he, hs, rfl⟩ := writeAll_stored inner nonempty ht h
  have hnt : middle.Holds directory [] := by
    intro tail content
    rw [he.node?]
    split <;> simp
  have hhl := storeAll_invariant (P := fun before v => v.Holds directory before) inner nonempty
    (fun hn _ new hst hsr hh => holds_store hn new hst hsr hh)
    (nil_append files ▸ hp) hnt hs
  exact ⟨hw, hhl⟩

theorem writeAll_again (proper : Proper files) (tidy : w.disk.Tidy) (tidy' : v.disk.Tidy) (same : v.root = w.root)
    (done : (writeAll directory files).run.run w = (.ok (), w')) (writable : Writable directory v) :
    ∃ v', (writeAll directory files).run.run v = (.ok (), v') := by
  obtain ⟨-, middle, _, _, hep, hst, -⟩ := writeAll_stored inner nonempty tidy done
  obtain ⟨next, he⟩ := emptied_ok inner nonempty tidy' writable
  obtain ⟨-, het⟩ := emptied_eq_ok inner nonempty tidy' he
  obtain ⟨h, -⟩ := agree_storeAll inner nonempty proper middle next (hep.sameNear same het)
  rw [hst] at h
  cases hs : (storeAll directory files).run.run next with
  | mk result after' =>
    rw [hs] at h
    cases h with
    | ok =>
      rw [writeAll_eq]
      exact ⟨_, run_bind_eq_ok.mpr ⟨(), next, he, run_bind_eq_ok.mpr ⟨(), after', hs, rfl⟩⟩⟩

end Exact

end Generate

end Keymap
