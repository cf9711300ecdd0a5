import Keymap.Proofs.DiskPlaces
import Keymap.Proofs.Steps
import Keymap.Workspace

namespace Keymap

open List

-- In brackets, so that rewriting with it leaves an equation and nothing to be evaluated again.
theorem run_get_bind {σ α : Type} (f : σ → ExceptT Fault (StateM σ) α) (s : σ) :
    (MonadState.get >>= f).run.run s = (f s).run.run s := (rfl)

namespace Work

variable {ε α : Type} {x : Result (Disk Content)} {w : Workspace} {a : α} {report : ε → Fault}

def pathCheck (w : Workspace) (path : String) : Result Unit :=
  if !isPath path then .error (.malformed "embedded null byte")
  else if (w.shown path).utf8ByteSize > Disk.longestPath then .error (.atPath .longName (w.shown path))
  else .ok ()

theorem run_checkLength (w : Workspace) (path : String) : (checkLength path).run.run w =
      (if (w.shown path).utf8ByteSize > Disk.longestPath then .error (.atPath .longName (w.shown path))
        else .ok (), w) := by
  unfold checkLength
  simp only [run_get_bind]
  split <;> rfl

theorem run_checkPath (w : Workspace) (path : String) : (checkPath path).run.run w = (pathCheck w path, w) := by
  unfold checkPath pathCheck
  cases isPath path with
  | false => rfl
  | true => exact run_checkLength w path

def settle (w : Workspace) : Result (Disk Content) → Result Unit × Workspace
  | .ok disk => (.ok (), { w with disk })
  | .error fault => (.error fault, w)

theorem settle_eq_ok {w' : Workspace} (h : settle w x = (.ok (), w')) :
    ∃ disk, x = .ok disk ∧ w' = { w with disk } := by
  cases x with
  | error fault => cases h
  | ok disk => exact ⟨disk, rfl, (Prod.mk.inj h).2.symm⟩

theorem settle_rel {T : Workspace → Workspace → Prop} [Std.Refl T]
    (h : ∀ disk, x = .ok disk → T w { w with disk }) :
    T w (settle w x).2 := by
  cases x with
  | error fault => exact refl_of T w
  | ok disk => exact h disk rfl

theorem checked_eq_ok {check : Result Unit} {x : Except ε α} :
    (check >>= fun _ => x.mapError report) = .ok a ↔ check = .ok () ∧ x = .ok a := by
  cases check <;> cases x <;> simp [Bind.bind, Except.bind, Except.mapError]

variable (w) (path : String)

theorem run_change (f : Disk Content → Place → List String → Except SystemCause (Disk Content)) :
    (change path f).run.run w = settle w (pathCheck w path >>= fun _ =>
      (f w.disk (w.start path) (Path.names path)).mapError fun cause =>
        .atPath cause (w.shown path)) := by
  unfold change ask
  simp only [bind_assoc]
  rw [run_bind, run_checkPath]
  cases pathCheck w path with
  | error fault => rfl
  | ok =>
    simp only [run_get_bind]
    cases f w.disk (w.start path) (Path.names path) <;> rfl

theorem run_makeDirectories : (makeDirectories path).run.run w = settle w (pathCheck w path >>= fun _ =>
    (w.disk.makeDirectories (w.start path) (Path.names path).reverse).mapError fun report =>
      .atPath report.1 (w.shown (Path.ofNames (Path.isAbsolute path) report.2))) := by
  unfold makeDirectories
  rw [run_bind, run_checkPath]
  cases pathCheck w path with
  | error fault => rfl
  | ok =>
    simp only [run_get_bind]
    cases w.disk.makeDirectories (w.start path) (Path.names path).reverse <;> rfl

theorem cleared_eq_ok {there : Result Bool} {x : Except ε α} {b : α}
    (h : (there >>= fun there => if there then x.mapError report else .ok b) = .ok a) :
    there = .ok false ∧ b = a ∨ there = .ok true ∧ x = .ok a := by
  cases there with
  | error fault => cases h
  | ok there =>
    cases there with
    | false => exact .inl ⟨rfl, Except.ok.inj h⟩
    | true =>
      cases x with
      | error e => cases h
      | ok a' =>
        obtain rfl : a' = a := Except.ok.inj h
        exact .inr ⟨rfl, rfl⟩

theorem keeps_isThere : Effects Eq (isThere path) := by
  have h : Effects Eq (checkLength path) := ⟨fun w => by rw [run_checkLength]⟩
  unfold isThere
  split
  · infer_instance
  · refine .bind h fun _ => .bind inferInstance fun w => ?_
    split <;> infer_instance

theorem run_isThere (h : pathCheck w path = .ok ()) :
    (isThere path).run.run w = (match w.disk.walk (w.start path) (Path.names path) with
      | .ok place => .ok (w.disk.node? place).isSome
      | .error .longName => .error (.atPath .longName (w.shown path))
      | .error _ => .ok false, w) := by
  unfold pathCheck at h
  unfold isThere
  cases isPath : isPath path with
  | false => simp [isPath] at h
  | true =>
    simp only [isPath, Bool.not_true, Bool.false_eq_true, if_false] at h ⊢
    rw [run_bind, run_checkLength, h]
    simp only [run_get_bind]
    cases w.disk.walk (w.start path) (Path.names path) with
    | ok place => rfl
    | error cause => cases cause <;> rfl

theorem run_clear : (clear path).run.run w = settle w (((isThere path).run.run w).1 >>= fun there =>
    if there then
      (w.disk.removeTree (w.start path) (Path.names path)).mapError fun cause =>
        .system cause s!"PosixPath({Text.quote (w.shown path)})"
    else .ok w.disk) := by
  have hs := keeps_isThere path w
  unfold clear
  rw [run_bind]
  cases h : (isThere path).run.run w with
  | mk result middle =>
    obtain rfl : w = middle := by rw [hs, h]
    cases result with
    | error fault => rfl
    | ok there =>
      cases there with
      | false => rfl
      | true =>
        simp only [if_true, run_get_bind]
        cases w.disk.removeTree (w.start path) (Path.names path) <;> rfl

end Work

namespace Path

theorem Inner.start {path : String} (h : Inner path) (w : Workspace) : w.start path = w.home := by
  simp [Workspace.start, h.relative]

end Path

/-- Parts of a workspace, given by names from the root: directories with all that lies below them, and
single files. -/
structure Zone where
  trees : List (List String)
  files : List (List String) := []

namespace Zone

def Covers (zone : Zone) (names : List String) : Prop :=
  ∃ tree ∈ zone.trees, tree <+: names

def Above (zone : Zone) (names : List String) : Prop :=
  names ≠ [] ∧ ∃ part ∈ zone.trees ++ zone.files, names <+: part ∧ names ≠ part

/-- What may become of a place outside of all trees of a zone. -/
inductive Change (zone : Zone) (names : List String) :
    Option (Node Content) → Option (Node Content) → Prop
  | same (node : Option (Node Content)) : Change zone names node node
  | made (above : zone.Above names) : Change zone names none (some .directory)
  | written (node : Option (Node Content)) (content : Content) (isFile : names ∈ zone.files)
      (free : node ≠ some .directory) : Change zone names node (some (.file content))

variable {zone : Zone} {names : List String} {a b c : Option (Node Content)}

theorem Change.trans (h : zone.Change names a b) (hn : zone.Change names b c) : zone.Change names a c := by
  cases hn with
  | same => exact h
  | made ha =>
    cases h with
    | same => exact .made ha
  | written _ content hfl hf =>
    cases h with
    | same => exact .written _ _ hfl hf
    | made ha => exact absurd rfl hf
    | written _ _ _ hw => exact .written _ _ hfl hw

section Nodes

variable (change : zone.Change names a b)

include change

theorem Change.noFile (ho : names ∉ zone.files) (h : ∀ content, a ≠ some (.file content))
    (content : Content) : b ≠ some (.file content) := by
  cases change with
  | same => exact h content
  | made => simp
  | written _ _ hf => exact absurd hf ho

theorem Change.noFile_before (h : ∀ content, b ≠ some (.file content)) (content : Content) :
    a ≠ some (.file content) := by
  cases change with
  | same => exact h content
  | made => simp
  | written _ new => exact absurd rfl (h new)

theorem Change.noDirectory (ho : ¬ zone.Above names) (hb : a ≠ some .directory) : b ≠ some .directory := by
  cases change with
  | same => exact hb
  | made h => exact absurd h ho
  | written => simp

theorem Change.noDirectory_before (h : b ≠ some .directory) : a ≠ some .directory := by
  cases change with
  | same => exact h
  | made => simp
  | written _ _ _ hf => exact hf

theorem Change.eq (ho : ¬ zone.Above names) (otherFile : names ∉ zone.files) : b = a := by
  cases change with
  | same => rfl
  | made h => exact absurd h ho
  | written _ _ hf => exact absurd hf otherFile

end Nodes

structure Admits (zone : Zone) (names : List String) : Prop where
  proper : names ≠ []
  noTop : names ∉ zone.trees
  within : zone.Covers names ∨ names ∈ zone.files

def Leads (zone : Zone) (names : List String) : Prop :=
  zone.Covers names ∨ ∃ part ∈ zone.trees ++ zone.files, names <+: part ∧ names ≠ part

theorem Leads.above (hl : zone.Leads names) {t : List String} (h : t <+: names) (hp : t ≠ [])
    (ho : ¬ zone.Covers t) : zone.Above t := by
  rcases hl with ⟨tree, ht, hbl⟩ | ⟨part, hpr, hb, hs⟩
  · rcases prefix_or_prefix_of_prefix h hbl with ha | hbw
    · refine ⟨hp, tree, mem_append_left _ ht, ha, ?_⟩
      rintro rfl
      exact ho ⟨t, ht, prefix_rfl⟩
    · exact absurd ⟨tree, ht, hbw⟩ ho
  · refine ⟨hp, part, hpr, h.trans hb, ?_⟩
    rintro rfl
    exact hs (hb.eq_of_length_le h.length_le)

end Zone

/-- Outside of a zone, a workspace is left as it was. Directories may be made on the way to the zone, and
no tree of the zone is replaced by a file. -/
structure Workspace.Kept (zone : Zone) (w w' : Workspace) : Prop where
  root : w'.root = w.root
  tidy : w'.disk.Tidy
  outside : ∀ q, ¬ w.home <+: q → w'.disk.node? q = w.disk.node? q
  inside : ∀ names, ¬ zone.Covers names →
    zone.Change names (w.disk.node? (w.home ++ names)) (w'.disk.node? (w.home ++ names))
  tops : ∀ tree ∈ zone.trees, (∀ content, w.disk.node? (w.home ++ tree) ≠ some (.file content)) →
    ∀ content, w'.disk.node? (w.home ++ tree) ≠ some (.file content)

/-- A step from a tidy workspace keeps it tidy and changes nothing outside of a zone. -/
def Workspace.Touches (zone : Zone) (w w' : Workspace) : Prop :=
  w.disk.Tidy → w.Kept zone w'

namespace Workspace

variable {zone : Zone} {w w' w'' : Workspace}

theorem Kept.home (h : w.Kept zone w') : w'.home = w.home :=
  congrArg Path.names h.root

theorem Kept.trans (first : w.Kept zone w') (next : w'.Kept zone w'') : w.Kept zone w'' where
  root := next.root.trans first.root
  tidy := next.tidy
  outside q apart := by
    rw [next.outside q (by rwa [first.home]), first.outside q apart]
  inside names apart := by
    have later := next.inside names apart
    rw [first.home] at later
    exact (first.inside names apart).trans later
  tops tree isTree noFile := by
    have later := next.tops tree isTree
    rw [first.home] at later
    exact later (first.tops tree isTree noFile)

instance : Std.Refl (Touches zone) :=
  ⟨fun _ tidy => ⟨rfl, tidy, fun _ _ => rfl, fun _ _ => .same _, fun _ _ => id⟩⟩

instance : IsTrans Workspace (Touches zone) :=
  ⟨fun _ _ _ first next tidy => (first tidy).trans (next (first tidy).tidy)⟩

theorem Kept.unchanged {names : List String} (hk : w.Kept zone w') (h : ¬ zone.Covers names)
    (ho : ¬ zone.Above names) (otherFile : names ∉ zone.files) :
    w'.disk.node? (w.home ++ names) = w.disk.node? (w.home ++ names) :=
  (hk.inside names h).eq ho otherFile

def SameDisk (w w' : Workspace) : Prop :=
  w'.disk = w.disk ∧ w'.root = w.root

instance : Std.Refl SameDisk := ⟨fun _ => ⟨rfl, rfl⟩⟩

instance : IsTrans Workspace SameDisk :=
  ⟨fun _ _ _ first next => ⟨next.1.trans first.1, next.2.trans first.2⟩⟩

theorem SameDisk.symm (h : w.SameDisk w') : w'.SameDisk w :=
  ⟨h.1.symm, h.2.symm⟩

theorem SameDisk.touches (hs : w.SameDisk w') : w.Touches zone w' := by
  intro ht
  have h : ∀ q, w'.disk.node? q = w.disk.node? q := fun q => by rw [hs.1]
  refine ⟨hs.2, hs.1 ▸ ht, fun q _ => h q, fun names _ => ?_, fun tree _ => ?_⟩
  · rw [h]
    exact .same _
  · rw [h]
    exact id

end Workspace

namespace Work

open Workspace (Touches)

variable {zone : Zone} {path : String}

theorem touches_makeDirectories (hi : Path.Inner path) (hl : zone.Leads (Path.names path)) :
    Effects (Touches zone) (makeDirectories path) := by
  refine ⟨fun w => ?_⟩
  rw [run_makeDirectories]
  refine settle_rel fun disk hc ht => ?_
  have hd := (checked_eq_ok.mp hc).2
  rw [hi.start] at hd
  have htd := Disk.tidy_makeDirectories ht hi.down (fun _ => Path.isName_of_mem_names) hd
  by_cases he : Path.names path = []
  · obtain rfl : w.disk = disk := by simpa [he, Disk.makeDirectories] using hd
    exact refl_of (Touches zone) w ht
  have directory := Disk.directory_of_makeDirectories hi.down he hd
  obtain ⟨-, hcl, hdr, ho⟩ := Disk.node?_makeDirectories hi.down directory hd
  have hs : ∀ names, ¬ names <+: Path.names path →
      disk.node? (w.home ++ names) = w.disk.node? (w.home ++ names) := fun names hof =>
    ho _ fun t hp heq => hof (append_cancel_left heq ▸ hp)
  refine ⟨rfl, htd, fun q ha => ho q ?_, fun names ha => ?_, fun tree _ hfl => ?_⟩
  · rintro t - rfl
    exact ha (prefix_append _ _)
  · by_cases h : names <+: Path.names path
    · rw [hdr names h]
      cases hf : w.disk.node? (w.home ++ names) with
      | none =>
        have hpr : names ≠ [] := by
          rintro rfl
          rw [append_nil, directory] at hf
          cases hf
        exact .made (hl.above h hpr ha)
      | some node =>
        cases node with
        | file content => exact absurd hf (hcl names h content)
        | directory => exact .same _
    · rw [hs names h]
      exact .same _
  · by_cases h : tree <+: Path.names path
    · simp [hdr tree h]
    · rwa [hs tree h]

theorem touches_write (hi : Path.Inner path) (ha : zone.Admits (Path.names path))
    (content : Content) : Effects (Touches zone) (write path content) := by
  refine ⟨fun w => ?_⟩
  rw [write, run_change]
  refine settle_rel fun disk hc htd => ?_
  have hd := (checked_eq_ok.mp hc).2
  rw [hi.start] at hd
  have hty := Disk.tidy_write htd hi.down ha.proper (fun _ => Path.isName_of_mem_names) hd
  obtain ⟨place, hp, hf, hfl, ho⟩ := Disk.node?_write hd
  obtain ⟨rfl, -⟩ := (Disk.walk_eq_ok hi.down).mp hp
  have hs : ∀ names, names ≠ Path.names path →
      disk.node? (w.home ++ names) = w.disk.node? (w.home ++ names) := fun names h =>
    ho _ fun he => h (append_cancel_left he)
  refine ⟨rfl, hty, fun q h => ho q ?_, fun names h => ?_, fun tree ht hfi => ?_⟩
  · rintro rfl
    exact h (prefix_append _ _)
  · by_cases hh : names = Path.names path
    · subst hh
      rw [hfl]
      exact .written _ _ (ha.within.resolve_left h) hf
    · rw [hs names hh]
      exact .same _
  · have h : tree ≠ Path.names path := fun he => ha.noTop (he ▸ ht)
    rwa [hs tree h]

theorem touches_remove (hi : Path.Inner path) (covers : zone.Covers (Path.names path)) :
    Effects (Touches zone) (remove path) := by
  refine ⟨fun w => ?_⟩
  rw [remove, run_change]
  refine settle_rel fun disk hc ht => ?_
  have hd := (checked_eq_ok.mp hc).2
  rw [hi.start] at hd
  have htd := Disk.tidy_removeFile ht hd
  obtain ⟨place, hp, -, hg, ho⟩ := Disk.node?_removeFile hd
  obtain ⟨rfl, -⟩ := (Disk.walk_eq_ok hi.down).mp hp
  refine ⟨rfl, htd, fun q h => ho q ?_, fun names h => ?_, fun tree _ hf => ?_⟩
  · rintro rfl
    exact h (prefix_append _ _)
  · rw [ho _ fun he => h (by rwa [append_cancel_left he])]
    exact .same _
  · by_cases hh : w.home ++ tree = w.home ++ Path.names path
    · simp [hh, hg]
    · rwa [ho _ hh]

theorem touches_clear (hi : Path.Inner path) (covers : zone.Covers (Path.names path)) :
    Effects (Touches zone) (clear path) := by
  refine ⟨fun w => ?_⟩
  rw [run_clear]
  refine settle_rel fun disk hc ht => ?_
  rcases cleared_eq_ok hc with ⟨-, rfl⟩ | ⟨-, hd⟩
  · exact refl_of (Touches zone) w ht
  rw [hi.start] at hd
  have htd := Disk.tidy_removeTree ht hd
  obtain ⟨place, hp, -, hn⟩ := Disk.node?_removeTree hd
  obtain ⟨rfl, -⟩ := (Disk.walk_eq_ok hi.down).mp hp
  refine ⟨rfl, htd, fun q h => ?_, fun names h => ?_, fun tree _ hf => ?_⟩
  · rw [hn, if_neg]
    rintro ⟨-, hb⟩
    exact h ((prefix_append _ _).trans hb)
  · rw [hn, if_neg]
    · exact .same _
    rintro ⟨-, hb⟩
    obtain ⟨tree, htr, hbl⟩ := covers
    exact h ⟨tree, htr, hbl.trans ((prefix_append_right_inj _).mp hb)⟩
  · rw [hn]
    split
    · simp
    · exact hf

theorem touches_store (hi : Path.Inner path) (ha : zone.Admits (Path.names path)) (text : String) :
    Effects (Touches zone) (store path text) := by
  have hab : (Path.names path).dropLast <+: Path.names path := dropLast_prefix _
  have hs : (Path.names path).dropLast ≠ Path.names path := by
    intro h
    have hln := congrArg length h
    have hp := length_pos_iff.mpr ha.proper
    simp at hln
    omega
  have hl : zone.Leads (Path.names (Path.parent path)) := by
    rw [Path.names_parent]
    rcases ha.within with ⟨tree, ht, hb⟩ | hf
    · rcases prefix_or_prefix_of_prefix hb hab with hbl | hav
      · exact .inl ⟨tree, ht, hbl⟩
      · by_cases h : (Path.names path).dropLast = tree
        · exact .inl ⟨tree, ht, h ▸ prefix_rfl⟩
        · exact .inr ⟨tree, mem_append_left _ ht, hav, h⟩
    · exact .inr ⟨_, mem_append_right _ hf, hab, hs⟩
  exact (touches_makeDirectories hi.parent hl).bind fun _ => touches_write hi ha _

section Reads

open Workspace (SameDisk)

instance (text : String) : Effects SameDisk (say text) :=
  ⟨fun _ => ⟨rfl, rfl⟩⟩

instance (call : ToolCall) : Effects SameDisk (record call) :=
  ⟨fun _ => ⟨rfl, rfl⟩⟩

instance (path : String) : Effects SameDisk (isThere path) := by
  refine ⟨fun w => ?_⟩
  rw [← keeps_isThere path w]
  exact refl_of SameDisk w

instance (path : String) : Effects SameDisk (read path) := by
  have checks : Effects SameDisk (checkPath path) := ⟨fun w => by
    rw [run_checkPath]
    exact refl_of SameDisk w⟩
  unfold read ask
  refine checks.bind fun _ => Effects.bind inferInstance fun w => ?_
  split <;> infer_instance

instance (path : String) : Effects SameDisk (readText path) := by
  refine Effects.bind inferInstance fun content => ?_
  cases content <;> infer_instance

instance (path : String) : Effects SameDisk (readDocument path) := by
  refine Effects.bind inferInstance fun content => ?_
  cases content <;> infer_instance

instance (path : String) : Effects SameDisk (readSharing path) := by
  refine Effects.bind inferInstance fun content => ?_
  cases content <;> infer_instance

instance (path : String) : Effects SameDisk (namesIn path) := by
  unfold namesIn
  infer_instance

end Reads

instance (priority := low) {α : Type} {x : Work α} [reads : Effects Workspace.SameDisk x] :
    Effects (Touches zone) x :=
  reads.mono fun _ _ => Workspace.SameDisk.touches

theorem touches_discardFile (hi : Path.Inner path) (h : zone.Covers (Path.names path)) :
    Effects (Touches zone) (discardFile path) := by
  have hr : Effects (Touches zone) (remove path) := touches_remove hi h
  unfold discardFile
  infer_instance

theorem touches_bind {α β : Type} {x : Work α} {f : α → Work β} {q : α → Prop}
    (hf : Effects (Touches zone) x) (returns : ∀ w : Workspace, w.disk.Tidy → Yields (x.run.run w).1 q)
    (hn : ∀ a, q a → Effects (Touches zone) (f a)) : Effects (Touches zone) (x >>= f) := by
  refine ⟨fun w ht => ?_⟩
  have h := hf w ht
  have hr := returns w ht
  rw [run_bind]
  cases hrn : x.run.run w with
  | mk outcome middle =>
    rw [hrn] at h hr
    cases outcome with
    | error fault => exact h
    | ok a => exact h.trans (hn a (hr a rfl) middle h.tidy)

end Work

end Keymap
