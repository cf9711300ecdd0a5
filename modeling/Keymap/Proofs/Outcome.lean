import Keymap.Fault
import Mathlib.Data.List.Forall2

namespace Keymap

open List

variable {α β ε : Type} {c : Prop} {xs : List α} {a : α} {f : α → Result β} {x : Result α}
  {ys : List β} {r : α → β → Prop} {b : β} {message : String}

theorem bind_eq_ok {x : Except ε α} {f : α → Except ε β} :
    (x >>= f) = .ok b ↔ ∃ a, x = .ok a ∧ f a = .ok b := by
  cases x with
  | error fault => simp [Bind.bind, Except.bind]
  | ok a => simp [Bind.bind, Except.bind]

theorem map_eq_ok {f : α → β} : x.map f = .ok b ↔ ∃ a, x = .ok a ∧ f a = b := by
  cases x with
  | error fault => simp [Except.map]
  | ok a => simp [Except.map]

theorem pure_eq_ok {b : α} : (pure a : Except ε α) = .ok b ↔ a = b := by
  simp [Pure.pure, Except.pure]

theorem optional_eq_ok {γ : Type} [Decidable c] {x : Result β} {g : β → α} {k : α → Result γ} {r : γ}
    (h : (if c then pure a >>= k else x >>= fun y => pure (g y) >>= k) = .ok r) :
    ∃ z, k z = .ok r := by
  split at h
  · exact ⟨a, h⟩
  · obtain ⟨y, -, h⟩ := bind_eq_ok.mp h
    exact ⟨g y, h⟩

theorem ok_bind (a : α) (f : α → Except ε β) : (Except.ok a >>= f) = f a := rfl

theorem ok_pure (a : α) : (pure a : Except ε α) = .ok a := rfl

theorem check_eq_ok [Decidable c] {k : PUnit → Result α} :
    (if c then invalid message >>= k else k ⟨⟩) = .ok a ↔ ¬ c ∧ k ⟨⟩ = .ok a := by
  by_cases h : c
  · simp [h, invalid, Bind.bind, Except.bind]
  · simp [h]

theorem checks_eq_ok {c : α → Prop} [DecidablePred c] {message : α → String} :
    (forIn xs PUnit.unit fun x _ => if c x then
        (invalid (message x) : Result PUnit) >>= fun _ => pure (ForInStep.yield PUnit.unit)
      else pure (ForInStep.yield PUnit.unit)) = .ok PUnit.unit ↔ ∀ x ∈ xs, ¬ c x := by
  induction xs with
  | nil => simp [Pure.pure, Except.pure]
  | cons x xs ih =>
    rw [forIn_cons, forall_mem_cons, ← ih]
    by_cases h : c x
    · simp [h, invalid, Bind.bind, Except.bind]
    · simp [h]

theorem exists_eq_ok (h : x.toOption.isSome) : ∃ a, x = .ok a := by
  cases x with
  | error fault => cases h
  | ok a => exact ⟨a, rfl⟩

theorem eq_ok_getD {default : α} (h : x.toOption.isSome) : x = .ok (x.toOption.getD default) := by
  cases x with
  | error fault => cases h
  | ok a => rfl

theorem eq_ok_of_toOption (h : x.toOption = some a) : x = .ok a := by
  cases x with
  | error fault => cases h
  | ok b => rw [Option.some.inj h]

theorem exists_eq_error (h : x.toOption = none) : ∃ fault, x = .error fault := by
  cases x with
  | error fault => exact ⟨fault, rfl⟩
  | ok a => cases h

theorem mapM_eq_ok : xs.mapM f = .ok ys ↔ Forall₂ (fun x y => f x = .ok y) xs ys := by
  induction xs generalizing ys with
  | nil =>
    rw [mapM_nil, pure_eq_ok, forall₂_nil_left_iff]
    exact eq_comm
  | cons x xs ih =>
    rw [mapM_cons, bind_eq_ok, forall₂_cons_left_iff]
    constructor
    · rintro ⟨y, hf, h⟩
      obtain ⟨rest, ho, h⟩ := bind_eq_ok.mp h
      exact ⟨y, rest, hf, ih.mp ho, (pure_eq_ok.mp h).symm⟩
    · rintro ⟨y, rest, hf, ho, rfl⟩
      exact ⟨y, hf, bind_eq_ok.mpr ⟨rest, ih.mpr ho, rfl⟩⟩

theorem mapM_congr {g : α → Result β} (h : ∀ x ∈ xs, f x = g x) : xs.mapM f = xs.mapM g := by
  induction xs with
  | nil => rfl
  | cons x xs ih =>
    rw [mapM_cons, mapM_cons, h x mem_cons_self, ih fun y hm => h y (mem_cons_of_mem _ hm)]

theorem foldlM_congr {f g : β → α → Result β} (start : β) (h : ∀ x ∈ xs, ∀ acc, f acc x = g acc x) :
    xs.foldlM f start = xs.foldlM g start := by
  induction xs generalizing start with
  | nil => rfl
  | cons x xs ih =>
    rw [foldlM_cons, foldlM_cons, h x mem_cons_self]
    exact bind_congr fun acc => ih acc fun y hm => h y (mem_cons_of_mem _ hm)

theorem forall₂_mem_right (hr : Forall₂ r xs ys) {y : β} (h : y ∈ ys) : ∃ x ∈ xs, r x y := by
  induction hr with
  | nil => cases h
  | cons hh _ ih =>
    rcases mem_cons.mp h with rfl | hl
    · exact ⟨_, mem_cons_self, hh⟩
    · obtain ⟨x, hf, rel⟩ := ih hl
      exact ⟨x, mem_cons_of_mem _ hf, rel⟩

theorem mem_flatten_of_forall₂ {has : α → β → Prop} {yss : List (List β)}
    (hr : Forall₂ (fun x ys => ∀ y, y ∈ ys ↔ has x y) xs yss) (y : β) :
    y ∈ yss.flatten ↔ ∃ x ∈ xs, has x y := by
  induction hr with
  | nil => simp
  | cons h _ ih => simp [ih, h]

theorem forall₂_iff_forall_mem {γ : Type} {s : α → γ → Prop} {t : β → γ → Prop} {p : α → Prop} {zs : List γ}
    (hl : Forall₂ r xs ys) (h : Forall₂ s xs zs) (hs : ∀ x y z, r x y → s x z → (t y z ↔ p x)) :
    Forall₂ t ys zs ↔ ∀ x ∈ xs, p x := by
  induction hl generalizing zs with
  | nil =>
    cases h
    simp
  | cons hh _ ih =>
    cases h with
    | cons hhd ht =>
      rw [forall₂_cons, forall_mem_cons, hs _ _ _ hh hhd, ih ht]

theorem eq_of_forall₂ {r : α → α → Prop} {ys : List α} (hr : Forall₂ r xs ys)
    (h : ∀ x ∈ xs, ∀ y, r x y → y = x) : ys = xs := by
  induction hr with
  | nil => rfl
  | cons hh _ ih =>
    rw [h _ mem_cons_self _ hh, ih fun x hm => h x (mem_cons_of_mem _ hm)]

theorem forM_eq_ok {α : Type} {f : α → Result Unit} {xs : List α} :
    xs.forM f = .ok () ↔ ∀ x ∈ xs, f x = .ok () := by
  induction xs with
  | nil => simp [Pure.pure, Except.pure]
  | cons x xs ih =>
    change (f x >>= fun _ => xs.forM f) = .ok () ↔ _
    rw [forall_mem_cons, ← ih]
    cases f x <;> simp [Bind.bind, Except.bind]

section Stateful

variable {σ : Type} {s s' : σ}

theorem run_bind (x : ExceptT Fault (StateM σ) α) (f : α → ExceptT Fault (StateM σ) β) (s : σ) :
    (x >>= f).run.run s = match x.run.run s with
      | (.ok a, middle) => (f a).run.run middle
      | (.error fault, middle) => (.error fault, middle) := by
  change (x.run >>= ExceptT.bindCont f).run s = _
  rw [StateT.run_bind]
  rcases x.run.run s with ⟨result, middle⟩
  cases result <;> rfl

theorem run_bind_eq_ok {x : ExceptT Fault (StateM σ) α} {f : α → ExceptT Fault (StateM σ) β} :
    (x >>= f).run.run s = (.ok b, s') ↔
      ∃ a middle, x.run.run s = (.ok a, middle) ∧ (f a).run.run middle = (.ok b, s') := by
  rw [run_bind]
  rcases x.run.run s with ⟨result, middle⟩
  constructor
  · intro h
    cases result with
    | error fault => cases h
    | ok a => exact ⟨a, middle, rfl, h⟩
  · rintro ⟨a, middle, hf, h⟩
    cases hf
    exact h

theorem run_pure_eq_ok {b : α} :
    (pure a : ExceptT Fault (StateM σ) α).run.run s = (.ok b, s') ↔ a = b ∧ s = s' := by
  change (Except.ok a, s) = (Except.ok b, s') ↔ _
  rw [Prod.mk.injEq, Except.ok.injEq]

theorem run_liftM_eq_ok {b : α} :
    (liftM x : ExceptT Fault (StateM σ) α).run.run s = (.ok b, s') ↔ x = .ok b ∧ s = s' := by
  change (x, s) = (Except.ok b, s') ↔ _
  rw [Prod.mk.injEq]

end Stateful

/-- Whatever result `x` gives, `q` holds for it. -/
def Yields (x : Result α) (q : α → Prop) : Prop :=
  ∀ a, x = .ok a → q a

namespace Yields

variable {q q' : α → Prop} {r : β → Prop}

theorem error {fault : Fault} : Yields (.error fault : Result α) q := by
  intro a h
  cases h

theorem ok (hh : q a) : Yields (.ok a) q := by
  intro b h
  cases h
  exact hh

theorem mono (hw : ∀ a, q a → q' a) (hy : Yields x q) : Yields x q' :=
  fun a h => hw a (hy a h)

theorem bind (hf : Yields x q) (hn : ∀ a, q a → Yields (f a) r) : Yields (x >>= f) r := by
  intro b h
  obtain ⟨a, h, hd⟩ := bind_eq_ok.mp h
  exact hn a (hf a h) b hd

theorem refused : Yields (invalid message >>= f) r :=
  bind error fun _ h => h

theorem guard {condition : Prop} [Decidable condition] {y : Result β} (h : Yields y r) :
    Yields (if condition then invalid message >>= f else y) r := by
  split
  · exact refused
  · exact h

theorem map {f : α → β} (hy : Yields x fun a => r (f a)) : Yields (x.map f) r := by
  intro b hm
  obtain ⟨a, h, rfl⟩ := map_eq_ok.mp hm
  exact hy a h

theorem trivial : Yields x fun _ => True :=
  fun _ _ => True.intro

theorem self : Yields x fun a => x = .ok a :=
  fun _ h => h

theorem mapM {p : α → β → Prop} (h : ∀ x ∈ xs, Yields (f x) (p x)) : Yields (xs.mapM f) (Forall₂ p xs) := by
  induction xs with
  | nil => exact ok .nil
  | cons first rest ih =>
    rw [mapM_cons]
    refine (h first mem_cons_self).bind fun y hh => ?_
    refine (ih fun x hm => h x (mem_cons_of_mem _ hm)).bind fun ys ht => ?_
    exact ok (.cons hh ht)

theorem mapM_all (h : ∀ x ∈ xs, Yields (f x) r) : Yields (xs.mapM f) fun ys => ∀ y ∈ ys, r y := by
  refine (mapM (p := fun _ => r) h).mono fun ys hr y hm => ?_
  obtain ⟨x, -, hh⟩ := forall₂_mem_right hr hm
  exact hh

theorem mapM_mem {x : α} (hm : x ∈ xs) (one : Yields (f x) r) : Yields (xs.mapM f) fun ys => ∃ y ∈ ys, r y := by
  intro ys h
  obtain ⟨y, hr, h⟩ := forall₂_mem_right (mapM_eq_ok.mp h).flip hm
  exact ⟨y, hr, one y h⟩

end Yields

/-- A check: if `p` holds then `x` gives a result for which `q` holds, and otherwise `x` is refused
because a rule of the configuration is broken. -/
def Requires (p : Prop) (x : Result α) (q : α → Prop) : Prop :=
  (p → ∃ a, x = .ok a ∧ q a) ∧ (¬ p → ∃ message, x = .error (.invalid message))

namespace Requires

variable {p p' : Prop} {q q' : α → Prop}

theorem ok_of (hd : x = .ok a) (hh : q a) : Requires True x q :=
  ⟨fun _ => ⟨a, hd, hh⟩, fun h => (h trivial).elim⟩

theorem congr (hs : p ↔ p') (hc : Requires p x q) : Requires p' x q :=
  ⟨fun h => hc.1 (hs.mpr h), fun hf => hc.2 (fun h => hf (hs.mp h))⟩

theorem mono (hw : ∀ a, q a → q' a) (h : Requires p x q) : Requires p x q' := by
  refine ⟨fun hh => ?_, h.2⟩
  obtain ⟨a, hd, hr⟩ := h.1 hh
  exact ⟨a, hd, hw a hr⟩

theorem keep (h : Requires p x q) : Requires p x fun a => p ∧ q a := by
  refine ⟨fun hh => ?_, h.2⟩
  obtain ⟨a, hd, hr⟩ := h.1 hh
  exact ⟨a, hd, hh, hr⟩

theorem bind {r : β → Prop} (hf : Requires p x q) (hn : ∀ a, q a → Requires p' (f a) r) :
    Requires (p ∧ p') (x >>= f) r := by
  constructor
  · rintro ⟨h, hh⟩
    obtain ⟨a, hd, hrs⟩ := hf.1 h
    obtain ⟨b, hdn, hrl⟩ := (hn a hrs).1 hh
    exact ⟨b, bind_eq_ok.mpr ⟨a, hd, hdn⟩, hrl⟩
  · intro hfl
    by_cases h : p
    · obtain ⟨a, hd, hrs⟩ := hf.1 h
      obtain ⟨message, hr⟩ := (hn a hrs).2 fun hh => hfl ⟨h, hh⟩
      exact ⟨message, by rw [hd]; exact hr⟩
    · obtain ⟨message, hr⟩ := hf.2 h
      exact ⟨message, by rw [hr]; rfl⟩

theorem check [Decidable c] {k : PUnit → Result α} (hn : ¬ c → Requires p (k ⟨⟩) q) :
    Requires (¬ c ∧ p) (if c then invalid message >>= k else k ⟨⟩) q := by
  by_cases h : c
  · refine ⟨fun hh => absurd h hh.1, fun _ => ⟨message, ?_⟩⟩
    rw [if_pos h]
    rfl
  · rw [if_neg h]
    exact (hn h).congr (by simp [h])

theorem mapM {check : α → Prop} (h : ∀ x ∈ xs, Requires (check x) (f x) (r x)) :
    Requires (∀ x ∈ xs, check x) (xs.mapM f) (Forall₂ r xs) := by
  induction xs with
  | nil => exact (ok_of rfl .nil).congr (by simp)
  | cons first rest ih =>
    rw [mapM_cons]
    have ho := ih fun x hm => h x (mem_cons_of_mem _ hm)
    refine ((h first mem_cons_self).bind fun y hh =>
      ho.bind fun ys ht => ok_of rfl (.cons hh ht)).congr ?_
    simp

theorem forM {f : α → Result Unit} {check : α → Prop} (h : ∀ x ∈ xs, Requires (check x) (f x) fun _ => True) :
    Requires (∀ x ∈ xs, check x) (xs.forM f) fun _ => True := by
  induction xs with
  | nil => exact (ok_of rfl trivial).congr (by simp)
  | cons first rest ih =>
    change Requires _ (f first >>= fun _ => rest.forM f) _
    have ho := ih fun x hm => h x (mem_cons_of_mem _ hm)
    exact ((h first mem_cons_self).bind fun _ _ => ho).congr (by simp)

theorem checks {c : α → Prop} [DecidablePred c] {message : α → String} :
    Requires (∀ x ∈ xs, ¬ c x) (forIn xs PUnit.unit fun x _ => if c x then
        (invalid (message x) : Result PUnit) >>= fun _ => pure (ForInStep.yield PUnit.unit)
      else pure (ForInStep.yield PUnit.unit)) fun _ => True := by
  induction xs with
  | nil => exact (ok_of rfl trivial).congr (by simp)
  | cons x xs ih =>
    rw [forIn_cons, forall_mem_cons]
    by_cases h : c x
    · refine ⟨fun hh => absurd h hh.1, fun _ => ⟨message x, ?_⟩⟩
      rw [if_pos h]
      rfl
    · rw [if_neg h]
      exact ih.congr (by simp [h])

theorem error_iff (h : Requires p x q) : (∃ message, x = .error (.invalid message)) ↔ ¬ p := by
  refine ⟨?_, h.2⟩
  rintro ⟨message, hr⟩ hh
  obtain ⟨a, hd, -⟩ := h.1 hh
  rw [hr] at hd
  cases hd

theorem of_eq_ok (h : Requires p x q) (hd : x = .ok a) : p ∧ q a := by
  have hh : p := by
    by_contra hf
    obtain ⟨message, hr⟩ := h.2 hf
    rw [hd] at hr
    cases hr
  obtain ⟨b, hdn, hrs⟩ := h.1 hh
  obtain rfl := Except.ok.inj (hd.symm.trans hdn)
  exact ⟨hh, hrs⟩

end Requires

end Keymap
