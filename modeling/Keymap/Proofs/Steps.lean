import Keymap.Proofs.Outcome
import Mathlib.Order.Defs.Unbundled

namespace Keymap

open List

variable {σ α β γ δ : Type} {y : ExceptT Fault (StateM σ) α} {condition : Prop}
  {rescue : Fault → ExceptT Fault (StateM σ) α} {f : α → ExceptT Fault (StateM σ) β}

theorem run_tryCatch (x : ExceptT Fault (StateM σ) α) (rescue : Fault → ExceptT Fault (StateM σ) α)
    (s : σ) : (tryCatch x rescue).run.run s = match x.run.run s with
      | (.ok a, middle) => (.ok a, middle)
      | (.error fault, middle) => (rescue fault).run.run middle := by
  have h : StateT.run x s = x.run.run s := rfl
  change (ExceptT.tryCatch x rescue).run.run s = _
  rw [ExceptT.tryCatch, ExceptT.run_mk, StateT.run_bind, h]
  rcases x.run.run s with ⟨result, middle⟩
  cases result <;> rfl

theorem discard_eq (x : ExceptT Fault (StateM σ) α) : discard x = x >>= fun _ => pure ⟨⟩ := by
  rw [← map_eq_pure_bind]
  rfl

/-- Wherever `x` starts, it leads to a state that `T` allows. There is an instance for each way to make
one step of others. -/
class Effects (T : σ → σ → Prop) (x : ExceptT Fault (StateM σ) α) : Prop where
  leads : ∀ s, T s (x.run.run s).2

namespace Effects

variable {T : σ → σ → Prop} {x : ExceptT Fault (StateM σ) α}

instance : CoeFun (Effects T x) fun _ => ∀ s, T s (x.run.run s).2 :=
  ⟨fun effects => effects.leads⟩

theorem mono {T' : σ → σ → Prop} (hw : ∀ s s', T s s' → T' s s') (h : Effects T x) : Effects T' x :=
  ⟨fun s => hw _ _ (h s)⟩

instance [Decidable condition] [yes : Effects T x] [no : Effects T y] :
    Effects T (if condition then x else y) := by
  split
  · exact yes
  · exact no

section Refl

variable [Std.Refl T]

instance (a : α) : Effects T (pure a : ExceptT Fault (StateM σ) α) :=
  ⟨fun s => refl_of T s⟩

instance (x : Result α) : Effects T (liftM x : ExceptT Fault (StateM σ) α) :=
  ⟨fun s => refl_of T s⟩

instance (fault : Fault) : Effects T (throw fault : ExceptT Fault (StateM σ) α) :=
  ⟨fun s => refl_of T s⟩

instance (fault : Fault) (f : α → ExceptT Fault (StateM σ) β) : Effects T (throw fault >>= f) :=
  ⟨fun s => refl_of T s⟩

instance : Effects T (get : ExceptT Fault (StateM σ) σ) :=
  ⟨fun s => refl_of T s⟩

end Refl

section Trans

variable [IsTrans σ T]

theorem bind (hf : Effects T x) (hn : ∀ a, Effects T (f a)) : Effects T (x >>= f) := by
  refine ⟨fun s => ?_⟩
  have h := hf s
  rw [run_bind]
  cases hr : x.run.run s with
  | mk result middle =>
    rw [hr] at h
    cases result with
    | error fault => exact h
    | ok a => exact trans_of T h (hn a middle)

instance [first : Effects T x] [next : ∀ a, Effects T (f a)] : Effects T (x >>= f) :=
  first.bind next

instance [first : Effects T x] [next : ∀ fault, Effects T (rescue fault)] :
    Effects T (tryCatch x rescue) := by
  refine ⟨fun s => ?_⟩
  have here := first s
  rw [run_tryCatch]
  cases isRun : x.run.run s with
  | mk result middle =>
    rw [isRun] at here
    cases result with
    | error fault => exact trans_of T here (next fault middle)
    | ok a => exact here

end Trans

section Loops

variable [Std.Refl T] [IsTrans σ T] {xs : List α}

instance [Effects T x] : Effects T (discard x) := by
  rw [discard_eq]
  infer_instance

theorem forM {f : α → ExceptT Fault (StateM σ) PUnit} (h : ∀ a ∈ xs, Effects T (f a)) :
    Effects T (xs.forM f) := by
  induction xs with
  | nil => exact inferInstanceAs (Effects T (pure _))
  | cons a xs ih =>
    have hl := ih fun b hm => h b (mem_cons_of_mem _ hm)
    exact (h a mem_cons_self).bind fun _ => hl

theorem forIn {f : α → β → ExceptT Fault (StateM σ) (ForInStep β)} (start : β)
    (h : ∀ a ∈ xs, ∀ b, Effects T (f a b)) : Effects T (ForIn.forIn xs start f) := by
  induction xs generalizing start with
  | nil => exact inferInstanceAs (Effects T (pure _))
  | cons a xs ih =>
    rw [forIn_cons]
    refine (h a mem_cons_self start).bind fun step => ?_
    cases step with
    | done b => infer_instance
    | yield b => exact ih b fun c hm => h c (mem_cons_of_mem _ hm)

instance {f : α → β → ExceptT Fault (StateM σ) (ForInStep β)} (start : β)
    [each : ∀ a b, Effects T (f a b)] : Effects T (ForIn.forIn xs start f) :=
  forIn start fun a _ => each a

instance [each : ∀ a, Effects T (f a)] : Effects T (xs.mapM f) := by
  induction xs with
  | nil => exact inferInstanceAs (Effects T (pure _))
  | cons a xs ih =>
    rw [List.mapM_cons]
    infer_instance

theorem filterM {f : α → ExceptT Fault (StateM σ) Bool} (h : ∀ a ∈ xs, Effects T (f a)) :
    Effects T (xs.filterM f) := by
  have hlp : ∀ kept, Effects T (xs.filterAuxM f kept) := by
    induction xs with
    | nil => exact fun kept => inferInstanceAs (Effects T (pure _))
    | cons a xs ih =>
      intro kept
      have hl := ih fun b hm => h b (mem_cons_of_mem _ hm)
      exact (h a mem_cons_self).bind fun _ => hl _
  exact (hlp []).bind fun _ => inferInstance

end Loops

end Effects

def Returns (x : ExceptT Fault (StateM σ) α) (q : α → Prop) : Prop :=
  ∀ s, Yields (x.run.run s).1 q

namespace Returns

variable {x : ExceptT Fault (StateM σ) α} {q : α → Prop} {r : β → Prop}

theorem pure {a : α} (h : q a) : Returns (Pure.pure a : ExceptT Fault (StateM σ) α) q :=
  fun _ => .ok h

theorem lifted {x : Result α} (h : Yields x q) : Returns (liftM x : ExceptT Fault (StateM σ) α) q :=
  fun _ => h

theorem any : Returns x fun _ => True :=
  fun _ => .trivial

theorem ite [Decidable condition] (yes : Returns x q) (no : Returns y q) :
    Returns (if condition then x else y) q := by
  split
  · exact yes
  · exact no

theorem bind (hf : Returns x q) (hn : ∀ a, q a → Returns (f a) r) : Returns (x >>= f) r := by
  intro s b h
  rw [run_bind] at h
  have hh := hf s
  cases hr : x.run.run s with
  | mk result middle =>
    rw [hr] at hh h
    cases result with
    | error fault => cases h
    | ok a => exact hn a (hh a rfl) middle b h

theorem tryCatch (hf : Returns x q) (hn : ∀ fault, Returns (rescue fault) q) :
    Returns (MonadExcept.tryCatch x rescue) q := by
  intro s a h
  rw [run_tryCatch] at h
  have hh := hf s
  cases hr : x.run.run s with
  | mk result middle =>
    rw [hr] at hh h
    cases result with
    | error fault => exact hn fault middle a h
    | ok b => exact hh a h

end Returns

def FailsBy (p : Fault → Prop) (x : ExceptT Fault (StateM σ) α) : Prop :=
  ∀ s fault, (x.run.run s).1 = .error fault → p fault

namespace FailsBy

variable {p : Fault → Prop} {x : ExceptT Fault (StateM σ) α}

theorem pure (a : α) : FailsBy p (Pure.pure a : ExceptT Fault (StateM σ) α) :=
  fun _ _ h => nomatch h

theorem lifted {x : Result α} (h : ∀ fault, x = .error fault → p fault) :
    FailsBy p (liftM x : ExceptT Fault (StateM σ) α) :=
  fun _ => h

theorem get : FailsBy p (MonadState.get : ExceptT Fault (StateM σ) σ) :=
  fun _ _ h => nomatch h

theorem throw {fault : Fault} (hh : p fault) :
    FailsBy p (MonadExcept.throw fault : ExceptT Fault (StateM σ) α) := by
  intro s other h
  cases h
  exact hh

theorem ite [Decidable condition] (yes : FailsBy p x) (no : FailsBy p y) :
    FailsBy p (if condition then x else y) := by
  split
  · exact yes
  · exact no

theorem bind (hf : FailsBy p x) (hn : ∀ a, FailsBy p (f a)) : FailsBy p (x >>= f) := by
  intro s fault h
  rw [run_bind] at h
  cases hr : x.run.run s with
  | mk result middle =>
    have hh := hf s
    rw [hr] at h hh
    cases result with
    | error other =>
      obtain rfl : other = fault := Except.error.inj h
      exact hh other rfl
    | ok a => exact hn a middle fault h

end FailsBy

inductive Outcomes (rel : α → β → Prop) : Result α → Result β → Prop
  | error (fault : Fault) : Outcomes rel (.error fault) (.error fault)
  | ok {a : α} {b : β} (related : rel a b) : Outcomes rel (.ok a) (.ok b)

namespace Outcomes

variable {rel : α → β → Prop} {y : Result β} {f : α → Result γ} {x : Result α} {g : α → Result δ}
  {rel' : γ → δ → Prop}

theorem eq {y : Result α} (h : Outcomes Eq x y) : x = y := by
  cases h with
  | error fault => rfl
  | ok hr => rw [hr]

theorem mono {rel' : α → β → Prop} (hw : ∀ a b, rel a b → rel' a b) (h : Outcomes rel x y) :
    Outcomes rel' x y := by
  cases h with
  | error fault => exact .error fault
  | ok hr => exact .ok (hw _ _ hr)

theorem refl (x : Result α) : Outcomes Eq x x := by
  cases x with
  | error fault => exact .error fault
  | ok a => exact .ok rfl

theorem same (x : Result α) : Outcomes (fun _ _ => True) x x :=
  (refl x).mono fun _ _ _ => trivial

theorem bind {g : β → Result δ} (h : Outcomes rel x y) (hn : ∀ a b, rel a b → Outcomes rel' (f a) (g b)) :
    Outcomes rel' (x >>= f) (y >>= g) := by
  cases h with
  | error fault => exact .error fault
  | ok hr => exact hn _ _ hr

theorem bind_same {rel : γ → δ → Prop} (x : Result α) (h : ∀ a, Outcomes rel (f a) (g a)) :
    Outcomes rel (x >>= f) (x >>= g) := by
  cases x with
  | error fault => exact .error fault
  | ok a => exact h a

theorem map {f : α → γ} {g : β → δ} (h : Outcomes rel x y) (hn : ∀ a b, rel a b → rel' (f a) (g b)) :
    Outcomes rel' (x.map f) (y.map g) := by
  cases h with
  | error fault => exact .error fault
  | ok hr => exact .ok (hn _ _ hr)

theorem mapM {rel : γ → δ → Prop} {xs : List α} (h : ∀ x ∈ xs, Outcomes rel (f x) (g x)) :
    Outcomes (Forall₂ rel) (xs.mapM f) (xs.mapM g) := by
  induction xs with
  | nil => exact .ok .nil
  | cons x xs ih =>
    rw [mapM_cons, mapM_cons]
    apply (h x mem_cons_self).bind
    intro a b hh
    apply (ih fun y hm => h y (mem_cons_of_mem _ hm)).bind
    intro as bs ht
    exact .ok (.cons hh ht)

end Outcomes

/-- From states that `R` relates, `x` and `y` have results that `rel` relates, or the same fault, and
end in states that `R` relates again. -/
def Agree (R : σ → σ → Prop) (rel : α → β → Prop) (x : ExceptT Fault (StateM σ) α)
    (y : ExceptT Fault (StateM σ) β) : Prop :=
  ∀ s s', R s s' → Outcomes rel (x.run.run s).1 (y.run.run s').1 ∧ R (x.run.run s).2 (y.run.run s').2

namespace Agree

variable {R : σ → σ → Prop} {rel : α → β → Prop} {rel' : γ → δ → Prop}
  {x : ExceptT Fault (StateM σ) α} {y : ExceptT Fault (StateM σ) β}

theorem pure {a : α} {b : β} (h : rel a b) :
    Agree R rel (Pure.pure a : ExceptT Fault (StateM σ) α) (Pure.pure b) :=
  fun _ _ hs => ⟨.ok h, hs⟩

theorem lifted {x : Result α} {y : Result β} (h : Outcomes rel x y) :
    Agree R rel (liftM x : ExceptT Fault (StateM σ) α) (liftM y) :=
  fun _ _ hs => ⟨h, hs⟩

theorem throw (fault : Fault) : Agree R rel
    (MonadExcept.throw fault : ExceptT Fault (StateM σ) α) (MonadExcept.throw fault) :=
  fun _ _ h => ⟨.error fault, h⟩

theorem get : Agree R R (MonadState.get : ExceptT Fault (StateM σ) σ) MonadState.get :=
  fun _ _ h => ⟨.ok h, h⟩

theorem modified {f g : σ → σ} (h : ∀ s s', R s s' → R (f s) (g s')) :
    Agree R Eq (modify f : ExceptT Fault (StateM σ) PUnit) (modify g) :=
  fun _ _ hs => ⟨.ok rfl, h _ _ hs⟩

theorem bind {f : α → ExceptT Fault (StateM σ) γ} {g : β → ExceptT Fault (StateM σ) δ}
    (hf : Agree R rel x y) (hn : ∀ a b, rel a b → Agree R rel' (f a) (g b)) :
    Agree R rel' (x >>= f) (y >>= g) := by
  intro s s' hs
  obtain ⟨ho, h⟩ := hf s s' hs
  rw [run_bind, run_bind]
  cases hr : x.run.run s with
  | mk result middle =>
    cases hrn : y.run.run s' with
    | mk result' middle' =>
      rw [hr, hrn] at ho h
      cases ho with
      | error fault => exact ⟨.error fault, h⟩
      | ok hrl => exact hn _ _ hrl middle middle' h

theorem tryCatch {rescue' : Fault → ExceptT Fault (StateM σ) β} (hf : Agree R rel x y)
    (hn : ∀ fault, Agree R rel (rescue fault) (rescue' fault)) :
    Agree R rel (MonadExcept.tryCatch x rescue) (MonadExcept.tryCatch y rescue') := by
  intro s s' hs
  obtain ⟨ho, h⟩ := hf s s' hs
  rw [run_tryCatch, run_tryCatch]
  cases hr : x.run.run s with
  | mk result middle =>
    cases hrn : y.run.run s' with
    | mk result' middle' =>
      rw [hr, hrn] at ho h
      cases ho with
      | error fault => exact hn fault middle middle' h
      | ok hrl => exact ⟨.ok hrl, h⟩

theorem ite [Decidable condition] {x' : ExceptT Fault (StateM σ) α} {y' : ExceptT Fault (StateM σ) β}
    (yes : Agree R rel x y) (no : Agree R rel x' y') :
    Agree R rel (if condition then x else x') (if condition then y else y') := by
  split
  · exact yes
  · exact no

theorem self (x : ExceptT Fault (StateM σ) α) : Agree Eq Eq x x := by
  rintro s _ rfl
  exact ⟨.refl _, rfl⟩

end Agree

end Keymap
