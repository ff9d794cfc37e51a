import Mathlib.Data.List.Forall2
import Mathlib.Logic.Basic

set_option autoImplicit false

/-! # Opening computations that may fail

A computation that has succeeded has succeeded step by step. These lemmas peel the first step
off, so that what a function has computed is read off without unfolding `do`. Two computations
that take their steps in the same order are compared step by step (`Agrees`).
-/

namespace LargeNeighborhood

variable {ε α β : Type}

theorem bind_eq_ok {x : Except ε α} {f : α → Except ε β} {b : β} :
    x >>= f = .ok b ↔ ∃ a, x = .ok a ∧ f a = .ok b := by
  cases x with
  | error e =>
      constructor
      · intro h
        cases h
      · rintro ⟨a, h, -⟩
        cases h
  | ok a =>
      constructor
      · intro h
        exact ⟨a, rfl, h⟩
      · rintro ⟨a', h, h'⟩
        cases h
        exact h'

theorem map_eq_ok {x : Except ε α} {f : α → β} {b : β} :
    x.map f = .ok b ↔ ∃ a, x = .ok a ∧ f a = b := by
  cases x with
  | error e => simp [Except.map]
  | ok a => simp [Except.map]

/-- What has failed has failed in its first step or after it. -/
theorem bind_eq_error {x : Except ε α} {f : α → Except ε β} {e : ε} :
    x >>= f = .error e ↔ x = .error e ∨ ∃ a, x = .ok a ∧ f a = .error e := by
  cases x with
  | error e' =>
      constructor
      · intro h
        cases h
        exact Or.inl rfl
      · rintro (h | ⟨a, h, -⟩)
        · cases h
          rfl
        · cases h
  | ok a =>
      constructor
      · intro h
        exact Or.inr ⟨a, rfl, h⟩
      · rintro (h | ⟨a', h, h'⟩)
        · cases h
        · cases h
          exact h'

theorem map_eq_error {x : Except ε α} {f : α → β} {e : ε} :
    x.map f = .error e ↔ x = .error e := by
  cases x with
  | error e' => simp [Except.map]
  | ok a => simp [Except.map]

theorem mapError_eq_ok {ε' : Type} {x : Except ε α} {f : ε → ε'} {a : α} :
    x.mapError f = .ok a ↔ x = .ok a := by
  cases x with
  | error e => simp [Except.mapError]
  | ok a => simp [Except.mapError]

/-- Where one step succeeds and the next one does after it, both do. -/
theorem exists_bind_ok {x : Except ε α} {f : α → Except ε β} (hx : ∃ a, x = .ok a)
    (hf : ∀ a, x = .ok a → ∃ b, f a = .ok b) : ∃ b, x >>= f = .ok b := by
  obtain ⟨a, ha⟩ := hx
  obtain ⟨b, hb⟩ := hf a ha
  exact ⟨b, bind_eq_ok.mpr ⟨a, ha, hb⟩⟩

/-- Whether a computation succeeds with a value can be tested if values can be compared; faults
need not be. -/
instance decidableEqOk [DecidableEq α] (x : Except ε α) (a : α) : Decidable (x = .ok a) :=
  match x with
  | .ok b => decidable_of_iff (b = a) (by rw [Except.ok.injEq])
  | .error _ => isFalse (by simp)

/-! ## Two computations side by side -/

/-- Two computations that fail together or succeed together, with related faults or values. -/
inductive Agrees {ε ε' α α' : Type} (E : ε → ε' → Prop) (R : α → α' → Prop) :
    Except ε α → Except ε' α' → Prop
  | error {e : ε} {e' : ε'} : E e e' → Agrees E R (.error e) (.error e')
  | ok {a : α} {a' : α'} : R a a' → Agrees E R (.ok a) (.ok a')

namespace Agrees

variable {ε ε' α α' β β' : Type} {E E' : ε → ε' → Prop} {R R' : α → α' → Prop}
  {Q : β → β' → Prop} {x : Except ε α} {x' : Except ε' α'}

theorem imp (h : Agrees E R x x') (hE : ∀ e e', E e e' → E' e e')
    (hR : ∀ a a', R a a' → R' a a') : Agrees E' R' x x' := by
  cases h with
  | error he => exact .error (hE _ _ he)
  | ok ha => exact .ok (hR _ _ ha)

theorem bind {f : α → Except ε β} {f' : α' → Except ε' β'} (h : Agrees E R x x')
    (hf : ∀ a a', x = .ok a → x' = .ok a' → R a a' → Agrees E Q (f a) (f' a')) :
    Agrees E Q (x >>= f) (x' >>= f') := by
  cases h with
  | error he => exact .error he
  | ok ha => exact hf _ _ rfl rfl ha

theorem map {f : α → β} {f' : α' → β'} (h : Agrees E R x x')
    (hf : ∀ a a', R a a' → Q (f a) (f' a')) : Agrees E Q (x.map f) (x'.map f') := by
  cases h with
  | error he => exact .error he
  | ok ha => exact .ok (hf _ _ ha)

/-- A computation agrees with itself. -/
theorem refl (x : Except ε α) : Agrees Eq Eq x x := by
  cases x with
  | error e => exact .error rfl
  | ok a => exact .ok rfl

/-- Where only faults are compared, equal computations agree. -/
theorem of_eq {y : Except ε α} (h : x = y) : Agrees Eq (fun _ _ => True) x y := by
  subst h
  exact (refl x).imp (fun _ _ he => he) fun _ _ _ => trivial

end Agrees

/-! ## Lists of computations -/

/-- A list of computations succeeds when all its members do. -/
theorem mapM_eq_ok {f : α → Except ε β} {xs : List α} {ys : List β} :
    xs.mapM f = .ok ys ↔ List.Forall₂ (fun x y => f x = .ok y) xs ys := by
  induction xs generalizing ys with
  | nil =>
      rw [List.mapM_nil, List.forall₂_nil_left_iff]
      constructor
      · intro h
        cases h
        rfl
      · rintro rfl
        rfl
  | cons x xs ih =>
      rw [List.mapM_cons, bind_eq_ok, List.forall₂_cons_left_iff]
      constructor
      · rintro ⟨y, hy, h⟩
        obtain ⟨rest, hrest, h⟩ := bind_eq_ok.mp h
        cases h
        exact ⟨y, rest, hy, ih.mp hrest, rfl⟩
      · rintro ⟨y, rest, hy, hrest, rfl⟩
        exact ⟨y, hy, bind_eq_ok.mpr ⟨rest, ih.mpr hrest, rfl⟩⟩

theorem exists_mapM_ok {f : α → Except ε β} {xs : List α} (h : ∀ x ∈ xs, ∃ y, f x = .ok y) :
    ∃ ys, xs.mapM f = .ok ys := by
  induction xs with
  | nil => exact ⟨[], rfl⟩
  | cons x xs ih =>
      obtain ⟨y, hy⟩ := h x List.mem_cons_self
      obtain ⟨ys, hys⟩ := ih fun z hz => h z (List.mem_cons_of_mem x hz)
      exact ⟨y :: ys, mapM_eq_ok.mpr (.cons hy (mapM_eq_ok.mp hys))⟩

/-- What every step of a fold keeps holds of its result. -/
theorem foldlM_ok {P : β → Prop} {f : β → α → Except ε β} {xs : List α}
    (h : ∀ b x b', P b → x ∈ xs → f b x = .ok b' → P b') {b b' : β} (hb : P b)
    (hfold : xs.foldlM f b = .ok b') : P b' := by
  induction xs generalizing b with
  | nil =>
      cases hfold
      exact hb
  | cons x xs ih =>
      rw [List.foldlM_cons] at hfold
      obtain ⟨c, hc, hfold⟩ := bind_eq_ok.mp hfold
      exact ih (fun d y d' hd hy => h d y d' hd (List.mem_cons_of_mem x hy))
        (h b x c hb List.mem_cons_self hc) hfold

/-- A fold that has succeeded has succeeded at every member. -/
theorem foldlM_ok_mem {f : β → α → Except ε β} {xs : List α} {b b' : β}
    (h : xs.foldlM f b = .ok b') {x : α} (hx : x ∈ xs) : ∃ c c', f c x = .ok c' := by
  induction xs generalizing b with
  | nil => cases hx
  | cons y xs ih =>
      rw [List.foldlM_cons] at h
      obtain ⟨c, hc, h⟩ := bind_eq_ok.mp h
      rcases List.mem_cons.mp hx with rfl | hx
      · exact ⟨b, c, hc⟩
      · exact ih h hx

/-- A fold succeeds when its step does wherever it may stand. -/
theorem exists_foldlM_ok_and {P : β → Prop} {f : β → α → Except ε β} {xs : List α}
    (h : ∀ b x, P b → x ∈ xs → ∃ b', f b x = .ok b' ∧ P b') {b : β} (hb : P b) :
    ∃ b', xs.foldlM f b = .ok b' ∧ P b' := by
  induction xs generalizing b with
  | nil => exact ⟨b, rfl, hb⟩
  | cons x xs ih =>
      obtain ⟨b', hb', hP⟩ := h b x hb List.mem_cons_self
      obtain ⟨last, hlast, hP'⟩ := ih (fun c y hc hy => h c y hc (List.mem_cons_of_mem x hy)) hP
      exact ⟨last, by rw [List.foldlM_cons]; exact bind_eq_ok.mpr ⟨b', hb', hlast⟩, hP'⟩

theorem exists_foldlM_ok {f : β → α → Except ε β} {xs : List α}
    (h : ∀ b, ∀ x ∈ xs, ∃ b', f b x = .ok b') (b : β) : ∃ b', xs.foldlM f b = .ok b' := by
  obtain ⟨b', hb', -⟩ : ∃ b', xs.foldlM f b = .ok b' ∧ True := by
    apply exists_foldlM_ok_and (P := fun _ => True)
    · intro c x _ hx
      obtain ⟨c', hc'⟩ := h c x hx
      exact ⟨c', hc', trivial⟩
    · trivial
  exact ⟨b', hb'⟩

end LargeNeighborhood
