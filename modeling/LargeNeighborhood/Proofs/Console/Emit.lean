import LargeNeighborhood.Chart.Album

set_option autoImplicit false

/-! # How work ends

Of work that prints, saves and may fail, two things can be known. It yields a property if its result
has it whenever there is one, whatever was printed and saved before (`Emit.Yields`). And it ends in a
certain way, with a result or with a fault, if it does so in any case; here this is asked of work that
saves no figures (`Emit.Ends`). Both are told step by step.
-/

namespace LargeNeighborhood

namespace Emit

/-! ## Results, if there are any -/

section Yields

variable {α β : Type} {P : α → Prop} {Q : β → Prop}

/-- Whenever work succeeds, its result has a property. -/
structure Yields (work : Emit α) (P : α → Prop) : Prop where
  result : ∀ (before after : Output) (a : α), work.run.run before = (.ok a, after) → P a

theorem yields_pure {a : α} (h : P a) : Yields (pure a) P := by
  constructor
  intro before after b hb
  cases hb
  exact h

theorem yields_throw (fault : Fault) : Yields (throw fault) P := by
  constructor
  intro before after b hb
  cases hb

theorem yields_orFail {x : Except Fault α} (h : ∀ a, x = .ok a → P a) : Yields (orFail x) P := by
  constructor
  intro before after a ha
  cases x with
  | ok b =>
      cases ha
      exact h _ rfl
  | error fault => cases ha

theorem Yields.bind {work : Emit α} {next : α → Emit β} (h : Yields work P)
    (hnext : ∀ a, P a → Yields (next a) Q) : Yields (work >>= next) Q := by
  constructor
  intro before after b hb
  rw [ExceptT.run_bind, StateT.run_bind] at hb
  cases hrun : work.run.run before with
  | mk result middle =>
      rw [hrun] at hb
      cases result with
      | ok a => exact (hnext a (h.result before middle a hrun)).result middle after b hb
      | error fault => cases hb

theorem Yields.mono {P' : α → Prop} {work : Emit α} (h : Yields work P) (hP : ∀ a, P a → P' a) :
    Yields work P' := by
  constructor
  intro before after a ha
  exact hP a (h.result before after a ha)

/-- What is printed and saved has no bearing on a result. -/
theorem yields_after (work : Emit α) {next : α → Emit β} (hnext : ∀ a, Yields (next a) Q) :
    Yields (work >>= next) Q := by
  have htrue : Yields work fun _ => True := ⟨fun _ _ _ _ => trivial⟩
  exact htrue.bind fun a _ => hnext a

theorem yields_when {c : Prop} [Decidable c] (work : Emit α) {next : Emit β} (h : Yields next Q) :
    Yields (if c then work >>= fun _ => next else next) Q := by
  split
  · exact yields_after work fun _ => h
  · exact h

end Yields

/-! ## Ends -/

section Ends

variable {α β : Type} {E : Except Fault α → Prop} {F : Except Fault β → Prop} {P : α → Prop}

/-- Work that saves no figures and ends in a certain way, with a result or with a fault. -/
structure Ends (work : Emit α) (E : Except Fault α → Prop) : Prop where
  result : ∀ before, E (work.run.run before).1
  figures : ∀ before, (work.run.run before).2.figures = before.figures

/-- Work that saves no figures and does not fail. -/
def Succeeds (work : Emit α) (P : α → Prop) : Prop := Ends work fun r => ∃ a, r = .ok a ∧ P a

theorem ends_orFail {x : Except Fault α} (h : E x) : Ends (orFail x) E where
  result := by
    intro before
    cases x with
    | ok a => exact h
    | error fault => exact h
  figures := by
    intro before
    cases x with
    | ok a => rfl
    | error fault => rfl

theorem succeeds_orFail {x : Except Fault α} (h : ∃ a, x = .ok a ∧ P a) : Succeeds (orFail x) P :=
  ends_orFail h

theorem succeeds_pure {a : α} (h : P a) : Succeeds (pure a) P :=
  ⟨fun _ => ⟨a, rfl, h⟩, fun _ => rfl⟩

theorem succeeds_say (text : String) : Succeeds (say text) fun _ => True :=
  ⟨fun _ => ⟨(), rfl, trivial⟩, fun _ => rfl⟩

/-- Work that succeeds is gone on from. -/
theorem Succeeds.bind {work : Emit α} {next : α → Emit β} (h : Succeeds work P)
    (hnext : ∀ a, P a → Ends (next a) F) : Ends (work >>= next) F := by
  have hrun : ∀ before, ∃ a after, work.run.run before = (.ok a, after) ∧ P a ∧
      after.figures = before.figures := by
    intro before
    obtain ⟨a, ha, hP⟩ := h.result before
    exact ⟨a, _, Prod.ext ha rfl, hP, h.figures before⟩
  constructor
  · intro before
    obtain ⟨a, after, hwork, hP, -⟩ := hrun before
    rw [ExceptT.run_bind, StateT.run_bind, hwork]
    exact (hnext a hP).result after
  · intro before
    obtain ⟨a, after, hwork, hP, hfigures⟩ := hrun before
    rw [ExceptT.run_bind, StateT.run_bind, hwork, ← hfigures]
    exact (hnext a hP).figures after

/-- Work that fails ends what was to follow. -/
theorem Ends.bind_error {work : Emit α} {fault : Fault} (h : Ends work (· = .error fault))
    (next : α → Emit β) : Ends (work >>= next) (· = .error fault) := by
  have hrun : ∀ before, work.run.run before = (.error fault, (work.run.run before).2) :=
    fun before => Prod.ext (h.result before) rfl
  constructor
  · intro before
    rw [ExceptT.run_bind, StateT.run_bind, hrun]
    rfl
  · intro before
    rw [ExceptT.run_bind, StateT.run_bind, hrun]
    exact h.figures before

theorem succeeds_lines (lines : List String) : Succeeds (lines.forM sayLine) fun _ => True := by
  induction lines with
  | nil => exact succeeds_pure trivial
  | cons line lines ih => exact (succeeds_say _).bind fun _ _ => ih

theorem succeeds_report {r : Report} (h : ∃ text, r.print = (.ok (), text)) :
    Succeeds (report r) fun _ => True := by
  obtain ⟨text, htext⟩ := h
  unfold report
  rw [htext]
  exact (succeeds_say text).bind fun _ _ => succeeds_pure trivial

end Ends

end Emit

end LargeNeighborhood
