/-
Fjarr.Lib.Tasks — tasks over a shared store, interleaved one operation at
a time.

A `Program` says what one operation of a task does to the store and to
the task itself. Its `system` lets any of unboundedly many tasks take the
next step, so a run is an interleaving. The one proof rule is the usual
one for such programs: a property of the store together with a property
of each task is kept when the task that moves establishes its own again
and leaves everybody else's alone.
-/
import Fjarr.Lib.Transition

namespace Fjarr.Lib

/-- A store, the state every task starts in, and one operation of a task. -/
structure Program (σ τ ι : Type) where
  store : σ
  start : τ
  next : σ → Nat → τ → ι → Option (σ × τ)

namespace Program

/-- The store and every task's state. -/
structure World (σ τ : Type) where
  store : σ
  tasks : Nat → τ

variable {σ τ ι : Type} (P : Program σ τ ι)

/-- Any task may take the next step. -/
def system : System (World σ τ) (Nat × ι) where
  init := { store := P.store, tasks := fun _ => P.start }
  step := fun w a => (P.next w.store a.1 (w.tasks a.1) a.2).map fun r =>
    { store := r.1, tasks := Function.update w.tasks a.1 r.2 }

theorem step_eq_some {w w' : World σ τ} {i : Nat} {a : ι} :
    P.system.step w (i, a) = some w' ↔
      ∃ s t, P.next w.store i (w.tasks i) a = some (s, t) ∧
        w' = { store := s, tasks := Function.update w.tasks i t } := by
  simp only [system, Option.map_eq_some_iff, Prod.exists]
  constructor
  · rintro ⟨s, t, h, rfl⟩
    exact ⟨s, t, h, rfl⟩
  · rintro ⟨s, t, h, rfl⟩
    exact ⟨s, t, h, rfl⟩

theorem run_other {w w' : World σ τ} {as : List (Nat × ι)} {j : Nat}
    (hj : j ∉ as.map Prod.fst) (h : P.system.run w as = some w') : w'.tasks j = w.tasks j := by
  induction as generalizing w with
  | nil =>
    cases h
    rfl
  | cons a as ih =>
    obtain ⟨w₁, hstep, hrun⟩ := P.system.run_cons_eq_some.mp h
    obtain ⟨s, t, -, rfl⟩ := P.step_eq_some.mp hstep
    rw [List.map_cons, List.mem_cons, not_or] at hj
    rw [ih hj.2 hrun]
    exact Function.update_of_ne hj.1 _ _

section Rules

variable {P}
variable {I : σ → Prop} {J : σ → Nat → τ → Prop}

theorem tasks_step {w : World σ τ} {i : Nat} {s : σ} {t : τ}
    (h : I s ∧ J s i t ∧ ∀ j, j ≠ i → J s j (w.tasks j)) :
    I s ∧ ∀ j, J s j (Function.update w.tasks i t j) := by
  obtain ⟨hI, hown, hothers⟩ := h
  refine ⟨hI, fun j => ?_⟩
  by_cases hj : j = i
  · subst hj
    rwa [Function.update_self]
  · rw [Function.update_of_ne hj]
    exact hothers j hj

/-- **Non-interference**: in every reachable state the store has `I` and
every task has `J`, if each operation re-establishes both for its own task
and keeps `J` of every other. -/
theorem reachable_tasks
    (hstep : ∀ w i a s t, P.system.Reachable w → I w.store → (∀ j, J w.store j (w.tasks j)) →
      P.next w.store i (w.tasks i) a = some (s, t) →
        I s ∧ J s i t ∧ ∀ j, j ≠ i → J s j (w.tasks j))
    (hI : I P.store) (hJ : ∀ j, J P.store j P.start) {w : World σ τ}
    (hw : P.system.Reachable w) : I w.store ∧ ∀ j, J w.store j (w.tasks j) := by
  refine P.system.reachable_induction
    (P := fun w => I w.store ∧ ∀ j, J w.store j (w.tasks j)) ⟨hI, hJ⟩ ?_ hw
  rintro w ⟨i, a⟩ w' hw ⟨hI, hJ⟩ hstep'
  obtain ⟨s, t, hnext, rfl⟩ := P.step_eq_some.mp hstep'
  exact tasks_step (hstep w i a s t hw hI hJ hnext)

end Rules

end Program

end Fjarr.Lib
