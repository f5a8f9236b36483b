/-
Fjarr.Lib.Transition — runs of a transition system whose actions may be
disabled, and the induction rules every component below uses.

A `System` is an initial state and a partial step function. A run is a
list of actions that are all enabled in turn (`run`), so the action list
IS the interleaving: quantifying over action lists quantifies over every
order of the parties' steps. `AllSteps` says of a run that each of its
steps meets a condition in the state it starts from; it is how a result
that holds only while some branch is avoided is stated about whole runs.

* `invariant` — what holds initially and survives every step holds in
  every reachable state.
* `reachable_induction` — the same, when a step's proof needs facts
  already known of reachable states.
* `run_induction` — the same along a run whose steps all meet a
  condition, from any starting state.
* `allSteps_iff_states` — where the condition is exactly what one step
  needs to preserve a property, it is exactly what a run needs.
* `run_filter` — actions that a relation does not notice can be left out
  of a run.
-/
import Mathlib

namespace Fjarr.Lib

open List Option

theorem guarded {α : Type} {c : Prop} [Decidable c] {a b : α} :
    (if c then some a else none) = some b ↔ c ∧ a = b := by
  rw [ite_none_right_eq_some, some.injEq]

theorem guarded_not {α : Type} {c : Prop} [Decidable c] {a b : α} :
    (if c then none else some a) = some b ↔ ¬ c ∧ a = b := by
  rw [ite_none_left_eq_some, some.injEq]

theorem mem_snoc {α : Type} {a b : α} {l : List α} : a ∈ l ++ [b] ↔ a ∈ l ∨ a = b := by
  rw [mem_append, mem_singleton]

theorem nodup_snoc {α : Type} {a : α} {l : List α} (h : l.Nodup) (ha : a ∉ l) :
    (l ++ [a]).Nodup :=
  concat_eq_append ▸ h.concat ha

/-- What was read off an evaluated run holds of the state it ends in. -/
theorem evaluated {α β : Type} {o : Option α} (f : α → β) {b : β} {P : α → Prop}
    (h : o.map f = some b) (hP : ∀ a, o = some a → f a = b → P a) : ∃ a, o = some a ∧ P a := by
  obtain ⟨a, ha, hb⟩ := map_eq_some_iff.mp h
  exact ⟨a, ha, hP a ha hb⟩

/-- A transition system: an initial state, and a step each action takes
when it is enabled. -/
structure System (σ ι : Type) where
  init : σ
  step : σ → ι → Option σ

namespace System

variable {σ ι : Type} (M : System σ ι)

/-- The state after a list of actions, `none` once one is disabled. -/
def run : σ → List ι → Option σ
  | s, [] => some s
  | s, a :: as => (M.step s a).bind fun s' => run s' as

/-- A state some run from the initial state ends in. -/
def Reachable (s : σ) : Prop := ∃ as, M.run M.init as = some s

/-- Every step of the run meets `Q` in the state it starts from. -/
def AllSteps (Q : σ → ι → Prop) : σ → List ι → Prop
  | _, [] => True
  | s, a :: as => Q s a ∧ ∀ s', M.step s a = some s' → AllSteps Q s' as

/-- Every state the run passes through, its first and last included,
has the property. -/
def AllStates (P : σ → Prop) : σ → List ι → Prop
  | s, [] => P s
  | s, a :: as => P s ∧ ∀ s', M.step s a = some s' → AllStates P s' as

@[simp] theorem run_nil (s : σ) : M.run s [] = some s := rfl

theorem run_cons (s : σ) (a : ι) (as : List ι) :
    M.run s (a :: as) = (M.step s a).bind fun s' => M.run s' as := rfl

variable {s t : σ} {as : List ι} {P : σ → Prop} {Q R : σ → ι → Prop}

theorem run_cons_eq_some {a : ι} :
    M.run s (a :: as) = some t ↔ ∃ s', M.step s a = some s' ∧ M.run s' as = some t := by
  rw [run_cons, bind_eq_some_iff]

theorem run_append (s : σ) (as bs : List ι) :
    M.run s (as ++ bs) = (M.run s as).bind fun t => M.run t bs := by
  induction as generalizing s with
  | nil => rfl
  | cons a as ih =>
    rw [cons_append, run_cons, run_cons, bind_assoc]
    congr 1
    funext s'
    exact ih s'

theorem reachable_init : M.Reachable M.init := ⟨[], rfl⟩

theorem Reachable.step {M : System σ ι} {s' : σ} {a : ι} (hs : M.Reachable s)
    (h : M.step s a = some s') : M.Reachable s' := by
  obtain ⟨as, has⟩ := hs
  refine ⟨as ++ [a], ?_⟩
  rw [run_append, has, bind_some, run_cons_eq_some]
  exact ⟨s', h, rfl⟩

/-- **Conditioned induction**: a property that survives every step
meeting `Q` survives every run whose steps all meet `Q`. -/
theorem run_induction
    (hstep : ∀ s a s', P s → Q s a → M.step s a = some s' → P s')
    (hs : P s) (hQ : M.AllSteps Q s as) (h : M.run s as = some t) :
    P t := by
  induction as generalizing s with
  | nil =>
    rw [run_nil, some.injEq] at h
    exact h ▸ hs
  | cons a as ih =>
    obtain ⟨s', ha, has⟩ := (M.run_cons_eq_some).mp h
    exact ih (hstep s a s' hs hQ.1 ha) (hQ.2 s' ha) has

theorem allSteps_true (s : σ) (as : List ι) : M.AllSteps (fun _ _ => True) s as := by
  induction as generalizing s with
  | nil => trivial
  | cons a as ih => exact ⟨trivial, fun s' _ => ih s'⟩

/-- **Invariants**: what holds initially and survives every step holds
in every reachable state. -/
theorem invariant (hinit : P M.init)
    (hstep : ∀ s a s', P s → M.step s a = some s' → P s') (hs : M.Reachable s) : P s := by
  obtain ⟨as, has⟩ := hs
  exact M.run_induction (Q := fun _ _ => True) (fun s a s' hP _ h => hstep s a s' hP h) hinit
    (M.allSteps_true _ _) has

/-- Invariants whose step may use what else is known of reachable states. -/
theorem reachable_induction (hinit : P M.init)
    (hstep : ∀ s a s', M.Reachable s → P s → M.step s a = some s' → P s')
    (hs : M.Reachable s) : P s := by
  have hboth : M.Reachable s ∧ P s := by
    refine M.invariant (P := fun s => M.Reachable s ∧ P s) ⟨M.reachable_init, hinit⟩ ?_ hs
    rintro s a s' ⟨hs, hP⟩ h
    exact ⟨hs.step h, hstep s a s' hs hP h⟩
  exact hboth.2

theorem allSteps_of_forall
    (h : ∀ a ∈ as, ∀ s, Q s a) : M.AllSteps Q s as := by
  induction as generalizing s with
  | nil => trivial
  | cons a as ih =>
    exact ⟨h a mem_cons_self s, fun s' _ => ih fun b hb => h b (mem_cons_of_mem _ hb)⟩

/-- A decidable condition can be checked along a run. -/
instance decidableAllSteps (Q : σ → ι → Prop) [∀ s a, Decidable (Q s a)] :
    ∀ s as, Decidable (M.AllSteps Q s as)
  | _, [] => isTrue trivial
  | s, a :: as =>
    match h : M.step s a with
    | none => decidable_of_iff (Q s a)
        ⟨fun hq => ⟨hq, fun s' hs' => by simp [h] at hs'⟩, fun hq => hq.1⟩
    | some s' =>
      have := decidableAllSteps Q s' as
      decidable_of_iff (Q s a ∧ M.AllSteps Q s' as)
        ⟨fun hq => ⟨hq.1, fun t ht => (Option.some.inj (h.symm.trans ht)) ▸ hq.2⟩,
          fun hq => ⟨hq.1, hq.2 s' h⟩⟩

theorem AllSteps.imp {M : System σ ι} (himp : ∀ s a, Q s a → R s a)
    (hQ : M.AllSteps Q s as) : M.AllSteps R s as := by
  induction as generalizing s with
  | nil => trivial
  | cons a as ih => exact ⟨himp s a hQ.1, fun s' hs' => ih (hQ.2 s' hs')⟩

theorem AllSteps.and {M : System σ ι}
    (hQ : M.AllSteps Q s as) (hR : M.AllSteps R s as) :
    M.AllSteps (fun s a => Q s a ∧ R s a) s as := by
  induction as generalizing s with
  | nil => trivial
  | cons a as ih => exact ⟨⟨hQ.1, hR.1⟩, fun s' hs' => ih (hQ.2 s' hs') (hR.2 s' hs')⟩

theorem AllSteps.and_reachable {M : System σ ι}
    (hs : M.Reachable s) (hQ : M.AllSteps Q s as) :
    M.AllSteps (fun s a => M.Reachable s ∧ Q s a) s as := by
  induction as generalizing s with
  | nil => trivial
  | cons a as ih => exact ⟨⟨hs, hQ.1⟩, fun s' hs' => ih (hs.step hs') (hQ.2 s' hs')⟩

/-- Where `Q` is exactly what a step meeting `R` needs to preserve `P`,
it is exactly what a run of such steps needs to stay in `P`. -/
theorem allSteps_iff_states
    (hstep : ∀ s a s', P s → R s a → M.step s a = some s' → (Q s a ↔ P s'))
    (hs : P s) (hR : M.AllSteps R s as) (h : M.run s as = some t) :
    M.AllSteps Q s as ↔ M.AllStates P s as := by
  induction as generalizing s with
  | nil => exact ⟨fun _ => hs, fun _ => trivial⟩
  | cons a as ih =>
    obtain ⟨s', ha, has⟩ := (M.run_cons_eq_some).mp h
    have hiff := hstep s a s' hs hR.1 ha
    constructor
    · rintro ⟨hq, hrest⟩
      refine ⟨hs, fun s'' hs'' => ?_⟩
      obtain rfl : s' = s'' := some.inj (ha.symm.trans hs'')
      exact (ih (hiff.mp hq) (hR.2 s' ha) has).mp (hrest s' ha)
    rintro ⟨_, hrest⟩
    have hP' : P s' := by
      have := hrest s' ha
      cases as with
      | nil => exact this
      | cons b bs => exact this.1
    refine ⟨hiff.mpr hP', fun s'' hs'' => ?_⟩
    obtain rfl : s' = s'' := some.inj (ha.symm.trans hs'')
    exact (ih hP' (hR.2 s' ha) has).mpr (hrest s' ha)

/-- **Purging**: where the kept actions take related states to related
states and the others only move within the relation, the run of the kept
actions alone exists and ends related. -/
theorem run_filter {R : σ → σ → Prop} {keep : ι → Bool}
    (hkeep : ∀ s t a s', R s t → Q s a → keep a = true → M.step s a = some s' →
      ∃ t', M.step t a = some t' ∧ R s' t')
    (hdrop : ∀ s t a s', R s t → Q s a → keep a = false → M.step s a = some s' → R s' t)
    {s' : σ} (hR : R s t) (hQ : M.AllSteps Q s as)
    (h : M.run s as = some s') : ∃ t', M.run t (as.filter keep) = some t' ∧ R s' t' := by
  induction as generalizing s t with
  | nil =>
    rw [run_nil, some.injEq] at h
    exact ⟨t, rfl, h ▸ hR⟩
  | cons a as ih =>
    obtain ⟨s1, ha, has⟩ := (M.run_cons_eq_some).mp h
    cases hk : keep a with
    | false =>
      rw [filter_cons_of_neg (by simp [hk])]
      exact ih (hdrop s t a s1 hR hQ.1 hk ha) (hQ.2 s1 ha) has
    | true =>
      obtain ⟨t1, ht, hR1⟩ := hkeep s t a s1 hR hQ.1 hk ha
      obtain ⟨t', hrun, hR'⟩ := ih hR1 (hQ.2 s1 ha) has
      rw [filter_cons_of_pos hk]
      exact ⟨t', (M.run_cons_eq_some).mpr ⟨t1, ht, hrun⟩, hR'⟩

end System

end Fjarr.Lib
