/-
Fjarr.Lib.Ledger — obligations taken on by tasks and met one by one.

`due` is the history of obligations with the task that took each on,
`met` the history of those it met, and `owed i` what task `i` has still
to meet. `Balanced` says the three agree for every task and obligation.
What is taken on at most once is then met at most once, by the task that
took it on, and it has been met when that task owes nothing.
-/
import Mathlib.Data.List.Count
import Mathlib.Data.List.Perm.Basic

namespace Fjarr.Lib

open List

variable {α : Type} [DecidableEq α]

/-- Every task's obligations are either met or still owed. -/
def Balanced (owed : Nat → List α) (due met : List (Nat × α)) : Prop :=
  ∀ i x, (owed i).count x + met.count (i, x) = due.count (i, x)

theorem count_map_pair (i j : Nat) (xs : List α) (x : α) :
    (xs.map (j, ·)).count (i, x) = if i = j then xs.count x else 0 := by
  by_cases h : i = j
  · subst h
    rw [if_pos rfl]
    exact count_map_of_injective _ _ (fun _ _ hxy => (Prod.mk.inj hxy).2) _
  rw [if_neg h, count_eq_zero]
  intro hmem
  obtain ⟨y, -, hy⟩ := mem_map.mp hmem
  exact h (Prod.mk.inj hy).1.symm

namespace Balanced

variable {owed : Nat → List α} {due met : List (Nat × α)}

variable {i : Nat} {x : α}

theorem step (h : Balanced owed due met) {taken paid rest : List α}
    (hperm : (owed i ++ taken).Perm (paid ++ rest)) {owed' : Nat → List α}
    {due' met' : List (Nat × α)} (hown : owed' i = rest) (hothers : ∀ j, j ≠ i → owed' j = owed j)
    (hdue : due'.Perm (due ++ taken.map (i, ·))) (hmet : met' = met ++ paid.map (i, ·)) :
    Balanced owed' due' met' := by
  intro j x
  have hbal := h j x
  rw [perm_iff_count.mp hdue, hmet, count_append, count_append, count_map_pair,
    count_map_pair]
  by_cases hj : j = i
  · subst hj
    have hcount := perm_iff_count.mp hperm x
    rw [count_append, count_append] at hcount
    rw [hown, if_pos rfl, if_pos rfl]
    omega
  · rw [hothers j hj, if_neg hj, if_neg hj]
    omega

/-- Only what a task took on is met, by that task. -/
theorem mem_due (h : Balanced owed due met) (hx : (i, x) ∈ met) :
    (i, x) ∈ due := by
  have hbal := h i x
  have hpos := count_pos_iff.mpr hx
  exact count_pos_iff.mp (by omega)

theorem mem_due_of_owed (h : Balanced owed due met) (hx : x ∈ owed i) :
    (i, x) ∈ due := by
  have hbal := h i x
  have hpos := count_pos_iff.mpr hx
  exact count_pos_iff.mp (by omega)

theorem eq_of_count_le_one {l : List (Nat × α)} {j : Nat}
    (h : (l.map Prod.snd).count x ≤ 1) (hi : (i, x) ∈ l) (hj : (j, x) ∈ l) : j = i := by
  induction l with
  | nil => cases hi
  | cons p l ih =>
    rw [map_cons, count_cons] at h
    have habsent : p.2 = x → ∀ k, (k, x) ∉ l := by
      intro hp k hk
      have hpos : 0 < (l.map Prod.snd).count x :=
        count_pos_iff.mpr (mem_map_of_mem (f := Prod.snd) hk)
      rw [hp, if_pos (beq_self_eq_true x)] at h
      omega
    rcases mem_cons.mp hi with rfl | hi'
    · rcases mem_cons.mp hj with hp | hj'
      · exact (Prod.mk.inj hp).1
      · exact absurd hj' (habsent rfl j)
    rcases mem_cons.mp hj with rfl | hj'
    · exact absurd hi' (habsent rfl i)
    · exact ih (by omega) hi' hj'

theorem count_map_snd {l : List (Nat × α)}
    (h : ∀ j, (j, x) ∈ l → j = i) : (l.map Prod.snd).count x = l.count (i, x) := by
  induction l with
  | nil => rfl
  | cons p l ih =>
    have ih := ih fun j hj => h j (mem_cons_of_mem _ hj)
    obtain ⟨j, y⟩ := p
    rw [map_cons, count_cons, count_cons, ih]
    by_cases hy : y = x
    · subst hy
      obtain rfl := h j mem_cons_self
      simp
    · simp [hy]

/-- **What is taken on at most once is met at most once.** -/
theorem met_le_one (h : Balanced owed due met)
    (hdue : (due.map Prod.snd).count x ≤ 1) : (met.map Prod.snd).count x ≤ 1 := by
  by_cases hx : x ∈ met.map Prod.snd
  · obtain ⟨⟨i, y⟩, hp, hy⟩ := mem_map.mp hx
    obtain rfl : y = x := hy
    have hi := h.mem_due hp
    have hunique : ∀ j, (j, y) ∈ due → j = i := fun j hj => eq_of_count_le_one hdue hi hj
    have hbal := h i y
    rw [count_map_snd hunique] at hdue
    rw [count_map_snd fun j hj => hunique j (h.mem_due hj)]
    omega
  · rw [count_eq_zero_of_not_mem hx]
    exact Nat.zero_le _

theorem mem_met (h : Balanced owed due met) (hdue : (i, x) ∈ due)
    (hnone : x ∉ owed i) : (i, x) ∈ met := by
  have hbal := h i x
  have hpos := count_pos_iff.mpr hdue
  rw [count_eq_zero_of_not_mem hnone] at hbal
  exact count_pos_iff.mp (by omega)

end Balanced

end Fjarr.Lib
