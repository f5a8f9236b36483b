/-
Fjarr.Signaling.Presence — robots coming online and going offline in the
event stream.

Under the lock the decisions alternate: a registration that replaces
nobody brings the robot online, the disconnect of the registered socket
takes it offline (`decisions_alternate`). The events are emitted after the
lock is released, in an order of their own.

* `offline_after_online` — a run in which a dying socket's offline is
  emitted after its successor's online, and stays the last word.
* `presence_truthful` — presence is truthful in every run in which each
  robot's events are emitted in the order they were decided.
-/
import Fjarr.Signaling.Sessions

namespace Fjarr.Signaling

open Fjarr.Lib List

/-! ## Alternation -/

/-- `b`, its opposite, `b`, and so on. -/
def Alternates : Bool → List Bool → Prop
  | _, [] => True
  | b, x :: xs => x = b ∧ Alternates (!b) xs

/-- What comes next in a list that alternates from `b`. -/
def upcoming : Bool → List Bool → Bool
  | b, [] => b
  | b, _ :: xs => upcoming (!b) xs

theorem alternates_append {b : Bool} {xs ys : List Bool} :
    Alternates b (xs ++ ys) ↔ Alternates b xs ∧ Alternates (upcoming b xs) ys := by
  induction xs generalizing b with
  | nil => simp [Alternates, upcoming]
  | cons x xs ih => simp only [cons_append, Alternates, upcoming, ih, and_assoc]

theorem upcoming_append (b : Bool) (xs ys : List Bool) :
    upcoming b (xs ++ ys) = upcoming (upcoming b xs) ys := by
  induction xs generalizing b with
  | nil => rfl
  | cons x xs ih => exact ih _

theorem getLast_of_alternates {xs : List Bool} (h : Alternates true xs) :
    xs.getLast? = some true ↔ upcoming true xs = false := by
  cases hlast : xs.getLast? with
  | none =>
    rw [getLast?_eq_none_iff] at hlast
    simp [hlast, upcoming]
  | some x =>
    obtain ⟨ys, rfl⟩ := getLast?_eq_some_iff.mp hlast
    obtain ⟨-, hx, -⟩ := alternates_append.mp h
    rw [upcoming_append, hx]
    simp [upcoming]

/-! ## Presence events -/

/-- What an event says about a robot's presence. -/
def Notice.presence (r : String) : Notice → Option Bool
  | .online r' => if r' = r then some true else none
  | .offline r' => if r' = r then some false else none
  | _ => none

/-- The presence of a robot in a stream of events. -/
def presence (r : String) (l : List (Nat × Notice)) : List Bool :=
  l.filterMap fun p => p.2.presence r

/-- The events of a stream about a robot's presence. -/
def about (r : String) (l : List (Nat × Notice)) : List (Nat × Notice) :=
  l.filter fun p => (p.2.presence r).isSome

theorem presence_append (r : String) (l m : List (Nat × Notice)) :
    presence r (l ++ m) = presence r l ++ presence r m :=
  filterMap_append

theorem presence_about (r : String) (l : List (Nat × Notice)) :
    presence r (about r l) = presence r l := by
  rw [presence, about, filterMap_filter]
  refine filterMap_congr fun p _ => ?_
  cases hp : p.2.presence r <;> simp

theorem Notice.presence_isSome {r : String} {n : Notice} (h : (n.presence r).isSome) :
    n = .online r ∨ n = .offline r := by
  cases n with
  | online r' =>
    left
    by_cases hr : r' = r
    · rw [hr]
    · simp [presence, hr] at h
  | offline r' =>
    right
    by_cases hr : r' = r
    · rw [hr]
    · simp [presence, hr] at h
  | started sid => cases h
  | ended sid => cases h

/-- A robot's decisions alternate from online, and it is registered while
its next one is to go offline. -/
structure Decided (r : String) (s : Shared) : Prop where
  alternate : Alternates true (presence r s.noted)
  registered : upcoming true (presence r s.noted) = false ↔ s.agents[r]?.isSome

namespace Decided

variable {r : String} {s s' : Shared}

theorem decide (h : Decided r s) {b : Bool}
    (hnoted : presence r s'.noted = presence r s.noted ++ [b])
    (hbefore : s.agents[r]?.isSome = !b) (hafter : s'.agents[r]?.isSome = b) : Decided r s' := by
  have hupcoming : upcoming true (presence r s.noted) = b := by
    have hreg := h.registered
    rw [hbefore] at hreg
    cases b
    · simpa using hreg
    · simpa using hreg
  refine ⟨?_, ?_⟩
  · rw [hnoted, alternates_append]
    exact ⟨h.alternate, hupcoming.symm, trivial⟩
  · rw [hnoted, upcoming_append, hupcoming, hafter]
    simp [upcoming]

theorem keep (h : Decided r s) (hnoted : presence r s'.noted = presence r s.noted)
    (hagents : s'.agents[r]?.isSome = s.agents[r]?.isSome) : Decided r s' := by
  refine ⟨hnoted ▸ h.alternate, ?_⟩
  rw [hnoted, hagents]
  exact h.registered

theorem apply (h : Decided r s) {i : Nat} {op : Op} (hop : op.Enabled s i) :
    Decided r (op.apply s i) := by
  have hnoted : presence r (op.apply s i).noted =
      presence r s.noted ++ presence r ((op.notes s).map (i, ·)) := by
    rw [Op.apply_noted hop, presence_append]
  have hagents := Op.apply_agents hop r
  cases op with
  | register r' =>
    by_cases hr : r' = r
    · subst hr
      cases hreg : s.agents[r']? with
      | none =>
        refine h.decide (b := true) ?_ (by simp [hreg]) (by simp [hagents])
        simpa [hreg, presence, Notice.presence] using hnoted
      | some tx =>
        refine h.keep ?_ (by simp [hagents, hreg])
        simpa [hreg, presence] using hnoted
    refine h.keep ?_ (by simp [hagents, hr])
    rw [hnoted, Op.notes]
    split <;> simp [presence, Notice.presence, hr]
  | sweep r' order =>
    by_cases hr : r' = r
    · subst hr
      refine h.decide (b := false) ?_ (by simp [hop.1]) (by simp [hagents])
      simpa [presence, Notice.presence] using hnoted
    · refine h.keep ?_ (by simp [hagents, hr])
      simpa [presence, Notice.presence, hr] using hnoted
  | note n =>
    obtain ⟨sid, rfl⟩ := hop
    refine h.keep ?_ (by rw [hagents])
    simpa [presence, Notice.presence] using hnoted
  | _ =>
    refine h.keep ?_ (by rw [hagents])
    simpa [presence] using hnoted

end Decided

variable {w : World}

/-- **Presence decisions alternate in every interleaving**, and the last one
is what the registry says. -/
theorem decisions_alternate {config : Config}
    (hw : (server config).system.Reachable w) (r : String) : Decided r w.store := by
  refine (server config).system.invariant (P := fun w => Decided r w.store) ?_ ?_ hw
  · exact ⟨trivial, by simp [Program.system, server, presence, upcoming]⟩
  rintro w ⟨i, a⟩ w' h hstep
  obtain ⟨s, t, hnext, rfl⟩ := (server config).step_eq_some.mp hstep
  obtain ⟨op, rfl, hmove, -⟩ := next_move hnext
  exact h.apply hmove.enabled

/-! ## Emission -/

/-- Presence is told truthfully: the robot's events alternate from online,
and while no task has one still to emit, the last is online exactly when
an agent is registered. -/
def Truthful (r : String) (w : World) : Prop :=
  Alternates true (presence r w.store.emitted) ∧
    ((∀ i, .online r ∉ (w.tasks i).owes ∧ .offline r ∉ (w.tasks i).owes) →
      ((presence r w.store.emitted).getLast? = some true ↔ w.store.agents[r]?.isSome))

/-- A robot's agent reconnects before its old socket's offline is emitted. -/
def reconnects : List (Nat × Input) :=
  agentConnects 0 "r" ++ [hangsUp 0, goes 0] ++ agentConnects 1 "r" ++ [goes 0]

/-- **A stale offline has the last word**: online, online, offline, while
the robot's new socket is registered. -/
theorem offline_after_online : ∃ w, (server trusting).system.run
    (server trusting).system.init reconnects = some w ∧
      presence "r" w.store.emitted = [true, true, false] ∧
      w.store.agents["r"]? = some 1 ∧ ¬ Truthful "r" w := by
  refine evaluated (fun w => (presence "r" w.store.emitted, w.store.agents["r"]?))
    (b := ([true, true, false], some 1)) (by decide +kernel) fun w hrun hw => ?_
  simp only [Prod.mk.injEq] at hw
  refine ⟨hw.1, hw.2, fun htruthful => ?_⟩
  have halternate := htruthful.1
  rw [hw.1] at halternate
  simp [Alternates] at halternate

/-- The robot an event is about. -/
def Notice.robot : Notice → Option String
  | .online r | .offline r => some r
  | _ => none

/-- A presence event is emitted only when it is the robot's next one in the
order of the decisions. -/
def EmitsInOrder (w : World) (a : Nat × Input) : Prop :=
  match a.2 with
  | .go _ =>
    ∀ n ∈ (w.tasks a.1).emitting, ∀ r ∈ n.robot,
      (about r w.store.noted)[(about r w.store.emitted).length]? = some (a.1, n)
  | _ => True

instance (w : World) : ∀ a, Decidable (EmitsInOrder w a)
  | (i, .go _) => inferInstanceAs (Decidable (∀ n ∈ (w.tasks i).emitting, ∀ r ∈ n.robot,
      (about r w.store.noted)[(about r w.store.emitted).length]? = some (i, n)))
  | (_, .frame _ _) => isTrue trivial
  | (_, .close) => isTrue trivial

theorem about_append (r : String) (l m : List (Nat × Notice)) :
    about r (l ++ m) = about r l ++ about r m :=
  filter_append _ _

/-- One in-order step keeps a robot's emitted events a first part of its
decisions. -/
theorem emitted_prefix_step {i : Nat} {a : Input} {op : Op} {t : Task} (r : String)
    (h : about r w.store.emitted <+: about r w.store.noted)
    (hmove : Move w.store i (w.tasks i) op t) (hgo : op.Passive ∨ ∃ env, a = .go env)
    (hq : EmitsInOrder w (i, a)) :
    about r (op.apply w.store i).emitted <+: about r (op.apply w.store i).noted := by
  have hemitted : (op.apply w.store i).emitted =
      w.store.emitted ++ op.emits.map fun e => (i, e.notice) := by
    rw [Shared.emitted, Op.apply_events hmove.enabled, map_append, map_map]
    rfl
  rw [hemitted, Op.apply_noted hmove.enabled, about_append, about_append]
  cases op with
  | emit e =>
    change _ <+: about r w.store.noted ++ []
    rw [append_nil]
    by_cases hr : (e.notice.presence r).isSome
    · -- the event is the next decision of the robot
      obtain ⟨env, rfl⟩ := hgo.resolve_left fun hp => hp
      have hrobot : r ∈ e.notice.robot := by
        rcases Notice.presence_isSome hr with hn | hn <;> rw [hn] <;> rfl
      have hnext := hq e.notice hmove.emitting r hrobot
      obtain ⟨rest, hrest⟩ := h
      rw [← hrest, getElem?_append_right (Nat.le_refl _), Nat.sub_self] at hnext
      obtain ⟨rest', rfl⟩ : ∃ rest', rest = (i, e.notice) :: rest' := by
        cases rest with
        | nil => cases hnext
        | cons p rest' => exact ⟨rest', by rw [Option.some.inj hnext]⟩
      refine ⟨rest', ?_⟩
      rw [← hrest]
      simp [about, hr]
    have hnone : about r ((Op.emit e).emits.map fun e => (i, e.notice)) = [] := by
      simp [about, hr]
    rw [hnone, append_nil]
    exact h
  | _ =>
    change about r w.store.emitted ++ [] <+: _
    rw [append_nil]
    exact h.trans (prefix_append _ _)

/-- While no task has an event of the robot still to emit, everything
decided has been emitted. -/
theorem emitted_eq_noted {config : Config}
    (hw : (server config).system.Reachable w) {r : String}
    (h : about r w.store.emitted <+: about r w.store.noted)
    (hquiet : ∀ i, .online r ∉ (w.tasks i).owes ∧ .offline r ∉ (w.tasks i).owes) :
    about r w.store.emitted = about r w.store.noted := by
  obtain ⟨rest, hrest⟩ := h
  cases rest with
  | nil => rw [← hrest, append_nil]
  | cons p rest =>
    exfalso
    obtain ⟨i, n⟩ := p
    have hmem : (i, n) ∈ about r w.store.noted := by
      rw [← hrest]
      exact mem_append_right _ mem_cons_self
    have hpresence : (n.presence r).isSome := (mem_filter.mp hmem).2
    have hcount : w.store.emitted.count (i, n) < w.store.noted.count (i, n) := by
      have hfilter : ∀ l : List (Nat × Notice), (about r l).count (i, n) = l.count (i, n) :=
        fun l => count_filter (by simpa using hpresence)
      rw [← hfilter w.store.emitted, ← hfilter w.store.noted, ← hrest, count_append,
        count_cons_self]
      omega
    have hdue : w.store.noted.count (i, n) ≤ w.store.due.count (i, n) := by
      rw [Shared.due, count_append]
      exact Nat.le_add_right _ _
    have hbal : (w.tasks i).owes.count n + w.store.emitted.count (i, n) =
        w.store.due.count (i, n) := ledger hw i n
    have howed : n ∈ (w.tasks i).owes := count_pos_iff.mp (by omega)
    rcases Notice.presence_isSome hpresence with rfl | rfl
    · exact (hquiet i).1 howed
    · exact (hquiet i).2 howed

/-- **Presence is truthful** in every run whose presence events are emitted
in the order they were decided: in every state reached, for every robot. -/
theorem presence_truthful {config : Config} {acts : List (Nat × Input)} {w : World}
    (hacts : (server config).system.AllSteps EmitsInOrder (server config).system.init acts)
    (hrun : (server config).system.run (server config).system.init acts = some w) (r : String) :
    Truthful r w := by
  have hw : (server config).system.Reachable w := ⟨acts, hrun⟩
  have hprefix : about r w.store.emitted <+: about r w.store.noted := by
    refine (server config).system.run_induction
      (P := fun w => about r w.store.emitted <+: about r w.store.noted) ?_ ?_ hacts hrun
    · rintro w ⟨i, a⟩ w' h hq hstep
      obtain ⟨s, t, hnext, rfl⟩ := (server config).step_eq_some.mp hstep
      obtain ⟨op, rfl, hmove, hgo⟩ := next_move hnext
      exact emitted_prefix_step r h hmove hgo hq
    · exact nil_prefix
  obtain ⟨halternate, hregistered⟩ := decisions_alternate hw r
  have hemitted : Alternates true (presence r w.store.emitted) := by
    obtain ⟨rest, hrest⟩ := hprefix
    rw [← presence_about, ← hrest, presence_append] at halternate
    rw [← presence_about]
    exact (alternates_append.mp halternate).1
  refine ⟨hemitted, fun hquiet => ?_⟩
  rw [getLast_of_alternates hemitted, ← presence_about, emitted_eq_noted hw hprefix hquiet,
    presence_about]
  exact hregistered

/-- The old socket's offline is emitted before the agent reconnects. -/
def reconnectsLater : List (Nat × Input) :=
  agentConnects 0 "r" ++ [hangsUp 0, goes 0, goes 0] ++ agentConnects 1 "r"

theorem presence_truthful_reconnect : ∃ w, (server trusting).system.run
    (server trusting).system.init reconnectsLater = some w ∧
      presence "r" w.store.emitted = [true, false, true] ∧ Truthful "r" w := by
  refine evaluated (fun w => presence "r" w.store.emitted) (b := [true, false, true])
    (by decide +kernel) fun w hrun hw => ?_
  exact ⟨hw, presence_truthful (by decide +kernel) hrun "r"⟩

end Fjarr.Signaling
