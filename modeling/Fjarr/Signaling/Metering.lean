/-
Fjarr.Signaling.Metering — the session events of the metering stream.

A session's end is decided by its removal from the registry, which the
mutex makes happen once, so `session.ended` is emitted once
(`session_ends_once`). Nothing of the kind holds for `session.started`:
the server keeps no record that a session was accepted, and the event is
emitted after the registry was read.

* `session_ends_once` — for every interleaving.
* `repeated_accept_starts_twice` — a run with two `session.started`.
* `session_starts_once` — it holds in every run in which a session's
  acceptance is not read twice and its end is not emitted while its start
  is still to be emitted.
-/
import Fjarr.Signaling.Sessions

namespace Fjarr.Signaling

open Fjarr.Lib List

/-- The events of one kind about one session. -/
def Shared.eventsOf (s : Shared) (n : Notice) : List (Nat × Event) :=
  s.events.filter fun e => e.2.notice = n

theorem length_eventsOf (s : Shared) (n : Notice) :
    (s.eventsOf n).length = (s.emitted.map Prod.snd).count n := by
  rw [Shared.eventsOf, Shared.emitted, map_map, ← countP_eq_length_filter, List.count,
    countP_map]
  rfl

variable {config : Config} {w : World}

/-- What the lock decides on besides removals is never a session's end. -/
theorem noted_ne_ended (hw : (server config).system.Reachable w) :
    ∀ p ∈ w.store.noted, ∀ sid, p.2 ≠ .ended sid := by
  refine (server config).system.invariant
    (P := fun w => ∀ p ∈ w.store.noted, ∀ sid, p.2 ≠ .ended sid) (by simp [Program.system, server])
    ?_ hw
  rintro w ⟨i, a⟩ w' hnoted hstep p hp sid
  obtain ⟨s, t, hnext, rfl⟩ := (server config).step_eq_some.mp hstep
  obtain ⟨op, rfl, hmove, -⟩ := next_move hnext
  have henabled := hmove.enabled
  rw [Op.apply_noted henabled] at hp
  rcases mem_append.mp hp with hp | hp
  · exact hnoted p hp sid
  obtain ⟨n, hn, rfl⟩ := mem_map.mp hp
  cases op with
  | register r =>
    simp only [Op.notes] at hn
    split at hn
    · rw [mem_singleton.mp hn]
      exact Notice.noConfusion
    · cases hn
  | sweep r order =>
    rw [mem_singleton.mp hn]
    exact Notice.noConfusion
  | note n' =>
    obtain ⟨sid', rfl⟩ := henabled
    rw [mem_singleton.mp hn]
    exact Notice.noConfusion
  | _ => cases hn

theorem ended_mem_due (hw : (server config).system.Reachable w)
    {i : Nat} {sid : String} :
    (i, .ended sid) ∈ w.store.due ↔ ∃ rm ∈ w.store.removed, rm.sid = sid ∧ rm.task = i := by
  rw [Shared.due, mem_append, mem_map]
  constructor
  · rintro (hp | ⟨rm, hrm, heq⟩)
    · exact absurd rfl (noted_ne_ended hw _ hp sid)
    · cases heq
      exact ⟨rm, hrm, rfl, rfl⟩
  · rintro ⟨rm, hrm, rfl, rfl⟩
    exact .inr ⟨rm, hrm, rfl⟩

theorem count_ended_due (hw : (server config).system.Reachable w)
    (sid : String) : (w.store.due.map Prod.snd).count (.ended sid) ≤ 1 := by
  have hnoted : (w.store.noted.map Prod.snd).count (.ended sid) = 0 := by
    refine count_eq_zero_of_not_mem fun hmem => ?_
    obtain ⟨p, hp, hsid⟩ := mem_map.mp hmem
    exact noted_ne_ended hw p hp sid hsid
  have hremoved : (w.store.removed.map fun rm => Notice.ended rm.sid).count (.ended sid) ≤ 1 := by
    have hnodup := (live_owner hw).1.removed_nodup
    have hmap : (w.store.removed.map fun rm => Notice.ended rm.sid) =
        (w.store.removed.map (·.sid)).map Notice.ended := by
      rw [map_map]
      rfl
    rw [hmap]
    exact nodup_iff_count_le_one.mp
      (hnodup.map fun _ _ heq => Notice.ended.inj heq) _
  rw [Shared.due, map_append, count_append, map_map, hnoted, Nat.zero_add]
  exact hremoved

/-- **Every session ends exactly once in the metering stream**: at most one
end is emitted, by a task that removed the session from the registry, and
one has been emitted once the operator's task and every agent task of the
robot are done. -/
theorem session_ends_once {config : Config} {w : World}
    (hw : (server config).system.Reachable w) {o : Opening} (ho : o ∈ w.store.opened) :
    (w.store.eventsOf (.ended o.sid)).length ≤ 1 ∧
      (∀ e ∈ w.store.eventsOf (.ended o.sid),
        ∃ rm ∈ w.store.removed, rm.sid = o.sid ∧ rm.task = e.1) ∧
      (w.tasks o.session.operatorTx = .operator .done →
        (∀ i pc, w.tasks i = .agent o.session.robotId pc → pc = .done) →
          (w.store.eventsOf (.ended o.sid)).length = 1) := by
  have hledger := ledger hw
  obtain ⟨hlive, howner⟩ := live_owner hw
  have hone : (w.store.eventsOf (.ended o.sid)).length ≤ 1 := by
    rw [length_eventsOf]
    exact hledger.met_le_one (count_ended_due hw o.sid)
  refine ⟨hone, ?_, ?_⟩
  · intro e he
    obtain ⟨hmem, hnotice⟩ := mem_filter.mp he
    have hmet : (e.1, .ended o.sid) ∈ w.store.emitted :=
      mem_map.mpr ⟨e, hmem, by rw [decide_eq_true_eq.mp hnotice]⟩
    exact (ended_mem_due hw).mp (hledger.mem_due hmet)
  intro hoperator hagents
  -- the operator's last removal came too late or removed the session
  have hrm : o.sid ∈ w.store.removed.map (·.sid) := by
    by_contra hrm
    obtain ⟨pc, hpc, hsession⟩ := (howner _).opener o ho rfl
    rw [hoperator] at hpc
    cases hpc
    cases hsession hrm
  obtain ⟨rm, hmem, hsid⟩ := mem_map.mp hrm
  have hdue : (rm.task, .ended o.sid) ∈ w.store.due :=
    (ended_mem_due hw).mpr ⟨rm, hmem, hsid, rfl⟩
  -- whoever removed it owns it, and its task is done
  have hdone : (w.tasks rm.task).owes = [] := by
    obtain ⟨o', ho', hsid', howns⟩ := (howner rm.task).removals rm hmem rfl
    obtain rfl := hlive.opening_unique ho' ho (hsid'.trans hsid)
    cases htask : w.tasks rm.task with
    | agent r pc =>
      rw [htask] at howns
      obtain rfl : o'.session.robotId = r := howns
      rw [hagents _ _ htask]
      rfl
    | operator pc =>
      rw [htask] at howns
      have htx : o'.session.operatorTx = rm.task := howns
      rw [htx, htask] at hoperator
      rw [hoperator]
      rfl
    | connecting => rfl
    | refused => rfl
  have hmet := hledger.mem_met hdue (by rw [hdone]; exact not_mem_nil)
  have hpos : 0 < (w.store.emitted.map Prod.snd).count (.ended o.sid) :=
    count_pos_iff.mpr (mem_map_of_mem (f := Prod.snd) hmet)
  rw [length_eventsOf] at hone ⊢
  omega

/-- A session that its operator closes, before both sockets close. -/
def wholeSession : List (Nat × Input) :=
  agentConnects 0 "r" ++ operatorConnects 1 "r" "s" ++
    [tells 1 (.sessionClose "s" "bye" none), goes 1, goes 1, goes 1, hangsUp 0, goes 0, goes 0]

theorem session_ends_once_closed : ∃ w, (server trusting).system.run
    (server trusting).system.init wholeSession = some w ∧
      (w.store.eventsOf (.ended "s")).length = 1 := by
  refine evaluated (fun w => (w.tasks 0, w.tasks 1, w.store.opened))
    (b := (.agent "r" .done, .operator .done, [{ sid := "s", session := ⟨"r", "t", ⟨"o", "O"⟩, [],
      1, 0⟩ }]))
    (by decide +kernel) fun w hrun hw => ?_
  simp only [Prod.mk.injEq] at hw
  obtain ⟨h0, h1, hopened⟩ := hw
  have hagents : ∀ i pc, w.tasks i = .agent "r" pc → pc = .done := by
    intro i pc hi
    by_cases hmem : i ∈ wholeSession.map Prod.fst
    · have hcases : ∀ i ∈ wholeSession.map Prod.fst, i = 0 ∨ i = 1 := by decide
      rcases hcases i hmem with rfl | rfl
      · rw [h0] at hi
        cases hi
        rfl
      · rw [h1] at hi
        cases hi
    · rw [(server trusting).run_other hmem hrun] at hi
      cases hi
  exact (session_ends_once ⟨_, hrun⟩ (by rw [hopened]; exact mem_singleton.mpr rfl)).2.2
    h1 hagents

/-! ## Starts -/

/-- Every session starts at most once, and not after its end. -/
def StartsOnce (s : Shared) : Prop :=
  ∀ sid, (s.eventsOf (.started sid)).length ≤ 1 ∧
    s.events.Pairwise fun a b => ¬ (a.2.notice = .ended sid ∧ b.2.notice = .started sid)

/-- An agent accepts the same session twice. -/
def acceptsTwice : List (Nat × Input) :=
  agentConnects 0 "r" ++ operatorConnects 1 "r" "s" ++
    [tells 0 (.sessionAccept "s"), goes 0, goes 0, tells 0 (.sessionAccept "s"), goes 0, goes 0]

/-- **A repeated session-accept starts the session twice.** -/
theorem repeated_accept_starts_twice : ∃ w, (server trusting).system.run
    (server trusting).system.init acceptsTwice = some w ∧ ¬ StartsOnce w.store := by
  refine evaluated (fun w => (w.store.eventsOf (.started "s")).length) (b := 2) (by decide +kernel)
    fun w hrun hw => ?_
  refine fun hstarts => ?_
  have hone := (hstarts "s").1
  omega

/-- The session whose acceptance a task's next operation looks up. -/
def Task.accepting : Task → Option String
  | .agent _ (.sessionMeta sid) => some sid
  | _ => none

def Notice.endedId : Notice → Option String
  | .ended sid => some sid
  | _ => none

/-- A session's acceptance is looked up only if its start was not decided
on before, and its end is emitted only if no start decided on is still to
be emitted. -/
def StartsInOrder (w : World) (a : Nat × Input) : Prop :=
  match a.2 with
  | .go _ =>
    (∀ sid ∈ (w.tasks a.1).accepting, .started sid ∉ w.store.noted.map Prod.snd) ∧
      ∀ sid ∈ (w.tasks a.1).emitting.bind Notice.endedId,
        ∀ p ∈ w.store.noted, p.2 = .started sid → p ∈ w.store.emitted
  | _ => True

instance (w : World) : ∀ a, Decidable (StartsInOrder w a)
  | (_, .go _) => inferInstanceAs (Decidable (_ ∧ _))
  | (_, .frame _ _) => isTrue trivial
  | (_, .close) => isTrue trivial

/-- Starts are decided on once, and a session whose start is owed has not
been reported ended. -/
structure StartInv (w : World) : Prop where
  once : ∀ sid, (w.store.noted.map Prod.snd).count (.started sid) ≤ 1
  before : ∀ i sid, .started sid ∈ (w.tasks i).owes → .ended sid ∉ w.store.emitted.map Prod.snd
  ordered : ∀ sid, w.store.events.Pairwise
    fun a b => ¬ (a.2.notice = .ended sid ∧ b.2.notice = .started sid)

theorem count_started_due (s : Shared) (sid : String) :
    (s.due.map Prod.snd).count (.started sid) = (s.noted.map Prod.snd).count (.started sid) := by
  have hremoved : ((s.removed.map fun rm => (rm.task, Notice.ended rm.sid)).map Prod.snd).count
      (.started sid) = 0 := by
    refine count_eq_zero_of_not_mem fun hmem => ?_
    rw [map_map] at hmem
    obtain ⟨rm, -, heq⟩ := mem_map.mp hmem
    cases heq
  rw [Shared.due, map_append, count_append, hremoved, Nat.add_zero]

/-- A start owed was decided on and is not among the emitted ones. -/
theorem StartInv.owed {config : Config} {w : World} (hw : (server config).system.Reachable w)
    (h : StartInv w) {i : Nat} {sid : String} (howed : .started sid ∈ (w.tasks i).owes) :
    (i, .started sid) ∈ w.store.noted ∧ (i, .started sid) ∉ w.store.emitted := by
  have hbal := ledger hw
  have hdue := hbal.mem_due_of_owed howed
  refine ⟨?_, fun hmet => ?_⟩
  · rw [Shared.due, mem_append, mem_map] at hdue
    rcases hdue with hdue | ⟨rm, -, heq⟩
    · exact hdue
    · cases heq
  have hcount := hbal i (.started sid)
  have hone : (w.store.due.map Prod.snd).count (.started sid) ≤ 1 := by
    rw [count_started_due]
    exact h.once sid
  rw [← Balanced.count_map_snd fun j hj => Balanced.eq_of_count_le_one hone hdue hj] at hcount
  have h1 : 0 < (w.tasks i).owes.count (.started sid) := count_pos_iff.mpr howed
  have h2 : 0 < w.store.emitted.count (i, .started sid) := count_pos_iff.mpr hmet
  dsimp only at hcount
  omega

theorem Task.mem_owes_of_emitting {t : Task} {n : Notice} (h : t.emitting = some n) :
    n ∈ t.owes := by
  unfold emitting at h
  split at h <;> cases h <;> simp

theorem Move.accepting {s : Shared} {i : Nat} {t t' : Task} {n : Notice}
    (h : Move s i t (.note n) t') :
    ∃ sid x, n = .started sid ∧ s.sessions[sid]? = some x ∧ t.accepting = some sid := by
  cases h with
  | agent h =>
    cases h with
    | start hx => exact ⟨_, _, rfl, hx, rfl⟩
  | operator h => cases h

theorem not_ended_of_session {config : Config} {w : World}
    (hw : (server config).system.Reachable w) {sid : String} {x : Session}
    (hx : w.store.sessions[sid]? = some x) : .ended sid ∉ w.store.emitted.map Prod.snd := by
  intro hmem
  obtain ⟨⟨k, n⟩, hmet, hn⟩ := mem_map.mp hmem
  obtain rfl : n = .ended sid := hn
  obtain ⟨rm, hrm, hsid, -⟩ := (ended_mem_due hw).mp ((ledger hw).mem_due hmet)
  exact (live_owner hw).1.not_removed hx (hsid ▸ mem_map_of_mem hrm)

namespace StartInv

variable {config : Config} {w : World} {i : Nat} {a : Input} {op : Op} {t : Task}

theorem once_step (h : StartInv w) (hmove : Move w.store i (w.tasks i) op t)
    (hgo : op.Passive ∨ ∃ env, a = .go env) (hq : StartsInOrder w (i, a)) (sid : String) :
    ((op.apply w.store i).noted.map Prod.snd).count (.started sid) ≤ 1 := by
  rw [Op.apply_noted hmove.enabled, map_append, count_append, map_map]
  have honce := h.once sid
  cases op with
  | note n =>
    obtain ⟨sid', x, rfl, -, haccepting⟩ := hmove.accepting
    obtain ⟨env, rfl⟩ := hgo.resolve_left fun hp => hp
    by_cases hsid : sid' = sid
    · subst hsid
      rw [count_eq_zero_of_not_mem (hq.1 sid' haccepting)]
      simp
    · simpa [hsid] using honce
  | register r =>
    simp only [Op.notes]
    split <;> simpa using honce
  | _ => simpa using honce

theorem owed_step (hmove : Move w.store i (w.tasks i) op t) {j : Nat} {sid : String}
    (howed : .started sid ∈ (Function.update w.tasks i t j).owes) :
    .started sid ∈ (w.tasks j).owes ∨ op = .note (.started sid) := by
  by_cases hj : j = i
  · subst hj
    rw [Function.update_self] at howed
    have hmem := hmove.owes.mem_iff.mpr (mem_append_right _ howed)
    rcases mem_append.mp hmem with hmem | hmem
    · exact .inl hmem
    right
    cases op with
    | note n => exact congrArg Op.note (by simpa [eq_comm] using hmem)
    | register r =>
      simp only [Op.takes, Op.notes] at hmem
      split at hmem <;> simp at hmem
    | _ => simp at hmem
  · rw [Function.update_of_ne hj] at howed
    exact .inl howed

theorem before_step (hw : (server config).system.Reachable w) (h : StartInv w)
    (hmove : Move w.store i (w.tasks i) op t) (hgo : op.Passive ∨ ∃ env, a = .go env)
    (hq : StartsInOrder w (i, a)) {j : Nat} {sid : String}
    (howed : .started sid ∈ (Function.update w.tasks i t j).owes) :
    .ended sid ∉ (op.apply w.store i).emitted.map Prod.snd := by
  rw [Shared.emitted, Op.apply_events hmove.enabled, map_append, map_append,
    mem_append, not_or]
  rcases owed_step hmove howed with howed | rfl
  · refine ⟨h.before j sid howed, fun hmem => ?_⟩
    cases op with
    | emit e =>
      -- the session's end is not emitted while its start is owed
      have he : e.notice = .ended sid := by simpa [eq_comm] using hmem
      obtain ⟨env, rfl⟩ := hgo.resolve_left fun hp => hp
      obtain ⟨hnoted, hunmet⟩ := h.owed hw howed
      refine hunmet (hq.2 sid ?_ _ hnoted rfl)
      rw [hmove.emitting, he]
      rfl
    | _ => simp at hmem
  obtain ⟨sid', x, heq, hx, -⟩ := hmove.accepting
  cases heq
  exact ⟨not_ended_of_session hw hx, by simp⟩

theorem ordered_step (h : StartInv w) (hmove : Move w.store i (w.tasks i) op t) (sid : String) :
    (op.apply w.store i).events.Pairwise
      fun a b => ¬ (a.2.notice = .ended sid ∧ b.2.notice = .started sid) := by
  rw [Op.apply_events hmove.enabled, pairwise_append]
  refine ⟨h.ordered sid, ?_, ?_⟩
  · cases op with
    | emit e => exact pairwise_singleton _ _
    | _ => exact List.Pairwise.nil
  rintro e he e' he' ⟨hended, hstarted⟩
  cases op with
  | emit e'' =>
    obtain rfl := mem_singleton.mp he'
    have howed := Task.mem_owes_of_emitting hmove.emitting
    rw [hstarted] at howed
    refine h.before i sid howed ?_
    exact mem_map.mpr ⟨_, mem_map_of_mem he, hended⟩
  | _ => cases he'

end StartInv

/-- **Sessions start once** in every run whose steps are in order: in every
state reached, each session has been reported started at most once and
never after its end. -/
theorem session_starts_once {config : Config} {acts : List (Nat × Input)} {w : World}
    (hacts : (server config).system.AllSteps StartsInOrder (server config).system.init acts)
    (hrun : (server config).system.run (server config).system.init acts = some w) :
    StartsOnce w.store := by
  have hinv : StartInv w := by
    refine (server config).system.run_induction (P := StartInv)
      (Q := fun w a => (server config).system.Reachable w ∧ StartsInOrder w a) ?_ ?_
      (System.AllSteps.and_reachable (server config).system.reachable_init hacts) hrun
    · rintro w ⟨i, a⟩ w' hinv ⟨hw, hq⟩ hstep
      obtain ⟨s, t, hnext, rfl⟩ := (server config).step_eq_some.mp hstep
      obtain ⟨op, rfl, hmove, hgo⟩ := next_move hnext
      exact ⟨hinv.once_step hmove hgo hq, fun j sid => hinv.before_step hw hmove hgo hq,
        hinv.ordered_step hmove⟩
    exact ⟨fun sid => by simp [Program.system, server],
      fun i sid howed => by simp [Program.system, server] at howed,
      fun sid => by simp [Program.system, server]⟩
  have hw : (server config).system.Reachable w := ⟨acts, hrun⟩
  intro sid
  refine ⟨?_, hinv.ordered sid⟩
  rw [length_eventsOf]
  refine (ledger hw).met_le_one ?_
  rw [count_started_due]
  exact hinv.once sid

/-- An agent accepts the session once, and the session ends after that. -/
def acceptsOnce : List (Nat × Input) :=
  agentConnects 0 "r" ++ operatorConnects 1 "r" "s" ++
    [tells 0 (.sessionAccept "s"), goes 0, goes 0, hangsUp 1, goes 1, goes 1, goes 1, goes 1]

theorem session_starts_once_accepted : ∃ w, (server trusting).system.run
    (server trusting).system.init acceptsOnce = some w ∧
      (w.store.events.map fun e => e.2.notice) = [.online "r", .started "s", .ended "s"] ∧
      StartsOnce w.store := by
  refine evaluated (fun w => (w.store.events.map fun e => e.2.notice))
    (b := [.online "r", .started "s", .ended "s"]) (by decide +kernel) fun w hrun hw => ?_
  exact ⟨hw, session_starts_once (by decide +kernel) hrun⟩

end Fjarr.Signaling
