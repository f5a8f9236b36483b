/-
Fjarr.Signaling.PeerGone — socket death is announced, never inferred.

The sweep of a dying agent's socket takes the robot's sessions out of the
registry and tells each operator (`swept_announced`). An operator's hello
looks up the agent and inserts its session in two critical sections, and
the sweep may run between them.

* `sweep_misses_session` — a run in which a session is inserted after the
  only agent of its robot is gone: it stays, and its operator is told
  nothing.
* `death_announced` — in every run in which sessions are inserted while an
  agent of the robot is registered, no session outlives its robot's agents
  unannounced.
-/
import Fjarr.Signaling.Sessions

namespace Fjarr.Signaling

open Fjarr.Lib List

/-! ## Told -/

/-- The operator behind `tx` was sent peer-gone for the session, or its
socket no longer takes messages. -/
def Shared.Told (s : Shared) (tx : Tx) (sid : String) : Prop :=
  (s.channels tx).closed = true ∨
    ∃ d ∈ (s.channels tx).queue, d.via = none ∧ d.msg.body = .peerGone sid "agent-disconnected"

variable {s : Shared} {i : Nat} {tx : Tx} {sid : String} {w : World} {t : Task}

theorem Shared.Told.apply {op : Op} (hop : op.Enabled s i)
    (h : s.Told tx sid) : (op.apply s i).Told tx sid := by
  unfold Told at h ⊢
  rw [Op.apply_channels hop]
  cases op with
  | send tx' d =>
    dsimp only
    split
    · rcases (s.channels tx).push_cases d with ⟨-, hpush⟩ | ⟨-, hpush⟩
      · rw [hpush]
        exact h
      rw [hpush]
      refine h.imp_right ?_
      rintro ⟨d', hd', hbody⟩
      exact ⟨d', mem_append_left _ hd', hbody⟩
    · exact h
  | close =>
    dsimp only
    split
    · exact .inl rfl
    · exact h
  | _ => exact h

theorem told_send {m : Message}
    (hm : m.body = .peerGone sid "agent-disconnected") :
    ((Op.send tx ⟨none, m⟩).apply s i).Told tx sid := by
  have henabled : (Op.send tx ⟨none, m⟩).Enabled s i := trivial
  unfold Shared.Told
  rw [Op.apply_channels henabled]
  dsimp only
  rw [if_pos rfl]
  rcases (s.channels tx).push_cases ⟨none, m⟩ with ⟨hclosed, hpush⟩ | ⟨-, hpush⟩
  · rw [hpush]
    exact .inl hclosed
  · rw [hpush]
    exact .inr ⟨⟨none, m⟩, mem_append_right _ mem_cons_self, rfl, hm⟩

/-! ## The sweep's announcements -/

/-- The sessions a task has swept and has still to announce. -/
def Task.announcing : Task → List (String × Session)
  | .agent _ (.dropping dropped) => dropped
  | .agent _ (.dropped _ _ rest) => rest
  | _ => []

theorem Task.announcing_subset (t : Task) : t.announcing ⊆ t.holds := by
  unfold announcing
  split
  · exact List.Subset.refl _
  · exact subset_cons_self _ _
  · exact nil_subset _

/-- What task `i` has swept, it has announced or is about to. -/
def Announced (s : Shared) (i : Nat) (t : Task) : Prop :=
  ∀ rm ∈ s.removed, rm.task = i → rm.swept = true → ∀ o ∈ s.opened, o.sid = rm.sid →
    (o.sid, o.session) ∈ t.announcing ∨ s.Told o.session.operatorTx o.sid

namespace Announced

variable {s : Shared} {i : Nat} {t t' : Task} {op : Op}

theorem opened_before (hlive : Live s) (hop : op.Enabled s i) {rm : Removal} (hrm : rm ∈ s.removed)
    {o : Opening} (ho : o ∈ (op.apply s i).opened) (hsid : o.sid = rm.sid) : o ∈ s.opened := by
  rcases Op.opened_cases hop ho with ho | ⟨rfl, -⟩
  · exact ho
  · exact absurd (hlive.removed_opened rm hrm) (hsid ▸ hop.1)

theorem frame (hlive : Live s) (hop : op.Enabled s i) {j : Nat} (hj : j ≠ i)
    (h : Announced s j t) : Announced (op.apply s i) j t := by
  intro rm hrm htask hswept o ho hsid
  rw [Op.apply_removed hop] at hrm
  rcases mem_append.mp hrm with hrm | hrm
  · have hbefore := opened_before hlive hop hrm ho hsid
    exact (h rm hrm htask hswept o hbefore hsid).imp_right (·.apply hop)
  · exact absurd (htask.symm.trans (Op.removes_task hrm)) hj

/-- What was to be announced still is, or its operator has just been told. -/
theorem announcing_move (hmove : Move s i t op t') {d : String × Session}
    (hd : d ∈ t.announcing) :
    d ∈ t'.announcing ∨ (op.apply s i).Told d.2.operatorTx d.1 := by
  cases hmove with
  | close => exact .inl hd
  | agent hmove =>
    cases hmove with
    | announce hm =>
      rcases mem_cons.mp hd with rfl | hd
      · exact .inr (told_send hm)
      · exact .inl hd
    | dropped => exact .inl hd
    | answer hfrom => rcases hfrom with rfl | rfl | ⟨c, rfl⟩ <;> cases hd
    | _ => cases hd
  | _ => cases hd

/-- What a move sweeps, it is about to announce. -/
theorem swept_move (hmove : Move s i t op t') {rm : Removal} (hrm : rm ∈ op.removes s i)
    (hswept : rm.swept = true) :
    ∃ x, s.sessions[rm.sid]? = some x ∧ (rm.sid, x) ∈ t'.announcing := by
  cases op with
  | remove sid =>
    obtain rfl := mem_singleton.mp hrm
    cases hswept
  | sweep r order =>
    obtain ⟨d, hd, rfl⟩ := mem_map.mp hrm
    cases hmove with
    | agent hmove =>
      cases hmove with
      | sweep hr horder => exact ⟨d.2, ((mem_sessionsOf horder).mp hd).1, hd⟩
    | operator hmove => cases hmove
  | _ => cases hrm

theorem move (hlive : Live s) (hmove : Move s i t op t') (h : Announced s i t) :
    Announced (op.apply s i) i t' := by
  intro rm hrm htask hswept o ho hsid
  have hop := hmove.enabled
  rw [Op.apply_removed hop] at hrm
  rcases mem_append.mp hrm with hrm | hrm
  · have hbefore := opened_before hlive hop hrm ho hsid
    rcases h rm hrm htask hswept o hbefore hsid with hd | htold
    · exact announcing_move hmove hd
    · exact .inr (htold.apply hop)
  obtain ⟨x, hx, hd⟩ := swept_move hmove hrm hswept
  have hopened := Op.mem_opened hop (hlive.opened_of_session hx)
  obtain rfl := (hlive.apply hop).opening_unique ho hopened hsid
  exact .inl hd

end Announced

/-- **A sweep is announced in every interleaving**: the operator of every
swept session was sent peer-gone, or the sweeping task is about to. -/
theorem swept_announced {config : Config}
    (hw : (server config).system.Reachable w) (i : Nat) :
    Announced w.store i (w.tasks i) := by
  have hboth := Program.reachable_tasks (P := server config) (I := fun _ => True) (J := Announced)
    ?_ trivial ?_ hw
  · exact hboth.2 i
  · intro w i a s t hw _ h hnext
    obtain ⟨op, rfl, hmove, -⟩ := next_move hnext
    have hlive := (live_owner hw).1
    exact ⟨trivial, (h i).move hlive hmove, fun j hj => (h j).frame hlive hmove.enabled hj⟩
  · intro j rm hrm
    cases hrm

/-- The server's hello-ack for a session goes to the task's own socket. -/
theorem Move.helloAck {t' : Task} {m : Message}
    (h : Move s i t (.send tx ⟨none, m⟩) t') {v : Nat}
    {turn : Option TurnCredentials} (hbody : m.body = .helloAck v (some sid) turn) :
    tx = i ∧ sid ∈ t.mentions ∧ ∃ pc, t = .operator pc := by
  have hnone : m.body.sessionId ≠ none := by
    rw [hbody]
    exact Option.some_ne_none _
  cases h with
  | refuseError hm => exact absurd hm hnone
  | agent h =>
    cases h with
    | answer _ hm => exact absurd hm hnone
    | announce hm =>
      rw [hm] at hbody
      cases hbody
  | operator h =>
    cases h with
    | refuse hm => exact absurd hm hnone
    | offline hm => exact absurd hm hnone
    | answer _ hm => exact absurd hm hnone
    | ack hm =>
      rw [hm] at hbody
      cases hbody
      exact ⟨rfl, mem_singleton.mpr rfl, _, rfl⟩
    | request hm =>
      rw [hm] at hbody
      cases hbody
    | gone hm =>
      rw [hm] at hbody
      cases hbody

/-- A hello-ack names a session that its operator's own hello opened. -/
def AcksOpened (w : World) : Prop :=
  ∀ j, ∀ d ∈ (w.store.channels j).queue, d.via = none → ∀ v sid turn,
    d.msg.body = .helloAck v (some sid) turn →
      ∃ o ∈ w.store.opened, o.sid = sid ∧ o.session.operatorTx = j

theorem helloAck_opened {config : Config} (hw : (server config).system.Reachable w) :
    AcksOpened w := by
  refine (server config).system.reachable_induction (P := AcksOpened) ?_ ?_ hw
  · intro j d hd
    cases hd
  rintro w ⟨i, a⟩ w' hw h hstep j d hd hvia v sid turn hbody
  obtain ⟨s, t, hnext, rfl⟩ := (server config).step_eq_some.mp hstep
  obtain ⟨op, rfl, hmove, -⟩ := next_move hnext
  rcases Op.queue_cases hmove.enabled hd with hd | rfl
  · obtain ⟨o, ho, hsid, htx⟩ := h j d hd hvia v sid turn hbody
    exact ⟨o, Op.mem_opened hmove.enabled ho, hsid, htx⟩
  obtain ⟨via, m⟩ := d
  obtain rfl : via = none := hvia
  obtain ⟨rfl, hmem, pc, hpc⟩ := hmove.helloAck hbody
  obtain ⟨o, ho, hsid, howns⟩ := ((live_owner hw).2 j).mentions sid hmem
  rw [hpc] at howns
  exact ⟨o, Op.mem_opened hmove.enabled ho, hsid, howns⟩

/-! ## Runs -/

/-- A session is inserted after the only agent of its robot has gone. -/
def insertsLate : List (Nat × Input) :=
  agentConnects 0 "r" ++ [tells 1 (.hello .operator "r" none none [1]), goes 1, hangsUp 0, goes 0,
    goes 0, goes 1 "s", goes 1, goes 1]

/-- **A session can outlive every agent of its robot, unannounced.** The
agent's socket has finished its disconnect, none is registered, the
session is in the registry, and its operator's open queue holds the
hello-ack and nothing else. -/
theorem sweep_misses_session : ∃ w, (server trusting).system.run
    (server trusting).system.init insertsLate = some w ∧
      w.tasks 0 = .agent "r" .done ∧ w.store.agents["r"]? = none ∧
      w.store.sessions["s"]? = some ⟨"r", "t", ⟨"o", "O"⟩, [], 1, 0⟩ ∧
      (w.store.channels 1).queue.map (·.msg.body) = [.helloAck 1 (some "s") none] ∧
      (w.store.channels 1).closed = false ∧ w.store.removed = [] := by
  refine evaluated
    (fun w => ((w.tasks 0, w.store.agents["r"]?, w.store.sessions["s"]?),
      ((w.store.channels 1).queue.map (·.msg.body), (w.store.channels 1).closed, w.store.removed)))
    (b := ((.agent "r" .done, none, some ⟨"r", "t", ⟨"o", "O"⟩, [], 1, 0⟩),
      ([.helloAck 1 (some "s") none], false, [])))
    (by decide +kernel) fun w hrun hw => ?_
  simp only [Prod.mk.injEq] at hw
  obtain ⟨⟨htask, hagent, hsession⟩, hqueue⟩ := hw
  exact ⟨htask, hagent, hsession, hqueue⟩

/-- The robot whose session a task's next operation inserts. -/
def Task.inserting : Task → Option String
  | .operator (.insert grant _) => some grant.robotId
  | _ => none

/-- A session is inserted only while an agent of its robot is registered. -/
def InsertsRegistered (w : World) (a : Nat × Input) : Prop :=
  match a.2 with
  | .go _ => ∀ r ∈ (w.tasks a.1).inserting, w.store.agents[r]?.isSome
  | _ => True

instance (w : World) : ∀ a, Decidable (InsertsRegistered w a)
  | (i, .go _) => inferInstanceAs
      (Decidable (∀ r ∈ (w.tasks i).inserting, w.store.agents[r]?.isSome))
  | (_, .frame _ _) => isTrue trivial
  | (_, .close) => isTrue trivial

/-- Every session in the registry has an agent of its robot. -/
def Covered (s : Shared) : Prop :=
  ∀ (sid : String) (x : Session), s.sessions[sid]? = some x → s.agents[x.robotId]?.isSome

theorem Move.inserting {t' : Task} {x : Session}
    (h : Move s i t (.insert sid x) t') : t.inserting = some x.robotId := by
  cases h with
  | agent h => cases h
  | operator h =>
    cases h with
    | insert _ hrobot => rw [hrobot]; rfl

theorem covered_step {a : Input} {op : Op}
    (h : Covered w.store) (hmove : Move w.store i (w.tasks i) op t)
    (hgo : op.Passive ∨ ∃ env, a = .go env) (hq : InsertsRegistered w (i, a)) :
    Covered (op.apply w.store i) := by
  have hop := hmove.enabled
  intro sid x hx
  rw [Op.apply_agents hop]
  cases op with
  | insert sid' x' =>
    change (w.store.sessions.insert sid' x')[sid]? = some x at hx
    rw [Std.ExtTreeMap.getElem?_insert] at hx
    by_cases hsid : sid' = sid
    · obtain rfl : x' = x := by simpa [hsid] using hx
      obtain ⟨env, rfl⟩ := hgo.resolve_left fun hp => hp
      exact hq _ hmove.inserting
    · exact h sid x (by simpa [hsid] using hx)
  | remove sid' =>
    rw [Op.apply_remove hop, Std.ExtTreeMap.getElem?_erase] at hx
    by_cases hsid : sid' = sid
    · simp [hsid] at hx
    · exact h sid x (by simpa [hsid] using hx)
  | sweep r order =>
    -- the robot's sessions leave with its agent
    rw [Op.apply_sweep hop.1, foldl_erase] at hx
    split at hx
    · cases hx
    rename_i hkept
    have hrobot : r ≠ x.robotId := by
      intro heq
      exact hkept (mem_map_of_mem (f := Prod.fst)
        ((mem_sessionsOf hop.2).mpr ⟨hx, heq.symm⟩))
    simpa [hrobot] using h sid x hx
  | register r =>
    rw [Op.apply_register] at hx
    have hreg := h sid x hx
    dsimp only
    split
    · rfl
    · exact hreg
  | _ => exact h sid x hx

/-- **Socket death is announced** in every run in which sessions are
inserted while an agent of their robot is registered. In every state
reached, a robot without a registered agent has no session left, and every
operator whose hello-ack announced a session of it that was not ended
otherwise was sent peer-gone for it, or is still on the list of a socket
of the robot that is in the middle of its disconnect. -/
theorem death_announced {config : Config} {acts : List (Nat × Input)} {w : World}
    (hacts : (server config).system.AllSteps InsertsRegistered (server config).system.init acts)
    (hrun : (server config).system.run (server config).system.init acts = some w)
    {r : String} (hnone : w.store.agents[r]? = none) :
    (∀ (sid : String) (x : Session), w.store.sessions[sid]? = some x → x.robotId ≠ r) ∧
      ∀ j, ∀ d ∈ (w.store.channels j).queue, d.via = none → ∀ v sid turn,
        d.msg.body = .helloAck v (some sid) turn →
        ∃ o ∈ w.store.opened, o.sid = sid ∧ o.session.operatorTx = j ∧
          (o.session.robotId = r → (∀ rm ∈ w.store.removed, rm.sid = sid → rm.swept = true) →
            w.store.Told j sid ∨
              ∃ i pc, w.tasks i = .agent r pc ∧ (sid, o.session) ∈ (w.tasks i).announcing) := by
  have hw : (server config).system.Reachable w := ⟨acts, hrun⟩
  have hcovered : Covered w.store := by
    refine (server config).system.run_induction (P := fun w => Covered w.store) ?_ ?_ hacts hrun
    · rintro w ⟨i, a⟩ w' h hq hstep
      obtain ⟨s, t, hnext, rfl⟩ := (server config).step_eq_some.mp hstep
      obtain ⟨op, rfl, hmove, hgo⟩ := next_move hnext
      exact covered_step h hmove hgo hq
    · intro sid x hx
      simp [Program.system, server] at hx
  have hgone : ∀ (sid : String) (x : Session), w.store.sessions[sid]? = some x →
      x.robotId ≠ r := by
    rintro sid x hx rfl
    have hreg := hcovered sid x hx
    rw [hnone] at hreg
    cases hreg
  refine ⟨hgone, fun j d hd hvia v sid turn hbody => ?_⟩
  obtain ⟨hlive, howner⟩ := live_owner hw
  obtain ⟨o, ho, rfl, rfl⟩ := helloAck_opened hw j d hd hvia v sid turn hbody
  refine ⟨o, ho, rfl, rfl, fun hrobot hswept => ?_⟩
  rcases hlive.cases_of_opened ho with hx | hrm
  · exact absurd hrobot (hgone _ _ hx)
  obtain ⟨rm, hrm, hsid⟩ := mem_map.mp hrm
  rcases swept_announced hw rm.task rm hrm rfl (hswept rm hrm hsid) o ho hsid.symm with hd | htold
  · right
    obtain ⟨-, howns⟩ := (howner rm.task).holds _ ((w.tasks rm.task).announcing_subset hd)
    refine ⟨rm.task, ?_⟩
    cases htask : w.tasks rm.task with
    | agent r' pc =>
      rw [htask] at howns hd
      obtain rfl : o.session.robotId = r' := howns
      exact ⟨pc, by rw [hrobot], hd⟩
    | operator pc =>
      rw [htask] at hd
      cases hd
    | connecting =>
      rw [htask] at hd
      cases hd
    | refused =>
      rw [htask] at hd
      cases hd
  · exact .inl htold

/-- The agent leaves while a session is open. -/
def agentLeaves : List (Nat × Input) :=
  agentConnects 0 "r" ++ operatorConnects 1 "r" "s" ++
    [hangsUp 0, goes 0 "" ["s"], goes 0, goes 0, goes 0]

theorem death_announced_sweep : ∃ w, (server trusting).system.run
    (server trusting).system.init agentLeaves = some w ∧
      w.store.agents["r"]? = none ∧
      ∀ (sid : String) (x : Session), w.store.sessions[sid]? = some x → x.robotId ≠ "r" := by
  refine evaluated (fun w => w.store.agents["r"]?) (b := none) (by decide +kernel)
    fun w hrun hw => ?_
  exact ⟨hw, (death_announced (by decide +kernel) hrun hw).1⟩

end Fjarr.Signaling
