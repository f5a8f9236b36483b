/-
Fjarr.Signaling.Isolation — sessions do not leak into each other.

Every relayed message names a session that joins its sender and its
receiver (`relayed_isolated`), and a task changes the registry only for
its own sessions and its own robot (`registry_changes_owned`). A message
for a session the sender does not own is answered to the sender and does
nothing else (`foreign_message_answered`). The answer depends on the
sender's role and on the message only, so it tells nothing about the
session: it is session-unknown for the kinds of message the role may
relay, and payload-invalid for the others.
-/
import Fjarr.Signaling.Sessions

namespace Fjarr.Signaling

open Fjarr.Lib List

/-! ## Relayed messages -/

/-- The task is authenticated as an agent of the robot. -/
def Task.IsAgent (r : String) (t : Task) : Prop := ∃ pc, t = .agent r pc

variable {s : Shared} {i : Nat} {t t' : Task} {op : Op} {r sid : String} {w : World}
  {config : Config} {m : Message} {env : Env}

theorem Task.IsAgent.move
    (hmove : Move s i t op t') (h : t.IsAgent r) : t'.IsAgent r := by
  obtain ⟨pc, rfl⟩ := h
  cases hmove with
  | close => exact ⟨pc, rfl⟩
  | agent => exact ⟨_, rfl⟩

/-- Authentication lasts. -/
theorem Task.IsAgent.update {j : Nat}
    (hmove : Move w.store i (w.tasks i) op t) (h : (w.tasks j).IsAgent r) :
    (Function.update w.tasks i t j).IsAgent r := by
  by_cases hj : j = i
  · subst hj
    rw [Function.update_self]
    exact h.move hmove
  · rwa [Function.update_of_ne hj]

/-- A message relayed from `k` to `j` names a session between the two. -/
def Joins (w : World) (k j : Nat) (m : Message) : Prop :=
  ∃ o ∈ w.store.opened, m.body.sessionId = some o.sid ∧
    ((o.session.operatorTx = j ∧ (w.tasks k).IsAgent o.session.robotId) ∨
      (o.session.operatorTx = k ∧ (w.tasks j).IsAgent o.session.robotId))

/-- What a move relays joins its task and the receiver. -/
theorem Move.joins (hw : (server config).system.Reachable w)
    {k : Nat} {tx : Tx}
    (hmove : Move w.store i (w.tasks i) (.send tx ⟨some k, m⟩) t) :
    k = i ∧ Joins w i tx m := by
  obtain ⟨hlive, howner⟩ := live_owner hw
  generalize htask : w.tasks i = task at hmove
  cases hmove with
  | agent hmove =>
    cases hmove with
    | relay hx hr hm =>
      refine ⟨rfl, _, hlive.opened_of_session hx, hm, .inl ⟨rfl, ?_⟩⟩
      rw [htask, hr]
      exact ⟨_, rfl⟩
  | operator hmove =>
    cases hmove with
    | relay hx htx hm =>
      have hopened := hlive.opened_of_session hx
      refine ⟨rfl, _, hopened, hm, .inr ⟨?_, ?_⟩⟩
      · obtain ⟨o, ho, hsid, howns⟩ := (howner i).mentions _ (by
          rw [htask]
          exact mem_singleton.mpr rfl)
        obtain rfl := hlive.opening_unique ho hopened hsid
        rw [htask] at howns
        exact howns
      · obtain ⟨pc, hpc, -⟩ := (howner tx).registered _ htx
        exact ⟨pc, hpc⟩

/-- **Relayed messages stay in their session**, in every interleaving. -/
theorem relayed_isolated (hw : (server config).system.Reachable w) :
    ∀ j, ∀ d ∈ (w.store.channels j).queue, ∀ k, d.via = some k → Joins w k j d.msg := by
  refine (server config).system.reachable_induction
    (P := fun w => ∀ j, ∀ d ∈ (w.store.channels j).queue, ∀ k, d.via = some k → Joins w k j d.msg)
    ?_ ?_ hw
  · intro j d hd
    cases hd
  rintro w ⟨i, a⟩ w' hw h hstep j d hd k hvia
  obtain ⟨s, t, hnext, rfl⟩ := (server config).step_eq_some.mp hstep
  obtain ⟨op, rfl, hmove, -⟩ := next_move hnext
  have hjoins : Joins w k j d.msg := by
    rcases Op.queue_cases hmove.enabled hd with hd | rfl
    · exact h j d hd k hvia
    obtain ⟨via, m⟩ := d
    obtain rfl : via = some k := hvia
    obtain ⟨rfl, hjoins⟩ := hmove.joins hw
    exact hjoins
  obtain ⟨o, ho, hsid, hends⟩ := hjoins
  refine ⟨o, Op.mem_opened hmove.enabled ho, hsid, ?_⟩
  rcases hends with ⟨htx, hagent⟩ | ⟨htx, hagent⟩
  · exact .inl ⟨htx, hagent.update hmove⟩
  · exact .inr ⟨htx, hagent.update hmove⟩

/-! ## The registry -/

theorem Move.agents_owned (h : Move s i t op t')
    (hne : (op.apply s i).agents[r]? ≠ s.agents[r]?) : t.IsAgent r := by
  rw [Op.apply_agents h.enabled] at hne
  cases h with
  | agent h =>
    cases h with
    | register =>
      dsimp only at hne
      split at hne
      · rename_i hr
        exact ⟨_, by rw [hr]⟩
      · exact absurd rfl hne
    | supersede =>
      dsimp only at hne
      split at hne
      · rename_i hr
        exact ⟨_, by rw [hr]⟩
      · exact absurd rfl hne
    | sweep =>
      dsimp only at hne
      split at hne
      · rename_i hr
        exact ⟨_, by rw [hr]⟩
      · exact absurd rfl hne
    | _ => exact absurd rfl hne
  | operator h => cases h <;> exact absurd rfl hne
  | _ => exact absurd rfl hne

theorem Move.opens_owned (h : Move s i t op t')
    {o : Opening} (ho : o ∈ op.opens) : t.Owns i o.session := by
  cases h with
  | agent h => cases h <;> cases ho
  | operator h =>
    cases h with
    | insert _ _ htx =>
      obtain rfl := mem_singleton.mp ho
      exact htx
    | _ => cases ho
  | _ => cases ho

/-- **A task changes the registry only for what is its own**: an agent for
its robot and its robot's sessions, an operator for the session it opened. -/
theorem registry_changes_owned {w' : World}
    (hw : (server config).system.Reachable w) {a : Input}
    (hstep : (server config).system.step w (i, a) = some w') :
    (∀ sid : String, w'.store.sessions[sid]? ≠ w.store.sessions[sid]? →
        ∃ o ∈ w'.store.opened, o.sid = sid ∧ (w.tasks i).Owns i o.session) ∧
      ∀ r : String, w'.store.agents[r]? ≠ w.store.agents[r]? → (w.tasks i).IsAgent r := by
  obtain ⟨s, t, hnext, rfl⟩ := (server config).step_eq_some.mp hstep
  obtain ⟨op, rfl, hmove, -⟩ := next_move hnext
  obtain ⟨hlive, howner⟩ := live_owner hw
  have hop := hmove.enabled
  refine ⟨fun sid hne => ?_, fun r hne => hmove.agents_owned hne⟩
  by_cases hopens : sid ∈ op.opens.map (·.sid)
  · obtain ⟨o, ho, hsid⟩ := mem_map.mp hopens
    refine ⟨o, ?_, hsid, hmove.opens_owned ho⟩
    rw [Op.apply_opened hop]
    exact mem_append_right _ ho
  by_cases hremoves : sid ∈ (op.removes w.store i).map (·.sid)
  · obtain ⟨rm, hrm, hsid⟩ := mem_map.mp hremoves
    obtain ⟨o, ho, hrmsid, howns⟩ := (howner i).removes_move hlive hmove hrm
    exact ⟨o, Op.mem_opened hop ho, hrmsid.trans hsid, howns⟩
  · exact absurd (hlive.sessions_frame hop hopens hremoves) hne

/-! ## Messages for other sessions -/

/-- The socket owns the session: an agent while it is in the registry and
of its robot, an operator if its own hello opened it. -/
def OwnsSession (w : World) (i : Nat) (sid : String) : Prop :=
  match w.tasks i with
  | .agent r _ => ∃ x, w.store.sessions[sid]? = some x ∧ x.robotId = r
  | .operator _ => ∃ o ∈ w.store.opened, o.sid = sid ∧ o.session.operatorTx = i
  | _ => False

theorem not_ownsSession {pc : OperatorPc} (htask : w.tasks i = .operator pc)
    (sid : String)
    (hopened : (sid, i) ∉ w.store.opened.map fun o => (o.sid, o.session.operatorTx)) :
    ¬ OwnsSession w i sid := by
  unfold OwnsSession
  rw [htask]
  rintro ⟨o, ho, rfl, rfl⟩
  exact hopened (mem_map.mpr ⟨o, ho, rfl⟩)

/-- The kinds of message the server relays for a role. -/
def Task.relays : Task → Body → Bool
  | .agent .., .sessionAccept _ | .agent .., .sessionReject .. | .agent .., .offer ..
  | .agent .., .answer .. | .agent .., .ice .. | .agent .., .sessionClose .. => true
  | .operator _, .answer .. | .operator _, .ice .. | .operator _, .iceRestart _
  | .operator _, .sessionClose .. => true
  | _, _ => false

def Task.unexpected : Task → String
  | .agent .. => "unexpected message from agent"
  | _ => "unexpected message from operator"

/-- The answer to a message for a session the sender does not own. -/
def refusal (t : Task) (m : Message) : Body :=
  if t.relays m.body then
    .error ErrorCodes.sessionUnknown "unknown session" (some m.common.eventId)
  else .error ErrorCodes.payloadInvalid t.unexpected (some m.common.eventId)

/-- The step's only effect is an answer to socket `i`: it is queued at once,
or it is the whole of the task's next operation, whatever the other tasks
do in between. The task is then where it was. -/
def OnlyAnswers (config : Config) (w w' : World) (i : Nat) (env : Env) (body : Body) : Prop :=
  w' = { store := (w.store.send i { via := none, msg := .new env body }).1, tasks := w.tasks } ∨
    (w'.store = w.store ∧ (∀ j, j ≠ i → w'.tasks j = w.tasks j) ∧
      ∀ w₂ : World, w₂.tasks i = w'.tasks i → ∀ env',
        (server config).system.step w₂ (i, .go env') =
          some { store := (w₂.store.send i { via := none, msg := .new env' body }).1
                 tasks := Function.update w₂.tasks i (w.tasks i) })

theorem agentRelay_foreign {next : AgentPc}
    (h : ¬ ∃ x, s.sessions[sid]? = some x ∧ x.robotId = r) :
    agentRelay s i r m sid next = (s, .unknown m.common.eventId) := by
  have hrelay := relayToOperator_eq s i r sid m
  unfold agentRelay
  generalize s.relayToOperator i r sid m = res at hrelay
  obtain ⟨s', relay⟩ := res
  rcases hrelay with ⟨hunknown, hs⟩ | ⟨x, hx, hr, -⟩
  · dsimp only at hunknown hs
    rw [hunknown, hs]
  · exact absurd ⟨x, hx, hr⟩ h

theorem agentFrame_foreign
    (hm : m.body.sessionId = some sid) (h : ¬ ∃ x, s.sessions[sid]? = some x ∧ x.robotId = r) :
    agentFrame s i r env (.msg m) =
      if (Task.agent r .loop).relays m.body then (s, .unknown m.common.eventId)
      else (s.sendError env i ErrorCodes.payloadInvalid "unexpected message from agent"
        (some m.common.eventId), .loop) := by
  obtain ⟨common, body⟩ := m
  cases body with
  | sessionAccept => cases hm; exact agentRelay_foreign h
  | sessionReject => cases hm; exact agentRelay_foreign h
  | offer => cases hm; exact agentRelay_foreign h
  | answer => cases hm; exact agentRelay_foreign h
  | ice => cases hm; exact agentRelay_foreign h
  | sessionClose => cases hm; exact agentRelay_foreign h
  | hello => cases hm
  | backendStream => cases hm
  | error => cases hm
  | helloAck => rfl
  | sessionRequest => rfl
  | iceRestart => rfl
  | peerGone => rfl

theorem operatorFrame_foreign {own : String}
    (hm : m.body.sessionId = some sid) (hne : sid ≠ own) :
    operatorFrame s i own env (.msg m) =
      ((s.send i { via := none, msg := .new env (refusal (.operator (.loop own)) m) }).1,
        .loop own) := by
  obtain ⟨common, body⟩ := m
  cases body with
  | answer => cases hm; simp [operatorFrame, addressed, hne, refusal, Task.relays, Shared.sendError]
  | ice => cases hm; simp [operatorFrame, addressed, hne, refusal, Task.relays, Shared.sendError]
  | iceRestart =>
    cases hm; simp [operatorFrame, addressed, hne, refusal, Task.relays, Shared.sendError]
  | sessionClose =>
    cases hm; simp [operatorFrame, addressed, hne, refusal, Task.relays, Shared.sendError]
  | hello => cases hm
  | backendStream => cases hm
  | error => cases hm
  | helloAck => rfl
  | sessionRequest => rfl
  | sessionAccept => rfl
  | sessionReject => rfl
  | offer => rfl
  | peerGone => rfl

/-- **A message for a session the sender does not own is answered and does
nothing else.** -/
theorem foreign_message_answered {w' : World}
    (hw : (server config).system.Reachable w)
    (hauth : w.tasks i ≠ .connecting) (hm : m.body.sessionId = some sid) (hforeign : ¬ OwnsSession w i sid)
    (hstep : (server config).system.step w (i, .frame env (.msg m)) = some w') :
    OnlyAnswers config w w' i env (refusal (w.tasks i) m) := by
  obtain ⟨s, t, hnext, rfl⟩ := (server config).step_eq_some.mp hstep
  have howner := (live_owner hw).2 i
  simp only [server, next] at hnext
  split at hnext
  · exact absurd ‹_› hauth
  · rename_i r htask
    have hforeign' : ¬ ∃ x, w.store.sessions[sid]? = some x ∧ x.robotId = r := by
      unfold OwnsSession at hforeign
      rwa [htask] at hforeign
    rw [agentFrame_foreign hm hforeign'] at hnext
    rw [htask, refusal]
    by_cases hrelays : (Task.agent r .loop).relays m.body = true
    · -- the registry says unknown, and the error follows
      rw [if_pos hrelays] at hnext ⊢
      cases hnext
      refine .inr ⟨rfl, fun j hj => Function.update_of_ne hj _ _, fun w₂ hw₂ env' => ?_⟩
      have hunknown : w₂.tasks i = .agent r (.unknown m.common.eventId) :=
        hw₂.trans (Function.update_self _ _ _)
      simp [Program.system, server, next, hunknown, agentGo, Shared.sendError, htask]
    rw [if_neg hrelays] at hnext ⊢
    cases hnext
    refine .inl ?_
    simp [Shared.sendError, ← htask, Task.unexpected]
  · rename_i own htask
    have hne : sid ≠ own := by
      rintro rfl
      obtain ⟨o, ho, hsid, howns⟩ := howner.mentions sid (by
        rw [htask]
        exact mem_singleton.mpr rfl)
      unfold OwnsSession at hforeign
      rw [htask] at hforeign howns
      exact hforeign ⟨o, ho, hsid, howns⟩
    rw [operatorFrame_foreign hm hne] at hnext
    cases hnext
    refine .inl ?_
    simp [← htask]
  · cases hnext

/-- **Sessions are isolated**, in every interleaving: a message relayed onto
an operator's queue names a session its own hello opened and comes from an
agent of the granted robot; one relayed onto an agent's queue names a
session granted for its robot and comes from the operator that opened it;
a message for a session the sender does not own is answered, with an
answer that depends on the sender's role and the message alone, and does
nothing else; and no task ever changes the registry but for its own
sessions and its own robot. -/
theorem sessions_isolated {config : Config} {w : World}
    (hw : (server config).system.Reachable w) :
    (∀ j pc, w.tasks j = .operator pc → ∀ d ∈ (w.store.channels j).queue, ∀ k, d.via = some k →
        ∃ o ∈ w.store.opened, o.session.operatorTx = j ∧ d.msg.body.sessionId = some o.sid ∧
          (w.tasks k).IsAgent o.session.robotId) ∧
      (∀ j r pc, w.tasks j = .agent r pc → ∀ d ∈ (w.store.channels j).queue, ∀ k,
        d.via = some k →
          ∃ o ∈ w.store.opened, o.session.robotId = r ∧ d.msg.body.sessionId = some o.sid ∧
            o.session.operatorTx = k) ∧
      (∀ i env m sid w', w.tasks i ≠ .connecting → m.body.sessionId = some sid →
        ¬ OwnsSession w i sid → (server config).system.step w (i, .frame env (.msg m)) = some w' →
          OnlyAnswers config w w' i env (refusal (w.tasks i) m)) ∧
      ∀ i a w', (server config).system.step w (i, a) = some w' →
        (∀ sid : String, w'.store.sessions[sid]? ≠ w.store.sessions[sid]? →
          ∃ o ∈ w'.store.opened, o.sid = sid ∧ (w.tasks i).Owns i o.session) ∧
        ∀ r : String, w'.store.agents[r]? ≠ w.store.agents[r]? → (w.tasks i).IsAgent r := by
  have howner := (live_owner hw).2
  refine ⟨?_, ?_, fun i env m sid w' hauth hm hforeign hstep =>
    foreign_message_answered hw hauth hm hforeign hstep,
    fun i a w' hstep => registry_changes_owned hw hstep⟩
  · intro j pc hj d hd k hvia
    obtain ⟨o, ho, hsid, ⟨htx, hagent⟩ | ⟨-, pc', hagent⟩⟩ := relayed_isolated hw j d hd k hvia
    · exact ⟨o, ho, htx, hsid, hagent⟩
    · rw [hj] at hagent
      cases hagent
  intro j r pc hj d hd k hvia
  obtain ⟨o, ho, hsid, ⟨htx, -⟩ | ⟨htx, pc', hagent⟩⟩ := relayed_isolated hw j d hd k hvia
  · obtain ⟨pc', hpc', -⟩ := (howner j).opener o ho htx
    rw [hj] at hpc'
    cases hpc'
  rw [hj] at hagent
  cases hagent
  exact ⟨o, ho, rfl, hsid, htx⟩

/-- Two operators of one robot, each with its session. -/
def twoOperators : List (Nat × Input) :=
  agentConnects 0 "r" ++ operatorConnects 1 "r" "s" ++ operatorConnects 2 "r" "u"

theorem sessions_isolated_foreign_answer : ∃ w w', (server trusting).system.run
    (server trusting).system.init twoOperators = some w ∧
      (server trusting).system.step w (tells 2 (.answer "s" "sdp")) = some w' ∧
      OnlyAnswers trusting w w' 2 { uuid := "", now := 0 }
        (.error ErrorCodes.sessionUnknown "unknown session" (some "e")) := by
  obtain ⟨w, hrun, hw⟩ : ∃ w, (server trusting).system.run
      (server trusting).system.init twoOperators = some w ∧
        (w.tasks 2, w.store.opened.map fun o => (o.sid, o.session.operatorTx)) =
          (.operator (.loop "u"), [("s", 1), ("u", 2)]) := by
    rw [← Option.map_eq_some_iff]
    decide +kernel
  simp only [Prod.mk.injEq] at hw
  obtain ⟨htask, hopened⟩ := hw
  have hforeign := not_ownsSession htask "s" (by rw [hopened]; decide)
  obtain ⟨w', hstep⟩ : ∃ w', (server trusting).system.step w (tells 2 (.answer "s" "sdp")) =
      some w' := by
    simp only [Program.system, server, tells, next, htask, Option.map_some]
    exact ⟨_, rfl⟩
  refine ⟨w, w', hrun, hstep, ?_⟩
  have hanswer := (sessions_isolated ⟨_, hrun⟩).2.2.1 2 _ _ "s" w' (by rw [htask]; simp) rfl hforeign
    hstep
  rw [htask] at hanswer
  exact hanswer

/-- **The answer is not always session-unknown**: an operator that sends an
offer for another operator's session is told its message was unexpected. -/
theorem foreign_offer_payload_invalid : ∃ w, (server trusting).system.run
    (server trusting).system.init (twoOperators ++ [tells 2 (.offer "s" "sdp" [] none)]) =
      some w ∧ ¬ OwnsSession w 2 "s" ∧
      (w.store.channels 2).queue.map (·.msg.body) =
        [.helloAck 1 (some "u") none,
          .error "payload-invalid" "unexpected message from operator" (some "e")] := by
  refine evaluated
    (fun w => ((w.tasks 2, w.store.opened.map fun o => (o.sid, o.session.operatorTx)),
      (w.store.channels 2).queue.map (·.msg.body)))
    (b := ((.operator (.loop "u"), [("s", 1), ("u", 2)]), [.helloAck 1 (some "u") none,
      .error "payload-invalid" "unexpected message from operator" (some "e")]))
    (by decide +kernel) fun w hrun hw => ?_
  simp only [Prod.mk.injEq] at hw
  obtain ⟨⟨htask, hopened⟩, hqueue⟩ := hw
  exact ⟨not_ownsSession htask "s" (by rw [hopened]; decide), hqueue⟩

end Fjarr.Signaling
