/-
Fjarr.Signaling.Moves — everything a task can do in one step, said once.

An `Op` is the one shared operation of a step. `Move` lists the program
counters a task goes between, with the operation and what the registry
must have held for it. `next_move` is the inversion of the server's
`next`; every invariant below is proved by cases on `Move` and `Op` and
never unfolds the server again.
-/
import Fjarr.Signaling.Server

namespace Fjarr.Signaling

open Shared

/-- The shared operation of one step. -/
inductive Op where
  | idle
  | close
  | send (tx : Tx) (d : Delivery)
  | emit (e : Event)
  | note (n : Notice)
  | register (robotId : String)
  | insert (sid : String) (session : Session)
  | remove (sid : String)
  | sweep (robotId : String) (order : List String)

/-- What the operation does to the store when task `i` performs it. -/
def Op.apply (op : Op) (s : Shared) (i : Nat) : Shared :=
  match op with
  | .idle => s
  | .close => s.close i
  | .send tx d => (s.send tx d).1
  | .emit e => s.emit i e
  | .note n => s.note i n
  | .register robotId => (s.registerAgent robotId i).1
  | .insert sid session => s.insertSession sid session
  | .remove sid => (s.removeSession i sid).1
  | .sweep robotId order => (s.disconnectAgent robotId i order).1

/-- The operation leaves the registry and the event stream alone. -/
def Op.Passive : Op → Prop
  | .idle | .close | .send .. => True
  | _ => False

/-- The agent's moves, with the robot it is authenticated as. -/
inductive AgentMove (s : Shared) (i : Nat) (r : String) : AgentPc → Op → AgentPc → Prop
  | register : s.agents[r]? = none → AgentMove s i r .register (.register r) .online
  | supersede {tx : Tx} : s.agents[r]? = some tx → AgentMove s i r .register (.register r) .ack
  | online : AgentMove s i r .online (.emit (.robotOnline r)) .ack
  | answer {pc : AgentPc} {m : Message} : pc = .ack ∨ pc = .loop ∨ (∃ c, pc = .unknown c) →
      m.body.sessionId = none → AgentMove s i r pc (.send i ⟨none, m⟩) .loop
  | ignore : AgentMove s i r .loop .idle .loop
  | relay {sid : String} {x : Session} {m : Message} {pc : AgentPc} :
      s.sessions[sid]? = some x → x.robotId = r → m.body.sessionId = some sid →
      pc = .loop ∨ pc = .sessionMeta sid ∨ (∃ why, pc = .remove sid why) →
      AgentMove s i r .loop (.send x.operatorTx ⟨some i, m⟩) pc
  | unknown {c : String} : AgentMove s i r .loop .idle (.unknown c)
  | start {sid : String} {x : Session} {info : SessionMeta} : s.sessions[sid]? = some x →
      AgentMove s i r (.sessionMeta sid) (.note (.started sid)) (.started sid info)
  | startNone {sid : String} : AgentMove s i r (.sessionMeta sid) .idle .loop
  | started {sid : String} {info : SessionMeta} {e : Event} : e.notice = .started sid →
      AgentMove s i r (.started sid info) (.emit e) .loop
  | remove {sid why : String} {x : Session} : s.sessions[sid]? = some x →
      AgentMove s i r (.remove sid why) (.remove sid) (.ended sid x why)
  | removeNone {sid why : String} : AgentMove s i r (.remove sid why) .idle .loop
  | ended {sid why : String} {x : Session} {e : Event} : e.notice = .ended sid →
      AgentMove s i r (.ended sid x why) (.emit e) .loop
  | leave : AgentMove s i r .loop .idle .disconnect
  | stale : s.agents[r]? ≠ some i → AgentMove s i r .disconnect .idle .done
  | sweep {order : List String} : s.agents[r]? = some i → order.Perm s.sessions.keys →
      AgentMove s i r .disconnect (.sweep r order) (.dropping (s.sessionsOf r order))
  | announce {sid : String} {x : Session} {rest : List (String × Session)} {m : Message} :
      m.body = .peerGone sid "agent-disconnected" →
      AgentMove s i r (.dropping ((sid, x) :: rest)) (.send x.operatorTx ⟨none, m⟩)
        (.dropped sid x rest)
  | dropped {sid : String} {x : Session} {rest : List (String × Session)} {e : Event} :
      e.notice = .ended sid → AgentMove s i r (.dropped sid x rest) (.emit e) (.dropping rest)
  | offline : AgentMove s i r (.dropping []) (.emit (.robotOffline r)) .done

/-- The operator's moves. -/
inductive OperatorMove (s : Shared) (i : Nat) : OperatorPc → Op → OperatorPc → Prop
  | refuse {auth ev : String} {m : Message} : m.body.sessionId = none →
      OperatorMove s i (.hello auth ev) (.send i ⟨none, m⟩) .done
  | noAgent {auth ev r : String} : OperatorMove s i (.hello auth ev) .idle (.offline r ev)
  | grant {auth ev : String} {g : VerifiedGrant} {tx : Tx} : s.agents[g.robotId]? = some tx →
      OperatorMove s i (.hello auth ev) .idle (.insert g tx)
  | offline {r ev : String} {m : Message} : m.body.sessionId = none →
      OperatorMove s i (.offline r ev) (.send i ⟨none, m⟩) .done
  | insert {g : VerifiedGrant} {tx : Tx} {sid : String} {x : Session}
      {turn : Option TurnCredentials} : sid ∉ s.opened.map (·.sid) → x.robotId = g.robotId →
      x.operatorTx = i → OperatorMove s i (.insert g tx) (.insert sid x) (.ack g tx sid turn)
  | ack {g : VerifiedGrant} {tx : Tx} {sid : String} {turn : Option TurnCredentials}
      {m : Message} : m.body = .helloAck protoVersion (some sid) turn →
      OperatorMove s i (.ack g tx sid turn) (.send i ⟨none, m⟩) (.request g tx sid)
  | request {g : VerifiedGrant} {tx : Tx} {sid : String} {turn : Option TurnCredentials}
      {m : Message} : m.body = .sessionRequest sid g.capabilities g.operator turn →
      OperatorMove s i (.request g tx sid) (.send tx ⟨none, m⟩) (.loop sid)
  | answer {pc : OperatorPc} {sid : String} {m : Message} :
      pc = .loop sid ∨ (∃ c, pc = .unknown sid c) → m.body.sessionId = none →
      OperatorMove s i pc (.send i ⟨none, m⟩) (.loop sid)
  | relay {sid : String} {x : Session} {tx : Tx} {m : Message} {pc : OperatorPc} :
      s.sessions[sid]? = some x → s.agents[x.robotId]? = some tx → m.body.sessionId = some sid →
      pc = .loop sid ∨ (∃ why, pc = .remove sid why) →
      OperatorMove s i (.loop sid) (.send tx ⟨some i, m⟩) pc
  | quiet {sid : String} {pc : OperatorPc} :
      pc = .loop sid ∨ (∃ c, pc = .unknown sid c) ∨ (∃ why, pc = .remove sid why) ∨
        pc = .final sid → OperatorMove s i (.loop sid) .idle pc
  | remove {sid why : String} {x : Session} : s.sessions[sid]? = some x →
      OperatorMove s i (.remove sid why) (.remove sid) (.ended sid x why)
  | removeNone {sid why : String} : OperatorMove s i (.remove sid why) .idle (.final sid)
  | ended {sid why : String} {x : Session} {e : Event} : e.notice = .ended sid →
      OperatorMove s i (.ended sid x why) (.emit e) (.final sid)
  | final {sid : String} {x : Session} : s.sessions[sid]? = some x →
      OperatorMove s i (.final sid) (.remove sid) (.lookup sid x)
  | finalNone {sid : String} : s.sessions[sid]? = none →
      OperatorMove s i (.final sid) .idle .done
  | lookup {sid : String} {x : Session} {pc : OperatorPc} :
      (∃ tx, pc = .gone sid x tx) ∨ pc = .left sid x →
      OperatorMove s i (.lookup sid x) .idle pc
  | gone {sid : String} {x : Session} {tx : Tx} {m : Message} :
      m.body = .peerGone sid "operator-disconnected" →
      OperatorMove s i (.gone sid x tx) (.send tx ⟨none, m⟩) (.left sid x)
  | left {sid : String} {x : Session} {e : Event} : e.notice = .ended sid →
      OperatorMove s i (.left sid x) (.emit e) .done

inductive Move (s : Shared) (i : Nat) : Task → Op → Task → Prop
  | close {t : Task} : Move s i t .close t
  | refuse : Move s i .connecting .idle .refused
  | refuseError {m : Message} : m.body.sessionId = none →
      Move s i .connecting (.send i ⟨none, m⟩) .refused
  | helloAgent {r : String} : Move s i .connecting .idle (.agent r .register)
  | helloOperator {auth ev : String} : Move s i .connecting .idle (.operator (.hello auth ev))
  | agent {r : String} {pc pc' : AgentPc} {op : Op} : AgentMove s i r pc op pc' →
      Move s i (.agent r pc) op (.agent r pc')
  | operator {pc pc' : OperatorPc} {op : Op} : OperatorMove s i pc op pc' →
      Move s i (.operator pc) op (.operator pc')

/-! ## Inversion of the server -/

theorem relayToOperator_eq (s : Shared) (i : Nat) (r sid : String) (m : Message) :
    ((s.relayToOperator i r sid m).2 = .unknown ∧ (s.relayToOperator i r sid m).1 = s) ∨
      ∃ x, s.sessions[sid]? = some x ∧ x.robotId = r ∧
        (s.relayToOperator i r sid m).2 ≠ .unknown ∧
        (s.relayToOperator i r sid m).1 = (s.send x.operatorTx ⟨some i, m⟩).1 := by
  unfold relayToOperator
  split
  · exact .inl ⟨rfl, rfl⟩
  rename_i x hx
  split
  · rename_i hr
    right
    refine ⟨x, hx, hr, ?_⟩
    rcases hsend : s.send x.operatorTx ⟨some i, m⟩ with ⟨s', ok⟩
    cases ok <;> simp
  · exact .inl ⟨rfl, rfl⟩

theorem relayToAgent_eq (s : Shared) (i : Nat) (sid : String) (m : Message) :
    (s.relayToAgent i sid m).1 = s ∨
      ∃ x tx, s.sessions[sid]? = some x ∧ s.agents[x.robotId]? = some tx ∧
        (s.relayToAgent i sid m).2 ≠ .unknown ∧
        (s.relayToAgent i sid m).1 = (s.send tx ⟨some i, m⟩).1 := by
  unfold relayToAgent
  split
  · exact .inl rfl
  rename_i x hx
  split
  · exact .inl rfl
  rename_i tx htx
  right
  refine ⟨x, tx, hx, htx, ?_⟩
  rcases hsend : s.send tx ⟨some i, m⟩ with ⟨s', ok⟩
  cases ok <;> simp

variable {s s' : Shared} {i : Nat} {sid : String} {config : Config}

theorem agentRelay_move {r : String} {m : Message} {next : AgentPc}
    (hm : m.body.sessionId = some sid)
    (hnext : next = .loop ∨ next = .sessionMeta sid ∨ (∃ why, next = .remove sid why)) :
    ∃ op, (agentRelay s i r m sid next).1 = op.apply s i ∧
      AgentMove s i r .loop op (agentRelay s i r m sid next).2 ∧ op.Passive := by
  have hrelay := relayToOperator_eq s i r sid m
  unfold agentRelay
  generalize s.relayToOperator i r sid m = res at hrelay
  obtain ⟨s', relay⟩ := res
  rcases hrelay with ⟨hunknown, hs⟩ | ⟨x, hx, hr, hknown, hs⟩
  · dsimp only at hunknown hs
    subst hunknown hs
    exact ⟨.idle, rfl, .unknown, trivial⟩
  dsimp only at hknown hs
  subst hs
  refine ⟨.send x.operatorTx ⟨some i, m⟩, ?_, ?_, trivial⟩
  · cases relay <;> rfl
  cases relay with
  | unknown => exact absurd rfl hknown
  | delivered => exact .relay hx hr hm hnext
  | peerGone => exact .relay hx hr hm hnext

theorem agentFrame_move (s : Shared) (i : Nat) (r : String) (env : Env) (f : Frame) :
    ∃ op, (agentFrame s i r env f).1 = op.apply s i ∧
      AgentMove s i r .loop op (agentFrame s i r env f).2 ∧ op.Passive := by
  have herror : ∀ code message causedBy,
      ∃ op, s.sendError env i code message causedBy = op.apply s i ∧
        AgentMove s i r .loop op .loop ∧ op.Passive := fun code message causedBy =>
    ⟨.send i ⟨none, .new env (.error code message causedBy)⟩, rfl, .answer (by simp) rfl, trivial⟩
  cases f with
  | unparseable => exact herror _ _ _
  | closed => exact ⟨.idle, rfl, .leave, trivial⟩
  | msg m =>
    obtain ⟨common, body⟩ := m
    cases body with
    | sessionAccept sid => exact agentRelay_move rfl (by simp)
    | offer sid => exact agentRelay_move rfl (by simp)
    | answer sid => exact agentRelay_move rfl (by simp)
    | ice sid => exact agentRelay_move rfl (by simp)
    | sessionReject sid why => exact agentRelay_move rfl (by simp)
    | sessionClose sid why => exact agentRelay_move rfl (by simp)
    | backendStream => exact ⟨.idle, rfl, .ignore, trivial⟩
    | error => exact ⟨.idle, rfl, .ignore, trivial⟩
    | hello => exact herror _ _ _
    | helloAck => exact herror _ _ _
    | sessionRequest => exact herror _ _ _
    | iceRestart => exact herror _ _ _
    | peerGone => exact herror _ _ _

theorem removeSession_none (h : s.sessions[sid]? = none) :
    s.removeSession i sid = (s, none) := by
  unfold removeSession
  rw [h]

theorem removeSession_some {x : Session}
    (h : s.sessions[sid]? = some x) :
    s.removeSession i sid = ((s.removeSession i sid).1, some x) := by
  unfold removeSession
  rw [h]

theorem agentGo_move {r : String} {env : Env} {pc pc' : AgentPc}
    (h : agentGo s i r env pc = some (s', pc')) :
    ∃ op, s' = op.apply s i ∧ AgentMove s i r pc op pc' := by
  cases pc with
  | register =>
    refine ⟨.register r, ?_⟩
    cases hr : s.agents[r]? with
    | none =>
      simp only [agentGo, registerAgent, hr] at h
      cases h
      exact ⟨by simp [Op.apply, registerAgent, hr], .register hr⟩
    | some tx =>
      simp only [agentGo, registerAgent, hr] at h
      cases h
      exact ⟨by simp [Op.apply, registerAgent, hr], .supersede hr⟩
  | online =>
    cases h
    exact ⟨.emit (.robotOnline r), rfl, .online⟩
  | ack =>
    cases h
    exact ⟨.send i ⟨none, .new env (.helloAck protoVersion none none)⟩, rfl,
      .answer (.inl rfl) rfl⟩
  | unknown c =>
    cases h
    exact ⟨.send i ⟨none, _⟩, rfl, .answer (.inr (.inr ⟨c, rfl⟩)) rfl⟩
  | sessionMeta sid =>
    simp only [agentGo, sessionMeta] at h
    cases hx : s.sessions[sid]? with
    | none =>
      rw [hx] at h
      cases h
      exact ⟨.idle, rfl, .startNone⟩
    | some x =>
      rw [hx] at h
      cases h
      exact ⟨.note (.started sid), rfl, .start hx⟩
  | started sid info =>
    cases h
    exact ⟨.emit _, rfl, .started rfl⟩
  | remove sid why =>
    simp only [agentGo] at h
    cases hx : s.sessions[sid]? with
    | none =>
      rw [removeSession_none hx] at h
      cases h
      exact ⟨.idle, rfl, .removeNone⟩
    | some x =>
      rw [removeSession_some hx] at h
      cases h
      exact ⟨.remove sid, rfl, .remove hx⟩
  | ended sid x why =>
    cases h
    exact ⟨.emit _, rfl, .ended rfl⟩
  | disconnect =>
    simp only [agentGo] at h
    split at h
    · rename_i horder
      have hperm := List.isPerm_iff.mp horder
      by_cases hr : s.agents[r]? = some i
      · simp only [disconnectAgent, if_pos hr] at h
        cases h
        exact ⟨.sweep r env.order, by simp [Op.apply, disconnectAgent, hr],
          .sweep hr hperm⟩
      simp only [disconnectAgent, if_neg hr] at h
      cases h
      exact ⟨.idle, rfl, .stale hr⟩
    · cases h
  | dropping dropped =>
    cases dropped with
    | nil =>
      cases h
      exact ⟨.emit (.robotOffline r), rfl, .offline⟩
    | cons d rest =>
      cases h
      exact ⟨.send d.2.operatorTx ⟨none, _⟩, rfl, .announce rfl⟩
  | dropped sid x rest =>
    cases h
    exact ⟨.emit _, rfl, .dropped rfl⟩
  | loop => cases h
  | done => cases h

theorem operatorRelay_op (s : Shared) (i : Nat) (sid : String) (m : Message)
    (hm : m.body.sessionId = some sid) :
    ∃ op, (s.relayToAgent i sid m).1 = op.apply s i ∧ op.Passive ∧
      ∀ pc, pc = .loop sid ∨ (∃ why, pc = .remove sid why) →
        OperatorMove s i (.loop sid) op pc := by
  rcases relayToAgent_eq s i sid m with hs | ⟨x, tx, hx, htx, -, hs⟩
  · refine ⟨.idle, hs, trivial, fun pc hpc => .quiet ?_⟩
    rcases hpc with rfl | hpc
    · exact .inl rfl
    · exact .inr (.inr (.inl hpc))
  · exact ⟨.send tx ⟨some i, m⟩, hs, trivial, fun pc hpc => .relay hx htx hm hpc⟩

theorem operatorRelay_move {m : Message}
    (hm : m.body.sessionId = some sid) :
    ∃ op, (operatorRelay s i sid m).1 = op.apply s i ∧
      OperatorMove s i (.loop sid) op (operatorRelay s i sid m).2 ∧ op.Passive := by
  have hrelay := relayToAgent_eq s i sid m
  unfold operatorRelay
  generalize s.relayToAgent i sid m = res at hrelay
  obtain ⟨s', relay⟩ := res
  rcases hrelay with hs | ⟨x, tx, hx, htx, hknown, hs⟩
  · dsimp only at hs
    subst hs
    cases relay with
    | unknown => exact ⟨.idle, rfl, .quiet (.inr (.inl ⟨_, rfl⟩)), trivial⟩
    | delivered => exact ⟨.idle, rfl, .quiet (.inl rfl), trivial⟩
    | peerGone => exact ⟨.idle, rfl, .quiet (.inl rfl), trivial⟩
  dsimp only at hknown hs
  subst hs
  cases relay with
  | unknown => exact absurd rfl hknown
  | delivered => exact ⟨.send tx ⟨some i, m⟩, rfl, .relay hx htx hm (.inl rfl), trivial⟩
  | peerGone => exact ⟨.send tx ⟨some i, m⟩, rfl, .relay hx htx hm (.inl rfl), trivial⟩

theorem operatorFrame_move (s : Shared) (i : Nat) (sid : String) (env : Env) (f : Frame) :
    ∃ op, (operatorFrame s i sid env f).1 = op.apply s i ∧
      OperatorMove s i (.loop sid) op (operatorFrame s i sid env f).2 ∧ op.Passive := by
  have herror : ∀ code message causedBy,
      ∃ op, s.sendError env i code message causedBy = op.apply s i ∧
        OperatorMove s i (.loop sid) op (.loop sid) ∧ op.Passive := fun code message causedBy =>
    ⟨.send i ⟨none, .new env (.error code message causedBy)⟩, rfl, .answer (.inl rfl) rfl, trivial⟩
  cases f with
  | unparseable => exact herror _ _ _
  | closed => exact ⟨.idle, rfl, .quiet (.inr (.inr (.inr rfl))), trivial⟩
  | msg m =>
    unfold operatorFrame
    dsimp only
    split
    · exact herror _ _ _
    rename_i haddressed
    have hown : ∀ other, addressed m.body = some other → other = sid := by
      intro other hother
      simpa [hother] using haddressed
    obtain ⟨common, body⟩ := m
    cases body with
    | answer other => exact operatorRelay_move (by rw [← hown other rfl]; rfl)
    | ice other => exact operatorRelay_move (by rw [← hown other rfl]; rfl)
    | iceRestart other => exact operatorRelay_move (by rw [← hown other rfl]; rfl)
    | sessionClose other why =>
      obtain ⟨op, hop, hpassive, hmove⟩ := operatorRelay_op s i sid
        ⟨common, .sessionClose other why _⟩ (by rw [← hown other rfl]; rfl)
      exact ⟨op, hop, hmove _ (.inr ⟨why, rfl⟩), hpassive⟩
    | error => exact ⟨.idle, rfl, .quiet (.inl rfl), trivial⟩
    | hello => exact herror _ _ _
    | helloAck => exact herror _ _ _
    | sessionRequest => exact herror _ _ _
    | sessionAccept => exact herror _ _ _
    | sessionReject => exact herror _ _ _
    | offer => exact herror _ _ _
    | peerGone => exact herror _ _ _
    | backendStream => exact herror _ _ _

theorem rejectAuth_sessionId (error : AuthError) (ev : String) :
    (rejectAuth error ev).sessionId = none := by
  cases error <;> rfl

/-- The handshake's errors name no session. -/
theorem handshake_error {f : Frame} {body : Body}
    (h : handshake config f = .error (some body)) : body.sessionId = none := by
  unfold handshake at h
  split at h
  · cases h
    rfl
  · cases h
  split at h
  · split at h
    · cases h
      rfl
    split at h
    · split at h
      · cases h
      · cases h
        exact rejectAuth_sessionId _ _
    · cases h
  · cases h
    rfl

theorem operatorGo_move {env : Env}
    {pc pc' : OperatorPc} (h : operatorGo config s i env pc = some (s', pc')) :
    ∃ op, s' = op.apply s i ∧ OperatorMove s i pc op pc' := by
  cases pc with
  | hello auth ev =>
    simp only [operatorGo, agentTx] at h
    split at h
    · rename_i error _
      cases h
      exact ⟨.send i ⟨none, .new env (rejectAuth error ev)⟩, rfl,
        .refuse (rejectAuth_sessionId error ev)⟩
    split at h
    · cases h
      exact ⟨.idle, rfl, .noAgent⟩
    rename_i tx htx
    cases h
    exact ⟨.idle, rfl, .grant htx⟩
  | offline r ev =>
    cases h
    exact ⟨.send i ⟨none, _⟩, rfl, .offline rfl⟩
  | insert g tx =>
    simp only [operatorGo] at h
    split at h
    · cases h
    rename_i hfresh
    cases h
    exact ⟨.insert env.uuid _, rfl, .insert hfresh rfl rfl⟩
  | ack g tx sid turn =>
    cases h
    exact ⟨.send i ⟨none, _⟩, rfl, .ack rfl⟩
  | request g tx sid =>
    cases h
    exact ⟨.send tx ⟨none, _⟩, rfl, .request rfl⟩
  | unknown sid c =>
    cases h
    exact ⟨.send i ⟨none, _⟩, rfl, .answer (.inr ⟨c, rfl⟩) rfl⟩
  | remove sid why =>
    simp only [operatorGo] at h
    cases hx : s.sessions[sid]? with
    | none =>
      rw [removeSession_none hx] at h
      cases h
      exact ⟨.idle, rfl, .removeNone⟩
    | some x =>
      rw [removeSession_some hx] at h
      cases h
      exact ⟨.remove sid, rfl, .remove hx⟩
  | ended sid x why =>
    cases h
    exact ⟨.emit _, rfl, .ended rfl⟩
  | final sid =>
    simp only [operatorGo] at h
    cases hx : s.sessions[sid]? with
    | none =>
      rw [removeSession_none hx] at h
      cases h
      exact ⟨.idle, rfl, .finalNone hx⟩
    | some x =>
      rw [removeSession_some hx] at h
      cases h
      exact ⟨.remove sid, rfl, .final hx⟩
  | lookup sid x =>
    simp only [operatorGo, agentTx] at h
    split at h
    · rename_i tx _
      cases h
      exact ⟨.idle, rfl, .lookup (.inl ⟨tx, rfl⟩)⟩
    · cases h
      exact ⟨.idle, rfl, .lookup (.inr rfl)⟩
  | gone sid x tx =>
    cases h
    exact ⟨.send tx ⟨none, _⟩, rfl, .gone rfl⟩
  | left sid x =>
    cases h
    exact ⟨.emit _, rfl, .left rfl⟩
  | loop sid => cases h
  | done => cases h

/-- **What a step is**: one operation, and one of the listed moves. Only a
task running its next operation touches the registry or emits. -/
theorem next_move {t t' : Task} {a : Input}
    (h : next config s i t a = some (s', t')) :
    ∃ op, s' = op.apply s i ∧ Move s i t op t' ∧ (op.Passive ∨ ∃ env, a = .go env) := by
  cases a with
  | close =>
    cases h
    exact ⟨.close, rfl, .close, .inl trivial⟩
  | frame env f =>
    simp only [next] at h
    split at h
    · simp only [Option.some.injEq] at h
      rw [helloFrame] at h
      split at h
      · cases h
        exact ⟨.idle, rfl, .helloAgent, .inl trivial⟩
      · cases h
        exact ⟨.idle, rfl, .helloOperator, .inl trivial⟩
      · cases h
        exact ⟨.idle, rfl, .refuse, .inl trivial⟩
      rename_i body hbody
      cases h
      exact ⟨.send i ⟨none, .new env body⟩, rfl, .refuseError (handshake_error hbody),
        .inl trivial⟩
    · rename_i r
      cases h
      obtain ⟨op, hop, hmove, hpassive⟩ := agentFrame_move s i r env f
      exact ⟨op, hop, .agent hmove, .inl hpassive⟩
    · rename_i sid
      cases h
      obtain ⟨op, hop, hmove, hpassive⟩ := operatorFrame_move s i sid env f
      exact ⟨op, hop, .operator hmove, .inl hpassive⟩
    · cases h
  | go env =>
    simp only [next] at h
    split at h
    · rename_i r pc
      obtain ⟨⟨s₁, pc'⟩, hgo, heq⟩ := Option.map_eq_some_iff.mp h
      cases heq
      obtain ⟨op, hop, hmove⟩ := agentGo_move hgo
      exact ⟨op, hop, .agent hmove, .inr ⟨env, rfl⟩⟩
    · rename_i pc
      obtain ⟨⟨s₁, pc'⟩, hgo, heq⟩ := Option.map_eq_some_iff.mp h
      cases heq
      obtain ⟨op, hop, hmove⟩ := operatorGo_move hgo
      exact ⟨op, hop, .operator hmove, .inr ⟨env, rfl⟩⟩
    · cases h

end Fjarr.Signaling
