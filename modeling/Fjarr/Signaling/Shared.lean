/-
Fjarr.Signaling.Shared — the registry behind the one mutex
(signaling/crates/fjarr-signaling/src/state.rs), the sockets' outbound
queues and the event sink.

Every definition here is one atomic operation: a method of `Shared`, a
send on a queue, or an emission. Besides what the server keeps, `Shared`
records the history the results are about: who relayed a queued message
(`Delivery.via`), the sessions opened and removed, and the lifecycle
events tasks have decided on under the lock and emit after it (`noted`,
`removed`).
-/
import Mathlib
import Fjarr.Signaling.Protocol

namespace Fjarr.Signaling

structure Session where
  robotId : String
  tenant : String
  operator : OperatorInfo
  capabilities : List CapabilityGrant
  operatorTx : Tx
  startedMs : Int
  deriving DecidableEq, Repr

/-- Snapshot of session metadata for event payloads. -/
structure SessionMeta where
  tenant : String
  operator : OperatorInfo
  capabilities : List CapabilityGrant
  deriving DecidableEq, Repr

/-- Outcome of relaying a message toward a session's counterpart. -/
inductive Relay where
  | delivered
  | unknown
  | peerGone
  deriving DecidableEq, Repr

/-- A queued message, and the socket whose message was relayed. The
server's own messages have none. -/
structure Delivery where
  via : Option Nat
  msg : Message
  deriving DecidableEq, Repr

/-- The receiving end is dropped when the socket's writer ends. -/
structure Channel where
  queue : List Delivery := []
  closed : Bool := false

/-- A message is queued while there is a receiver. -/
def Channel.push (c : Channel) (d : Delivery) : Channel :=
  if c.closed then c else { c with queue := c.queue ++ [d] }

/-- A session as it was opened. -/
structure Opening where
  sid : String
  session : Session
  deriving DecidableEq, Repr

/-- A session taken out of the registry: by which task, and whether by the
sweep after an agent's death. -/
structure Removal where
  sid : String
  task : Nat
  swept : Bool
  deriving DecidableEq, Repr

/-- A lifecycle event a task has decided to emit. -/
inductive Notice where
  | online (robotId : String)
  | offline (robotId : String)
  | started (sid : String)
  | ended (sid : String)
  deriving DecidableEq, Repr

def Event.notice : Event → Notice
  | .robotOnline r => .online r
  | .robotOffline r => .offline r
  | .sessionStarted sid _ _ _ _ => .started sid
  | .sessionEnded sid _ _ _ _ => .ended sid

structure Shared where
  /-- Connected, authenticated agents by robot id. -/
  agents : Std.ExtTreeMap String Tx compare := ∅
  /-- Brokered sessions by session id. -/
  sessions : Std.ExtTreeMap String Session compare := ∅
  channels : Tx → Channel := fun _ => {}
  events : List (Nat × Event) := []
  opened : List Opening := []
  removed : List Removal := []
  noted : List (Nat × Notice) := []

namespace Shared

variable (s : Shared) (robotId : String)

def setChannel (tx : Tx) (c : Channel) : Shared :=
  { s with channels := Function.update s.channels tx c }

/-- `Tx::send`, and whether there was a receiver. -/
def send (tx : Tx) (d : Delivery) : Shared × Bool :=
  (s.setChannel tx ((s.channels tx).push d), !(s.channels tx).closed)

/-- The socket's writer ends. -/
def close (tx : Tx) : Shared := s.setChannel tx { s.channels tx with closed := true }

/-- `EventSink::emit` by a task. -/
def emit (task : Nat) (e : Event) : Shared :=
  { s with events := s.events ++ [(task, e)] }

def note (task : Nat) (n : Notice) : Shared :=
  { s with noted := s.noted ++ [(task, n)] }

/-- `Shared::register_agent`: the replaced queue, if any. A robot that had
none comes online. -/
def registerAgent (tx : Tx) : Shared × Option Tx :=
  let replaced := s.agents[robotId]?
  let s' := { s with agents := s.agents.insert robotId tx }
  (if replaced.isNone then s'.note tx (.online robotId) else s', replaced)

/-- `Shared::agent_tx`. -/
def agentTx : Option Tx := s.agents[robotId]?

/-- `Shared::insert_session`. -/
def insertSession (sid : String) (session : Session) : Shared :=
  { s with
    sessions := s.sessions.insert sid session
    opened := s.opened ++ [{ sid, session }] }

/-- `Shared::session_meta`. -/
def sessionMeta (sid : String) : Option SessionMeta :=
  s.sessions[sid]?.map fun x =>
    { tenant := x.tenant, operator := x.operator, capabilities := x.capabilities }

/-- `Shared::remove_session` by a task. -/
def removeSession (task : Nat) (sid : String) : Shared × Option Session :=
  match s.sessions[sid]? with
  | none => (s, none)
  | some session =>
    ({ s with
      sessions := s.sessions.erase sid
      removed := s.removed ++ [{ sid, task, swept := false }] }, some session)

/-- `Shared::relay_to_operator`: only if the session belongs to the robot. -/
def relayToOperator (task : Nat) (robotId sid : String) (msg : Message) :
    Shared × Relay :=
  match s.sessions[sid]? with
  | none => (s, .unknown)
  | some session =>
    if session.robotId = robotId then
      match s.send session.operatorTx { via := some task, msg } with
      | (s, true) => (s, .delivered)
      | (s, false) => (s, .peerGone)
    else (s, .unknown)

/-- `Shared::relay_to_agent`. -/
def relayToAgent (task : Nat) (sid : String) (msg : Message) : Shared × Relay :=
  match s.sessions[sid]? with
  | none => (s, .unknown)
  | some session =>
    match s.agents[session.robotId]? with
    | none => (s, .peerGone)
    | some agentTx =>
      match s.send agentTx { via := some task, msg } with
      | (s, true) => (s, .delivered)
      | (s, false) => (s, .peerGone)

/-- The robot's sessions, in the order the map is iterated in. -/
def sessionsOf (order : List String) : List (String × Session) :=
  order.filterMap fun sid => (s.sessions[sid]?.filter (·.robotId = robotId)).map (sid, ·)

/-- `Shared::disconnect_agent`: `none` when the socket was superseded, else
the sessions dropped. -/
def disconnectAgent (tx : Tx) (order : List String) :
    Shared × Option (List (String × Session)) :=
  if s.agents[robotId]? = some tx then
    let dropped := s.sessionsOf robotId order
    ({ s with
      agents := s.agents.erase robotId
      sessions := dropped.foldl (fun m d => m.erase d.1) s.sessions
      removed := s.removed ++ dropped.map fun d => { sid := d.1, task := tx, swept := true }
      noted := s.noted ++ [(tx, .offline robotId)] }, some dropped)
  else (s, none)

/-- `Shared::send_error`. -/
def sendError (env : Env) (tx : Tx) (code message : String)
    (causedBy : Option String) : Shared :=
  (s.send tx { via := none, msg := .new env (.error code message causedBy) }).1

end Shared

end Fjarr.Signaling
