/-
Fjarr.Signaling.Server — one task per socket
(signaling/crates/fjarr-signaling/src/ws.rs): the hello handshake,
`agent_loop` and `operator_loop`.

A task's program counter stands before its next shared operation: a method
of `Shared`, a send, or an emission. What it computes between two of them
belongs to the step of the first. Frames arrive in any order and at any
time, and a socket's writer may end at any moment, with its reader still
running.
-/
import Fjarr.Lib.Tasks
import Fjarr.Signaling.Shared

namespace Fjarr.Signaling

/-- A parsed inbound frame, an unparseable one, or a closed socket. -/
inductive Frame where
  | msg (m : Message)
  | unparseable
  | closed

inductive AgentPc where
  | register
  | online
  | ack
  | loop
  /-- A message for a session that is not the robot's: the error is due. -/
  | unknown (causedBy : String)
  | sessionMeta (sid : String)
  | started (sid : String) (info : SessionMeta)
  | remove (sid reason : String)
  | ended (sid : String) (session : Session) (reason : String)
  | disconnect
  /-- The sessions dropped by `disconnect_agent`, then the robot's offline. -/
  | dropping (dropped : List (String × Session))
  /-- Peer-gone has been sent, the session's end is to be emitted. -/
  | dropped (sid : String) (session : Session) (rest : List (String × Session))
  | done
  deriving DecidableEq

inductive OperatorPc where
  | hello (auth : Value) (eventId : String)
  | offline (robotId eventId : String)
  | insert (grant : VerifiedGrant) (agentTx : Tx)
  | ack (grant : VerifiedGrant) (agentTx : Tx) (sid : String) (turn : Option TurnCredentials)
  | request (grant : VerifiedGrant) (agentTx : Tx) (sid : String)
  | loop (sid : String)
  | unknown (sid causedBy : String)
  /-- The operator closed its session. -/
  | remove (sid reason : String)
  | ended (sid : String) (session : Session) (reason : String)
  /-- After the loop: the last removal. -/
  | final (sid : String)
  | lookup (sid : String) (session : Session)
  | gone (sid : String) (session : Session) (agentTx : Tx)
  | left (sid : String) (session : Session)
  | done
  deriving DecidableEq

inductive Task where
  | connecting
  | agent (robotId : String) (pc : AgentPc)
  | operator (pc : OperatorPc)
  | refused
  deriving DecidableEq

/-! ## Hello -/

/-- Authenticated identity after the hello handshake. -/
inductive Identity where
  | agent (robotId : String)
  | operator (auth : Value) (eventId : String)

def rejectAuth (error : AuthError) (causedBy : String) : Body :=
  match error with
  | .rejected code message => .error code message (some causedBy)
  | .internal _ => .error ErrorCodes.internal "internal error" (some causedBy)

/-- `handshake`: an identity, or the error to send if there is one. -/
def handshake (config : Config) : Frame → Except (Option Body) Identity
  | .unparseable => .error (some (.error ErrorCodes.payloadInvalid "unparseable hello" none))
  | .closed => .error none
  | .msg m =>
    match m.body with
    | .hello role auth _ _ protoVersions =>
      if protoVersion ∉ protoVersions then
        .error (some (.error ErrorCodes.payloadInvalid "no common protocol version"
          (some m.common.eventId)))
      else
        match role with
        | .agent =>
          match config.authenticate auth with
          | .ok robotId => .ok (.agent robotId)
          | .error error => .error (some (rejectAuth error m.common.eventId))
        | .operator => .ok (.operator auth m.common.eventId)
    | _ =>
      .error (some (.error ErrorCodes.payloadInvalid "first message must be hello"
        (some m.common.eventId)))

def helloFrame (config : Config) (s : Shared) (i : Nat) (env : Env) (frame : Frame) :
    Shared × Task :=
  match handshake config frame with
  | .ok (.agent robotId) => (s, .agent robotId .register)
  | .ok (.operator auth eventId) => (s, .operator (.hello auth eventId))
  | .error none => (s, .refused)
  | .error (some body) => ((s.send i { via := none, msg := .new env body }).1, .refused)

/-! ## Agent side -/

/-- `emit_session_ended`. -/
def sessionEnded (env : Env) (sid : String) (session : Session) (reason : String) : Event :=
  .sessionEnded sid session.robotId session.tenant reason (env.now - session.startedMs)

/-- A message for `sid` is relayed to its operator; `next` follows when the
session is the robot's. -/
def agentRelay (s : Shared) (i : Nat) (robotId : String) (m : Message) (sid : String)
    (next : AgentPc) : Shared × AgentPc :=
  match s.relayToOperator i robotId sid m with
  | (s, .unknown) => (s, .unknown m.common.eventId)
  | (s, .delivered) | (s, .peerGone) => (s, next)

/-- `agent_loop`: one inbound frame. -/
def agentFrame (s : Shared) (i : Nat) (robotId : String) (env : Env) :
    Frame → Shared × AgentPc
  | .unparseable =>
    (s.sendError env i ErrorCodes.payloadInvalid "unparseable message" none, .loop)
  | .closed => (s, .disconnect)
  | .msg m =>
    match m.body with
    | .sessionAccept sid => agentRelay s i robotId m sid (.sessionMeta sid)
    | .offer sid _ _ _ | .answer sid _ | .ice sid _ _ => agentRelay s i robotId m sid .loop
    | .sessionReject sid reason =>
      agentRelay s i robotId m sid (.remove sid ("rejected: " ++ reason))
    | .sessionClose sid reason _ => agentRelay s i robotId m sid (.remove sid reason)
    | .backendStream .. | .error .. => (s, .loop)
    | .hello .. | .helloAck .. | .sessionRequest .. | .iceRestart .. | .peerGone .. =>
      (s.sendError env i ErrorCodes.payloadInvalid "unexpected message from agent"
        (some m.common.eventId), .loop)

/-- `agent_loop`: the operations before, after and between frames. -/
def agentGo (s : Shared) (i : Nat) (robotId : String) (env : Env) :
    AgentPc → Option (Shared × AgentPc)
  | .register =>
    match s.registerAgent robotId i with
    | (s, none) => some (s, .online)
    | (s, some _) => some (s, .ack)
  | .online => some (s.emit i (.robotOnline robotId), .ack)
  | .ack =>
    some ((s.send i { via := none, msg := .new env (.helloAck protoVersion none none) }).1, .loop)
  | .unknown causedBy =>
    some (s.sendError env i ErrorCodes.sessionUnknown "unknown session" (some causedBy), .loop)
  | .sessionMeta sid =>
    match s.sessionMeta sid with
    | some info => some (s.note i (.started sid), .started sid info)
    | none => some (s, .loop)
  | .started sid info =>
    some (s.emit i
      (.sessionStarted sid robotId info.tenant info.operator info.capabilities), .loop)
  | .remove sid reason =>
    match s.removeSession i sid with
    | (s, some session) => some (s, .ended sid session reason)
    | (s, none) => some (s, .loop)
  | .ended sid session reason => some (s.emit i (sessionEnded env sid session reason), .loop)
  | .disconnect =>
    if env.order.isPerm s.sessions.keys then
      match s.disconnectAgent robotId i env.order with
      | (s, some dropped) => some (s, .dropping dropped)
      | (s, none) => some (s, .done)
    else none
  | .dropping ((sid, session) :: rest) =>
    some ((s.send session.operatorTx
      { via := none, msg := .new env (.peerGone sid "agent-disconnected") }).1,
      .dropped sid session rest)
  | .dropped sid session rest =>
    some (s.emit i (sessionEnded env sid session "agent-disconnected"), .dropping rest)
  | .dropping [] => some (s.emit i (.robotOffline robotId), .done)
  | .loop | .done => none

/-! ## Operator side -/

/-- The session an operator's message addresses. -/
def addressed : Body → Option String
  | .answer sid _ | .ice sid _ _ | .iceRestart sid | .sessionClose sid _ _ => some sid
  | _ => none

/-- A message for the operator's session is relayed to the agent. -/
def operatorRelay (s : Shared) (i : Nat) (sid : String) (m : Message) : Shared × OperatorPc :=
  match s.relayToAgent i sid m with
  | (s, .unknown) => (s, .unknown sid m.common.eventId)
  | (s, .delivered) | (s, .peerGone) => (s, .loop sid)

/-- `operator_loop`: one inbound frame. -/
def operatorFrame (s : Shared) (i : Nat) (sid : String) (env : Env) :
    Frame → Shared × OperatorPc
  | .unparseable =>
    (s.sendError env i ErrorCodes.payloadInvalid "unparseable message" none, .loop sid)
  | .closed => (s, .final sid)
  | .msg m =>
    if (addressed m.body).any (· ≠ sid) then
      -- an operator may only address the one session it owns
      (s.sendError env i ErrorCodes.sessionUnknown "unknown session" (some m.common.eventId),
        .loop sid)
    else
      match m.body with
      | .answer .. | .ice .. | .iceRestart .. => operatorRelay s i sid m
      | .sessionClose _ reason _ => ((s.relayToAgent i sid m).1, .remove sid reason)
      | .error .. => (s, .loop sid)
      | .hello .. | .helloAck .. | .sessionRequest .. | .sessionAccept .. | .sessionReject ..
      | .offer .. | .peerGone .. | .backendStream .. =>
        (s.sendError env i ErrorCodes.payloadInvalid "unexpected message from operator"
          (some m.common.eventId), .loop sid)

/-- `operator_loop`: the operations before, after and between frames. A new
session's id is a UUID never used before. -/
def operatorGo (config : Config) (s : Shared) (i : Nat) (env : Env) :
    OperatorPc → Option (Shared × OperatorPc)
  | .hello auth eventId =>
    match config.verify auth with
    | .error error =>
      some ((s.send i { via := none, msg := .new env (rejectAuth error eventId) }).1, .done)
    | .ok grant =>
      match s.agentTx grant.robotId with
      | none => some (s, .offline grant.robotId eventId)
      | some agentTx => some (s, .insert grant agentTx)
  | .offline robotId eventId =>
    some (s.sendError env i ErrorCodes.robotOffline ("robot " ++ robotId ++ " is not connected")
      (some eventId), .done)
  | .insert grant agentTx =>
    if env.uuid ∈ s.opened.map (·.sid) then none
    else
      some (s.insertSession env.uuid
        { robotId := grant.robotId
          tenant := grant.tenant
          operator := grant.operator
          capabilities := grant.capabilities
          operatorTx := i
          startedMs := env.now },
        .ack grant agentTx env.uuid (config.turn.map fun mint => mint env.now env.uuid))
  | .ack grant agentTx sid turn =>
    some ((s.send i
      { via := none, msg := .new env (.helloAck protoVersion (some sid) turn) }).1,
      .request grant agentTx sid)
  | .request grant agentTx sid =>
    some ((s.send agentTx
      { via := none
        msg := .new env (.sessionRequest sid grant.capabilities grant.operator
          (config.turn.map fun mint => mint env.now ("agent:" ++ sid))) }).1, .loop sid)
  | .unknown sid causedBy =>
    some (s.sendError env i ErrorCodes.sessionUnknown "unknown session" (some causedBy), .loop sid)
  | .remove sid reason =>
    match s.removeSession i sid with
    | (s, some session) => some (s, .ended sid session reason)
    | (s, none) => some (s, .final sid)
  | .ended sid session reason =>
    some (s.emit i (sessionEnded env sid session reason), .final sid)
  | .final sid =>
    match s.removeSession i sid with
    | (s, some session) => some (s, .lookup sid session)
    | (s, none) => some (s, .done)
  | .lookup sid session =>
    match s.agentTx session.robotId with
    | some agentTx => some (s, .gone sid session agentTx)
    | none => some (s, .left sid session)
  | .gone sid session agentTx =>
    some ((s.send agentTx
      { via := none, msg := .new env (.peerGone sid "operator-disconnected") }).1,
      .left sid session)
  | .left sid session =>
    some (s.emit i (sessionEnded env sid session "operator-disconnected"), .done)
  | .loop _ | .done => none

/-! ## The server -/

/-- What makes a task move: its next operation is run, a frame arrives, or
its writer ends. -/
inductive Input where
  | go (env : Env)
  | frame (env : Env) (f : Frame)
  | close

def next (config : Config) (s : Shared) (i : Nat) (t : Task) : Input → Option (Shared × Task)
  | .close => some (s.close i, t)
  | .frame env f =>
    match t with
    | .connecting => some (helloFrame config s i env f)
    | .agent robotId .loop => some ((agentFrame s i robotId env f).map id (.agent robotId))
    | .operator (.loop sid) => some ((operatorFrame s i sid env f).map id .operator)
    | _ => none
  | .go env =>
    match t with
    | .agent robotId pc => (agentGo s i robotId env pc).map (Prod.map id (.agent robotId))
    | .operator pc => (operatorGo config s i env pc).map (Prod.map id .operator)
    | _ => none

def server (config : Config) : Lib.Program Shared Task Input where
  store := {}
  start := .connecting
  next := next config

abbrev World := Lib.Program.World Shared Task

/-! ## A small deployment

The concrete runs of this development are of a server that accepts every
hello, with the robot's name as credential and as grant. -/

def trusting : Config where
  authenticate := .ok
  verify := fun auth =>
    .ok { tenant := "t", robotId := auth, operator := { id := "o", label := "O" }
          capabilities := [] }
  turn := none

/-- Task `i` runs its next operation. -/
def goes (i : Nat) (uuid : String := "") (order : List String := []) : Nat × Input :=
  (i, .go { uuid, now := 0, order })

/-- Socket `i` sends a message. -/
def tells (i : Nat) (body : Body) : Nat × Input :=
  (i, .frame { uuid := "", now := 0 } (.msg { common := { v := 1, eventId := "e", ts := 0 }, body }))

/-- Socket `i` closes. -/
def hangsUp (i : Nat) : Nat × Input := (i, .frame { uuid := "", now := 0 } .closed)

/-- An agent of robot `r` connects, as the first of its robot. -/
def agentConnects (i : Nat) (r : String) : List (Nat × Input) :=
  [tells i (.hello .agent r none none [1]), goes i, goes i, goes i]

/-- An operator with a grant for robot `r` opens session `sid`. -/
def operatorConnects (i : Nat) (r sid : String) : List (Nat × Input) :=
  [tells i (.hello .operator r none none [1]), goes i, goes i sid, goes i, goes i]

end Fjarr.Signaling
