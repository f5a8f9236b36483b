/-
Fjarr.Control.Sessions — the control half of `core/session.cpp` and
`core/session_manager.cpp`: how a session's messages pass the control
gate, how claims change hands, and how sessions close.

Everything here runs on the core loop, one operation at a time, so the
system is a step function on the manager's state. A step returns the new
state and, in order, what it did to the outside (`Effect`): messages and
`release_all_input` calls handed to capabilities, replies and
`control-state` events sent to sessions.

Where the model abstracts:

* of a session's six states only the distinction the code makes here is
  kept: not closing, `Closing`, `Closed`;
* `close` is told whether the session finishes at once (`from_server`, or
  no consumer pipeline); otherwise `finishClose` (the 150 ms timer, or
  `flush_close`) comes as an operation of its own;
* `on_closed` posts to the loop: `posted` is that queue, oldest first,
  and `runPosted` runs its head. `close_all` is the list of operations
  `closeAllOps`: every close, then every flush, before any posted
  callback.
-/
import Fjarr.Control.Domains

namespace Fjarr.Control

/-! ## Sessions -/

/-- The fields of `CapabilityManifest` the router reads. Only an
input-bearing capability declares a control domain. -/
structure Manifest where
  name : String
  inputBearing : Bool
  controlDomain : String
  controlInputs : List String
  domain_inputBearing : controlDomain ≠ "" → inputBearing = true
  deriving DecidableEq

/-- `AttachedCapability`: the manifest, and whether the grant's params
carry `view_only: true`. -/
structure AttachedCapability where
  manifest : Manifest
  viewOnly : Bool
  deriving DecidableEq

/-- `Session::State`, the four states before `Closing` taken as one. -/
inductive SessionState where
  | live | closing | closed
  deriving DecidableEq, Repr

/-- The parts of `Session` the control domains depend on. -/
structure Session where
  operator : OperatorInfo
  caps : List AttachedCapability
  state : SessionState := .live
  closingRetry : Bool := false
  deriving DecidableEq

namespace Session

/-- `Session::domains`. -/
def domains (s : Session) : Std.ExtTreeSet String :=
  .ofList ((s.caps.map fun c => c.manifest.controlDomain).filter fun d => d ≠ "")

/-- `Session::can_claim`. -/
def canClaim (s : Session) (domain : String) : Bool :=
  s.caps.any fun c => c.manifest.controlDomain == domain && !c.viewOnly

/-- `Session::attached`. -/
def attached (s : Session) (name : String) : Option AttachedCapability :=
  s.caps.find? fun c => c.manifest.name == name

end Session

/-- `held_data`: what a `control-held` error carries. -/
structure HeldData where
  domain : String
  holder : Option OperatorInfo
  since : Option Int
  deriving DecidableEq, Repr

/-- One domain's entry of a `control-state` event. -/
structure ControlStateEntry where
  domain : String
  holder : Option OperatorInfo
  since : Option Int
  you : Bool
  viewOnly : Bool
  deriving DecidableEq, Repr

/-- What a request is answered with. -/
inductive Reply where
  | ok
  | pong
  | error (code message : String) (data : Option HeldData := none)
  deriving DecidableEq, Repr

/-- What a step does outside the manager, in order. -/
inductive Effect where
  /-- `on_message`, `on_binary` or `on_blob_chunk`; `input` when the
  message is input in the capability's control domain. -/
  | deliver (id : String) (m : Manifest) (input : Bool)
  | releaseAllInput (id : String) (m : Manifest)
  | reply (id : String) (r : Reply)
  | controlState (id : String) (entries : List ControlStateEntry)
  deriving DecidableEq

/-- `Envelope::kind`. -/
inductive Kind where
  | request | accept | feedback | result | event
  deriving DecidableEq, Repr

/-- `Envelope`; of the payload only `domain`, when it is a string. -/
structure Envelope where
  cap : String
  type : String
  kind : Kind
  domain : Option String := none
  deriving DecidableEq, Repr

/-- Is a message of `type` (`none` for a binary one) input in the
capability's control domain? The first two tests of
`Session::control_gate`. -/
def Manifest.isInput (m : Manifest) (type : Option String) : Bool :=
  m.controlDomain != "" &&
    (m.controlInputs.isEmpty || type.any fun t => m.controlInputs.contains t)

/-- `Session::release_domain_input`. -/
def Session.releaseDomainInput (s : Session) (id domain : String) : List Effect :=
  (s.caps.filter fun c => c.manifest.controlDomain == domain && c.manifest.inputBearing).map
    fun c => .releaseAllInput id c.manifest

/-- Step 1 of `Session::close`: every input-bearing capability. -/
def Session.releaseEveryInput (s : Session) (id : String) : List Effect :=
  (s.caps.filter fun c => c.manifest.inputBearing).map fun c => .releaseAllInput id c.manifest

/-! ## The manager -/

/-- `SessionManager`, with the capability names it was configured with and
the `on_closed` callbacks posted to the loop. -/
structure SessionManager where
  sessions : Std.ExtTreeMap String Session := {}
  control : ControlDomains := {}
  posted : List String := []
  known : List String := []

namespace SessionManager

variable (m : SessionManager) (id : String)

/-- `SessionManager::held_data`. -/
def heldData (domain : String) : HeldData :=
  match m.control.holder domain with
  | none => ⟨domain, none, none⟩
  | some h => ⟨domain, some h.op, some h.sinceMs⟩

/-- `SessionManager::control_state`. -/
def controlState (s : Session) : List ControlStateEntry :=
  s.domains.toList.map fun d =>
    match m.control.holder d with
    | none => ⟨d, none, none, false, !s.canClaim d⟩
    | some h => ⟨d, some h.op, some h.sinceMs, h.op.id == s.operator.id, !s.canClaim d⟩

/-- The release half of `apply`: the named operator's sessions in the
domain. -/
def releases (c : Change) : List Effect :=
  match c.release with
  | none => []
  | some operatorId =>
    m.sessions.toList.flatMap fun (id, s) =>
      if s.operator.id = operatorId ∧ c.domain ∈ s.domains then s.releaseDomainInput id c.domain
      else []

/-- The telling half of `apply`: every session in the domain. -/
def announcements (domain : String) : List Effect :=
  m.sessions.toList.flatMap fun (id, s) =>
    if domain ∈ s.domains then [.controlState id (m.controlState s)] else []

/-- `SessionManager::apply`. -/
def apply (c : Change) : List Effect :=
  m.releases c ++ m.announcements c.domain

/-- `SessionManager::control_tick`. -/
def controlTick (now : Time) : SessionManager × List Effect :=
  let (changes, control) := m.control.expire now
  let m' := { m with control }
  (m', changes.flatMap m'.apply)

/-- `SessionManager::control_input`; `some` data when another operator
holds the domain. -/
def controlInput (op : OperatorInfo) (domain : String) (now : Time)
    (nowMs : Int) : SessionManager × List Effect × Option HeldData :=
  -- an idle desktop is free to whoever types next, timer or not
  let (m1, ticked) := m.controlTick now
  let (r, control) := m1.control.input domain op now nowMs
  let m2 := { m1 with control }
  match r.outcome, r.change with
  | .held, _ => (m2, ticked, some (m2.heldData domain))
  | .allowed, some c => (m2, ticked ++ m2.apply c, none)
  | .allowed, none => (m2, ticked, none)

/-- The two requests of `control_request`. -/
inductive ControlRequest where
  | take | release
  deriving DecidableEq, Repr

/-- `SessionManager::control_request`: `none` is the `ok` answer. -/
def controlRequest (s : Session) (type : ControlRequest) (domain : String)
    (now : Time) (nowMs : Int) : SessionManager × List Effect × Option (String × String) :=
  match type with
  | .release =>
    match m.control.release domain s.operator.id with
    | (some c, control) =>
      let m1 := { m with control }
      (m1, m1.apply c, none)
    | (none, control) => ({ m with control }, [], none)
  | .take =>
    if domain ∉ s.domains then
      (m, [], some ("capability-denied", "no capability in the " ++ domain ++ " domain is granted"))
    else if !s.canClaim domain then
      (m, [], some ("capability-denied", "this grant is view-only"))
    else
      let (m1, ticked) := m.controlTick now
      match m1.control.take domain s.operator now nowMs with
      | (some c, control) =>
        let m2 := { m1 with control }
        (m2, ticked ++ m2.apply c, none)
      | (none, control) => ({ m1 with control }, ticked, none)

/-- `Session::control_gate`: may the message pass? `type` is `none` for a
binary message. -/
def controlGate (s : Session) (cap : AttachedCapability)
    (type : Option String) (request : Bool) (now : Time) (nowMs : Int) :
    SessionManager × List Effect × Bool :=
  if !cap.manifest.isInput type then (m, [], true)
  else if cap.viewOnly then
    (m, if request then [.reply id (.error "capability-denied" "this grant is view-only")] else [],
      false)
  else
    match m.controlInput s.operator cap.manifest.controlDomain now nowMs with
    | (m1, es, none) => (m1, es, true)
    | (m1, es, some data) =>
      let label := match data.holder with
        | some op => op.label
        | none => ""
      (m1,
        es ++ if request then
          [.reply id (.error "control-held"
            (cap.manifest.controlDomain ++ " is held by " ++ label) (some data))]
        else [],
        false)

/-- `Session::handle_core`. -/
def handleCore (s : Session) (env : Envelope) (now : Time)
    (nowMs : Int) : SessionManager × List Effect :=
  if env.kind ≠ .request then (m, [])
  else if env.type = "ping" ∨ env.type = "time-sync" then
    -- `on_ping`: a heartbeat of any session keeps its operator's claims alive
    ({ m with control := m.control.heartbeat s.operator.id now }, [.reply id .pong])
  else if env.type = "take-control" ∨ env.type = "release-control" then
    match env.domain.filter ControlDomains.known with
    | none =>
      (m, [.reply id (.error "payload-invalid" "domain must be \"desktop\" or \"motion\"")])
    | some domain =>
      let type := if env.type = "take-control" then ControlRequest.take else .release
      match m.controlRequest s type domain now nowMs with
      | (m1, es, none) => (m1, es ++ [.reply id .ok])
      | (m1, es, some (code, message)) => (m1, es ++ [.reply id (.error code message)])
  else (m, [])

/-- `Session::route`. A `select-tracks` request is served by the core and
never reaches the capability. -/
def route (s : Session) (env : Envelope) (now : Time)
    (nowMs : Int) : SessionManager × List Effect :=
  if env.cap = "fjarr.core" then m.handleCore id s env now nowMs
  else
    match s.attached env.cap with
    | none =>
      (m,
        if env.kind = .request then
          if m.known.contains env.cap then
            [.reply id (.error "capability-denied" "capability not granted to this session")]
          else [.reply id (.error "capability-unknown" "capability not attached to this session")]
        else [])
    | some cap =>
      if env.type = "select-tracks" ∧ env.kind = .request then (m, [])
      else
        match m.controlGate id s cap (some env.type) (env.kind == .request) now nowMs with
        | (m1, es, true) =>
          (m1, es ++ [.deliver id cap.manifest (cap.manifest.isInput (some env.type))])
        | (m1, es, false) => (m1, es)

/-- `Session::on_channel_text` of a parsed envelope: nothing inbound
passes once the session is closing. -/
def onChannelText (env : Envelope) (now : Time) (nowMs : Int) :
    SessionManager × List Effect :=
  match m.sessions[id]? with
  | none => (m, [])
  | some s => if s.state ≠ .live then (m, []) else m.route id s env now nowMs

/-- `Session::on_channel_data` on a capability's bulk or stream channel;
`wellFormed` is false for a blob frame `parse_chunk` refuses. -/
def onChannelData (capName : String) (wellFormed : Bool)
    (now : Time) (nowMs : Int) : SessionManager × List Effect :=
  match m.sessions[id]? with
  | none => (m, [])
  | some s =>
    if s.state ≠ .live then (m, [])
    else
      match s.attached capName with
      | none => (m, [])
      | some cap =>
        match m.controlGate id s cap none false now nowMs with
        | (m1, es, true) =>
          (m1, es ++ if wellFormed then [.deliver id cap.manifest (cap.manifest.isInput none)]
            else [])
        | (m1, es, false) => (m1, es)

/-- `SessionManager::on_session_request` with grants that parse and name
enabled capabilities; a session id in use is rejected. -/
def onSessionRequest (op : OperatorInfo)
    (caps : List AttachedCapability) : SessionManager × List Effect :=
  if m.sessions.contains id then (m, [])
  else ({ m with sessions := m.sessions.insert id { operator := op, caps } }, [])

/-- `Session::finish_close`, which the close timer or `flush_close` runs on
a closing session: it posts `on_closed`. -/
def finishClose : SessionManager :=
  match m.sessions[id]? with
  | none => m
  | some s =>
    if s.state ≠ .closing then m
    else
      { m with
        sessions := m.sessions.insert id { s with state := .closed }
        posted := m.posted ++ [id] }

/-- `Session::close`; `immediate` when there is nothing to flush. -/
def close (retry immediate : Bool) :
    SessionManager × List Effect :=
  match m.sessions[id]? with
  | none => (m, [])
  | some s =>
    if s.state ≠ .live then (m, [])
    else
      let m1 := { m with
        sessions := m.sessions.insert id { s with state := .closing, closingRetry := retry } }
      (if immediate then m1.finishClose id else m1, s.releaseEveryInput id)

/-- Has the operator a session in the domain that is not `Closed`? -/
def liveIn (operatorId domain : String) : Bool :=
  m.sessions.toList.any fun (_, s) =>
    s.operator.id == operatorId && s.domains.contains domain && s.state != .closed

/-- One domain of `SessionManager::drop_orphaned_claims`. -/
def dropOrphanedClaim (keep domain : String) : SessionManager × List Effect :=
  match m.control.holder domain with
  | none => (m, [])
  | some h =>
    if h.op.id == keep || m.liveIn h.op.id domain then (m, [])
    else
      match m.control.gone domain h.op.id with
      | (some c, control) =>
        let m1 := { m with control }
        (m1, m1.apply c)
      | (none, control) => ({ m with control }, [])

/-- `SessionManager::drop_orphaned_claims`. -/
def dropOrphanedClaims (keep : String) : SessionManager × List Effect :=
  let (m1, es1) := m.dropOrphanedClaim keep "desktop"
  let (m2, es2) := m1.dropOrphanedClaim keep "motion"
  (m2, es1 ++ es2)

/-- The operator whose claims an `on_closed` callback keeps: the closing
session's own when it closed to be retried, else the empty name. -/
def keepFor : String :=
  match m.sessions[id]? with
  | some s => if s.closingRetry then s.operator.id else ""
  | none => ""

/-- The oldest posted `on_closed` callback. -/
def runPosted : SessionManager × List Effect :=
  match m.posted with
  | [] => (m, [])
  | id :: rest =>
    { m with sessions := m.sessions.erase id, posted := rest }.dropOrphanedClaims (m.keepFor id)

end SessionManager

/-! ## The system -/

/-- What can happen on the core loop. -/
inductive Op where
  | sessionRequest (id : String) (op : OperatorInfo) (caps : List AttachedCapability)
  | text (id : String) (env : Envelope) (now : Time) (nowMs : Int)
  | data (id : String) (capName : String) (wellFormed : Bool) (now : Time) (nowMs : Int)
  | tick (now : Time)
  | close (id : String) (retry immediate : Bool)
  | finishClose (id : String)
  | runPosted
  deriving DecidableEq

/-- One operation. -/
def SessionManager.step (m : SessionManager) : Op → SessionManager × List Effect
  | .sessionRequest id op caps => m.onSessionRequest id op caps
  | .text id env now nowMs => m.onChannelText id env now nowMs
  | .data id capName wellFormed now nowMs => m.onChannelData id capName wellFormed now nowMs
  | .tick now => m.controlTick now
  | .close id retry immediate => m.close id retry immediate
  | .finishClose id => (m.finishClose id, [])
  | .runPosted => m.runPosted

/-- `SessionManager::close_all`: every session closed, then every flush
window cut short. `immediate` tells the sessions without a consumer. -/
def closeAllOps (m : SessionManager) (retry : Bool) (immediate : String → Bool) : List Op :=
  m.sessions.keys.map (fun id => .close id retry (immediate id)) ++
    m.sessions.keys.map (fun id => .finishClose id)

/-- The manager and everything it has done so far. -/
structure World where
  mgr : SessionManager
  log : List Effect

/-- The world after one operation. -/
def World.after (w : World) (op : Op) : World :=
  ⟨(w.mgr.step op).1, w.log ++ (w.mgr.step op).2⟩

/-- Any operations in any order, from a manager without sessions. -/
def system (known : List String) : Lib.System World Op where
  init := ⟨{ known }, []⟩
  step := fun w op => some (w.after op)

end Fjarr.Control
