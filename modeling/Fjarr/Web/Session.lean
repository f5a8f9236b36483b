/-
Fjarr.Web.Session — the operator's session (`web/packages/core/src/session.ts`
and `backoff.ts`): one signaling socket and one peer connection at a time,
and the reconnection ladder.

Beside the class's fields a `Session` has what the browser holds for it: the
sockets and peer connections that were not closed, the armed timers, the
grant fetches and offers that are awaited, and what was sent. A socket, a
grant fetch and a peer connection are named by the generation they were made
in. An offer is handled in stages, one for each await; those of one
generation follow each other, as `offerChain` has it.

An event comes at a time, and a timer fires when it is due or later. A
callback that the code runs inside another one is run there; listeners of
the session's stores are called where the code re-reads the state after
them, or at the end, so a call they make is the next event: all but those
that an offer's manifest wakes, which may close the session before the rest
of the first stage runs (`closes`).

`History` records what the code does not: since when the session has been
connected, when the round counter was set back, and the rounds started.
Reasons and error texts, the idle policy's consumers by kind, TURN
credentials, tracks, statistics and the uplink are left out.
-/
import Mathlib
import Fjarr.Lib.Transition

namespace Fjarr.Web.Client

open Lib

/-! ## Data -/

inductive Phase where
  | idle
  | connecting
  | connected
  | reconnecting
  | closed
  | failed
  deriving DecidableEq, Repr

/-- `TERMINAL`. -/
def Phase.terminal : Phase → Bool
  | .closed | .failed => true
  | _ => false

structure Options where
  maxRounds : Nat := 5
  connectTimeoutMs : Nat := 15000
  iceDisconnectGraceMs : Nat := 3000
  iceRestartTimeoutMs : Nat := 10000
  /-- The idle policy's `closeAfterMs`. -/
  idle : Option Nat := none

/-- Attempts reset only after this long connected. -/
def stableResetMs : Nat := 30000

/-- `backoffDelay`; `random` is in [0, 1). -/
def backoffDelay (attempt : Nat) (random : ℚ) : Nat :=
  let raw : ℚ := min 30000 (500 * 2 ^ attempt)
  let spread := raw / 5
  (⌊raw - spread + random * 2 * spread + 1 / 2⌋).toNat

structure Backoff where
  attempt : Nat := 0
  connectedAt : Option Nat := none
  deriving DecidableEq, Repr

/-- Whether a connection made then is stable now. -/
def stable (connectedAt : Option Nat) (now : Nat) : Bool :=
  connectedAt.any fun at_ => at_ + stableResetMs ≤ now

/-- `markDisconnected`. -/
def Backoff.markDisconnected (b : Backoff) (now : Nat) : Backoff where
  attempt := if stable b.connectedAt now then 0 else b.attempt

inductive TimerKind where
  | grace
  | restart
  | reconnect
  /-- The connect timeout of a generation. -/
  | connect (gen : Nat)
  | idle
  deriving DecidableEq, Repr

structure Timer where
  id : Nat
  kind : TimerKind
  due : Nat
  deriving DecidableEq, Repr

structure Offer where
  id : Nat
  manifestVersion : Option Nat := none
  deriving DecidableEq, Repr

/-- How far the handling of an offer is. -/
inductive Stage where
  /-- In the chain. -/
  | queued
  /-- `setRemoteDescription` on a peer connection. -/
  | describing (pc : Nat)
  /-- `addIceCandidate`, with as many to go after it. -/
  | adding (pc : Nat) (more : Nat)
  /-- `createAnswer` and `setLocalDescription`. -/
  | answering (pc : Nat)
  deriving DecidableEq, Repr

structure OfferTask where
  gen : Nat
  offer : Offer
  stage : Stage := .queued
  deriving DecidableEq, Repr

inductive Sent where
  | hello
  | answer (gen : Nat) (offer : Nat)
  | ice
  | iceRestart
  | sessionClose
  deriving DecidableEq, Repr

/-- `pc.connectionState`, as far as it is told apart. -/
inductive PeerState where
  | other
  | connected
  | disconnected
  | failed
  deriving DecidableEq, Repr

/-- How a round is started: counted and after a wait, counted at once, or free. -/
inductive RoundOptions where
  | counted
  | immediate
  | free
  deriving DecidableEq, Repr

inductive ErrorCode where
  | grantExpired
  | rateLimited
  | sessionUnknown
  | robotOffline
  /-- `auth-failed`, `capability-denied`, `capability-unknown`, `payload-invalid`, `internal`. -/
  | fatal
  | other
  deriving DecidableEq, Repr

inductive Signal where
  | helloAck (sessionId : Bool)
  | sessionAccept
  | sessionReject
  | offer (offer : Offer)
  | ice
  | sessionClose (retry : Bool)
  | peerGone
  | error (code : ErrorCode)
  | other
  deriving DecidableEq, Repr

/-- The round counter was set back: when, and since when the session had been connected. -/
structure Refill where
  time : Nat
  since : Option Nat
  deriving DecidableEq, Repr

structure History where
  connectedSince : Option Nat := none
  refills : List Refill := []
  /-- Rounds since the session was last connected for the stable period, the free ones apart. -/
  counted : Nat := 0
  /-- Free rounds since the last `hello-ack`. -/
  free : Nat := 0
  /-- The offers that were not stale, with their generation. -/
  offers : List (Nat × Nat) := []
  deriving DecidableEq, Repr

structure Session where
  state : Phase := .idle
  socket : Option Nat := none
  pc : Option Nat := none
  sessionId : Bool := false
  grantToken : Bool := false
  generation : Nat := 0
  round : Nat := 0
  remoteDescribed : Bool := false
  iceQueue : Nat := 0
  graceTimer : Option Nat := none
  restartTimer : Option Nat := none
  reconnectTimer : Option Nat := none
  connectTimer : Option Nat := none
  idleTimer : Option Nat := none
  restartAttempted : Bool := false
  connectedAt : Option Nat := none
  freeRoundUsed : Bool := false
  backoff : Backoff := {}
  /-- Whether the heartbeat runs. -/
  heartbeat : Bool := false
  /-- The registry's `manifestVersion`. -/
  manifestVersion : Option Nat := none
  /-- The channel set's control channel, and whether it is open. -/
  control : Option Nat := none
  controlOpen : Bool := false
  /-- The router's pending requests. -/
  pending : Nat := 0
  consumerCount : Nat := 0
  -- the browser's
  /-- The generations a socket was made in. -/
  opened : List Nat := []
  sockets : List Nat := []
  peers : List Nat := []
  peerState : PeerState := .other
  /-- Control channels whose handlers are set. -/
  hooked : List Nat := []
  timers : List Timer := []
  nextTimer : Nat := 0
  grants : List Nat := []
  offers : List OfferTask := []
  sent : List Sent := []
  history : History := {}

namespace Session

variable (s : Session) (cfg : Options)

/-! ## Timers and state -/

def clearTimer (handle : Option Nat) : Session :=
  { s with timers := s.timers.filter fun t => handle ≠ some t.id }

/-- An armed timer, whose handle is `nextTimer`. -/
def arm (kind : TimerKind) (due : Nat) : Session :=
  { s with timers := s.timers ++ [{ id := s.nextTimer, kind, due }], nextTimer := s.nextTimer + 1 }

/-- `setInfo`, as far as the state goes. -/
def setState (now : Nat) (state : Phase) : Session :=
  { s with
    state
    history := { s.history with
      connectedSince :=
        if state = .connected then
          if s.state = .connected then s.history.connectedSince else some now
        else none } }

/-- Something goes out on the current socket. -/
def send (message : Sent) : Session := { s with sent := s.sent ++ [message] }

/-! ## Teardown -/

/-- `channels.reset`. -/
def resetChannels : Session :=
  { s with
    control := none
    controlOpen := false
    hooked := s.hooked.filter fun c => s.control ≠ some c }

/-- `teardownMedia`. -/
def teardownMedia : Session :=
  let s := ((s.clearTimer s.graceTimer).clearTimer s.restartTimer).clearTimer s.connectTimer
  let s := s.resetChannels
  { s with
    heartbeat := false
    graceTimer := none
    restartTimer := none
    connectTimer := none
    restartAttempted := false
    pending := 0
    manifestVersion := none
    remoteDescribed := false
    iceQueue := 0
    pc := none
    peers := s.peers.filter fun p => s.pc ≠ some p }

/-- `detachSocket`. -/
def detachSocket : Session :=
  { s with
    generation := s.generation + 1
    socket := none
    sessionId := false
    sockets := s.sockets.filter fun g => s.socket ≠ some g }

/-- `teardownAll`. -/
def teardownAll : Session :=
  let s := { s.clearTimer s.reconnectTimer with reconnectTimer := none }
  { s.teardownMedia.detachSocket with connectedAt := none }

/-- `close`. -/
def close (now : Nat) : Session :=
  if s.state = .closed then s
  else
    let s := if s.socket.isSome && s.sessionId then s.send .sessionClose else s
    s.teardownAll.setState now .closed

/-- `fail`. -/
def fail (now : Nat) : Session := s.teardownAll.setState now .failed

/-! ## Rounds -/

/-- The round counter, set back after a stable connection. -/
def refill (now : Nat) : Session :=
  if stable s.connectedAt now then
    { s with
      round := 0
      history := { s.history with
        refills := s.history.refills ++ [{ time := now, since := s.history.connectedSince }] } }
  else s

/-- The round is counted, or recorded as free. -/
def countRound (opts : RoundOptions) : Session :=
  if opts = .free then { s with history := { s.history with free := s.history.free + 1 } }
  else
    { s with
      round := s.round + 1
      history := { s.history with counted := s.history.counted + 1 } }

/-- The wait before the next round. -/
def armReconnect (opts : RoundOptions) (now : Nat) (random : ℚ) : Session :=
  let s := if opts = .free then s else { s with backoff := s.backoff.markDisconnected now }
  let delay := if opts = .counted then backoffDelay s.backoff.attempt random else 0
  let attempt := if opts = .counted then s.backoff.attempt + 1 else s.backoff.attempt
  let s := { s with backoff := { s.backoff with attempt } }
  { s.arm .reconnect (now + delay) with reconnectTimer := some s.nextTimer }

/-- What a round begins with: the budget, and the old round's teardown. -/
def endRound (now : Nat) : Session :=
  { s.refill now with connectedAt := none }.teardownMedia.detachSocket

/-- `newRound`. -/
def newRound (s : Session) (opts : RoundOptions) (now : Nat) (random : ℚ) :
    Session :=
  if s.state.terminal then s
  else
    let s := s.endRound now
    let round := if opts = .free then s.round else s.round + 1
    if cfg.maxRounds < round then { s.fail now with round }
    else ((s.countRound opts).armReconnect opts now random).setState now .reconnecting

/-- The socket of a round; its URL may be refused. -/
def openSocket (gen : Nat) (ok : Bool) (now : Nat) : Session :=
  if ok then
    { s with opened := s.opened ++ [gen], sockets := s.sockets ++ [gen], socket := some gen }
  else s.fail now

/-- `startRound`, up to its first await. -/
def startRound (s : Session) (socketOk : Bool) (now : Nat) : Session :=
  if s.state.terminal then s
  else
    let gen := s.generation + 1
    let s := { s.arm (.connect gen) (now + cfg.connectTimeoutMs) with
      generation := gen, connectTimer := some s.nextTimer }
    if s.grantToken then s.openSocket gen socketOk now else { s with grants := s.grants ++ [gen] }

/-- The grant a round waits for. -/
def grantArrived (gen : Nat) (ok socketOk : Bool) (now : Nat) : Session :=
  let s := { s with grants := s.grants.erase gen }
  if gen ≠ s.generation then s
  else if ok then { s with grantToken := true }.openSocket gen socketOk now
  else s.fail now

/-- `touchIdle`. -/
def touchIdle (s : Session) (now : Nat) : Session :=
  match cfg.idle with
  | none => s
  | some closeAfterMs =>
    if 0 < s.consumerCount then { s.clearTimer s.idleTimer with idleTimer := none }
    else if s.idleTimer.isSome || s.state.terminal || s.state = .idle then s
    else { s.arm .idle (now + closeAfterMs) with idleTimer := some s.nextTimer }

/-- `open`. -/
def openUp (s : Session) (socketOk : Bool) (now : Nat) : Session :=
  if s.state ≠ .idle && !s.state.terminal then s
  else
    let s := { s with
      round := 0
      connectedAt := none
      backoff := {}
      history := { s.history with counted := 0 } }
    (startRound cfg (s.setState now .connecting) socketOk now).touchIdle cfg now

/-- `retry`. -/
def retry (s : Session) (socketOk : Bool) (now : Nat) : Session :=
  if s.state = .failed then s.openUp cfg socketOk now
  else if s.state = .reconnecting && s.reconnectTimer.isSome then
    startRound cfg { s.clearTimer s.reconnectTimer with reconnectTimer := none } socketOk now
  else s

/-- `maybeConnected`. -/
def maybeConnected (now : Nat) : Session :=
  if s.state ≠ .connecting && s.state ≠ .reconnecting then s
  else if s.pc.isNone || s.peerState ≠ .connected || !s.controlOpen then s
  else
    let s := (s.clearTimer s.restartTimer).clearTimer s.connectTimer
    let s := { s with
      restartTimer := none
      connectTimer := none
      restartAttempted := false
      connectedAt := some now
      backoff := { s.backoff with connectedAt := some now } }
    { s.setState now .connected with heartbeat := true }

/-- `requestIceRestart`. -/
def requestIceRestart (s : Session) (now : Nat) (random : ℚ) : Session :=
  if s.state ≠ .connected && s.state ≠ .reconnecting then s
  else if s.restartTimer.isSome || s.restartAttempted then s
  else
    let s := { s with heartbeat := false }
    if s.socket.isSome && s.sessionId then
      let s := { s with restartAttempted := true, remoteDescribed := false, iceQueue := 0 }
      let s := (s.setState now .reconnecting).send .iceRestart
      { s.arm .restart (now + cfg.iceRestartTimeoutMs) with restartTimer := some s.nextTimer }
    else newRound cfg s .counted now random -- which sets the state

/-! ## Signaling -/

/-- An orderly end from the other side. -/
def closedByPeer (now : Nat) : Session := s.teardownAll.setState now .closed

/-- `onServerError`. -/
def onServerError (s : Session) (code : ErrorCode) (now : Nat) (random : ℚ) :
    Session :=
  match code with
  | .grantExpired =>
    let opts := if s.freeRoundUsed then .counted else .free
    newRound cfg { s with grantToken := false, freeRoundUsed := true } opts now random
  | .rateLimited => newRound cfg s .counted now random
  | .sessionUnknown => s.closedByPeer now
  | .robotOffline => if 0 < s.round then newRound cfg s .counted now random else s.fail now
  | .fatal => s.fail now
  | .other => s

/-- `onSignal`. -/
def onSignal (s : Session) (gen : Nat) (msg : Signal) (now : Nat) (random : ℚ) :
    Session :=
  match msg with
  | .helloAck sessionId =>
    { s with sessionId, freeRoundUsed := false, history := { s.history with free := 0 } }
  | .sessionAccept => s
  | .sessionReject => s.fail now
  | .offer offer => { s with offers := s.offers ++ [{ gen, offer }] }
  | .ice => if s.pc.isSome && s.remoteDescribed then s else { s with iceQueue := s.iceQueue + 1 }
  | .sessionClose true => newRound cfg s .immediate now random
  | .sessionClose false => s.closedByPeer now
  | .peerGone => s.closedByPeer now
  | .error code => s.onServerError cfg code now random
  | .other => s

/-! ## Offers -/

/-- The registry's `applyManifest` calls an offer stale. -/
def staleOffer (offer : Offer) : Bool :=
  match offer.manifestVersion, s.manifestVersion with
  | some v, some applied => v < applied
  | _, _ => false

/-- `createPeer`, where there is none. -/
def ensurePeer : Session :=
  if s.pc.isSome then s
  else
    { s with
      pc := some s.generation
      peers := s.peers ++ [s.generation]
      peerState := .other }

/-- `handleOffer` up to `setRemoteDescription`: the session, and the stage the
offer is in, if it goes on. -/
def beginOffer (t : OfferTask) (closes : Bool) (now : Nat) :
    Session × Option Stage :=
  if t.gen ≠ s.generation then (s, none)
  else if s.staleOffer t.offer then (s, none)
  else
    let s := { s with
      manifestVersion := t.offer.manifestVersion.or s.manifestVersion
      history := { s.history with offers := s.history.offers ++ [(t.gen, t.offer.id)] } }
    let s := (if closes then s.close now else s).ensurePeer
    (s, s.pc.map .describing)

/-- The next stage of an offer: what was awaited came through or not. -/
def advanceOffer (t : OfferTask) (ok closes : Bool) (now : Nat) :
    Session × Option Stage :=
  match t.stage with
  | .queued => s.beginOffer t closes now
  | .describing pc =>
    if !ok || t.gen ≠ s.generation || s.pc ≠ some pc then (s, none)
    else
      let next := if s.iceQueue = 0 then .answering pc else .adding pc (s.iceQueue - 1)
      ({ s with remoteDescribed := true, iceQueue := 0 }, some next)
  | .adding pc more =>
    -- a candidate that is refused is reported, and the next one tried
    if t.gen ≠ s.generation || s.pc ≠ some pc then (s, none)
    else (s, some (if more = 0 then .answering pc else .adding pc (more - 1)))
  | .answering pc =>
    if !ok || t.gen ≠ s.generation || s.pc ≠ some pc then (s, none)
    else
      let s := if s.socket.isSome then s.send (.answer t.gen t.offer.id) else s
      (s.maybeConnected now, none)

/-- The offer at `i`, if it is the first of its generation. -/
def stepOffer (i : Nat) (ok closes : Bool) (now : Nat) : Option Session :=
  match s.offers[i]? with
  | none => none
  | some t =>
    if (s.offers.take i).any (·.gen = t.gen) then none
    else
      let r := s.advanceOffer t ok closes now
      some { r.1 with offers := match r.2 with
        | some stage => s.offers.set i { t with stage }
        | none => s.offers.eraseIdx i }

/-! ## The peer connection -/

/-- `ChannelSet.attach` of a control channel. -/
def attachControl (channel : Nat) (isOpen : Bool) (now : Nat) : Session :=
  let s := { s with
    control := some channel
    controlOpen := isOpen
    hooked := s.hooked.filter (· ≠ channel) ++ [channel] }
  if isOpen then s.maybeConnected now else s

/-- A control channel closes. -/
def controlClosed (s : Session) (channel : Nat) (now : Nat) (random : ℚ) :
    Session :=
  let s := if s.control = some channel then { s with control := none, controlOpen := false } else s
  if s.state = .connected || s.state = .reconnecting then newRound cfg s .counted now random else s

/-- `onconnectionstatechange`. -/
def connectionStateChanged (s : Session) (peerState : PeerState) (now : Nat)
    (random : ℚ) : Session :=
  let s := { s with peerState }
  match peerState with
  | .other => s
  | .connected => { s.clearTimer s.graceTimer with graceTimer := none }.maybeConnected now
  | .disconnected =>
    if s.state = .reconnecting && s.restartAttempted && s.remoteDescribed then
      newRound cfg s .counted now random
    else if s.graceTimer.isNone && s.state = .connected then
      { s.arm .grace (now + cfg.iceDisconnectGraceMs) with graceTimer := some s.nextTimer }
    else s
  | .failed =>
    if s.restartAttempted then
      if s.remoteDescribed then newRound cfg s .counted now random else s
    else if s.state = .connecting || !s.controlOpen then newRound cfg s .counted now random
    else s.requestIceRestart cfg now random

/-- A timer fires. -/
def fired (s : Session) (kind : TimerKind) (socketOk : Bool) (now : Nat)
    (random : ℚ) : Session :=
  match kind with
  | .grace => { s with graceTimer := none }.requestIceRestart cfg now random
  | .restart => newRound cfg { s with restartTimer := none } .counted now random
  | .reconnect => startRound cfg { s with reconnectTimer := none } socketOk now
  | .connect gen =>
    let s := { s with connectTimer := none }
    if gen = s.generation then newRound cfg s .counted now random else s
  | .idle =>
    let s := { s with idleTimer := none }
    if s.consumerCount = 0 then s.close now else s

end Session

/-! ## The system -/

inductive Act where
  | openUp (socketOk : Bool)
  | close
  | retry (socketOk : Bool)
  | restartIce
  | retain
  | release
  | request
  | reply
  | grant (gen : Nat) (ok socketOk : Bool)
  | socketOpen (gen : Nat)
  | socketMessage (gen : Nat) (msg : Signal)
  | socketClose (gen : Nat)
  | offer (i : Nat) (ok closes : Bool)
  | iceCandidate (pc : Nat)
  | connectionState (pc : Nat) (peerState : PeerState)
  | dataChannel (pc channel : Nat) (isOpen : Bool)
  | channelOpen (channel : Nat)
  | channelClose (channel : Nat)
  | timer (id : Nat) (socketOk : Bool)
  | heartbeatDead
  deriving DecidableEq, Repr

/-- Something happens at a time; `random` is what the backoff draws. -/
structure Event where
  now : Nat
  random : ℚ
  act : Act

namespace Session

/-- What an event does; `none` where it cannot come. -/
def handle (cfg : Options) (s : Session) (now : Nat) (random : ℚ) : Act → Option Session
  | .openUp socketOk => some (s.openUp cfg socketOk now)
  | .close => some (s.close now)
  | .retry socketOk => some (s.retry cfg socketOk now)
  | .restartIce =>
    some (if s.state = .connected then s.requestIceRestart cfg now random else s)
  | .retain => some ({ s with consumerCount := s.consumerCount + 1 }.touchIdle cfg now)
  | .release => some ({ s with consumerCount := s.consumerCount - 1 }.touchIdle cfg now)
  | .request => some (if s.controlOpen then { s with pending := s.pending + 1 } else s)
  | .reply => some { s with pending := s.pending - 1 }
  | .grant gen ok socketOk =>
    if gen ∈ s.grants then some (s.grantArrived gen ok socketOk now) else none
  | .socketOpen gen =>
    if gen ∈ s.opened then some (if gen = s.generation then s.send .hello else s) else none
  | .socketMessage gen msg =>
    if gen ∈ s.opened then
      some (if gen = s.generation then s.onSignal cfg gen msg now random else s)
    else none
  | .socketClose gen =>
    if gen ∈ s.opened then
      let s := { s with sockets := s.sockets.filter (· ≠ gen) }
      some (if gen = s.generation then
        let s := { s with socket := none }
        if s.state.terminal then s else newRound cfg s .counted now random
        else s)
    else none
  | .offer i ok closes => s.stepOffer i ok closes now
  | .iceCandidate pc =>
    some (if s.pc = some pc && pc = s.generation && s.socket.isSome then s.send .ice else s)
  | .connectionState pc peerState =>
    some (if s.pc = some pc && pc = s.generation then
      s.connectionStateChanged cfg peerState now random else s)
  | .dataChannel pc channel isOpen =>
    some (if s.pc = some pc && pc = s.generation then s.attachControl channel isOpen now else s)
  | .channelOpen channel =>
    if channel ∈ s.hooked then
      some (if s.control = some channel then { s with controlOpen := true }.maybeConnected now
        else s.maybeConnected now)
    else none
  | .channelClose channel =>
    -- a channel closes once
    if channel ∈ s.hooked then
      some ({ s with hooked := s.hooked.filter (· ≠ channel) }.controlClosed cfg channel now random)
    else none
  | .timer id socketOk =>
    match s.timers.find? (·.id = id) with
    | none => none
    | some t =>
      if t.due ≤ now then
        some ({ s with timers := s.timers.filter (·.id ≠ id) }.fired cfg t.kind socketOk now
          random)
      else none
  | .heartbeatDead =>
    if s.heartbeat then some (newRound cfg { s with heartbeat := false } .counted now random)
    else none

/-- A moment at which the session has been connected for the stable period. -/
def tick (s : Session) (now : Nat) : Session :=
  if stable s.history.connectedSince now then { s with history := { s.history with counted := 0 } }
  else s

end Session

/-- The session and the time of its last event. -/
structure Run where
  session : Session := {}
  clock : Nat := 0

def system (cfg : Options) : System Run Event where
  init := {}
  step r ev :=
    if r.clock ≤ ev.now then
      ((r.session.tick ev.now).handle cfg ev.now ev.random ev.act).map fun s =>
        { session := s, clock := ev.now }
    else none

end Fjarr.Web.Client
