/-
Fjarr.Signaling.Protocol — the signaling messages
(signaling/crates/fjarr-protocol/src/lib.rs) and the seams of the embedding
backend (fjarr-signaling/src/hooks.rs).

JSON the server passes on without reading it (`Value`, and the entries of
an offer's track manifest) is kept as its text. Each operation of the
server reads its clock and its random source from an `Env`.
-/
import Mathlib.Data.List.Perm.Basic

namespace Fjarr.Signaling

/-- JSON text. -/
abbrev Value := String

/-- Outbound queue handle of one socket: the socket's number. -/
abbrev Tx := Nat

def protoVersion : Nat := 1

structure CapabilityGrant where
  name : String
  params : Option Value
  deriving DecidableEq, Repr

structure OperatorInfo where
  id : String
  label : String
  deriving DecidableEq, Repr

structure TurnCredentials where
  urls : List String
  username : String
  credential : String
  ttl : Nat
  deriving DecidableEq, Repr

inductive Role where
  | agent
  | operator
  deriving DecidableEq, Repr

/-- Message bodies, discriminated by `type` on the wire. -/
inductive Body where
  | hello (role : Role) (auth : Value) (agentInfo clientInfo : Option Value)
      (protoVersions : List Nat)
  | helloAck (protoVersion : Nat) (sessionId : Option String) (turn : Option TurnCredentials)
  | sessionRequest (sessionId : String) (capabilities : List CapabilityGrant)
      (operator : OperatorInfo) (turn : Option TurnCredentials)
  | sessionAccept (sessionId : String)
  | sessionReject (sessionId reason : String)
  | offer (sessionId sdp : String) (tracks : List Value) (manifestVersion : Option Nat)
  | answer (sessionId sdp : String)
  | ice (sessionId candidate : String) (sdpMlineIndex : Nat)
  | iceRestart (sessionId : String)
  | sessionClose (sessionId reason : String) (retry : Option Bool)
  | peerGone (sessionId reason : String)
  | backendStream (capability : String) (payload : Value)
  | error (code message : String) (causedBy : Option String)
  deriving DecidableEq, Repr

/-- The session a message names. -/
def Body.sessionId : Body → Option String
  | .helloAck _ sid _ => sid
  | .sessionRequest sid _ _ _ | .sessionAccept sid | .sessionReject sid _ | .offer sid _ _ _
  | .answer sid _ | .ice sid _ _ | .iceRestart sid | .sessionClose sid _ _ | .peerGone sid _ =>
    some sid
  | .hello .. | .backendStream .. | .error .. => none

structure Common where
  v : Nat
  eventId : String
  /-- Unix milliseconds. -/
  ts : Int
  deriving DecidableEq, Repr

structure Message where
  common : Common
  body : Body
  deriving DecidableEq, Repr

/-- What one operation takes from outside: a new UUID, the clock, and the
order a hash map is iterated in. -/
structure Env where
  uuid : String
  now : Int
  order : List String := []

/-- `Message::new`. -/
def Message.new (env : Env) (body : Body) : Message :=
  { common := { v := protoVersion, eventId := env.uuid, ts := env.now }, body }

namespace ErrorCodes

def sessionUnknown := "session-unknown"
def robotOffline := "robot-offline"
def payloadInvalid := "payload-invalid"
def internal := "internal"

end ErrorCodes

/-- Verified content of a session grant. -/
structure VerifiedGrant where
  tenant : String
  robotId : String
  operator : OperatorInfo
  capabilities : List CapabilityGrant
  deriving DecidableEq, Repr

inductive AuthError where
  | rejected (code message : String)
  | internal (detail : String)
  deriving DecidableEq, Repr

/-- Lifecycle events with their payloads. -/
inductive Event where
  | robotOnline (robotId : String)
  | robotOffline (robotId : String)
  | sessionStarted (sessionId robotId tenant : String) (operator : OperatorInfo)
      (capabilities : List CapabilityGrant)
  | sessionEnded (sessionId robotId tenant reason : String) (durationMs : Int)
  deriving DecidableEq, Repr

/-- The hooks of the embedding backend. `turn` mints credentials at a time
for a user name. -/
structure Config where
  authenticate : Value → Except AuthError String
  verify : Value → Except AuthError VerifiedGrant
  turn : Option (Int → String → TurnCredentials)

end Fjarr.Signaling
