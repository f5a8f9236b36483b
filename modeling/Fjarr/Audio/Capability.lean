/-
Fjarr.Audio.Capability — `capabilities/audio_capability.cpp`: the robot's
speaker, and the gate that lets one session at a time be heard.

Two kinds of threads meet here. Callbacks of the core loop run one at a
time; the streaming threads that decode the uplinks call `Speaker::push`
whenever they like. What both touch (`appsrc`, `talker` and the counters)
is guarded by one mutex, so a callback is cut at its critical sections:
`Loop` says which callback is under way and where it stands, each
`proceed` runs it to the end of its next section, and `push` may come
between any two.

Whether the output pipeline can be built is decided by the machine and
comes with the step. A session is attached from `session_attached` to
`session_detached`, and the core never attaches an id that is attached.
`shutdown` may come at any time, also with sessions attached.

The level meter's two sums are floating point and left out, as are the
microphones (`listen` and their tracks) and the log lines; `talk-level`
keeps its frame count.
-/
import Fjarr.Lib.Transition

namespace Fjarr.Audio

open Lib

abbrev SessionId := String

structure OperatorInfo where
  id : String
  label : String
  deriving DecidableEq, Repr

/-! ## Configuration -/

inductive Output where
  | alsa | null
  deriving DecidableEq, Repr

/-- The `speaker` table of the configuration. -/
structure SpeakerConfig where
  output : Output := .alsa
  device : String := "default"
  deriving DecidableEq, Repr

/-- One 20 ms frame of mono at 48 kHz. -/
def frameSamples : Nat := 48000 / 50

/-- Where `build_output` can fail. -/
inductive BuildFailure where
  | missing | unlinked | refused
  deriving DecidableEq, Repr

/-- The texts `build_output` leaves in `error`. -/
def SpeakerConfig.buildError (c : SpeakerConfig) : BuildFailure → String
  | .missing =>
    if c.output = .alsa then "elements missing (gstreamer1.0-alsa?)" else "elements missing"
  | .unlinked => "the speaker pipeline did not link"
  | .refused =>
    if c.output = .alsa then "the speaker " ++ c.device ++ " could not be opened"
    else "the speaker pipeline would not start"

/-! ## State -/

/-- `Impl::Session`; `ctx` is `none` for a null context. -/
structure Session where
  ctx : Option OperatorInfo := none
  talk : Bool := false
  deriving DecidableEq, Repr

inductive Reply where
  | ok
  | error (code message : String) (holder : Option OperatorInfo := none)
  deriving DecidableEq, Repr

/-- The two `audio-uplink` session events. -/
inductive Audit where
  | talkStart | talkStop
  deriving DecidableEq, Repr

/-- Which callback a `stop_talking` belongs to. -/
inductive After where
  | talkStop | detach | shutdown
  deriving DecidableEq, Repr

inductive Event where
  | attached (id : SessionId) (talk : Bool)
  /-- `add_inbound_audio`: the session is offered an uplink. -/
  | uplink (id : SessionId)
  /-- The critical section that gives the floor to a session. -/
  | opened (id : SessionId)
  /-- The answer to a `talk-start`. -/
  | answered (id : SessionId) (r : Reply)
  /-- The critical section of `stop_talking`. -/
  | stopped (id : SessionId)
  | detached (id : SessionId)
  /-- The answer to any other request. -/
  | replied (id : SessionId) (r : Reply)
  | audit (id : SessionId) (what : Audit)
  /-- `stop_talking` found no context to audit with. -/
  | unaudited (id : SessionId) (during : After)
  /-- A buffer entered the speaker pipeline. -/
  | heard (id : SessionId) (pcm : List Int16)
  | talkLevel (id : SessionId) (frames : Nat)
  deriving DecidableEq, Repr

/-- Where the core loop stands. -/
inductive Loop where
  | idle
  /-- `talk_start`, before `build_output`. -/
  | building (id : SessionId)
  /-- `talk_start`, the pipeline plays and nobody has the floor. -/
  | opening (id : SessionId)
  /-- `talk_start`, the floor is given: the timer and the audit event follow. -/
  | announcing (id : SessionId)
  /-- `talk_start`, before its result. -/
  | answering (id : SessionId)
  /-- `stop_talking`, before its critical section. -/
  | closing (id : SessionId) (after : After)
  /-- `stop_talking`, after it. -/
  | cleaning (id : SessionId) (after : After)
  deriving DecidableEq, Repr

structure World where
  /-- Between `session_attached` and `session_detached`. -/
  attached : Std.ExtTreeSet SessionId := {}
  sessions : Std.ExtTreeMap SessionId Session := {}
  appsrc : Bool := false
  talker : Option SessionId := none
  samples : Nat := 0
  played : Nat := 0
  pipeline : Bool := false
  levelTimer : Option SessionId := none
  loop : Loop := .idle
  log : List Event := []

namespace World

variable (w : World) (id : SessionId)

def emit (e : Event) : World := { w with log := w.log ++ [e] }

/-! ## The streaming threads -/

/-- `Speaker::push`. -/
def push (pcm : List Int16) : World :=
  if !w.appsrc || w.talker ≠ some id || pcm = [] then w
  else
    { w with
      samples := w.samples + pcm.length
      played := w.played + pcm.length }.emit (.heard id pcm)

/-! ## Callbacks of the core loop -/

/-- `session_attached`. -/
def sessionAttached (c : Option SpeakerConfig) (w : World) (id : SessionId) (who : OperatorInfo)
    (talk : Bool) : World :=
  let w := { w with
    attached := w.attached.insert id
    sessions := w.sessions.insert id { ctx := some who, talk } }.emit (.attached id talk)
  if talk && c.isSome then w.emit (.uplink id) else w

/-- `operator_info` of the session that talks, for the `busy` answer. -/
def holder : OperatorInfo :=
  ((w.talker.bind fun id => w.sessions[id]?).bind Session.ctx).getD ⟨"", ""⟩

/-- The checks of `talk_start`, the last two in its first critical section. -/
def mayStart (c : Option SpeakerConfig) (w : World) (id : SessionId) (s : Session) : World :=
  if !s.talk then
    w.emit (.answered id (.error "capability-denied"
      "this session's grant does not allow talking (fjarr.audio talk)"))
  else if c.isNone then
    w.emit (.answered id (.error "unavailable" "this robot has no speaker configured"))
  else if w.appsrc && w.talker = some id then w.emit (.answered id .ok)
  else if w.appsrc then
    w.emit (.answered id (.error "busy" "someone else is talking through the robot's speaker"
      (some w.holder)))
  else { w with loop := .building id }

/-- `sessions[ctx.id()]`. -/
def touch : World :=
  { w with sessions := w.sessions.insert id ((w.sessions[id]?).getD {}) }

/-- `talk_start` up to the end of its first critical section. -/
def talkStart (c : Option SpeakerConfig) (w : World) (id : SessionId) : World :=
  (w.touch id).mayStart c id ((w.sessions[id]?).getD {})

/-- `build_output`, with what came of it. -/
def buildOutput (c : SpeakerConfig) (w : World) (id : SessionId) : Option BuildFailure → World
  | some failure =>
    { w with pipeline := false, loop := .idle }.emit
      (.answered id (.error "unavailable" (c.buildError failure)))
  | none => { w with appsrc := true, pipeline := true, loop := .opening id }

/-- What follows `stop_talking` in the callback it belongs to. -/
def finish : After → World
  | .talkStop => { w with loop := .idle }.emit (.replied id .ok)
  | .detach =>
    { w with
      attached := w.attached.erase id
      sessions := w.sessions.erase id
      loop := .idle }.emit (.detached id)
  | .shutdown => { w with sessions := {}, loop := .idle }

/-- The critical section of `stop_talking`. -/
def closeGate (after : After) : World :=
  let w := w.emit (.stopped id)
  if w.talker ≠ some id ∨ w.appsrc = false then w.finish id after
  else { w with appsrc := false, talker := none, loop := .cleaning id after }

/-- The rest of `stop_talking`. -/
def cleanUp (after : After) : World :=
  let w := { w with levelTimer := none, pipeline := false }
  let w :=
    if ((w.sessions[id]?).bind Session.ctx).isSome then w.emit (.audit id .talkStop)
    else w.emit (.unaudited id after)
  w.finish id after

/-- `shutdown` up to the end of its first critical section. -/
def shutdown (w : World) : World :=
  let w := { w with sessions := w.sessions.map fun _ (s : Session) => { s with ctx := none } }
  match w.talker with
  | none => { w with sessions := {} }
  | some id => { w with loop := .closing id .shutdown }

/-- The core loop runs the callback under way to the end of its next
section. -/
def proceed (c : Option SpeakerConfig) (w : World) (built : Option BuildFailure) : Option World :=
  match w.loop with
  | .idle => none
  | .building id => c.map fun c => w.buildOutput c id built
  | .opening id =>
    some ({ w with
      talker := some id
      samples := 0
      played := 0
      loop := .announcing id }.emit (.opened id))
  | .announcing id =>
    some ({ w with levelTimer := some id, loop := .answering id }.emit (.audit id .talkStart))
  | .answering id => some ({ w with loop := .idle }.emit (.answered id .ok))
  | .closing id after => some (w.closeGate id after)
  | .cleaning id after => some (w.cleanUp id after)

/-- The level timer's callback. -/
def level : World :=
  { w with samples := 0 }.emit (.talkLevel id (w.played / frameSamples))

end World

/-! ## The system -/

inductive Request where
  | talkStart
  | talkStop
  | other (type : String)
  deriving DecidableEq, Repr

inductive Act where
  | attach (id : SessionId) (who : OperatorInfo) (talk : Bool)
  | request (id : SessionId) (r : Request)
  | detach (id : SessionId)
  | shutdown
  | level
  | proceed (built : Option BuildFailure)
  | push (id : SessionId) (pcm : List Int16)
  deriving DecidableEq, Repr

/-- `on_message`. -/
def World.onMessage (c : Option SpeakerConfig) (w : World) (id : SessionId) : Request → World
  | .talkStart => w.talkStart c id
  | .talkStop => { w with loop := .closing id .talkStop }
  | .other type =>
    w.emit (.replied id (.error "payload-invalid" ("fjarr.audio has no request " ++ type)))

/-- A callback starts when the core loop is idle; pushes come at any time. -/
def step (c : Option SpeakerConfig) (w : World) : Act → Option World
  | .attach id who talk =>
    if w.loop = .idle ∧ id ∉ w.attached then some (w.sessionAttached c id who talk) else none
  | .request id r =>
    if w.loop = .idle ∧ id ∈ w.attached then some (w.onMessage c id r) else none
  | .detach id =>
    if w.loop = .idle ∧ id ∈ w.attached then some { w with loop := .closing id .detach } else none
  | .shutdown => if w.loop = .idle then some w.shutdown else none
  | .level =>
    if w.loop = .idle then w.levelTimer.map w.level else none
  | .proceed built => w.proceed c built
  | .push id pcm => some (w.push id pcm)

/-- Any interleaving of core-loop sections and pushes. -/
def system (c : Option SpeakerConfig) : System World Act where
  init := {}
  step := step c

end Fjarr.Audio
