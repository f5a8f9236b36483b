/-
Fjarr.Media.Plane — `MediaPlane` (agent/src/media/media_plane): the tracks
the sessions registered, a producer for each that is watched, and the
ladder from a failed producer to a rebuild of the plane.

Demand is edge-triggered. The hub tells of a (track, tier)'s first
subscriber and of its last one gone, each in a callback posted to the
loop; `on_demand` then builds the producer and starts the tier, or arms
the tier's grace timer. A producer's bus error is posted too and ends in
`restart_producer`, which tears the producer down and schedules the next
try, or asks for a rebuild.

A function that ends in a call of `restart_producer` returns the failure
instead (`Failure`), with where the failure came from: that is what the
caller knows, and what `restart_producer` goes by instead is the producer
the track has by then. GStreamer's answers (`Build`, `Start`) are inputs.
The clock, the loop's queue and the state of the sources are fields of the
plane here. Bitrates, frame rates, keyframe requests and logs are left out.
-/
import Fjarr.Media.FrameHub

namespace Fjarr.Media

/-! ## Data -/

inductive TrackKind where
  | video
  | audio
  deriving DecidableEq, Repr

/-- A source by identity, and what it says of its outputs: the demanded one
is an elementary stream, and there is a substream. -/
structure VideoSource where
  id : Nat
  elementary : Bool := false
  substream : Bool := false
  deriving DecidableEq, Repr

structure TrackSpec where
  trackId : String
  kind : TrackKind := .video
  source : Option VideoSource
  deriving DecidableEq, Repr

structure TrackRegistration where
  spec : TrackSpec
  cap : String
  stamp : Bool := false
  deriving DecidableEq, Repr

/-- `VideoSource::available` and `unavailable_reason`. -/
structure Availability where
  available : Bool := true
  reason : String := ""
  deriving DecidableEq, Repr

structure Producer where
  kind : TrackKind
  source : VideoSource
  /-- The tiers with a branch. -/
  tiers : List String := []
  playing : Bool := false
  error : String := ""
  /-- The last bus error came from inside the source bin. -/
  errorInSource : Bool := false
  deriving DecidableEq, Repr

structure Registered where
  /-- The sessions that hold this registration. -/
  refs : Nat := 1
  reg : TrackRegistration
  producer : Option Producer := none
  restarts : Nat := 0
  lastError : Nat := 0
  sourceError : String := ""
  /-- When it is due. -/
  restartTimer : Option Nat := none
  graceTimers : String → Option Nat := fun _ => none

structure Allotment where
  bps : Nat
  time : Nat
  deriving DecidableEq, Repr

/-- Where a failure came from: the source, or anywhere else. -/
inductive Origin where
  | source
  | outside
  deriving DecidableEq, Repr

/-- A call of `restart_producer`. -/
structure Failure where
  track : String
  error : String
  origin : Origin
  deriving DecidableEq, Repr

inductive Post where
  | demand (key : HubKey) (subscribers : Nat)
  | failed (f : Failure)
  deriving DecidableEq, Repr

structure MediaPlane where
  graceMs : Nat
  tracks : String → Option Registered := fun _ => none
  hub : FrameHub
  sources : Nat → Availability := fun _ => {}
  allotments : HubKey → Sink → Option Allotment := fun _ _ => none
  sharp : String → Sink → Bool := fun _ _ => false
  rebuilds : List Nat := []
  now : Nat := 0
  posts : List Post := []

/-- What `Producer::build` comes to. -/
inductive Build where
  | ok
  | failed (error : String)
  deriving DecidableEq, Repr

/-- What adding a branch comes to: running, not linked, or linked in a
pipeline that then refuses PLAYING. -/
inductive Start where
  | ok
  | failed (error : String)
  | refused
  deriving DecidableEq, Repr

def minuteMs : Nat := 60000

/-! ## Producers -/

namespace Producer

/-- `Producer::tier_possible`. -/
def tierPossible (p : Producer) (tier : String) : Bool :=
  if p.kind = .audio then tier = "active"
  else if !p.source.elementary then tier = "active" || tier = "thumbnail"
  else if tier = "active" then true
  else p.source.substream

/-- `Producer::start_tier`. PLAYING is asked for by the first tier only. -/
def startTier (p : Producer) (tier : String) (s : Start) : Producer × Bool :=
  if tier ∈ p.tiers then (p, true)
  else if !p.tierPossible tier then (p, true)
  else
    match s with
    | .failed error => ({ p with error }, false)
    | .ok => ({ p with tiers := p.tiers ++ [tier], playing := true }, true)
    | .refused =>
      if p.playing then ({ p with tiers := p.tiers ++ [tier] }, true)
      else ({ p with tiers := p.tiers ++ [tier], error := "pipeline refused PLAYING" }, false)

/-- `Producer::stop_tier`. -/
def stopTier (p : Producer) (tier : String) : Producer :=
  let tiers := p.tiers.filter (· ≠ tier)
  { p with tiers, playing := if tiers = [] then false else p.playing }

end Producer

/-- The track's producer has a branch for the tier. -/
def Registered.runs (r : Registered) (tier : String) : Bool := r.producer.any (tier ∈ ·.tiers)

/-! ## Tracks -/

namespace MediaPlane

variable (p : MediaPlane) (id : String)

def setTrack (r : Option Registered) : MediaPlane :=
  { p with tracks := Function.update p.tracks id r }

/-- `register_track`. -/
def registerTrack (reg : TrackRegistration) : MediaPlane :=
  match p.tracks reg.spec.trackId with
  | some r => p.setTrack reg.spec.trackId (some { r with reg, refs := r.refs + 1 })
  | none => p.setTrack reg.spec.trackId (some { reg })

/-- The producer of a track goes, and with it what the hub holds of its
tiers (`Producer::stop`). -/
def clearTiers (r : Registered) : MediaPlane :=
  { p with hub := p.hub.clearAll fun key => key.trackId = id && r.runs key.tier }

/-- `unregister_track`. -/
def unregisterTrack : MediaPlane :=
  match p.tracks id with
  | none => p
  | some r =>
    if r.refs ≤ 1 then (p.clearTiers id r).setTrack id none
    else p.setTrack id (some { r with refs := r.refs - 1 })

/-- The reason `track_available` gives, `none` for an available track. -/
def unavailableReason : Option String :=
  match p.tracks id with
  | none => some "unknown track"
  | some r =>
    match r.reg.spec.source with
    | none => some "no source"
    | some s =>
      let a := p.sources s.id
      if a.available then none
      else some (if a.reason = "" then "source unavailable" else a.reason)

/-- `track_available`. -/
def trackAvailable : Bool := (p.unavailableReason id).isNone

/-- `tier_possible`, of the producer's source or of the registered one. -/
def tierPossible (p : MediaPlane) (id tier : String) : Bool :=
  match p.tracks id with
  | none => false
  | some r =>
    if tier ≠ "active" ∧ tier ≠ "thumbnail" then false
    else if r.reg.spec.kind = .audio then tier = "active"
    else
      match r.producer with
      | some producer => producer.tierPossible tier
      | none =>
        let elementary := r.reg.spec.source.any (·.elementary)
        let substream := r.reg.spec.source.any (·.substream)
        !elementary || tier = "active" || substream

end MediaPlane

/-- `ensure_producer`: the track's producer, if need be a new one, or `none`
when it cannot be built. -/
def Registered.ensureProducer (r : Registered) (b : Build) : Option Producer :=
  match r.producer with
  | some producer => some producer
  | none =>
    match b with
    | .failed _ => none
    | .ok => r.reg.spec.source.map fun source => { kind := r.reg.spec.kind, source }

/-- One more failure of the track, or the first in a minute. -/
def Registered.countFailure (r : Registered) (now : Nat) : Registered :=
  { r with
    restarts := (if now - r.lastError > minuteMs then 0 else r.restarts) + 1
    lastError := now }

def Registered.setGrace (r : Registered) (tier : String) (due : Option Nat) : Registered :=
  { r with graceTimers := Function.update r.graceTimers tier due }

/-! ## Demand -/

namespace MediaPlane

variable (p : MediaPlane) (id : String)

def post (m : Post) : MediaPlane := { p with posts := p.posts ++ [m] }

/-- `FrameHub::subscribe` with the plane's demand hook. -/
def subscribe (p : MediaPlane) (key : HubKey) (sink : Sink) : MediaPlane :=
  let p := { p with hub := p.hub.subscribe key sink }
  if p.hub.subscriberCount key = 1 then p.post (.demand key 1) else p

/-- `FrameHub::unsubscribe` with the plane's demand hook. -/
def unsubscribe (p : MediaPlane) (key : HubKey) (sink : Sink) : MediaPlane :=
  match p.hub.entries key with
  | none => p
  | some _ =>
    let p := { p with hub := p.hub.unsubscribe key sink }
    if p.hub.subscriberCount key = 0 then p.post (.demand key 0) else p

/-- `on_demand`. -/
def onDemand (key : HubKey) (subscribers : Nat) (b : Build) (s : Start) :
    MediaPlane × Option Failure :=
  match p.tracks key.trackId with
  | none => (p, none)
  | some r =>
    if subscribers > 0 then
      let r := r.setGrace key.tier none
      match r.ensureProducer b with
      | none => (p.setTrack key.trackId (some r), none)
      | some producer =>
        let (producer, started) := producer.startTier key.tier s
        (p.setTrack key.trackId (some { r with producer := some producer }),
          if started then none else some ⟨key.trackId, producer.error, .outside⟩)
    else
      (p.setTrack key.trackId (some (r.setGrace key.tier (some (p.now + p.graceMs)))), none)

/-- The grace timer of a tier. -/
def graceFires (id tier : String) : MediaPlane :=
  match p.tracks id with
  | none => p
  | some r =>
    let r := r.setGrace tier none
    match r.producer with
    | none => p.setTrack id (some r)
    | some producer =>
      if p.hub.subscriberCount ⟨id, tier⟩ > 0 then p.setTrack id (some r)
      else
        { p.setTrack id (some { r with producer := some (producer.stopTier tier) }) with
          hub := if tier ∈ producer.tiers then p.hub.clear ⟨id, tier⟩ else p.hub }

/-! ## Recovery -/

/-- The delay of the next try. -/
def retryDelay (sourceFailure : Bool) (restarts : Nat) : Nat :=
  if sourceFailure then min 30000 (1000 <<< min (restarts - 1) 5)
  else min 5000 (500 <<< (restarts - 1))

/-- The failure is taken for the source's. -/
def sourceFailure (r : Registered) : Bool :=
  r.producer.any (·.errorInSource) || !p.trackAvailable id

/-- The track's `source_error` after a failure. -/
def sourceErrorAfter (id error : String) (r : Registered) : String :=
  match p.unavailableReason id with
  | some reason => if reason = "" then error else reason
  | none => if p.sourceFailure id r then error else r.sourceError

/-- `restart_producer`, and the reason of a rebuild it asks for. -/
def restartProducer (id error : String) : MediaPlane × Option String :=
  match p.tracks id with
  | none => (p, none)
  | some r =>
    let sourceFailure := p.sourceFailure id r
    let r := { r.countFailure p.now with sourceError := p.sourceErrorAfter id error r }
    if !sourceFailure ∧ r.restarts > 5 then
      (p.setTrack id (some r), some ("producer:" ++ id ++ ": " ++ error))
    else
      let timer := p.now + retryDelay sourceFailure r.restarts
      ((p.clearTiers id r).setTrack id
        (some { r with producer := none, restartTimer := some timer }), none)

/-- Every demanded tier is started, and what comes of it is not looked at. -/
def startDemanded (producer : Producer)
    (starts : List (String × Start)) : Producer :=
  starts.foldl (fun producer s =>
    if p.hub.subscriberCount ⟨id, s.1⟩ > 0 then (producer.startTier s.1 s.2).1 else producer)
    producer

/-- The restart timer of a track. -/
def restartFires (b : Build) (active thumbnail : Start) :
    MediaPlane × Option Failure :=
  match p.tracks id with
  | none => (p, none)
  | some r =>
    let r := { r with restartTimer := none }
    let p := p.setTrack id (some r)
    if p.hub.subscriberCount ⟨id, "active"⟩ = 0 ∧ p.hub.subscriberCount ⟨id, "thumbnail"⟩ = 0 then
      (p, none)
    else
      match p.unavailableReason id with
      | some reason =>
        (p.setTrack id (some { r with sourceError := reason }), some ⟨id, reason, .source⟩)
      | none =>
        match r.ensureProducer b with
        | none => (p, some ⟨id, "build failed", .outside⟩)
        | some producer =>
          let producer :=
            p.startDemanded id producer [("active", active), ("thumbnail", thumbnail)]
          (p.setTrack id (some { r with producer := some producer, sourceError := "" }), none)

/-- `rebuild`. -/
def rebuild : MediaPlane :=
  { p with
    rebuilds := (p.rebuilds ++ [p.now]).filter fun t => p.now - t ≤ 10 * minuteMs
    hub := p.hub.clearAll fun key => (p.tracks key.trackId).any (·.runs key.tier)
    tracks := fun id => (p.tracks id).map fun r => { r with
      producer := none, restarts := 0, graceTimers := fun _ => none, restartTimer := none } }

/-- A bus error of a track's producer. -/
def busError (id error : String) (origin : Origin) : Option MediaPlane :=
  match p.tracks id with
  | none => none
  | some r => r.producer.map fun producer =>
    let producer := { producer with error, errorInSource := decide (origin = .source) }
    (p.setTrack id (some { r with producer := some producer })).post (.failed ⟨id, error, origin⟩)

/-! ## Viewers -/

/-- `report_allotment`: a viewer is in one tier of a track at a time. -/
def reportAllotment (key : HubKey) (sink : Sink) (bps : Nat) : MediaPlane :=
  { p with allotments := fun k s =>
      if s = sink ∧ k.trackId = key.trackId then
        if k.tier = key.tier then some ⟨bps, p.now⟩ else none
      else p.allotments k s }

/-- `forget_allotment`. -/
def forgetAllotment (sink : Sink) : MediaPlane :=
  { p with
    allotments := fun k s => if s = sink then none else p.allotments k s
    sharp := fun id s => if s = sink then false else p.sharp id s }

/-- `report_preference`. -/
def reportPreference (sink : Sink) (sharpness : Bool) : MediaPlane :=
  { p with sharp := fun i s => if i = id ∧ s = sink then sharpness else p.sharp i s }

end MediaPlane

end Fjarr.Media
