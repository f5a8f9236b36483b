/-
Fjarr.Core.Tracks — a session's tracks (agent/src/core/session): what its
capabilities offer, what its client demands, and the system of all sessions
over one media plane.

A session's functions read and change the plane too, and new branches take
fresh sinks, so they work on a `Ctx`. `select-tracks` arrives as JSON and is
read in the source's two loops, validation and application; a throw in
either is answered by the router's outer catch. `close` is called by the
functions themselves when a branch cannot be added.

`agent` interleaves any number of sessions: attach, update_tracks,
select-tracks, rate ticks, the test hook's silence, webrtcbin's replies, the
peers' answers, closes and their 150 ms later ends, and the sources' comings
and goings. The rate estimator is left out (its shares and verdict inputs
come with the tick), and so are messages other than select-tracks, keyframe
requests, snapshots, logs and counters. `applied` records the answers
applied, the last one first.
-/
import Fjarr.Lib.Json
import Fjarr.Lib.Transition
import Fjarr.Core.Consumer

namespace Fjarr.Core

open Lib Media

/-! ## Tier policy -/

/-- What a tick's estimate rests on. -/
inductive Evidence where
  | none
  | untested
  | tested
  deriving DecidableEq, Repr

/-- `TierPolicy`: the client's demand, and the agent's override below it. -/
structure TierPolicy where
  demanded : String := "active"
  effective : String := "active"
  overridden : Bool := false
  belowSince : Option Nat := Option.none
  aboveSince : Option Nat := Option.none
  deriving DecidableEq, Repr

namespace TierPolicy

def demoteAfterMs : Nat := 2000

def promoteAfterMs : Nat := 5000

/-- `set_demanded`. -/
def setDemanded (p : TierPolicy) (tier : String) : TierPolicy :=
  let p := { p with demanded := tier }
  let p := if tier ≠ "active" then
      { p with overridden := false, belowSince := Option.none, aboveSince := Option.none }
    else p
  { p with effective := if p.overridden then "thumbnail" else tier }

/-- `update`: whether the effective tier changed. The promotion line is 1.2
times the active band's floor. -/
def update (p : TierPolicy) (allotment activeLow : Nat) (lowerPossible : Bool)
    (evidence : Evidence) (now : Nat) : TierPolicy × Bool :=
  if p.demanded ≠ "active" then (p, false)
  else if evidence = .none then (p, false)
  else if !p.overridden then
    if !lowerPossible || evidence ≠ .tested || activeLow ≤ allotment then
      ({ p with belowSince := Option.none }, false)
    else
      let since := p.belowSince.getD now
      if now - since < demoteAfterMs then ({ p with belowSince := some since }, false)
      else
        ({ p with belowSince := Option.none, overridden := true, effective := "thumbnail" }, true)
  else if 5 * allotment < 6 * activeLow then ({ p with aboveSince := Option.none }, false)
  else
    let since := p.aboveSince.getD now
    if now - since < promoteAfterMs then ({ p with aboveSince := some since }, false)
    else ({ p with aboveSince := Option.none, overridden := false, effective := "active" }, true)

end TierPolicy

/-! ## Sessions -/

inductive State where
  | requested
  | building
  | offered
  | connected
  | closing
  | closed
  deriving DecidableEq, Repr

structure Session where
  state : State := .requested
  /-- The attached capabilities. -/
  caps : List String := []
  /-- Each track's capability and what it declared. -/
  tracks : Std.ExtTreeMap String (String × TrackSpec) := ∅
  consumer : Option Consumer := none
  subscribedTier : Std.ExtTreeMap String String := ∅
  tierPolicy : String → TierPolicy := fun _ => {}
  silentMedia : Bool := false
  renegotiationPending : Bool := false
  manifestVersion : Nat := 0
  /-- The offers sent, in order. -/
  sent : List Offer := []
  applied : List (Offer × List Bool) := []

namespace Session

/-- `closing()`. -/
def closing (s : Session) : Bool := s.state = .closing || s.state = .closed

/-- `request_offer`. -/
def requestOffer (s : Session) : Session :=
  match s.consumer with
  | none => s
  | some c =>
    if s.closing then s
    else if c.offerInFlight then { s with renegotiationPending := true }
    else { s with consumer := some c.createOffer }

/-- The milestone `remote-description-set`. -/
def remoteDescriptionSet (s : Session) : Session :=
  if s.renegotiationPending && s.consumer.any (!·.offerInFlight) && !s.closing then
    requestOffer { s with renegotiationPending := false }
  else s

/-- `send_offer`, and the offer the peer gets. -/
def sendOffer (s : Session) (c : Consumer) (sdp : Sdp) : Session × Offer :=
  let offer : Offer := { sdp, tracks := c.manifest, manifestVersion := s.manifestVersion + 1 }
  ({ s with
      manifestVersion := s.manifestVersion + 1
      sent := s.sent ++ [offer]
      state := if s.state = .building then .offered else s.state },
    offer)

end Session

/-- A session, and what it shares with the others. -/
structure Ctx where
  session : Session
  plane : MediaPlane
  /-- The next sink `build_branch` makes. -/
  nextSink : Sink := 0

namespace Ctx

variable (x : Ctx) (cap : String)

/-- A hub or plane call with a track's sink. A pooled m-line has none. -/
def withSink (p : MediaPlane) (sink : Option Sink) (f : MediaPlane → Sink → MediaPlane) :
    MediaPlane :=
  match sink with
  | none => p
  | some sink => f p sink

/-- `apply_demand`. -/
def applyDemand (id : String) (enabled : Bool) (demanded : String) : Ctx :=
  match x.session.consumer with
  | none => x
  | some c =>
    match c.tracks[id]? with
    | none => x
    | some ct =>
      let policy := (x.session.tierPolicy id).setDemanded demanded
      let tier := policy.effective
      let s := { x.session with tierPolicy := Function.update x.session.tierPolicy id policy }
      let ct := { ct with demandedTier := demanded }
      if !enabled then
        let c := c.setTrack id (ct.setEnabled false)
        let plane :=
          match s.subscribedTier[id]? with
          | none => x.plane
          | some sub => withSink x.plane ct.sink (·.unsubscribe ⟨id, sub⟩ ·)
        { x with
          session := { s with consumer := some c, subscribedTier := s.subscribedTier.erase id }
          plane := withSink plane ct.sink (·.forgetAllotment ·) }
      else
        -- the tier it leaves
        let left := (s.subscribedTier[id]?).filter (· ≠ tier)
        let plane :=
          match left with
          | none => x.plane
          | some sub => withSink (withSink x.plane ct.sink (·.unsubscribe ⟨id, sub⟩ ·)) ct.sink
              (·.forgetAllotment ·)
        let ct := { ct with tier }
        let ct := if s.silentMedia then ct else ct.setEnabled true
        let plane :=
          if s.subscribedTier[id]? = some tier then plane
          else withSink plane ct.sink (·.subscribe ⟨id, tier⟩ ·)
        { x with
          session := { s with
            consumer := some (c.setTrack id ct)
            subscribedTier := s.subscribedTier.insert id tier }
          plane }

/-- `unsubscribe_all`. -/
def unsubscribeAll : Ctx :=
  let plane :=
    match x.session.consumer with
    | none => x.plane
    | some c => x.session.subscribedTier.toList.foldl (fun p e =>
        withSink (withSink p (c.sinkFor e.1) (·.unsubscribe ⟨e.1, e.2⟩ ·)) (c.sinkFor e.1)
          (·.forgetAllotment ·)) x.plane
  { x with session := { x.session with subscribedTier := ∅ }, plane }

/-- `close`, up to the timer that ends it. -/
def close : Ctx :=
  if x.session.closing then x
  else
    let x := unsubscribeAll { x with session := { x.session with state := .closing } }
    let consumer := x.session.consumer.map fun c =>
      x.session.tracks.keys.foldl (fun c id => c.setEnabled id false) c
    { x with session := { x.session with consumer } }

/-- `finish_close`. -/
def finishClose : Ctx :=
  if x.session.state = .closed then x
  else
    let x := x.unsubscribeAll
    let plane := x.session.tracks.keys.foldl (fun p id => p.unregisterTrack id) x.plane
    { x with
      session := { x.session with consumer := none, tracks := ∅, state := .closed }
      plane }

/-! ## What capabilities offer -/

/-- A track a capability declares, and GStreamer's answer to its branch. -/
structure Wanted where
  spec : TrackSpec
  gst : Gst := .ok
  deriving DecidableEq, Repr

/-- A track is registered, and offered if it is available: `attach`'s loop,
and `update_tracks`'s. The second component says that it was added. -/
def offerTrack (t : Wanted) : Ctx × Bool :=
  match x.session.consumer with
  | none => (x, false)
  | some c =>
    let id := t.spec.trackId
    let reg : TrackRegistration := { spec := t.spec, cap, stamp := cap = "fjarr.test" }
    let x := { x with plane := x.plane.registerTrack reg }
    if !x.plane.trackAvailable id then
      ({ x with plane := x.plane.unregisterTrack id }, false)
    else
      let (c, added) := c.addTrack t.spec cap t.gst x.nextSink x.session.manifestVersion
      let s := { x.session with consumer := some c }
      match added with
      | .error _ => (close { x with session := s, nextSink := x.nextSink + 1 }, false)
      | .ok _ =>
        ({ x with
            session := { s with tracks := s.tracks.insert id (cap, t.spec) }
            nextSink := x.nextSink + 1 }, true)

/-- `attach`, after the capabilities declared their tracks: `uplinks` audio
uplinks get a transceiver. -/
def attach (built : Bool) (caps : List String) (pending : List (String × Wanted))
    (uplinks : Nat) : Ctx :=
  let x := { x with session := { x.session with state := .building, caps, consumer := some {} } }
  if !built then x.close
  else
    let x := pending.foldl (fun x t => (x.offerTrack t.1 t.2).1) x
    let consumer := x.session.consumer.map fun c =>
      { c with lines := c.lines ++ List.replicate uplinks .recvonly }
    { x with session := Session.requestOffer { x.session with consumer } }

/-- A track `update_tracks` takes away: the valve first, the transceiver
inactive, out of the manifest. -/
def dropTrack (id : String) : Ctx :=
  let x := x.applyDemand id false "active"
  { x with
    session := { x.session with
      consumer := x.session.consumer.map (·.removeTrack id)
      tracks := x.session.tracks.erase id }
    plane := x.plane.unregisterTrack id }

/-- The tracks of the capability that the new set lacks. -/
def removed (s : Session) (cap : String) (fullSet : List Wanted) : List String :=
  (s.tracks.toList.filter fun e =>
    e.2.1 = cap && e.1 ∉ fullSet.map (·.spec.trackId)).map (·.1)

/-- `update_tracks`'s loop over the new set. -/
def addTracks (x : Ctx) (cap : String) : List Wanted → Ctx × Bool
  | [] => (x, false)
  | t :: rest =>
    if x.session.tracks.contains t.spec.trackId then x.addTracks cap rest
    else
      let (x, added) := x.offerTrack cap t
      let (x, more) := x.addTracks cap rest
      (x, added || more)

/-- `update_tracks`. -/
def updateTracks (fullSet : List Wanted) : Ctx :=
  if x.session.consumer.isNone || x.session.closing then x
  else
    let gone := removed x.session cap fullSet
    let x := gone.foldl dropTrack x
    let (x, added) := x.addTracks cap fullSet
    if !gone.isEmpty || added then { x with session := x.session.requestOffer } else x

/-! ## What the client demands -/

inductive Reply where
  | ok
  | error (code message : String)
  deriving DecidableEq, Repr

def Reply.invalid (message : String) : Reply := .error "payload-invalid" message

/-- The first loop's check of one entry, an error or a throw. -/
def checkEntry (s : Session) (cap : String) (t : Json) : Except String (Option Reply) :=
  match t.field? "track_id" with
  | some (.str id) =>
    if id = "" || (s.tracks[id]?).map (·.1) ≠ some cap then
      .ok (some (.invalid ("unknown track " ++ id)))
    else if (t.field? "tier").any (!·.isString) then .ok (some (.invalid "tier must be a string"))
    else
      match t.field? "enabled" with
      | some (.bool enabled) =>
        if enabled && ((s.consumer.bind (·.tracks[id]?)).any (·.rejected)) then
          .ok (some (.invalid ("track " ++ id ++ " was rejected by this peer's answer")))
        else do
          let tier ← t.valueString "tier" "active"
          if tier ≠ "active" ∧ tier ≠ "thumbnail" then
            return some (.invalid "tier must be active|thumbnail")
          return none
      | _ => .ok (some (.invalid "enabled must be a boolean"))
  | _ => .ok (some (.invalid "tracks[] entries need a string track_id"))

/-- The first loop. -/
def checkEntries (s : Session) (cap : String) : List Json → Except String (Option Reply)
  | [] => .ok none
  | t :: rest => do
    match ← checkEntry s cap t with
    | some r => return some r
    | none => checkEntries s cap rest

/-- The second loop's work on one entry: the demand, then the preference,
whose type the first loop did not check. -/
def applyEntry (t : Json) : Ctx × Except String Unit :=
  match t.valueString "track_id" "", (t.field? "enabled").map Json.getBool,
      t.valueString "tier" "active" with
  | .ok id, some (.ok enabled), .ok tier =>
    let x := x.applyDemand id enabled tier
    match t.field? "preference", x.session.consumer.bind (·.sinkFor id) with
    | some p, some sink =>
      match p.getString with
      | .ok preference =>
        ({ x with plane := x.plane.reportPreference id sink (preference = "sharpness") }, .ok ())
      | .error e => (x, .error e)
    | _, _ => (x, .ok ())
  | .error e, _, _ | _, some (.error e), _ | _, _, .error e => (x, .error e)
  | _, none, _ => (x, .ok ())

/-- The second loop, up to a throw. -/
def applyEntries (x : Ctx) : List Json → Ctx × Except String Unit
  | [] => (x, .ok ())
  | t :: rest =>
    match x.applyEntry t with
    | (x, .ok ()) => x.applyEntries rest
    | (x, .error e) => (x, .error e)

/-- `handle_select_tracks`, with the outer catch's answer to a throw. -/
def handleSelectTracks (payload : Json) : Ctx × Reply :=
  match payload.value "tracks" (.arr []) with
  | .error e => (x, .invalid e)
  | .ok (.arr tracks) =>
    match checkEntries x.session cap tracks with
    | .error e => (x, .invalid e)
    | .ok (some r) => (x, r)
    | .ok none =>
      match x.applyEntries tracks with
      | (x, .ok ()) => (x, .ok)
      | (x, .error e) => (x, .invalid e)
  | .ok _ => (x, .invalid "tracks must be an array")

/-- A select-tracks request to a capability on a channel (`on_channel_text`,
`route`): dropped once closing, or with a payload that is no object. -/
def selectTracks (known : Bool) (payload : Json) : Ctx × Option Reply :=
  if x.session.closing then (x, none)
  else
    match payload with
    | .obj _ =>
      if cap = "fjarr.core" then (x, none)
      else if cap ∉ x.session.caps then
        (x, some (if known then
          .error "capability-denied" "capability not granted to this session"
          else .error "capability-unknown" "capability not attached to this session"))
      else
        let (x, r) := x.handleSelectTracks cap payload
        (x, some r)
    | _ => (x, none)

/-! ## Rate ticks and the test hook -/

/-- A tick's shares for a track: this viewer's allotment, what its tier is
judged by, and the active band's floor. -/
structure Share where
  allotment : Nat
  judged : Nat
  activeLow : Nat
  deriving DecidableEq, Repr

/-- `rate_tick` for one enabled track. -/
def tickTrack (share : String → Share) (evidence : Evidence) (id : String) : Ctx :=
  match x.session.consumer.bind (·.tracks[id]?) with
  | none => x
  | some ct =>
    let plane := withSink x.plane ct.sink
      (·.reportAllotment ⟨id, ct.tier⟩ · (share id).allotment)
    let (policy, changed) := (x.session.tierPolicy id).update (share id).judged
      (share id).activeLow (plane.tierPossible id "thumbnail") evidence plane.now
    let s := { x.session with tierPolicy := Function.update x.session.tierPolicy id policy }
    let x := { x with session := s, plane }
    if changed then x.applyDemand id true ct.demandedTier else x

/-- The tracks a tick shares the estimate among. -/
def tickable (s : Session) : List String :=
  s.tracks.keys.filter fun id =>
    (s.consumer.bind (·.tracks[id]?)).any (·.enabled) && s.subscribedTier.contains id

/-- `rate_tick`. -/
def rateTick (share : String → Share) (evidence : Evidence) : Ctx :=
  if x.session.state ≠ .connected then x
  else (tickable x.session).foldl (fun x id => x.tickTrack share evidence id) x

/-- `test_silence`. -/
def testSilence (media : Bool) : Ctx :=
  let s := { x.session with silentMedia := media }
  if !media then { x with session := s }
  else
    let consumer := s.consumer.map fun c =>
      s.tracks.keys.foldl (fun c id => c.setEnabled id false) c
    { x with session := { s with consumer } }

/-- The end of the silence. -/
def silenceEnds : Ctx :=
  let s := { x.session with silentMedia := false }
  match s.consumer with
  | none => { x with session := s }
  | some c =>
    if !x.session.silentMedia then { x with session := s }
    else
      let ids := s.subscribedTier.toList
      { x with
        session := { s with consumer := some (ids.foldl (fun c e => c.setEnabled e.1 true) c) }
        plane := ids.foldl (fun p e => withSink p (c.sinkFor e.1)
          fun p sink => { p with hub := p.hub.resync ⟨e.1, e.2⟩ sink }) x.plane }

/-! ## Replies -/

/-- `create-offer`'s reply. -/
def offerReply (c : Consumer) (j : Nat) : Option Sdp → Ctx
  | some sdp => { x with session := { x.session with consumer := some (c.offerCreated j sdp) } }
  | none => close { x with session := { x.session with consumer := some (c.offerFailed j) } }

/-- `set-local-description`'s reply: the offer is sent. -/
def localReply (c : Consumer) (j : Nat) (sdp : Sdp) : Ctx :=
  let (s, offer) := x.session.sendOffer c sdp
  { x with session := { s with
      consumer := some { c with negotiations := c.negotiations.set j (.offered offer) } } }

/-- An answer: what it accepts of each m-line, `none` when its SDP is
unparseable. -/
def answer (c : Consumer) (j : Nat) (offer : Offer) : Option (List Bool) → Ctx
  | some accepted =>
    { x with session := { x.session with
        consumer := some { c with
          negotiations := c.negotiations.set j (.answered offer accepted) } } }
  | none =>
    close { x with session := { x.session with
      consumer := some { c with negotiations := c.negotiations.eraseIdx j } } }

/-- `set-remote-description`'s reply. -/
def answerReply (c : Consumer) (j : Nat) (offer : Offer) (accepted : List Bool) : Ctx :=
  let s := Session.remoteDescriptionSet { x.session with consumer := some (c.answerApplied j) }
  { x with session := { s with
      consumer := s.consumer.map (·.settleAll offer.sdp accepted)
      applied := (offer, accepted) :: s.applied } }

end Ctx

/-! ## The system -/

structure World where
  sessions : List Session := []
  plane : MediaPlane
  nextSink : Sink := 0

inductive Act where
  | attach (built : Bool) (caps : List String) (pending : List (String × Ctx.Wanted))
      (uplinks : Nat)
  | updateTracks (k : Nat) (cap : String) (fullSet : List Ctx.Wanted)
  | selectTracks (k : Nat) (cap : String) (known : Bool) (payload : Json)
  | connected (k : Nat)
  | rateTick (k : Nat) (share : String → Ctx.Share) (evidence : Evidence)
  | testSilence (k : Nat) (media : Bool)
  | silenceEnds (k : Nat)
  | close (k : Nat)
  | finishClose (k : Nat)
  /-- webrtcbin runs the session's `j`-th outstanding `create-offer`. -/
  | offerRuns (k j : Nat) (ok : Bool)
  /-- The loop runs the reply of the session's `j`-th negotiation. -/
  | reply (k j : Nat)
  /-- The peer answers the offer of the session's `j`-th negotiation. -/
  | answer (k j : Nat) (accepted : Option (List Bool))
  | setSource (source : Nat) (a : Availability)
  | tick (ms : Nat)

/-- The session an action is about. -/
def Act.session : Act → Option Nat
  | .attach .. | .setSource .. | .tick .. => none
  | .updateTracks k .. | .selectTracks k .. | .connected k | .rateTick k .. | .testSilence k _
  | .silenceEnds k | .close k | .finishClose k | .offerRuns k .. | .reply k _ | .answer k .. =>
    some k

/-- What an action does to the session it is about. -/
def Ctx.act (mids : Nat → String) (x : Ctx) : Act → Option Ctx
  | .updateTracks _ cap fullSet => some (x.updateTracks cap fullSet)
  | .selectTracks _ cap known payload => some (x.selectTracks cap known payload).1
  | .connected _ =>
    if x.session.state = .building ∨ x.session.state = .offered then
      some { x with session := { x.session with state := .connected } }
    else none
  | .rateTick _ share evidence => some (x.rateTick share evidence)
  | .testSilence _ media => if x.session.closing then none else some (x.testSilence media)
  | .silenceEnds _ => if x.session.closing then none else some x.silenceEnds
  | .close _ => some x.close
  | .finishClose _ => if x.session.state = .closing then some x.finishClose else none
  | .offerRuns _ j ok =>
    match x.session.consumer with
    | none => none
    | some c =>
      match c.negotiations[j]? with
      | some .creating =>
        some { x with session := { x.session with consumer := some (c.offerRuns j mids ok) } }
      | _ => none
  | .reply _ j =>
    match x.session.consumer with
    | none => none
    | some c =>
      match c.negotiations[j]? with
      | some (.created sdp) => some (x.offerReply c j sdp)
      | some (.describing sdp) => some (x.localReply c j sdp)
      | some (.answered offer accepted) => some (x.answerReply c j offer accepted)
      | _ => none
  | .answer _ j accepted =>
    match x.session.consumer with
    | none => none
    | some c =>
      match c.negotiations[j]? with
      | some (.offered offer) => some (x.answer c j offer accepted)
      | _ => none
  | .attach .. | .setSource .. | .tick .. => none

def step (mids : Nat → String) (w : World) (a : Act) : Option World :=
  match a with
  | .attach built caps pending uplinks =>
    let x := Ctx.attach { session := {}, plane := w.plane, nextSink := w.nextSink }
      built caps pending uplinks
    some { sessions := w.sessions ++ [x.session], plane := x.plane, nextSink := x.nextSink }
  | .setSource source availability =>
    some { w with
      plane := { w.plane with sources := Function.update w.plane.sources source availability } }
  | .tick ms => some { w with plane := { w.plane with now := w.plane.now + ms } }
  | a =>
    match a.session with
    | none => none
    | some k =>
      match w.sessions[k]? with
      | none => none
      | some s =>
        (Ctx.act mids { session := s, plane := w.plane, nextSink := w.nextSink } a).map fun x =>
          { sessions := w.sessions.set k x.session, plane := x.plane, nextSink := x.nextSink }

/-- The sessions of an agent, with webrtcbin's mids, the plane's grace
period and the hub's ring size. -/
def agent (mids : Nat → String) (graceMs ringSize : Nat) : System World Act where
  init := { plane := { graceMs, hub := { ringSize } } }
  step := step mids

end Fjarr.Core
