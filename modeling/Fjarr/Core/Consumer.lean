/-
Fjarr.Core.Consumer — `ConsumerPipeline` (agent/src/media/consumer): one
session's branches on webrtcbin's m-lines, and its offers.

webrtcbin is a list of m-lines with their directions. A requested pad takes
the next free index, and the data channels take theirs when the first offer
is created. Its calls answer later: a negotiation is kept as the stage it
has reached (`Stage`), any of which may be in progress for any time, and
the loop's callbacks are the functions that take it to the next one. The
mid of m-line `i` is `mids i`.

A track that leaves gives up its branch and keeps its m-line, pooled under
a name of its own in the same table (`poolId`), until a track of its kind
takes it over.

GStreamer's answers (`Gst`) are inputs, and an error it ends in is
returned, for the session to close on. Labels, monitors, SSRCs, sequence
numbers, ICE candidates and statistics are left out. `since` records how
many offers the session had sent when the track was added.
-/
import Fjarr.Media.Plane
import Fjarr.Lib.Maps

namespace Fjarr.Core

open Media Lib

/-! ## Data -/

/-- An m-line of webrtcbin: a transceiver's, or the data channels'. -/
inductive Line where
  | sendonly
  | inactive
  | recvonly
  | data
  deriving DecidableEq, Repr

/-- An m-section of an offer. -/
structure MediaSection where
  mid : String
  /-- `a=sendonly` or `a=sendrecv`. -/
  sends : Bool
  deriving DecidableEq, Repr

abbrev Sdp := List MediaSection

structure ManifestEntry where
  trackId : String
  cap : String
  kind : TrackKind
  codec : String
  pt : Nat
  mid : String
  deriving DecidableEq, Repr

/-- An `offer` message. -/
structure Offer where
  sdp : Sdp
  tracks : List ManifestEntry
  manifestVersion : Nat
  deriving DecidableEq, Repr

structure ConsumerTrack where
  trackId : String
  cap : String
  kind : TrackKind
  pt : Nat
  mid : String := ""
  mline : Nat
  enabled : Bool := false
  negotiated : Bool := false
  rejected : Bool := false
  tier : String := "active"
  demandedTier : String := "active"
  pooled : Bool := false
  /-- Whether the valve drops, while there is a branch. -/
  valve : Option Bool := none
  /-- The hub subscriber, while there is a branch. -/
  sink : Option Sink := none
  since : Nat := 0
  deriving DecidableEq, Repr

/-- How far a negotiation is. -/
inductive Stage where
  /-- `create-offer` was called. -/
  | creating
  /-- It ran, and its reply is posted. -/
  | created (sdp : Option Sdp)
  /-- `set-local-description` was called. -/
  | describing (sdp : Sdp)
  /-- The peer has the offer. -/
  | offered (offer : Offer)
  /-- `set-remote-description` was called with an answer. -/
  | answered (offer : Offer) (accepted : List Bool)
  deriving DecidableEq, Repr

structure Consumer where
  tracks : Std.ExtTreeMap String ConsumerTrack := ∅
  lines : List Line := []
  nextPt : Nat := 96
  offerInFlight : Bool := false
  /-- The m-lines the offer in flight sends on. -/
  offeredSendonly : List Nat := []
  negotiations : List Stage := []

/-- What GStreamer answers when a branch is added. -/
inductive Gst where
  | ok
  | refusesPad
  | cannotLinkBranch
  | cannotLinkPayloader
  deriving DecidableEq, Repr

/-! ## Branches -/

namespace ConsumerTrack

variable (t : ConsumerTrack)

/-- `apply_valve`. -/
def applyValve : ConsumerTrack :=
  { t with valve := t.valve.map fun _ => !(t.enabled && t.negotiated) }

/-- `set_enabled`, which leaves a track without a branch alone. -/
def setEnabled (enabled : Bool) : ConsumerTrack :=
  if t.valve.isNone then t else applyValve { t with enabled }

/-- `build_branch`. -/
def buildBranch (gst : Gst) (sink : Sink) : Except String ConsumerTrack :=
  match gst with
  | .cannotLinkBranch => .error ("cannot link track branch " ++ t.trackId)
  | .cannotLinkPayloader => .error "cannot link payloader to webrtcbin"
  | .ok | .refusesPad => .ok { t with valve := some true, sink := some sink }

/-- `teardown_branch`. -/
def teardownBranch : ConsumerTrack := { t with valve := none, sink := none }

/-- The name a pooled m-line has in the table. -/
def poolId (mline : Nat) : String := "_pool:" ++ toString mline

def manifestEntry : ManifestEntry where
  trackId := t.trackId
  cap := t.cap
  kind := t.kind
  codec := if t.kind = .video then "H264" else "OPUS"
  pt := t.pt
  mid := t.mid

end ConsumerTrack

namespace Consumer

variable (c : Consumer) (j : Nat)

def setTrack (id : String) (t : ConsumerTrack) : Consumer :=
  { c with tracks := c.tracks.insert id t }

/-- `add_track`: the track, or the error it ends in. A pooled m-line of the
kind is taken over, the first in the table's order. -/
def addTrack (spec : TrackSpec) (cap : String) (gst : Gst) (sink : Sink)
    (since : Nat) : Consumer × Except String ConsumerTrack :=
  match c.tracks[spec.trackId]? with
  | some t => (c, .ok t)
  | none =>
    match c.tracks.toList.find? fun e => e.2.pooled && e.2.kind = spec.kind with
    | some (id, t) =>
      let c := { c with tracks := c.tracks.erase id, lines := c.lines.set t.mline .sendonly }
      let t := { t with
        trackId := spec.trackId, cap, pooled := false, enabled := false, negotiated := false
        rejected := false, since }
      match t.buildBranch gst sink with
      | .error e => (c, .error e)
      | .ok t => (c.setTrack spec.trackId t, .ok t)
    | none =>
      let pt := c.nextPt
      let c := { c with nextPt := c.nextPt + 1 }
      if gst = .refusesPad then (c, .error "webrtcbin refused a sink pad")
      else
        let t : ConsumerTrack :=
          { trackId := spec.trackId, cap, kind := spec.kind, pt, mline := c.lines.length, since }
        let c := { c with lines := c.lines ++ [.sendonly] }
        match t.buildBranch gst sink with
        | .error e => (c, .error e)
        | .ok t => (c.setTrack spec.trackId t, .ok t)

/-- `remove_track`. -/
def removeTrack (id : String) : Consumer :=
  match c.tracks[id]? with
  | none => c
  | some t =>
    let poolId := ConsumerTrack.poolId t.mline
    let pooled := { t.teardownBranch with trackId := poolId, enabled := false, pooled := true }
    { c with
      tracks := (c.tracks.erase id).insert poolId pooled
      lines := c.lines.set t.mline .inactive }

/-- `set_enabled`. -/
def setEnabled (c : Consumer) (id : String) (enabled : Bool) : Consumer :=
  match c.tracks[id]? with
  | none => c
  | some t => c.setTrack id (t.setEnabled enabled)

/-- `sink_for`. -/
def sinkFor (id : String) : Option Sink := (c.tracks[id]?).bind (·.sink)

/-- The tracks in the manifest, by m-line. -/
def live : List ConsumerTrack :=
  ((c.tracks.toList.map (·.2)).filter (!·.pooled)).insertionSort (·.mline ≤ ·.mline)

def manifest : List ManifestEntry := c.live.map (·.manifestEntry)

/-! ## Offers -/

/-- `create_offer`. -/
def createOffer : Consumer :=
  if c.offerInFlight then c
  else { c with offerInFlight := true, negotiations := c.negotiations ++ [.creating] }

/-- webrtcbin's offer: one m-section per m-line. -/
def describe (lines : List Line) (mids : Nat → String) : Sdp :=
  lines.mapIdx fun i line => { mid := mids i, sends := line = .sendonly }

/-- webrtcbin runs `create-offer`. -/
def offerRuns (mids : Nat → String) (ok : Bool) : Consumer :=
  let lines := if .data ∈ c.lines then c.lines else c.lines ++ [.data]
  let sdp := if ok then some (describe lines mids) else none
  { c with lines, negotiations := c.negotiations.set j (.created sdp) }

/-- The m-lines an offer sends on. -/
def sendLines (sdp : Sdp) : List Nat :=
  (List.range sdp.length).filter fun i => (sdp[i]?).any (·.sends)

/-- The mid an offer gives an m-line. -/
def midOf (sdp : Sdp) (t : ConsumerTrack) : ConsumerTrack :=
  { t with mid := ((sdp[t.mline]?).map (·.mid)).getD t.mid }

/-- `create-offer`'s reply. -/
def offerCreated (sdp : Sdp) : Consumer :=
  { c with
    offeredSendonly := sendLines sdp
    tracks := c.tracks.map fun _ => midOf sdp
    negotiations := c.negotiations.set j (.describing sdp) }

/-- A failed `create-offer`'s reply. -/
def offerFailed : Consumer :=
  { c with offerInFlight := false, negotiations := c.negotiations.eraseIdx j }

/-- What an answer settles for the track on an m-line its offer sends on. -/
def settle (offeredSendonly : List Nat) (accepted : List Bool) (t : ConsumerTrack) :
    ConsumerTrack :=
  if t.pooled || t.mline ∉ offeredSendonly then t
  else
    let ok := (accepted[t.mline]?).getD false
    ConsumerTrack.applyValve { t with negotiated := ok, rejected := !ok }

/-- `set-remote-description`'s reply, as far as the offer in flight goes. -/
def answerApplied : Consumer :=
  { c with offerInFlight := false, negotiations := c.negotiations.eraseIdx j }

/-- The rest of it: the m-lines are settled, and the mids read again. -/
def settleAll (sdp : Sdp) (accepted : List Bool) : Consumer :=
  { c with
    tracks := c.tracks.map fun _ t => midOf sdp (settle c.offeredSendonly accepted t)
    offeredSendonly := [] }

end Consumer

end Fjarr.Core
