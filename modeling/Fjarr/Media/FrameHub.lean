/-
Fjarr.Media.FrameHub — the frame hub of the media plane
(agent/src/media/frame_hub): one entry per (track, tier) with the ring of
the current group of pictures and the subscribers, and one delivery queue
all entries share.

`push` and `subscribe` are two critical sections each, under `mutex_` and
then under `queue_mutex_`; both halves are functions of their own here, so
that a caller can interleave them or run them together. `work` is one
iteration of `thread_main`: pop the front, skip the backlog to a keyframe
when it is longer than one ring, deliver what was popped.

A sink is known by its identity, and `expired` holds those whose last
owner is gone (the hub keeps weak pointers). Sequence numbers are natural
numbers. The keyframe request and the demand callback leave the hub's own
state alone and are left out.
-/
import Fjarr.Lib.Stream

namespace Fjarr.Media

open Fjarr.Lib (Frame)

/-! ## Data -/

/-- A track in one of its tiers. -/
structure HubKey where
  trackId : String
  tier : String
  deriving DecidableEq, Repr

/-- A `FrameSink` by identity. -/
abbrev Sink := Nat

/-- An encoded sample: its delta-unit flag and timestamps, `none` for
`GST_CLOCK_TIME_NONE`. -/
structure Sample where
  deltaUnit : Bool
  pts : Option Nat
  dts : Option Nat
  deriving DecidableEq, Repr

/-- `FrameHub::is_keyframe`. -/
def isKeyframe (sample : Sample) : Bool := !sample.deltaUnit

structure SubscriberStats where
  delivered : Nat := 0
  dropped : Nat := 0
  waitingKeyframe : Bool := true
  deriving DecidableEq, Repr

/-- A subscriber of one entry. -/
structure Sub where
  sink : Sink
  stats : SubscriberStats := {}
  basePts : Option Nat := none
  baseDts : Option Nat := none
  lastSeq : Nat := 0
  deriving DecidableEq, Repr

structure RingItem where
  sample : Sample
  seq : Nat
  keyframe : Bool
  deriving DecidableEq, Repr

structure HubEntryStats where
  frames : Nat := 0
  keyframes : Nat := 0
  ring : Nat := 0
  hasKeyframe : Bool := false
  subscribers : Nat := 0
  deriving DecidableEq, Repr

structure Entry where
  retainedKeyframe : Option Sample := none
  ring : List RingItem := []
  subs : List Sub := []
  stats : HubEntryStats := {}
  deriving DecidableEq, Repr

/-- A queued frame. `only` is set on a late joiner's catch-up. -/
structure Work where
  key : HubKey
  sample : Sample
  keyframe : Bool
  seq : Nat
  only : Option Sink
  deriving DecidableEq, Repr

structure FrameHub where
  ringSize : Nat
  entries : HubKey → Option Entry := fun _ => none
  queue : List Work := []
  nextSeq : Nat := 1
  expired : Sink → Bool := fun _ => false

/-- A frame handed to a sink with `FrameSink::push`, and its answer. -/
structure Handed where
  key : HubKey
  sink : Sink
  frame : Frame
  sample : Sample
  accepted : Bool
  deriving DecidableEq, Repr

def Work.frame (w : Work) : Frame := ⟨w.seq, w.keyframe⟩

def RingItem.frame (r : RingItem) : Frame := ⟨r.seq, r.keyframe⟩

namespace FrameHub

variable (h : FrameHub) (key : HubKey)

/-- `entries_[key]`: the entry, made when it is not there. -/
def entry : Entry := (h.entries key).getD {}

def setEntry (e : Entry) : FrameHub :=
  { h with entries := Function.update h.entries key (some e) }

/-- The first subscriber of an entry with the sink. -/
def sub? (sink : Sink) : Option Sub :=
  (h.entries key).bind fun e => e.subs.find? (·.sink = sink)

/-! ## Producer side -/

/-- `push` under `mutex_`: the next sequence number, the ring and the
retained keyframe. -/
def pushRegister (sample : Sample) : FrameHub × Work :=
  let kf := isKeyframe sample
  let e := h.entry key
  let e := { e with stats := { e.stats with frames := e.stats.frames + 1 } }
  -- a new GOP starts at the keyframe
  let e := if kf then
      { e with
        retainedKeyframe := some sample
        ring := []
        stats := { e.stats with keyframes := e.stats.keyframes + 1, hasKeyframe := true } }
    else e
  let ring := e.ring ++ [⟨sample, h.nextSeq, kf⟩]
  let ring := ring.drop (ring.length - h.ringSize)
  let e := { e with ring, stats := { e.stats with ring := ring.length } }
  ({ h.setEntry key e with nextSeq := h.nextSeq + 1 }, ⟨key, sample, kf, h.nextSeq, none⟩)

/-- `push` under `queue_mutex_`. -/
def pushEnqueue (w : Work) : FrameHub :=
  { h with queue := h.queue ++ [w] }

def push (sample : Sample) : FrameHub :=
  (h.pushRegister key sample).1.pushEnqueue (h.pushRegister key sample).2

/-! ## Consumer side -/

/-- A late joiner's catch-up: the ring, when it still starts with its
keyframe. -/
def catchUp (sink : Sink) : List RingItem → List Work
  | [] => []
  | item :: ring =>
    if item.keyframe then
      (item :: ring).map fun r => ⟨key, r.sample, r.keyframe, r.seq, some sink⟩
    else []

/-- `subscribe` under `mutex_`: the subscriber and the ring snapshot. -/
def subscribeRegister (sink : Sink) : FrameHub × List Work :=
  let e := h.entry key
  let subs := (e.subs.filter fun s => !h.expired s.sink) ++ [{ sink := sink }]
  let e := { e with subs, stats := { e.stats with subscribers := subs.length } }
  (h.setEntry key e, catchUp key sink e.ring)

/-- `subscribe` under `queue_mutex_`. -/
def subscribeInsert (works : List Work) : FrameHub :=
  { h with queue := works ++ h.queue }

def subscribe (sink : Sink) : FrameHub :=
  (h.subscribeRegister key sink).1.subscribeInsert (h.subscribeRegister key sink).2

def unsubscribe (sink : Sink) : FrameHub :=
  match h.entries key with
  | none => h
  | some e =>
    let subs := e.subs.filter fun s => !(h.expired s.sink || s.sink == sink)
    h.setEntry key { e with subs, stats := { e.stats with subscribers := subs.length } }

/-- `subscriber_count`. -/
def subscriberCount : Nat :=
  match h.entries key with
  | none => 0
  | some e => e.stats.subscribers

end FrameHub

/-- The subscriber waits for a keyframe. -/
def Sub.wait (s : Sub) : Sub := { s with stats := { s.stats with waitingKeyframe := true } }

namespace FrameHub

def resync (h : FrameHub) (key : HubKey) (sink : Sink) : FrameHub :=
  match h.entries key with
  | none => h
  | some e =>
    h.setEntry key
      { e with subs := e.subs.map fun s => if !h.expired s.sink && s.sink == sink then s.wait else s }

/-- `FrameHub::clear`: the producer is gone. -/
def clear (h : FrameHub) (key : HubKey) : FrameHub :=
  match h.entries key with
  | none => h
  | some e =>
    h.setEntry key
      { e with
        ring := []
        retainedKeyframe := none
        stats := { e.stats with hasKeyframe := false, ring := 0 }
        subs := e.subs.map Sub.wait }

/-- `clear` of every (track, tier) that `gone` names. -/
def clearAll (h : FrameHub) (gone : HubKey → Bool) : FrameHub :=
  { h with entries := fun key => if gone key then (h.clear key).entries key else h.entries key }

end FrameHub

/-! ## The delivery thread -/

namespace Sub

/-- The frame is for this subscriber: a fan-out, or its own catch-up. -/
def addressed (s : Sub) (w : Work) : Bool := w.only.all (· = s.sink)

/-- The keyframe gate opens. The first delivered keyframe's PTS becomes 0,
once; a resync keeps the timeline. -/
def start (s : Sub) (sample : Sample) : Sub :=
  let s := { s with stats := { s.stats with waitingKeyframe := false } }
  match s.basePts with
  | some _ => s
  | none => { s with basePts := sample.pts, baseDts := sample.dts.orElse fun _ => sample.pts }

/-- A timestamp on the subscriber's own timeline, never below 0. -/
def rebase (time base : Option Nat) : Option Nat :=
  match time, base with
  | some t, some b => some (t - b)
  | t, _ => t

/-- The first loop of `deliver` for one subscriber: its new state, and the
sample to push when it is a target. -/
def offer (s : Sub) (expired : Bool) (w : Work) : Sub × Option Sample :=
  if expired then (s, none)
  else if !s.addressed w then (s, none)
  else if w.seq ≤ s.lastSeq then (s, none)
  else if s.stats.waitingKeyframe && !w.keyframe then
    ({ s with stats := { s.stats with dropped := s.stats.dropped + 1 } }, none)
  else
    let s := if s.stats.waitingKeyframe then s.start w.sample else s
    ({ s with lastSeq := w.seq },
      some { w.sample with
        pts := rebase w.sample.pts s.basePts
        dts := rebase w.sample.dts s.baseDts })

/-- The second loop of `deliver`: the sink's answer. A slow consumer
resyncs at the next keyframe. -/
def settle (s : Sub) (ok : Bool) : Sub :=
  if ok then { s with stats := { s.stats with delivered := s.stats.delivered + 1 } }
  else
    { s with stats := { s.stats with dropped := s.stats.dropped + 1, waitingKeyframe := true } }

end Sub

/-- A sink and the buffer it is about to be pushed. -/
structure Target where
  sink : Sink
  sample : Sample
  deriving DecidableEq, Repr

namespace FrameHub

variable (h : FrameHub)

/-- The targets of a frame, in the order of the subscribers. -/
def targets (w : Work) (subs : List Sub) : List Target :=
  subs.filterMap fun s => (s.offer (h.expired s.sink) w).2.map (Target.mk s.sink)

/-- The first subscriber with the sink takes its answer. -/
def settleFirst (sink : Sink) (ok : Bool) : List Sub → List Sub
  | [] => []
  | s :: subs => if s.sink = sink then s.settle ok :: subs else s :: settleFirst sink ok subs

/-- The targets pushed in order, `accepts sink i` being the answer to the
i-th push: the subscribers after it, and the record of the pushes. -/
def pushTargets (w : Work) (accepts : Sink → Nat → Bool) :
    Nat → List Target → List Sub → List Sub × List Handed
  | _, [], subs => (subs, [])
  | i, t :: ts, subs =>
    let ok := accepts t.sink i
    let (subs', handed) := pushTargets w accepts (i + 1) ts (settleFirst t.sink ok subs)
    (subs', ⟨w.key, t.sink, w.frame, t.sample, ok⟩ :: handed)

/-- `FrameHub::deliver`. -/
def deliver (w : Work) (accepts : Sink → Nat → Bool) : FrameHub × List Handed :=
  match h.entries w.key with
  | none => (h, [])
  | some e =>
    let offered := e.subs.map fun s => (s.offer (h.expired s.sink) w).1
    let (subs, handed) := pushTargets w accepts 0 (h.targets w e.subs) offered
    (h.setEntry w.key { e with subs }, handed)

/-- The backlog after an overrun check: one longer than a ring is stale,
skip to the next keyframe. -/
def skip (rest : List Work) : List Work :=
  if h.ringSize < rest.length then rest.dropWhile fun w => !w.keyframe else rest

/-- One iteration of `thread_main` on a queue that is not empty. -/
def work (accepts : Sink → Nat → Bool) : Option (FrameHub × List Handed) :=
  match h.queue with
  | [] => none
  | w :: rest => some ({ h with queue := h.skip rest }.deliver w accepts)

end FrameHub

/-! ## A stream for concrete runs -/

def camera : HubKey := ⟨"camera", "active"⟩

/-- A keyframe, and a frame that needs its predecessor. -/
def keySample : Sample := ⟨false, none, none⟩

def deltaSample : Sample := ⟨true, none, none⟩

end Fjarr.Media
