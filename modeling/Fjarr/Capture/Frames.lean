/-
Fjarr.Capture.Frames — `Frames` (agent/modules/desktop-mutter/capture_memory):
the compositor's buffers, pushed to GStreamer without a copy.

A DMA-BUF delivery is held: a token stands for it, every GstBuffer pushed
over it (and every copy of one) keeps the token alive, and so does the
reader while the frame is its newest. The token's death is posted to the
channel with the buffer's address and the delivery's number, and
`drain_releases` gives the buffer back when the address still has that
delivery out.

Three parties take turns: the PipeWire thread, whose calls run one after
the other but are cut where they leave a mutex; the core, which attaches,
suspends and resumes; and GStreamer's threads, which copy and drop what
was pushed. PipeWire's side (`Peer`) is its own record of who has which
buffer. It hands out a buffer only while it has it, and a new buffer's
address is not that of one it still has.

`Fjarr.Capture.Release` says what follows for every run.
-/
import Fjarr.Lib.Transition

namespace Fjarr.Capture

open Lib

/-- A `pw_buffer*`. -/
abbrev Addr := Nat

/-! ## Frames -/

structure NegotiatedFormat where
  format : Nat := 0
  width : Int := 0
  height : Int := 0
  dmabuf : Bool := false
  fixed : Bool := true
  modifier : Nat := 0

/-- `same_format`. -/
def sameFormat (a b : NegotiatedFormat) : Bool :=
  a.format = b.format ∧ a.width = b.width ∧ a.height = b.height ∧ a.dmabuf = b.dmabuf ∧
    a.modifier = b.modifier

structure Slot where
  /-- How many planes are wrapped. -/
  planes : Nat
  /-- Delivered to us and not given back. -/
  out : Bool := false
  /-- Which delivery is out. -/
  delivery : Nat := 0

inductive Delivery where
  | held
  | copied
  | cursorOnly
  | dropped
  deriving DecidableEq

/-- `requeue_now`. -/
def requeueNow (d : Delivery) : Bool := d ≠ .held

/-- A `spa_buffer` at its arrival: its datas, whether the first is a
DMA-BUF, and whether its descriptor could be wrapped. -/
structure Arrival where
  datas : Nat
  dmabuf : Bool
  wraps : Bool

/-- A `spa_buffer` at a delivery: its first chunk's size and corrupted
flag, if it has one, and whether its shared memory can be copied. -/
structure Content where
  chunk : Option (Nat × Bool)
  copies : Bool

/-- `has_pixels`. -/
def hasPixels (sb : Content) : Bool :=
  match sb.chunk with
  | none => false
  | some (size, corrupted) => size > 0 && !corrupted

structure Frames where
  slots : Addr → Option Slot := fun _ => none
  deliveries : Nat := 0
  format : NegotiatedFormat := {}
  appsrc : Option Nat := none
  suspended : Bool := false
  held : Option Addr := none
  /-- The delivery whose token is the newest frame's. -/
  heldToken : Option Nat := none
  lastShm : Bool := false
  lastPush : Nat := 0

namespace Frames

variable (f : Frames) (now : Nat)

/-- `set_format`. The token moved out is dropped after the mutex. -/
def setFormat (n : NegotiatedFormat) : Frames × Option Nat :=
  if !n.fixed ∨ n.width ≤ 0 ∨ n.height ≤ 0 then (f, none)
  else if sameFormat f.format n then ({ f with format := n }, none)
  else ({ f with format := n, held := none, heldToken := none, lastShm := false }, f.heldToken)

/-- `add_buffer`: every plane is wrapped or none, and more than one is not
taken yet. -/
def addBuffer (b : Addr) (sb : Arrival) : Frames :=
  let planes := if sb.dmabuf ∧ sb.datas = 1 ∧ sb.wraps then 1 else 0
  { f with slots := Function.update f.slots b (some { planes }) }

/-- `remove_buffer`. -/
def removeBuffer (b : Addr) : Frames × Option Nat :=
  match f.slots b with
  | none => (f, none)
  | some _ =>
    let f' := { f with slots := Function.update f.slots b none }
    if f.held = some b then ({ f' with held := none, heldToken := none }, f.heldToken)
    else (f', none)

/-- `push_locked`: whether the appsrc gets the buffer. -/
def pushLocked : Frames × Bool :=
  ({ f with lastPush := now }, f.appsrc.isSome && !f.suspended)

/-- `push_locked` of a buffer over a token: the token, when the appsrc
gets the buffer. -/
def pushOver (token : Nat) : Frames × Option Nat :=
  let (f', taken) := f.pushLocked now
  (f', if taken then some token else none)

def repeatShm : Frames × Option Nat :=
  if f.lastShm then ((f.pushLocked now).1, none) else (f, none)

/-- `repeat_newest_locked`. -/
def repeatNewestLocked : Frames × Option Nat :=
  match f.held with
  | none => f.repeatShm now
  | some b =>
    match f.heldToken with
    | none => f.repeatShm now
    | some token =>
      match f.slots b with
      | none => (f, none)
      | some _ => f.pushOver now token

/-- The slot is out with the next delivery, whose token is the newest
frame's. -/
def hold (b : Addr) (s : Slot) : Frames :=
  let delivery := f.deliveries + 1
  { f with
    slots := Function.update f.slots b (some { s with out := true, delivery })
    deliveries := delivery
    held := some b
    heldToken := some delivery }

/-- `on_buffer`: what became of the buffer, the token pushed over and the
token dropped after the mutex. -/
def onBuffer (b : Addr) (sb : Content) (now : Nat) :
    Frames × Delivery × Option Nat × Option Nat :=
  if !hasPixels sb then (f, .cursorOnly, none, none)
  else
    match (f.slots b).filter fun s => s.planes ≠ 0 ∧ f.format.dmabuf with
    | some s =>
      let (f', pushed) := (f.hold b s).pushOver now (f.deliveries + 1)
      (f', .held, pushed, f.heldToken)
    | none =>
      if !sb.copies then (f, .dropped, none, none)
      else (({ f with lastShm := true }.pushLocked now).1, .copied, none, none)

/-- `keepalive`. -/
def keepalive (interval now : Nat) : Frames × Option Nat :=
  if now - f.lastPush < interval then (f, none) else f.repeatNewestLocked now

/-- `attach`. -/
def attach (appsrc : Option Nat) (now : Nat) : Frames × Option Nat :=
  if f.appsrc = appsrc then (f, none)
  else
    let f := { f with appsrc }
    if appsrc = none ∨ f.suspended then (f, none) else f.repeatNewestLocked now

/-- `suspend`. -/
def suspend : Frames := { f with suspended := true }

/-- `resume`. -/
def resume : Frames × Option Nat :=
  if !f.suspended then (f, none)
  else
    let f := { f with suspended := false }
    if f.appsrc = none then (f, none) else f.repeatNewestLocked now

/-- The loop of `drain_releases` over what was posted: the buffers to give
back, after those of `back`. -/
def matchReleased (slots : Addr → Option Slot) (back : List Addr) :
    List (Addr × Nat) → (Addr → Option Slot) × List Addr
  | [] => (slots, back)
  | (pw, delivery) :: released =>
    match slots pw with
    | none => matchReleased slots back released
    | some s =>
      if !s.out ∨ s.delivery ≠ delivery then matchReleased slots back released
      else
        matchReleased (Function.update slots pw (some { s with out := false })) (back ++ [pw])
          released

end Frames

/-! ## Runs -/

/-- Where PipeWire has a buffer. -/
inductive Life where
  | absent
  /-- With the compositor. -/
  | ready
  /-- Delivered with the number, and not given back. -/
  | held (delivery : Nat)
  deriving DecidableEq

/-- PipeWire's own record. -/
structure Peer where
  life : Addr → Life := fun _ => .absent
  /-- The deliveries given back after they were held, in order. -/
  returned : List Nat := []

namespace Peer

def set (p : Peer) (b : Addr) (l : Life) : Peer := { p with life := Function.update p.life b l }

/-- `pw_stream_queue_buffer` on a held buffer. -/
def requeue (p : Peer) (b : Addr) : Peer :=
  match p.life b with
  | .held d => { p.set b .ready with returned := p.returned ++ [d] }
  | _ => p

end Peer

/-- Where the PipeWire thread is. -/
inductive Thread where
  | idle
  /-- Past the mutex, about to drop its reference to a token. -/
  | dropping (token : Nat)
  /-- In `drain_releases`, having taken what was posted. -/
  | matching (released : List (Addr × Nat))
  /-- In `drain_releases`, giving buffers back. -/
  | returning (back : List Addr)
  deriving DecidableEq

namespace Thread

def drop : Option Nat → Thread
  | none => .idle
  | some token => .dropping token

def giveBack (back : List Addr) : Thread := if back = [] then .idle else .returning back

theorem eq_idle {t : Thread} (h : (t matches .idle) = true) : t = .idle := by
  cases t <;> first | rfl | cases h

/-- What was taken from the channel and not yet matched. -/
def released : Thread → List (Addr × Nat)
  | .matching l => l
  | _ => []

/-- What is matched and not yet given back. -/
def back : Thread → List Addr
  | .returning l => l
  | _ => []

/-- The token it holds a reference to. -/
def token : Thread → Option Nat
  | .dropping t => some t
  | _ => none

@[simp] theorem giveBack_released (l : List Addr) : (giveBack l).released = [] := by
  unfold giveBack
  split <;> rfl

@[simp] theorem giveBack_back (l : List Addr) : (giveBack l).back = l := by
  unfold giveBack
  split
  · rename_i h
    rw [h, back]
    nofun
  · rfl

@[simp] theorem giveBack_token (l : List Addr) : (giveBack l).token = none := by
  unfold giveBack
  split <;> rfl

end Thread

structure World where
  frames : Frames := {}
  /-- `Channel::alive` -/
  alive : Bool := true
  /-- `Channel::released` -/
  released : List (Addr × Nat) := []
  /-- The GstBuffers alive over each delivery's token. -/
  live : Nat → Nat := fun _ => 0
  /-- `TokenCtx::pw` of each delivery. -/
  pw : Nat → Addr := fun _ => 0
  thread : Thread := .idle
  peer : Peer := {}

/-- A pointer's reference, to the token it points to. -/
def refTo (pointer : Option Nat) (d : Nat) : Nat := if pointer = some d then 1 else 0

@[simp] theorem refTo_none (d : Nat) : refTo none d = 0 := rfl

@[simp] theorem refTo_some_self (d : Nat) : refTo (some d) d = 1 := if_pos rfl

theorem refTo_some_ne {d e : Nat} (h : d ≠ e) : refTo (some d) e = 0 :=
  if_neg fun heq => h (Option.some.inj heq)

namespace World

variable (w : World)

/-- The references to a delivery's token: the buffers over it, the
reader's own, and one on its way out of a call. -/
def refs (d : Nat) : Nat :=
  w.live d + refTo w.frames.heldToken d + refTo w.thread.token d

/-- `on_token_gone`, once a reference was dropped and none is left. -/
def unref (d : Nat) : World :=
  if w.refs d = 0 ∧ w.alive then { w with released := w.released ++ [(w.pw d, d)] } else w

/-- A GstBuffer pushed over the token. -/
def push (pushed : Option Nat) : World :=
  match pushed with
  | none => w
  | some d => { w with live := Function.update w.live d (w.live d + 1) }

@[simp] theorem unref_thread (d : Nat) : (w.unref d).thread = w.thread := by
  unfold unref
  split <;> rfl

@[simp] theorem unref_peer (d : Nat) : (w.unref d).peer = w.peer := by
  unfold unref
  split <;> rfl

@[simp] theorem push_thread (pushed : Option Nat) : (w.push pushed).thread = w.thread := by
  cases pushed <;> rfl

@[simp] theorem push_peer (pushed : Option Nat) : (w.push pushed).peer = w.peer := by
  cases pushed <;> rfl

/-- A mutex section of the core or of the keepalive. -/
def pushing (r : Frames × Option Nat) : World :=
  { w with frames := r.1 }.push r.2

/-- A call of the PipeWire thread that drops a token after its mutex. -/
def dropping (r : Frames × Option Nat) (peer : Peer) : World :=
  { w with frames := r.1, thread := .drop r.2, peer }

end World

inductive Act where
  | addBuffer (b : Addr) (sb : Arrival)
  | removeBuffer (b : Addr)
  | onBuffer (b : Addr) (sb : Content) (now : Nat)
  | setFormat (n : NegotiatedFormat)
  | keepalive (interval now : Nat)
  /-- The end of a call that dropped a token. -/
  | release
  | drainReleases
  | matchReleased
  | requeue
  | attach (appsrc : Option Nat) (now : Nat)
  | suspend
  | resume (now : Nat)
  /-- A GStreamer thread copies a buffer over the token. -/
  | copy (d : Nat)
  /-- A GStreamer thread drops a buffer over the token. -/
  | drop (d : Nat)
  | destroy

/-- `on_buffer` and what the reader does with its answer. -/
def World.deliver (w : World) (b : Addr) (sb : Content) (now : Nat) : World :=
  let (frames, delivery, pushed, dropped) := w.frames.onBuffer b sb now
  if requeueNow delivery then { w with frames, peer := w.peer.set b .ready }
  else
    { w with
      frames
      pw := Function.update w.pw frames.deliveries b
      thread := .drop dropped
      peer := w.peer.set b (.held frames.deliveries) }.push pushed

/-- The PipeWire thread takes a new call only while it is in none, and
nothing is called on a `Frames` that is gone. -/
def step (w : World) : Act → Option World
  | .addBuffer b sb =>
    if w.alive ∧ w.thread matches .idle ∧ w.peer.life b = .absent then
      some { w with frames := w.frames.addBuffer b sb, peer := w.peer.set b .ready }
    else none
  | .removeBuffer b =>
    if w.alive ∧ w.thread matches .idle then
      some (w.dropping (w.frames.removeBuffer b) (w.peer.set b .absent))
    else none
  | .onBuffer b sb now =>
    if w.alive ∧ w.thread matches .idle ∧ w.peer.life b = .ready then some (w.deliver b sb now)
    else none
  | .setFormat n =>
    if w.alive ∧ w.thread matches .idle then some (w.dropping (w.frames.setFormat n) w.peer)
    else none
  | .keepalive interval now =>
    if w.alive ∧ w.thread matches .idle then some (w.pushing (w.frames.keepalive interval now))
    else none
  | .release =>
    match w.thread with
    | .dropping d => some ({ w with thread := .idle }.unref d)
    | _ => none
  | .drainReleases =>
    if w.alive ∧ w.thread matches .idle then
      some { w with released := [], thread := .matching w.released }
    else none
  | .matchReleased =>
    match w.thread with
    | .matching released =>
      let (slots, back) := Frames.matchReleased w.frames.slots [] released
      some { w with frames := { w.frames with slots }, thread := .giveBack back }
    | _ => none
  | .requeue =>
    match w.thread with
    | .returning (b :: back) =>
      some { w with thread := .giveBack back, peer := w.peer.requeue b }
    | _ => none
  | .attach appsrc now => if w.alive then some (w.pushing (w.frames.attach appsrc now)) else none
  | .suspend => if w.alive then some { w with frames := w.frames.suspend } else none
  | .resume now => if w.alive then some (w.pushing (w.frames.resume now)) else none
  | .copy d => if 0 < w.live d then some (w.push (some d)) else none
  | .drop d =>
    if 0 < w.live d then
      some ({ w with live := Function.update w.live d (w.live d - 1) }.unref d)
    else none
  | .destroy =>
    if w.alive ∧ w.thread matches .idle then
      some { w with alive := false, frames := { w.frames with heldToken := none } }
    else none

def capture : System World Act where
  init := {}
  step := step

end Fjarr.Capture
