/-
Fjarr.Net.Capability — `NetCapability` (agent/src/capabilities/net_capability):
one IP link at a time between the robot's tun device and the session that
opened it.

`open` takes the link and watches the device with the context it came
with; `close`, `release_all_input`, the session's detach and `shutdown`
give it up. What a session sends on its stream channel is written to the
device when the session holds the link and the packet passes `check`, and
what the device has to read goes to the context of the watch when it
passes the mirrored check. So the watch's context is always that of the
attached session which holds the link (`Inv`), and `tunnel_carries` says
what crosses.

A multicast packet passes on the strength of its source alone, and a port
list does not narrow it; nor does `inspect` read the total-length field
(`multicast_unlisted`). Kernel reads and writes and the channel's answers
are inputs of the steps. A session has a name: a request without one is
not parsed.
-/
import Fjarr.Control.Domains
import Fjarr.Lib.Maps
import Fjarr.Lib.Transition
import Fjarr.Net.Addressing

namespace Fjarr.Net

open Lib Lib.Bytes Option
open Control (OperatorInfo)

/-! ## State -/

/-- A `SessionContext`: which one, and the session it is of. -/
structure Context where
  handle : Nat
  id : String
  operator : OperatorInfo
  named : id ≠ ""
  deriving DecidableEq

/-- What `configure` leaves. -/
structure Config where
  enabled : Bool := true
  selfAddr : UInt32
  peerAddr : UInt32
  mtu : Nat := 1184
  allowPorts : List UInt16 := []
  attachError : String := ""

structure Counters where
  txPackets : Nat := 0
  rxPackets : Nat := 0
  txBytes : Nat := 0
  rxBytes : Nat := 0
  droppedNoPeer : Nat := 0
  droppedPolicy : Nat := 0
  droppedQueue : Nat := 0
  droppedMtu : Nat := 0
  abandoned : Nat := 0
  abandonedError : Nat := 0
  deriving DecidableEq, Repr

inductive Reply where
  | opened (address peerAddress : String) (mtu : Nat) (allowPorts : List UInt16)
  | closed
  | failed (code message : String) (holder : Option (OperatorInfo × Int))
  deriving DecidableEq

inductive Event where
  /-- Written to the tun device. -/
  | wrote (ctx : Context) (packet : Bytes)
  /-- Sent on the stream channel of the context. -/
  | sent (ctx : Context) (packet : Bytes)
  | replied (ctx : Context) (r : Reply)
  | linkStats (ctx : Context) (c : Counters)
  deriving DecidableEq

structure Impl where
  /-- `tun_fd >= 0` -/
  tun : Bool := true
  sessions : Std.ExtTreeMap String Context := ∅
  /-- `""` while no link is open. -/
  linkSession : String := ""
  linkHolder : OperatorInfo := ⟨"", ""⟩
  linkSince : Int := 0
  /-- The context the device is watched with. -/
  watch : Option Context := none
  statsTimer : Option Context := none
  counters : Counters := {}
  abandonedAtOpen : Nat := 0

/-! ## Operations -/

namespace Impl

variable (i : Impl) (c : Config)

def linkOpen : Bool := i.linkSession ≠ ""

/-- `unavailable_reason`: why no link can be opened, or `""`. -/
def unavailableReason : String :=
  if !c.enabled then
    "the network tunnel is not enabled on this robot (capabilities.\"fjarr.net\".enabled)"
  else if !i.tun then c.attachError
  else ""

/-- `close_link`. -/
def closeLink : Impl :=
  if i.linkOpen then { i with linkSession := "", watch := none, statsTimer := none } else i

/-- `release_all_input`. -/
def releaseAllInput (id : String) : Impl :=
  if i.linkSession = id then i.closeLink else i

/-- `session_detached`. -/
def sessionDetached (id : String) : Impl :=
  let i := i.releaseAllInput id
  { i with sessions := i.sessions.erase id }

/-- `shutdown`. -/
def shutdown : Impl := { i.closeLink with sessions := ∅, tun := false }

def count (f : Counters → Counters) : Impl := { i with counters := f i.counters }

/-- `on_binary`, `written` being whether the device takes the packet. -/
def onBinary (ctx : Context) (packet : Bytes) (written : Bool) :
    Impl × List Event :=
  if i.linkSession ≠ ctx.id ∨ i.tun = false then
    (i.count fun n => { n with droppedNoPeer := n.droppedNoPeer + 1 }, [])
  else if packet.length > c.mtu then
    (i.count fun n => { n with droppedMtu := n.droppedMtu + 1 }, [])
  else if check (inspect packet) c.selfAddr c.peerAddr c.allowPorts ≠ .allow then
    (i.count fun n => { n with droppedPolicy := n.droppedPolicy + 1 }, [])
  else if !written then
    (i.count fun n => { n with droppedQueue := n.droppedQueue + 1 }, [])
  else
    (i.count fun n =>
        { n with rxPackets := n.rxPackets + 1, rxBytes := n.rxBytes + packet.length },
      [.wrote ctx packet])

/-- One packet read from the device, `taken` being the channel's answer. -/
def forward (ctx : Context) (packet : Bytes) (taken : Bool) :
    Impl × List Event :=
  if packet.length > c.mtu then
    (i.count fun n => { n with droppedMtu := n.droppedMtu + 1 }, [])
  else if check (inspect packet) c.peerAddr c.selfAddr [] ≠ .allow then
    (i.count fun n => { n with droppedPolicy := n.droppedPolicy + 1 }, [])
  else if !taken then
    (i.count fun n => { n with droppedQueue := n.droppedQueue + 1 }, [])
  else
    (i.count fun n =>
        { n with txPackets := n.txPackets + 1, txBytes := n.txBytes + packet.length },
      [.sent ctx packet])

end Impl

/-- What a read of the device gives. -/
inductive Read where
  | packet (p : Bytes) (taken : Bool)
  | interrupted
  | again

namespace Impl

/-- The batch of reads of the watch, of at most `n`. -/
def readLoop (c : Config) (ctx : Context) : Nat → List Read → Impl → Impl × List Event
  | 0, _, i => (i, [])
  | _, [], i => (i, [])
  | _, .again :: _, i => (i, [])
  | n + 1, .interrupted :: rs, i => readLoop c ctx n rs i
  | n + 1, .packet p taken :: rs, i =>
    let (i', es) := i.forward c ctx p taken
    let (i'', es') := readLoop c ctx n rs i'
    (i'', es ++ es')

/-- The device is readable. -/
def readable (i : Impl) (c : Config) (ctx : Context) (reads : List Read) : Impl × List Event :=
  if i.linkSession ≠ ctx.id then ({ i with watch := none }, []) else readLoop c ctx 32 reads i

/-- A second has passed. -/
def statsTick (i : Impl) (ctx : Context) (abandoned lastError : Nat) : Impl × List Event :=
  if i.linkSession ≠ ctx.id then ({ i with statsTimer := none }, [])
  else
    let i := i.count fun n =>
      { n with abandoned := abandoned - i.abandonedAtOpen, abandonedError := lastError }
    (i, [.linkStats ctx i.counters])

/-- `open`, `now` being the time and `abandoned` the count of the SCTP
watch. What the kernel had queued is discarded, and the counters start
anew. -/
def openLink (i : Impl) (c : Config) (ctx : Context) (now : Int) (abandoned : Nat) :
    Impl × List Event :=
  if i.linkOpen then
    let h := i.linkHolder
    let why := if i.linkSession = ctx.id then "this session already has the link open"
      else (if h.label = "" then h.id else h.label) ++
        " holds the link; the robot's interface is point-to-point"
    (i, [.replied ctx (.failed "busy" why (some (h, i.linkSince)))])
  else if i.unavailableReason c ≠ "" then
    (i, [.replied ctx (.failed "unavailable" (i.unavailableReason c) none)])
  else
    ({ i with
        counters := {}
        abandonedAtOpen := abandoned
        linkSession := ctx.id
        linkHolder := ctx.operator
        linkSince := now
        watch := some ctx
        statsTimer := some ctx },
      [.replied ctx (.opened (toDotted c.selfAddr) (toDotted c.peerAddr) c.mtu c.allowPorts)])

/-- `on_message` for a request. -/
def onRequest (i : Impl) (c : Config) (ctx : Context) (type : String) (now : Int)
    (abandoned : Nat) : Impl × List Event :=
  if type = "open" then i.openLink c ctx now abandoned
  else if type = "close" then
    if i.linkSession ≠ ctx.id then
      (i, [.replied ctx (.failed "unavailable" "this session has no open link" none)])
    else (i.closeLink, [.replied ctx .closed])
  else (i, [.replied ctx (.failed "payload-invalid" ("unknown fjarr.net request: " ++ type) none)])

end Impl

/-! ## Runs -/

structure World where
  impl : Impl := {}
  log : List Event := []

inductive Act where
  | attach (ctx : Context)
  | detach (id : String)
  | releaseAllInput (id : String)
  | binary (ctx : Context) (packet : Bytes) (written : Bool)
  | message (ctx : Context) (request : Bool) (type : String) (now : Int) (abandoned : Nat)
  | readable (reads : List Read)
  | statsTick (abandoned lastError : Nat)
  | shutdown

namespace World

def quiet (w : World) (i : Impl) : World := { w with impl := i }

def emit (w : World) (r : Impl × List Event) : World := { impl := r.1, log := w.log ++ r.2 }

end World

/-- Only an attached session's messages reach the capability, and the
manager refuses a second session of one name. -/
def step (c : Config) (w : World) : Act → Option World
  | .attach ctx =>
    if w.impl.sessions.contains ctx.id then none
    else some (w.quiet { w.impl with sessions := w.impl.sessions.insert ctx.id ctx })
  | .detach id => some (w.quiet (w.impl.sessionDetached id))
  | .releaseAllInput id => some (w.quiet (w.impl.releaseAllInput id))
  | .binary ctx packet written =>
    if w.impl.sessions[ctx.id]? = some ctx then some (w.emit (w.impl.onBinary c ctx packet written))
    else none
  | .message ctx request type now abandoned =>
    if w.impl.sessions[ctx.id]? = some ctx then
      if !request then some w else some (w.emit (w.impl.onRequest c ctx type now abandoned))
    else none
  | .readable reads => w.impl.watch.map fun ctx => w.emit (w.impl.readable c ctx reads)
  | .statsTick abandoned lastError =>
    w.impl.statsTimer.map fun ctx => w.emit (w.impl.statsTick ctx abandoned lastError)
  | .shutdown => some (w.quiet w.impl.shutdown)

def tunnel (c : Config) : System World Act where
  init := {}
  step := step c

/-! ## What may cross -/

/-- What may be written: of at most the MTU, with an IPv4 header that
fits, from the operator, and multicast or for the robot and then, under a
port list, for a port on it. -/
structure Admitted (c : Config) (packet : Bytes) : Prop where
  size : packet.length ≤ c.mtu
  header : HeaderFits packet
  source : (Net.header packet).source = c.peerAddr.toNat
  destination : Multicast (Net.header packet).destination ∨
    (Net.header packet).destination = c.selfAddr.toNat ∧
      (c.allowPorts ≠ [] → HasPort packet ∧
        destinationPort packet ∈ c.allowPorts.map UInt16.toNat)

/-- The same with a port list for every destination, and the packet's
length in its header. -/
structure Listed (c : Config) (packet : Bytes) : Prop where
  size : packet.length ≤ c.mtu
  wellFormed : WellFormed packet
  source : (Net.header packet).source = c.peerAddr.toNat
  destination : Multicast (Net.header packet).destination ∨
    (Net.header packet).destination = c.selfAddr.toNat
  ports : c.allowPorts ≠ [] → HasPort packet ∧
    destinationPort packet ∈ c.allowPorts.map UInt16.toNat

/-- What may be sent to the operator. -/
structure Outbound (c : Config) (packet : Bytes) : Prop where
  size : packet.length ≤ c.mtu
  header : HeaderFits packet
  source : (Net.header packet).source = c.selfAddr.toNat
  destination : Multicast (Net.header packet).destination ∨
    (Net.header packet).destination = c.peerAddr.toNat

/-- The context is that of the attached session which holds the link. -/
def Impl.Holds (i : Impl) (ctx : Context) : Prop :=
  i.linkSession = ctx.id ∧ i.sessions[ctx.id]? = some ctx

def Event.Carried (c : Config) (i : Impl) : Event → Prop
  | .wrote ctx packet => i.Holds ctx ∧ Admitted c packet
  | .sent ctx packet => i.Holds ctx ∧ Outbound c packet
  | _ => True

/-! ## Steps -/

/-- The device is watched for the session that holds the link. -/
def Impl.Inv (i : Impl) : Prop := ∀ ctx, i.watch = some ctx → i.Holds ctx

/-- The operation's events are what may cross, and the watch stays with
the link. -/
structure Sound (c : Config) (i : Impl) (r : Impl × List Event) : Prop where
  carried : ∀ e ∈ r.2, e.Carried c i
  inv : r.1.Inv

namespace Impl

variable {c : Config} {i : Impl} {ctx : Context}

theorem Inv.count (h : i.Inv) (f : Counters → Counters) : (i.count f).Inv := h

theorem Inv.closeLink (h : i.Inv) : i.closeLink.Inv := by
  unfold Impl.closeLink
  split
  · intro ctx hwatch
    cases hwatch
  · exact h

theorem Inv.releaseAllInput (h : i.Inv) (id : String) : (i.releaseAllInput id).Inv := by
  unfold Impl.releaseAllInput
  split
  · exact h.closeLink
  · exact h

/-- Whoever holds the link then, it is not the session that lets go. -/
theorem releaseAllInput_link (i : Impl) {id : String} (hid : id ≠ "") :
    (i.releaseAllInput id).linkSession ≠ id := by
  unfold Impl.releaseAllInput
  split
  · rename_i hlink
    rw [closeLink, if_pos (by simp [linkOpen, hlink, hid])]
    exact hid.symm
  · assumption

theorem Inv.sessionDetached (h : i.Inv) (id : String) : (i.sessionDetached id).Inv := by
  intro ctx hwatch
  obtain ⟨hlink, hattached⟩ := h.releaseAllInput id ctx hwatch
  refine ⟨hlink, ?_⟩
  have hne : ctx.id ≠ id := by
    rintro rfl
    exact releaseAllInput_link i ctx.named hlink
  show ((i.releaseAllInput id).sessions.erase id)[ctx.id]? = some ctx
  rw [Maps.get?_erase, if_neg hne, hattached]

theorem Inv.attach (h : i.Inv) (hnew : i.sessions.contains ctx.id = false) :
    Inv { i with sessions := i.sessions.insert ctx.id ctx } := by
  intro ctx' hwatch
  obtain ⟨hlink, hattached⟩ := h ctx' hwatch
  refine ⟨hlink, ?_⟩
  have hne : ctx'.id ≠ ctx.id := by
    intro heq
    rw [heq, (Maps.contains_eq_false _ _).mp hnew] at hattached
    cases hattached
  rw [Maps.get?_insert, if_neg hne, hattached]

theorem Inv.shutdown (h : i.Inv) : i.shutdown.Inv := by
  intro ctx hwatch
  have hclosed : i.closeLink.watch = some ctx := hwatch
  unfold Impl.closeLink at hclosed
  split at hclosed
  · cases hclosed
  rename_i hopen
  -- no link, so nobody is watched for
  obtain ⟨hlink, -⟩ := h ctx hclosed
  simp only [linkOpen, ne_eq, decide_not, Bool.not_eq_eq_eq_not, Bool.not_true,
    decide_eq_false_iff_not, not_not] at hopen
  exact absurd (hlink.symm.trans hopen) ctx.named

theorem onBinary_sound (h : i.Inv) (hctx : i.sessions[ctx.id]? = some ctx) (packet : Bytes)
    (written : Bool) : Sound c i (i.onBinary c ctx packet written) := by
  unfold onBinary
  split
  · exact ⟨by simp, h.count _⟩
  rename_i hlink
  split
  · exact ⟨by simp, h.count _⟩
  rename_i hsize
  split
  · exact ⟨by simp, h.count _⟩
  rename_i hallow
  split
  · exact ⟨by simp, h.count _⟩
  refine ⟨fun e he => ?_, h.count _⟩
  obtain rfl := List.mem_singleton.mp he
  obtain ⟨hfits, hsource, hdestination⟩ := (check_allow_iff ..).mp (not_not.mp hallow)
  exact ⟨⟨not_not.mp (not_or.mp hlink).1, hctx⟩, Nat.not_lt.mp hsize, hfits, hsource, hdestination⟩

theorem forward_fst (i : Impl) (c : Config) (ctx : Context) (packet : Bytes) (taken : Bool) :
    (i.forward c ctx packet taken).1 =
      i.count fun _ => (i.forward c ctx packet taken).1.counters := by
  unfold forward
  split
  · rfl
  split
  · rfl
  split <;> rfl

theorem forward_sound (h : i.Holds ctx) (hinv : i.Inv) (packet : Bytes) (taken : Bool) :
    Sound c i (i.forward c ctx packet taken) := by
  unfold forward
  split
  · exact ⟨by simp, hinv.count _⟩
  rename_i hsize
  split
  · exact ⟨by simp, hinv.count _⟩
  rename_i hallow
  split
  · exact ⟨by simp, hinv.count _⟩
  refine ⟨fun e he => ?_, hinv.count _⟩
  obtain rfl := List.mem_singleton.mp he
  obtain ⟨hfits, hsource, hdestination⟩ := (check_allow_iff ..).mp (not_not.mp hallow)
  exact ⟨h, Nat.not_lt.mp hsize, hfits, hsource, hdestination.imp id And.left⟩

theorem readLoop_sound (n : Nat) (reads : List Read) (h : i.Holds ctx) (hinv : i.Inv) :
    Sound c i (readLoop c ctx n reads i) := by
  induction n generalizing reads i with
  | zero => exact ⟨by simp [readLoop], by simpa [readLoop] using hinv⟩
  | succ n ih =>
    cases reads with
    | nil => exact ⟨by simp [readLoop], by simpa [readLoop] using hinv⟩
    | cons r rs =>
      cases r with
      | again => exact ⟨by simp [readLoop], by simpa [readLoop] using hinv⟩
      | interrupted =>
        rw [readLoop]
        exact ih rs h hinv
      | packet p taken =>
        have hfirst := forward_sound (c := c) h hinv p taken
        -- the rest runs with the same link and sessions
        have hrest : Sound c (i.count fun _ => (i.forward c ctx p taken).1.counters)
            (readLoop c ctx n rs (i.forward c ctx p taken).1) := by
          rw [forward_fst]
          exact ih rs h (hinv.count _)
        rw [readLoop]
        refine ⟨fun e he => ?_, hrest.inv⟩
        rcases List.mem_append.mp he with he | he
        · exact hfirst.carried e he
        · exact hrest.carried e he

theorem openLink_sound (h : i.Inv) (hctx : i.sessions[ctx.id]? = some ctx) (now : Int)
    (abandoned : Nat) : Sound c i (i.openLink c ctx now abandoned) := by
  unfold openLink
  split
  · exact ⟨by simp [Event.Carried], h⟩
  split
  · exact ⟨by simp [Event.Carried], h⟩
  refine ⟨by simp [Event.Carried], fun ctx' hwatch => ?_⟩
  cases hwatch
  exact ⟨rfl, hctx⟩

theorem onRequest_sound (h : i.Inv) (hctx : i.sessions[ctx.id]? = some ctx) (type : String)
    (now : Int) (abandoned : Nat) : Sound c i (i.onRequest c ctx type now abandoned) := by
  unfold onRequest
  split
  · exact openLink_sound h hctx now abandoned
  split
  · split
    · exact ⟨by simp [Event.Carried], h⟩
    · exact ⟨by simp [Event.Carried], h.closeLink⟩
  · exact ⟨by simp [Event.Carried], h⟩

theorem readable_sound (h : i.Inv) (hwatch : i.watch = some ctx) (reads : List Read) :
    Sound c i (i.readable c ctx reads) := by
  unfold readable
  split
  · rename_i hlink
    exact absurd (h ctx hwatch).1 hlink
  · exact readLoop_sound 32 reads (h ctx hwatch) h

theorem statsTick_sound (h : i.Inv) (abandoned lastError : Nat) :
    Sound c i (i.statsTick ctx abandoned lastError) := by
  unfold statsTick
  split
  · exact ⟨by simp, h⟩
  · exact ⟨by simp [Event.Carried], h.count _⟩

end Impl

/-- **Step**: the new events are what may cross. -/
theorem step_sound {c : Config} {w w' : World} {a : Act} (h : w.impl.Inv)
    (hstep : step c w a = some w') :
    w'.impl.Inv ∧ ∃ es, w'.log = w.log ++ es ∧ ∀ e ∈ es, e.Carried c w.impl := by
  have hquiet : ∀ {i : Impl}, i.Inv → w.quiet i = w' →
      w'.impl.Inv ∧ ∃ es, w'.log = w.log ++ es ∧ ∀ e ∈ es, e.Carried c w.impl := by
    rintro i hi rfl
    exact ⟨hi, [], by simp [World.quiet], by simp⟩
  have hemit : ∀ {r : Impl × List Event}, Sound c w.impl r → w.emit r = w' →
      w'.impl.Inv ∧ ∃ es, w'.log = w.log ++ es ∧ ∀ e ∈ es, e.Carried c w.impl := by
    rintro r hr rfl
    exact ⟨hr.inv, r.2, rfl, hr.carried⟩
  cases a with
  | attach ctx =>
    obtain ⟨hnew, heq⟩ := ite_none_left_eq_some.mp hstep
    exact hquiet (h.attach (Bool.not_eq_true _ ▸ hnew)) (some.inj heq)
  | detach id => exact hquiet (h.sessionDetached id) (some.inj hstep)
  | releaseAllInput id => exact hquiet (h.releaseAllInput id) (some.inj hstep)
  | binary ctx packet written =>
    obtain ⟨hctx, heq⟩ := ite_none_right_eq_some.mp hstep
    exact hemit (Impl.onBinary_sound h hctx packet written) (some.inj heq)
  | message ctx request type now abandoned =>
    obtain ⟨hctx, heq⟩ := ite_none_right_eq_some.mp hstep
    split at heq
    · exact hquiet h (some.inj heq)
    · exact hemit (Impl.onRequest_sound h hctx type now abandoned) (some.inj heq)
  | readable reads =>
    obtain ⟨ctx, hwatch, heq⟩ := map_eq_some_iff.mp hstep
    exact hemit (Impl.readable_sound h hwatch reads) heq
  | statsTick abandoned lastError =>
    obtain ⟨ctx, -, heq⟩ := map_eq_some_iff.mp hstep
    exact hemit (Impl.statsTick_sound h abandoned lastError) heq
  | shutdown => exact hquiet h.shutdown (some.inj hstep)

theorem inv_of_reachable {c : Config} {w : World} (hw : (tunnel c).Reachable w) : w.impl.Inv := by
  refine (tunnel c).invariant (P := fun w => w.impl.Inv) ?_ ?_ hw
  · intro ctx hwatch
    cases hwatch
  · intro w a w' h hstep
    exact (step_sound h hstep).1

/-! ## Result -/

/-- **What the tunnel carries.** In every reachable state, whatever step
comes: a packet written to the device came from the session that holds
the link and is `Admitted`, and a packet sent to a session goes to the one
that holds the link and is `Outbound`. -/
theorem tunnel_carries {c : Config} {w w' : World} (hw : (tunnel c).Reachable w) {a : Act}
    (hstep : (tunnel c).step w a = some w') {es : List Event} (hlog : w'.log = w.log ++ es) :
    ∀ e ∈ es, e.Carried c w.impl := by
  obtain ⟨-, es', hlog', hcarried⟩ := step_sound (inv_of_reachable hw) hstep
  obtain rfl := List.append_cancel_left (hlog.symm.trans hlog')
  exact hcarried

/-- The robot 100.66.1.2 of the operator 100.64.0.1, for ssh alone. -/
def sshOnly : Config where
  selfAddr := 0x64420102
  peerAddr := 0x64400001
  allowPorts := [22]

def alice : Context := ⟨0, "a", ⟨"alice", "Alice"⟩, by decide⟩

/-- A packet of the operator without options: total length, protocol,
destination and payload. -/
def fromOperator (total protocol : UInt8) (destination payload : Bytes) : Bytes :=
  [0x45, 0, 0, total, 0, 0, 0, 0, 64, protocol, 0, 0, 100, 64, 0, 1] ++ destination ++ payload

/-- To port 22 of the robot. -/
def sshPacket (total : UInt8) : Bytes := fromOperator total 6 [100, 66, 1, 2] [0xc0, 0, 0, 22]

theorem tunnel_carries_ssh :
    ∃ w w', (tunnel sshOnly).run {} [.attach alice, .message alice true "open" 0 0] = some w ∧
      (tunnel sshOnly).step w (.binary alice (sshPacket 24) true) = some w' ∧
      w'.log = w.log ++ [.wrote alice (sshPacket 24)] ∧
      Event.Carried sshOnly w.impl (.wrote alice (sshPacket 24)) := by
  obtain ⟨w, hrun, hw⟩ : ∃ w,
      (tunnel sshOnly).run {} [.attach alice, .message alice true "open" 0 0] = some w ∧
        decide (((tunnel sshOnly).step w (.binary alice (sshPacket 24) true)).map World.log =
          some (w.log ++ [.wrote alice (sshPacket 24)])) = true := by
    rw [← map_eq_some_iff]
    decide +kernel
  obtain ⟨w', hstep, hlog⟩ := map_eq_some_iff.mp (of_decide_eq_true hw)
  exact ⟨w, w', hrun, hstep, hlog, tunnel_carries ⟨_, hrun⟩ hstep hlog _ (by simp)⟩

/-- An ICMP packet of the operator to the group 239.255.0.1. -/
def groupPing : Bytes := fromOperator 20 1 [239, 255, 0, 1] []

/-- With port 22 alone allowed, the multicast packet, which has no port,
is written, and so is a packet of 24 bytes whose header says 99. -/
theorem multicast_unlisted :
    ∃ w, (tunnel sshOnly).run {} [.attach alice, .message alice true "open" 0 0,
        .binary alice groupPing true, .binary alice (sshPacket 99) true] = some w ∧
      .wrote alice groupPing ∈ w.log ∧ ¬ Listed sshOnly groupPing ∧
      .wrote alice (sshPacket 99) ∈ w.log ∧ ¬ Listed sshOnly (sshPacket 99) := by
  refine evaluated (fun w => w.log.drop 1)
    (b := [.wrote alice groupPing, .wrote alice (sshPacket 99)]) (by decide +kernel)
    fun w hrun hw => ?_
  refine ⟨List.mem_of_mem_drop (i := 1) (by simp [hw]), fun h => ?_,
    List.mem_of_mem_drop (i := 1) (by simp [hw]), fun h => ?_⟩
  · exact absurd (h.ports (by decide)).1 (by decide +kernel)
  · exact absurd h.wellFormed.total (by decide +kernel)

end Fjarr.Net
