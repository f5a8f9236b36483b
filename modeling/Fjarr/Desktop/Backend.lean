/-
Fjarr.Desktop.Backend — `modules/desktop-mutter/backend.cpp`: the
monitors, captures and virtual monitors of the desktop, and what the
backend sends to the session helper; with the wire ids of
`desktop/monitor_identity.cpp`.

Three tables hold a monitor's identity. A handle (`MonitorId`) is drawn
from a counter; `idsByWire` keeps the handle a wire id was last given;
`virtualByConnector` knows the monitors we made, once the helper has said
which connector they got. A capture is stored under its monitor's handle
and owns a source, which the capability holds too: sources live in a heap
of their own (`sources`), so that two holders see the same one.

A source is available while a reader is linked and the stream's memory is
known. What the reader does with the stream is left out, and so are
input, the clipboard, the cursor and the desktop's sound, which have
channels of their own, the stream's rectangle, a monitor's scale (a
floating-point number nothing here looks at) and the log lines.
-/
import Fjarr.Lib.Transition

namespace Fjarr.Desktop

open Lib

/-- A monitor's handle; 0 is `INVALID_MONITOR`. -/
abbrev MonitorId := Nat

abbrev SourceId := Nat

/-! ## Wire ids -/

/-- `MonitorKey`. -/
structure MonitorKey where
  vendor : String := ""
  model : String := ""
  serial : String := ""
  connector : String
  isVirtual : Bool := false
  deriving DecidableEq, Repr

/-- The loop of `identity_slug` over one part: what was kept so far, and
whether a dash is due. -/
def slugPart : List Char → List Char × Bool → List Char × Bool
  | [], out => out
  | c :: cs, (out, dash) =>
    if c.isAlphanum then
      slugPart cs ((if dash && !out.isEmpty then out ++ ['-'] else out) ++ [c.toLower], false)
    else slugPart cs (out, true)

/-- `identity_slug`: parts are separated like any other run. -/
def identitySlug (vendor model serial : String) : String :=
  let out := (slugPart vendor.toList ([], false)).1
  let out := (slugPart model.toList (out, true)).1
  String.ofList (slugPart serial.toList (out, true)).1

/-- `seen`: how many physical monitors with a serial have this slug. -/
def seenSlug (set : List MonitorKey) (slug : String) : Nat :=
  set.countP fun m =>
    !m.isVirtual && m.serial ≠ "" && identitySlug m.vendor m.model m.serial = slug

/-- The second loop of `wire_ids`, `n` virtual monitors in. -/
def wireIdsFrom (set : List MonitorKey) : Nat → List MonitorKey → List String
  | _, [] => []
  | n, m :: rest =>
    if m.isVirtual then ("virtual-" ++ toString (n + 1)) :: wireIdsFrom set (n + 1) rest
    else
      let slug := if m.serial = "" then "" else identitySlug m.vendor m.model m.serial
      -- no serial, or two monitors that claim the same one: the connector
      (if slug ≠ "" && seenSlug set slug = 1 then slug else identitySlug "" m.connector "") ::
        wireIdsFrom set n rest

/-- `wire_ids`. -/
def wireIds (set : List MonitorKey) : List String := wireIdsFrom set 0 set

/-! ## State -/

/-- `Monitor`. -/
structure Monitor where
  id : MonitorId
  wireId : String
  key : MonitorKey
  label : String := ""
  primary : Bool := false
  x : Int := 0
  y : Int := 0
  width : Int := 0
  height : Int := 0
  cursorInVideo : Bool := false
  deriving DecidableEq, Repr

/-- `MonitorSource`: `reader` is the monitor its reader was started for. -/
structure Source where
  reader : Option MonitorId := none
  memoryKnown : Bool := false
  reason : String := "waiting for the desktop session to hand the stream over"
  deriving DecidableEq, Repr

/-- `MonitorSource::available`. -/
def Source.available (s : Source) : Bool := s.reader.isSome && s.memoryKnown

/-- `Capture`. -/
structure Capture where
  id : Nat
  source : SourceId
  connector : String := ""
  cursor : String
  restarts : Nat := 0
  memoryRestarts : Nat := 0
  isVirtual : Bool := false
  fallback : String := ""
  deriving DecidableEq, Repr

/-- What the backend sends the helper. -/
inductive Message where
  | welcome
  | refuse (reason : String)
  | startCapture (id : Nat) (connector cursor : String)
  | stopCapture (id : Nat)
  | addVirtual (id : Nat) (width height : Int) (cursor : String)
  deriving DecidableEq, Repr

/-- `MAX_MEMORY_RESTARTS`. -/
def maxMemoryRestarts : Nat := 3

/-- `desktop::proto::PROTOCOL`. -/
def protocol : String := "fjarr-desktop-1"

/-- `MutterBackend`. -/
structure Backend where
  connected : Bool := false
  welcomed : Bool := false
  monitors : List Monitor := []
  idsByWire : Std.ExtTreeMap String MonitorId := {}
  nextMonitor : MonitorId := 1
  captures : Std.ExtTreeMap MonitorId Capture := {}
  nextId : Nat := 1
  embedded : Std.ExtTreeSet MonitorId := {}
  virtualByConnector : Std.ExtTreeMap String MonitorId := {}
  sources : SourceId → Source := fun _ => {}
  nextSource : SourceId := 0
  sent : List Message := []

namespace Backend

variable (b : Backend) (monitor : MonitorId)

/-! ## Sources -/

def setSource (s : SourceId) (v : Source) : Backend :=
  { b with sources := Function.update b.sources s v }

/-- `MonitorSource::lost`. -/
def lost (s : SourceId) (why : String) : Backend :=
  b.setSource s { b.sources s with reader := none, reason := why }

/-- `MonitorSource::ready`. -/
def ready (s : SourceId) (monitor : MonitorId) : Backend :=
  b.setSource s { b.sources s with reader := some monitor, reason := "" }

/-- `std::make_shared<MonitorSource>`. -/
def newSource : Backend × SourceId :=
  ({ b.setSource b.nextSource {} with nextSource := b.nextSource + 1 }, b.nextSource)

/-! ## Messages to the helper -/

def send (m : Message) : Backend :=
  if b.connected then { b with sent := b.sent ++ [m] } else b

/-- `send_start`; sent again when a helper arrives. -/
def sendStart (c : Capture) : Backend :=
  if !b.welcomed then b else b.send (.startCapture c.id c.connector c.cursor)

/-! ## Captures -/

def find (b : Backend) (monitor : MonitorId) : Option Monitor :=
  b.monitors.find? fun m => m.id = monitor

/-- `captures_[monitor]`, with a source: the entry `start_capture` works on. -/
def captureEntry : Backend × Capture :=
  match b.captures[monitor]? with
  | some c => (b, c)
  | none =>
    let (b, source) := b.newSource
    (b, { id := 0, source, cursor := "" })

/-- `start_capture`. -/
def startCapture (cursorInVideo : Bool) :
    Backend × Option SourceId :=
  match (b.captures[monitor]?).filter Capture.isVirtual with
  -- a virtual monitor we made is captured by the stream that made it
  | some c => (b, some c.source)
  | none =>
    match b.find monitor with
    | none => (b, none)
    | some m =>
      let (b, c) := b.captureEntry monitor
      let c := { c with
        fallback := ""
        id := b.nextId
        connector := m.key.connector
        cursor := if cursorInVideo || b.embedded.contains monitor then "embedded" else "metadata" }
      let b := { b with nextId := b.nextId + 1, captures := b.captures.insert monitor c }
      (b.sendStart c, some c.source)

/-- `stop_capture`. -/
def stopCapture (b : Backend) (monitor : MonitorId) : Backend :=
  match b.captures[monitor]? with
  | none => b
  | some c =>
    -- its own stream; it goes with `destroy_virtual_monitor`
    if c.isVirtual then b
    else
      let b := (b.send (.stopCapture c.id)).lost c.source "capture stopped"
      { b with captures := b.captures.erase monitor, embedded := b.embedded.erase monitor }

/-- `create_virtual_monitor`; `none` is `INVALID_MONITOR`. -/
def createVirtualMonitor (width height : Int) : Backend × Option MonitorId :=
  if !b.connected || !b.welcomed || width ≤ 0 || height ≤ 0 then (b, none)
  else
    let id := b.nextMonitor
    let (b, source) := b.newSource
    let c : Capture := { id := b.nextId, source, cursor := "metadata", isVirtual := true }
    let b := { b with
      nextMonitor := b.nextMonitor + 1
      nextId := b.nextId + 1
      captures := b.captures.insert id c }
    (b.send (.addVirtual c.id width height c.cursor), some id)

/-- `destroy_virtual_monitor`. -/
def destroyVirtualMonitor : Backend :=
  match b.captures[monitor]? with
  | none => b
  | some c =>
    if !c.isVirtual then b
    else
      let b := (b.send (.stopCapture c.id)).lost c.source "the virtual monitor was removed"
      { b with
        virtualByConnector :=
          if c.connector = "" then b.virtualByConnector else b.virtualByConnector.erase c.connector
        captures := b.captures.erase monitor }

/-! ## What the readers ask for -/

/-- The end of every restart: the old stream stops, a new one starts. -/
def again (c : Capture) : Backend :=
  let b := b.send (.stopCapture c.id)
  let c := { c with id := b.nextId }
  { b with nextId := b.nextId + 1, captures := b.captures.insert monitor c }.sendStart c

/-- `restart_capture`, and whether the cursor fell back into the video. -/
def restartCapture : Backend × Bool :=
  match b.captures[monitor]? with
  | none => (b, false)
  | some c =>
    -- restarting would make another monitor
    if c.isVirtual then (b, false)
    else if c.restarts ≥ 3 then (b, false)
    else
      let b := { b with embedded := b.embedded.insert monitor }
      let b := b.again monitor { c with restarts := c.restarts + 1, cursor := "embedded" }
      if c.cursor ≠ "embedded" then
        ({ b with
          monitors := b.monitors.map fun m =>
            if m.id = monitor then { m with cursorInVideo := true } else m }, true)
      else (b, false)

/-- `restart_for_memory`; `restart_for_memory_change` is its guard. -/
def restartForMemory : Backend :=
  match b.captures[monitor]? with
  | none => b
  | some c =>
    if c.isVirtual || c.memoryRestarts ≥ maxMemoryRestarts then b
    else b.again monitor { c with memoryRestarts := c.memoryRestarts + 1 }

/-- `fall_back_to_shm`. -/
def fallBackToShm (why : String) : Backend :=
  match b.captures[monitor]? with
  | none => b
  | some c => if c.fallback ≠ "" then b else b.again monitor { c with fallback := why }

/-! ## The layout -/

/-- One entry of a `monitors` message. -/
structure Entry where
  key : MonitorKey
  name : String := ""
  primary : Bool := false
  x : Int := 0
  y : Int := 0
  width : Int := 0
  height : Int := 0
  deriving DecidableEq, Repr

/-- The handle `set_monitors` finds for an entry: ours, by the connector
it got, or the one its wire id had. -/
def knownHandle (key : MonitorKey) (wire : String) : Option MonitorId :=
  match if key.isVirtual then b.virtualByConnector[key.connector]? else none with
  | some v => some v
  | none => b.idsByWire[wire]?

/-- One turn of the loop of `set_monitors`. -/
def placeMonitor (e : Entry) (wire : String) : Backend × Monitor :=
  let id := (b.knownHandle e.key wire).getD b.nextMonitor
  let b := { b with
    idsByWire := b.idsByWire.insert wire id
    nextMonitor := if (b.knownHandle e.key wire).isNone then b.nextMonitor + 1 else b.nextMonitor }
  (b,
    { id
      wireId := wire
      key := e.key
      label := e.name
      primary := e.primary
      x := e.x
      y := e.y
      width := e.width
      height := e.height
      cursorInVideo := b.embedded.contains id })

/-- The loop of `set_monitors`. -/
def placeMonitors (b : Backend) : List (Entry × String) → Backend × List Monitor
  | [] => (b, [])
  | (e, wire) :: rest =>
    let (b, m) := b.placeMonitor e wire
    let (b, ms) := b.placeMonitors rest
    (b, m :: ms)

/-- Captures asked for before the helper arrived go out now. -/
def startWaiting (b : Backend) : List (MonitorId × Capture) → Backend
  | [] => b
  | (monitor, c) :: rest =>
    if (b.find monitor).isSome && !(b.sources c.source).available then
      (b.sendStart c).startWaiting rest
    else b.startWaiting rest

/-- The wire ids of a `monitors` message. -/
def entryWires (list : List Entry) : List String := wireIds (list.map Entry.key)

/-- `set_monitors` up to the callback. -/
def setMonitors (list : List Entry) : Backend :=
  let (b, next) := b.placeMonitors (list.zip (entryWires list))
  let b := { b with monitors := next }
  b.startWaiting b.captures.toList

/-! ## Other messages of the helper -/

/-- `capture-started`, over the captures: `linked` is false when the
stream reader could not link. -/
def captureStarted (b : Backend) (id : Nat) (linked : Bool) : List (MonitorId × Capture) → Backend
  | [] => b
  | (monitor, c) :: rest =>
    let b :=
      if c.id = id then
        if linked then b.ready c.source monitor
        else b.lost c.source "the stream reader could not link to the display server's stream"
      else b
    b.captureStarted id linked rest

/-- `virtual-connector`, over the captures: a virtual monitor keeps the
handle it was asked for under. -/
def virtualConnector (b : Backend) (id : Nat) (connector : String) :
    List (MonitorId × Capture) → Backend
  | [] => b
  | (monitor, c) :: rest =>
    let b :=
      if c.id = id && c.isVirtual then
        { b with
          captures := b.captures.insert monitor { c with connector }
          virtualByConnector := b.virtualByConnector.insert connector monitor }
      else b
    b.virtualConnector id connector rest

end Backend

end Fjarr.Desktop
