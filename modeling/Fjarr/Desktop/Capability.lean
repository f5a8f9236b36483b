/-
Fjarr.Desktop.Capability — the screens half of
`capabilities/desktop_capability.cpp`, over the backend: which tracks
there are, whether sharing is stopped, and the virtual monitors of each
session.

Everything runs on the core loop. The backend's callbacks are calls into
the capability made where the backend makes them, so a helper message is
one step of both. `World` is the capability's state with its driver
inside; `events` records, in order, what every session was sent, with a
mark where it attached.

Input and the clipboard are in `Fjarr.Desktop.Messages`. Tracks
themselves (`specs`, `reoffer`, `update_tracks`) and the cursor are left
out: they are computed from `screens` and change nothing. The driver is
taken to be there, as it is on a robot with a desktop from `configure` on.
-/
import Fjarr.Lib.Maps
import Fjarr.Desktop.Backend

namespace Fjarr.Desktop

open Lib

abbrev SessionId := String

/-- A message as its answer needs it: whether it is a request, and its id. -/
structure Call where
  request : Bool := true
  id : Nat
  deriving DecidableEq, Repr

/-- `CaptureLost`. -/
inductive CaptureLost where
  | monitorGone | sourceStopped | sessionEnded | sharingStopped
  deriving DecidableEq, Repr

/-- The states of a `sharing` event. -/
inductive Sharing where
  | on | stopped
  deriving DecidableEq, Repr

inductive Reply where
  | ok
  | monitor (wire : String)
  | error (code message : String)
  deriving DecidableEq, Repr

/-- What a session is sent; `attached` marks where it begins. -/
inductive Event where
  | attached
  | sharing (state : Sharing)
  | desktop (running : Bool)
  | monitors (list : List Monitor) (reason : String)
  | reply (request : Nat) (r : Reply)
  deriving DecidableEq, Repr

/-- `Impl::Screen`. -/
structure Screen where
  monitor : Monitor
  source : Option SourceId
  deriving DecidableEq, Repr

/-- `Impl::PendingAdd`. -/
structure PendingAdd where
  session : SessionId
  request : Nat
  deriving DecidableEq, Repr

/-- `MAX_VIRTUAL_PER_SESSION`. -/
def maxVirtualPerSession : Nat := 2

structure World where
  backend : Backend := {}
  sessions : Std.ExtTreeSet SessionId := {}
  screens : Std.ExtTreeMap String Screen := {}
  hadMonitors : Bool := false
  stopped : Std.ExtTreeSet String := {}
  desktopRunning : Bool := false
  virtuals : Std.ExtTreeMap SessionId (List MonitorId) := {}
  pendingAdds : Std.ExtTreeMap MonitorId PendingAdd := {}
  events : List (SessionId × Event) := []

namespace World

variable (w : World) (id : SessionId)

/-- `SessionContext::event`, `result`, `fail`. -/
def tell (e : Event) : World :=
  { w with events := w.events ++ [(id, e)] }

/-- An answer, which only a request gets. -/
def answer (msg : Call) (r : Reply) : World :=
  if msg.request then w.tell id (.reply msg.id r) else w

/-- The same event to every session. -/
def tellAll (e : Event) : World :=
  { w with events := w.events ++ w.sessions.toList.map fun id => (id, e) }

/-! ## Sharing -/

/-- The state `tell_sharing` sends. -/
def sharing : Sharing := if w.stopped.isEmpty then .on else .stopped

/-- The screen `on_capture_lost` finds: the first whose monitor it is. -/
def screenOf (monitor : MonitorId) : Option String :=
  (w.screens.toList.find? fun (_, sc) => sc.monitor.id = monitor).map Prod.fst

/-- `on_capture_lost`. -/
def onCaptureLost (monitor : MonitorId) (why : CaptureLost) : World :=
  if why ≠ .sharingStopped then w
  else
    match w.screenOf monitor with
    | none => w
    | some wire =>
      let first := w.stopped.isEmpty
      let w := { w with stopped := w.stopped.insert wire }
      if !first then w else w.tellAll (.sharing w.sharing)

/-- `capture`: the backend has a local cursor. -/
def capture (m : Monitor) : World × Option SourceId :=
  let (backend, source) := w.backend.startCapture m.id false
  ({ w with backend }, source)

/-- The loop of `resume` over the stopped screens. -/
def recapture (w : World) : List String → World
  | [] => w
  | wire :: rest =>
    match w.screens[wire]? with
    -- gone since
    | none => w.recapture rest
    | some sc =>
      let w := { w with backend := w.backend.stopCapture sc.monitor.id }
      let (w, source) := w.capture sc.monitor
      { w with screens := w.screens.insert wire { sc with source } }.recapture rest

/-- `resume`. -/
def resume : World :=
  if w.stopped.isEmpty then w
  else
    let w := w.recapture w.stopped.toList
    let w := { w with stopped := {} }
    w.tellAll (.sharing w.sharing)

/-- `resume-sharing`: any session may ask for it. -/
def resumeSharing (msg : Call) : World := w.resume.answer id msg .ok

/-! ## The monitor set -/

/-- `answer_adds`. -/
def answerAdds (w : World) : List Monitor → World
  | [] => w
  | m :: rest =>
    match w.pendingAdds[m.id]? with
    | none => w.answerAdds rest
    | some p =>
      let w :=
        if w.sessions.contains p.session then w.tell p.session (.reply p.request (.monitor m.wireId))
        else w
      { w with pendingAdds := w.pendingAdds.erase m.id }.answerAdds rest

/-- The first loop of `on_monitors`: screens whose monitor has gone. -/
def dropGone (w : World) (present : List String) : List (String × Screen) → World
  | [] => w
  | (wire, sc) :: rest =>
    if present.contains wire then w.dropGone present rest
    else
      { w with
        stopped := w.stopped.erase wire
        backend := w.backend.stopCapture sc.monitor.id
        screens := w.screens.erase wire }.dropGone present rest

/-- The second loop of `on_monitors`: the same monitor keeps its track. -/
def addNew (w : World) : List Monitor → World
  | [] => w
  | m :: rest =>
    match w.screens[m.wireId]? with
    | some sc => { w with screens := w.screens.insert m.wireId { sc with monitor := m } }.addNew rest
    | none =>
      let (w, source) := w.capture m
      { w with screens := w.screens.insert m.wireId ⟨m, source⟩ }.addNew rest

/-- `ordered`: left to right, then top to bottom. -/
def ordered : List Monitor :=
  (w.screens.toList.map fun (_, sc) => sc.monitor).mergeSort fun a b =>
    a.x < b.x || (a.x = b.x && (a.y < b.y || (a.y = b.y && a.wireId ≤ b.wireId)))

/-- `announce`. -/
def announce (reason : String) : World := w.tellAll (.monitors w.ordered reason)

/-- The two loops of `on_monitors`: diff by wire id. -/
def updateScreens (monitors : List Monitor) : World :=
  (w.dropGone (monitors.map Monitor.wireId) w.screens.toList).addNew monitors

/-- `set_changed`: a screen goes, or a new one comes. -/
def setChanged (monitors : List Monitor) : Bool :=
  w.screens.toList.any (fun (wire, _) => !(monitors.map Monitor.wireId).contains wire) ||
    monitors.any fun m => !w.screens.contains m.wireId

/-- `on_monitors`; the adds are answered after the `monitors` event, so
that the client hears of the monitor first. -/
def onMonitors (monitors : List Monitor) : World :=
  let reason :=
    if !w.hadMonitors then "initial" else if w.setChanged monitors then "hotplug" else "mode-change"
  let w := (w.updateScreens monitors).announce reason
  { w with hadMonitors := w.hadMonitors || !monitors.isEmpty }.answerAdds monitors

/-! ## Sessions -/

/-- `session_attached`. -/
def sessionAttached : World :=
  let w := { w with sessions := w.sessions.insert id }.tell id .attached
  let w := w.tell id (.desktop w.desktopRunning)
  if !w.stopped.isEmpty then w.tell id (.sharing w.sharing) else w

/-- The loop of `remove_virtuals`. -/
def removeEach (w : World) : List MonitorId → World
  | [] => w
  | m :: rest =>
    { w with
      pendingAdds := w.pendingAdds.erase m
      backend := w.backend.destroyVirtualMonitor m }.removeEach rest

/-- `remove_virtuals`. -/
def removeVirtuals : World :=
  match w.virtuals[id]? with
  | none => w
  | some mine =>
    let w := w.removeEach mine
    { w with virtuals := w.virtuals.erase id }

/-- `session_detached`. -/
def sessionDetached : World :=
  { w with sessions := w.sessions.erase id }.removeVirtuals id

/-- `on_session_changed`. -/
def onSessionChanged (running : Bool) : World :=
  if running = w.desktopRunning then w
  else
    let w := { w with desktopRunning := running }
    w.tellAll (.desktop running)

/-! ## Virtual monitors -/

/-- The monitors a session added. -/
def mine : List MonitorId := (w.virtuals[id]?).getD []

/-- `monitor_for` of `desk-` and a wire id. -/
def monitorFor (wire : String) : Option Monitor :=
  w.backend.monitors.find? fun m => m.wireId = wire

/-- `add-monitor`. -/
def addMonitor (msg : Call) (width height : Int) : World :=
  if width < 320 || width > 3840 || height < 240 || height > 2160 then
    w.answer id msg
      (.error "payload-invalid" "a virtual monitor is 320-3840 wide and 240-2160 high")
  else if (w.mine id).length ≥ maxVirtualPerSession then
    w.answer id msg (.error "unavailable" "a session may add at most 2 monitors")
  else
    match w.backend.createVirtualMonitor width height with
    | (backend, none) =>
      { w with backend }.answer id msg
        (.error "unavailable" "the robot's desktop would not add a monitor now")
    | (backend, some m) =>
      { w with
        backend
        virtuals := w.virtuals.insert id (w.mine id ++ [m])
        pendingAdds := w.pendingAdds.insert m ⟨id, msg.id⟩ }.answerAdds backend.monitors

/-- The timer of a pending add. -/
def addTimedOut (m : MonitorId) : World :=
  match w.pendingAdds[m]? with
  | none => w
  | some p =>
    let w :=
      if w.sessions.contains p.session then
        w.tell p.session (.reply p.request
          (.error "unavailable" "the monitor did not appear within 5 s"))
      else w
    { w with
      virtuals := w.virtuals.insert p.session ((w.mine p.session).filter (· ≠ m))
      backend := w.backend.destroyVirtualMonitor m
      pendingAdds := w.pendingAdds.erase m }

/-- `remove-monitor`. -/
def removeMonitor (msg : Call) (wire : String) : World :=
  match (w.monitorFor wire).filter fun mon => mon.id ∈ w.mine id with
  | none =>
    w.answer id msg (.error "payload-invalid"
      ("no virtual monitor '" ++ wire ++ "' was added by this session"))
  | some mon =>
    { w with
      virtuals := w.virtuals.insert id ((w.mine id).filter (· ≠ mon.id))
      pendingAdds := w.pendingAdds.erase mon.id
      backend := w.backend.destroyVirtualMonitor mon.id }.answer id msg .ok

/-! ## The helper -/

/-- The captures of a `sharing-stopped`: every capture went with it. -/
def sharingStopped (w : World) : List (MonitorId × Capture) → World
  | [] => w
  | (monitor, c) :: rest =>
    -- a virtual monitor's stream was the monitor: it leaves as a hot-plug
    if c.isVirtual then w.sharingStopped rest
    else
      ({ w with backend := w.backend.lost c.source "sharing stopped on the robot" }.onCaptureLost
        monitor .sharingStopped).sharingStopped rest

/-- `capture-lost`, over the captures. -/
def captureLost (w : World) (id : Nat) (gone : Bool) : List (MonitorId × Capture) → World
  | [] => w
  | (monitor, c) :: rest =>
    let w :=
      if c.id = id then
        { w with backend := w.backend.lost c.source "the stream stopped" }.onCaptureLost monitor
          (if c.isVirtual || gone then .monitorGone else .sourceStopped)
      else w
    w.captureLost id gone rest

/-- The loop of `drop_helper` over the captures. -/
def loseAll (w : World) : List (MonitorId × Capture) → World
  | [] => w
  | (monitor, c) :: rest =>
    ({ w with backend := w.backend.lost c.source "the desktop session ended" }.onCaptureLost
      monitor .sessionEnded).loseAll rest

/-- `drop_helper`. -/
def dropHelper : World :=
  if !w.backend.connected then w
  else
    let wasRunning := w.backend.welcomed
    let w := { w with backend := { w.backend with connected := false, welcomed := false } }
    let w := w.loseAll w.backend.captures.toList
    let w := { w with backend := { w.backend with
      captures := w.backend.captures.filter fun _ c => !c.isVirtual
      virtualByConnector := {}
      monitors := [] } }
    let w := w.onMonitors []
    -- after the monitors: they went with it
    if wasRunning then w.onSessionChanged false else w

/-- `set_monitors`. -/
def setMonitors (w : World) (list : List Backend.Entry) : World :=
  let w := { w with backend := w.backend.setMonitors list }
  w.onMonitors w.backend.monitors

end World

/-- The helper's messages; those of input, the clipboard and the sound,
and `capture-failed`, change nothing here. -/
inductive Helper where
  | hello (proto : String)
  | monitors (list : List Backend.Entry)
  /-- `fd` when the message carries the stream, `linked` when the stream
  reader linked to it. -/
  | captureStarted (id : Nat) (fd linked : Bool)
  | captureLost (id : Nat) (reason : String)
  | virtualConnector (id : Nat) (connector : String)
  | sharingStopped
  | other
  deriving DecidableEq, Repr

/-- `handle`. -/
def World.handle (w : World) : Helper → World
  | .hello proto =>
    if proto ≠ protocol then
      { w with backend := w.backend.send (.refuse ("this agent speaks " ++ protocol)) }.dropHelper
    else
      { w with backend := { w.backend with welcomed := true }.send .welcome }.onSessionChanged true
  | m =>
    if !w.backend.welcomed then w
    else
      match m with
      | .monitors list => w.setMonitors list
      | .captureStarted id fd linked =>
        if fd then
          { w with backend := w.backend.captureStarted id linked w.backend.captures.toList }
        else w
      | .captureLost id reason => w.captureLost id (reason = "monitor-gone") w.backend.captures.toList
      | .virtualConnector id connector =>
        { w with backend := w.backend.virtualConnector id connector w.backend.captures.toList }
      | .sharingStopped => w.sharingStopped w.backend.captures.toList
      | _ => w

/-! ## The system -/

/-- What a monitor's stream reader tells the backend. -/
inductive Reader where
  /-- The stream's memory is known. -/
  | memory
  | stalled
  | memoryChanged
  | fallback (why : String)
  | failed (why : String)
  deriving DecidableEq, Repr

/-- A reader's callback: it was started for `monitor` and sits in `s`. -/
def World.onReader (w : World) (s : SourceId) (monitor : MonitorId) : Reader → World
  | .memory =>
    { w with backend := w.backend.setSource s { w.backend.sources s with memoryKnown := true } }
  | .stalled =>
    let (backend, fellBack) := w.backend.restartCapture monitor
    let w := { w with backend }
    if fellBack then w.onMonitors w.backend.monitors else w
  | .memoryChanged => { w with backend := w.backend.restartForMemory monitor }
  | .fallback why => { w with backend := w.backend.fallBackToShm monitor why }
  | .failed why =>
    match w.backend.captures[monitor]? with
    | none => w
    | some c => { w with backend := w.backend.lost c.source why }

inductive Act where
  | attach (id : SessionId)
  | detach (id : SessionId)
  | resumeSharing (id : SessionId) (msg : Call)
  | addMonitor (id : SessionId) (msg : Call) (width height : Int)
  | removeMonitor (id : SessionId) (msg : Call) (wire : String)
  | addTimedOut (m : MonitorId)
  /-- A helper connects (`on_accept`). -/
  | connect
  | helper (m : Helper)
  /-- The helper's connection closed or failed. -/
  | disconnect
  | reader (s : SourceId) (r : Reader)
  deriving DecidableEq, Repr

/-- One callback of the core loop. -/
def step (w : World) : Act → Option World
  | .attach id => if id ∈ w.sessions then none else some (w.sessionAttached id)
  | .detach id => if id ∈ w.sessions then some (w.sessionDetached id) else none
  | .resumeSharing id msg => if id ∈ w.sessions then some (w.resumeSharing id msg) else none
  | .addMonitor id msg width height =>
    if id ∈ w.sessions then some (w.addMonitor id msg width height) else none
  | .removeMonitor id msg wire =>
    if id ∈ w.sessions then some (w.removeMonitor id msg wire) else none
  | .addTimedOut m => if m ∈ w.pendingAdds then some (w.addTimedOut m) else none
  | .connect =>
    if w.backend.connected then none
    else some { w with backend := { w.backend with connected := true } }
  | .helper m => if w.backend.connected then some (w.handle m) else none
  | .disconnect => if w.backend.connected then some w.dropHelper else none
  | .reader s r => (w.backend.sources s).reader.map fun monitor => w.onReader s monitor r

/-- Any callbacks in any order, from a capability just configured. -/
def system : System World Act where
  init := {}
  step := step

end Fjarr.Desktop
