/-
Fjarr.Desktop.Stopped — captures while sharing is stopped.

A stop marks every capture's source lost and leaves the captures where
they are. Four places ask the helper for a capture: a resume, a layout
(for every capture of a listed monitor whose source is not available, and
for every monitor that is new), and three callbacks of a stream reader.
Only the resume looks at whether sharing is stopped; so a stop holds as
long as the other places have nothing to start (`stays_stopped`), which a
layout message that lists the stopped monitor again is enough to end
(`layout_resumes_capture`).
-/
import Fjarr.Desktop.Handles
import Fjarr.Desktop.Sharing

namespace Fjarr.Desktop

open Lib Backend List Option

def Message.isStart : Message → Bool
  | .startCapture _ _ _ => true
  | _ => false

namespace Backend

/-- The `start-capture` messages sent so far. -/
def starts (b : Backend) : List Message := b.sent.filter Message.isStart

/-- The capture stored for an entry's monitor before the layout arrives. -/
def captureOf (b : Backend) (e : Entry) (wire : String) : Option Capture :=
  (b.knownHandle e.key wire).bind fun h => b.captures[h]?

end Backend

/-- The step has no capture to start: a layout lists only monitors whose
captures are available and, but for virtual monitors of ours, only
monitors that are screens already; a reader's callback is for a capture
it does not restart. -/
def Quiet (w : World) : Act → Prop
  | .helper (.monitors list) =>
    ∀ x ∈ list.zip (entryWires list),
      ((w.backend.captureOf x.1 x.2).all fun c => (w.backend.sources c.source).available) = true ∧
      (x.2 ∈ w.screens ∨ (w.backend.captureOf x.1 x.2).any Capture.isVirtual = true)
  | .reader s r =>
    ((w.backend.sources s).reader.bind fun monitor => w.backend.captures[monitor]?).all
      (fun c =>
        match r with
        | .stalled => c.isVirtual || decide (c.restarts ≥ 3)
        | .memoryChanged => c.isVirtual || decide (c.memoryRestarts ≥ maxMemoryRestarts)
        | .fallback _ => decide (c.fallback ≠ "")
        | _ => true) = true
  | _ => True

instance (w : World) : (a : Act) → Decidable (Quiet w a)
  | .helper (.monitors _) | .reader .. | .helper (.hello _) | .helper (.captureStarted ..)
  | .helper (.captureLost ..) | .helper (.virtualConnector ..) | .helper .sharingStopped
  | .helper .other | .attach _ | .detach _ | .resumeSharing .. | .addMonitor ..
  | .removeMonitor .. | .addTimedOut _ | .connect | .disconnect => by
    dsimp only [Quiet]
    infer_instance

/-! ## What sends no start -/

namespace Backend

section

variable (b : Backend)

theorem send_starts {m : Message} (hm : m.isStart = false) :
    (b.send m).starts = b.starts := by
  unfold send
  split
  · simp [starts, hm]
  · rfl

theorem stopCapture_starts (h : MonitorId) : (b.stopCapture h).starts = b.starts := by
  unfold stopCapture
  split
  · rfl
  split
  · rfl
  · exact send_starts b rfl

theorem destroyVirtualMonitor_starts (h : MonitorId) :
    (b.destroyVirtualMonitor h).starts = b.starts := by
  unfold destroyVirtualMonitor
  split
  · rfl
  split
  · rfl
  · exact send_starts b rfl

theorem createVirtualMonitor_starts (width height : Int) :
    (b.createVirtualMonitor width height).1.starts = b.starts := by
  unfold createVirtualMonitor
  split
  · rfl
  exact send_starts { b with
    sources := Function.update b.sources b.nextSource {}
    nextSource := b.nextSource + 1
    nextMonitor := b.nextMonitor + 1
    nextId := b.nextId + 1
    captures := b.captures.insert b.nextMonitor
      { id := b.nextId, source := b.nextSource, cursor := "metadata", isVirtual := true } } rfl

theorem captureStarted_starts (id : Nat) (linked : Bool)
    (l : List (MonitorId × Capture)) : (b.captureStarted id linked l).starts = b.starts := by
  induction l generalizing b with
  | nil => rfl
  | cons x l ih =>
    obtain ⟨h, c⟩ := x
    rw [captureStarted, ih]
    split
    · split <;> rfl
    · rfl

theorem virtualConnector_starts (id : Nat) (connector : String)
    (l : List (MonitorId × Capture)) : (b.virtualConnector id connector l).starts = b.starts := by
  induction l generalizing b with
  | nil => rfl
  | cons x l ih =>
    obtain ⟨h, c⟩ := x
    rw [virtualConnector, ih]
    split <;> rfl

end

theorem startWaiting_of_available {b : Backend} {l : List (MonitorId × Capture)}
    (hl : ∀ h c, (h, c) ∈ l → (b.find h).isSome = true →
      (b.sources c.source).available = true) : b.startWaiting l = b := by
  induction l with
  | nil => rfl
  | cons x l ih =>
    obtain ⟨h, c⟩ := x
    rw [startWaiting, if_neg]
    · exact ih fun h' c' hmem => hl h' c' (mem_cons_of_mem _ hmem)
    intro hwaits
    obtain ⟨hfind, havailable⟩ := Bool.and_eq_true_iff.mp hwaits
    rw [hl h c mem_cons_self hfind] at havailable
    cases havailable

theorem setMonitors_of_available {b : Backend} (hb : b.Fresh) {list : List Entry}
    (hlist : ∀ x ∈ list.zip (entryWires list),
      ((b.captureOf x.1 x.2).all fun c => (b.sources c.source).available) = true) :
    b.setMonitors list = b.place list := by
  obtain ⟨idsByWire, nextMonitor, monitors, heq⟩ := place_eq b list
  have hcaptures : (b.place list).captures = b.captures := by rw [heq]
  have hsources : (b.place list).sources = b.sources := by rw [heq]
  rw [setMonitors_eq]
  refine startWaiting_of_available fun h c hmem hfind => ?_
  rw [hcaptures, Std.ExtTreeMap.mem_toList_iff_getElem?_eq_some] at hmem
  obtain ⟨m, hm⟩ := isSome_iff_exists.mp hfind
  have hid : m.id = h := by simpa using find?_some hm
  obtain ⟨e, hin, hknown | ⟨-, hnew⟩⟩ := mem_placeMonitors (mem_of_find?_eq_some hm)
  · have havailable := hlist _ hin
    rw [captureOf, hknown, bind_some, hid, hmem] at havailable
    rw [hsources]
    exact havailable
  -- a handle drawn just now has no capture
  have hold : h < b.nextMonitor := hb.captures h (by rw [owner, hmem]; rfl)
  exact absurd hold (Nat.not_lt.mpr (hid ▸ hnew))

end Backend

namespace World

theorem dropGone_starts (w : World) (present : List String) (l : List (String × Screen)) :
    (w.dropGone present l).backend.starts = w.backend.starts := by
  induction l generalizing w with
  | nil => rfl
  | cons x l ih =>
    obtain ⟨wire, sc⟩ := x
    rw [dropGone]
    split
    · exact ih w
    · rw [ih]
      exact stopCapture_starts _ _

theorem dropGone_virtual (w : World) (present : List String) (l : List (String × Screen))
    {h : MonitorId} {s : SourceId} (howner : w.backend.owner h = some (s, true)) :
    (w.dropGone present l).backend.owner h = some (s, true) := by
  induction l generalizing w with
  | nil => exact howner
  | cons x l ih =>
    obtain ⟨wire, sc⟩ := x
    rw [dropGone]
    split
    · exact ih w howner
    refine ih _ ?_
    dsimp only
    rw [(stopCapture_spec w.backend sc.monitor.id).2]
    split
    · rename_i hsame
      rw [← hsame, howner]
      rfl
    · exact howner

variable {w : World}

theorem addNew_backend {ms : List Monitor}
    (hms : ∀ m ∈ ms, m.wireId ∈ w.screens ∨ ∃ s, w.backend.owner m.id = some (s, true)) :
    (w.addNew ms).backend = w.backend := by
  induction ms generalizing w with
  | nil => rfl
  | cons m ms ih =>
    have hrest : ∀ m' ∈ ms, m'.wireId ∈ w.screens ∨
        ∃ s, w.backend.owner m'.id = some (s, true) := fun m' hm' =>
      hms m' (mem_cons_of_mem _ hm')
    rw [addNew]
    split
    · refine ih fun m' hm' => (hrest m' hm').imp_left fun hin => ?_
      exact Std.ExtTreeMap.mem_insert.mpr (.inr hin)
    rename_i hscreen
    obtain ⟨s, howner⟩ := (hms m mem_cons_self).resolve_left fun hin => by
      rw [Std.ExtTreeMap.mem_iff_isSome_getElem?, hscreen] at hin
      cases hin
    have hstart : w.backend.startCapture m.id false = (w.backend, some s) := by
      rcases startCapture_cases w.backend m.id false with ⟨s', howner', heq⟩ | h | h
      · rw [howner] at howner'
        cases howner'
        exact heq
      · exact absurd howner (h.1 s)
      · exact absurd howner (h.1 s)
    simp only [capture, hstart]
    refine ih fun m' hm' => (hrest m' hm').imp_left fun hin => ?_
    exact Std.ExtTreeMap.mem_insert.mpr (.inr hin)

theorem onMonitors_starts {ms : List Monitor}
    (hms : ∀ m ∈ ms, m.wireId ∈ w.screens ∨ ∃ s, w.backend.owner m.id = some (s, true)) :
    (w.onMonitors ms).backend.starts = w.backend.starts := by
  obtain ⟨-, -, -, hscreens⟩ := dropGone_spec w (ms.map Monitor.wireId) w.screens.toList
  rw [onMonitors_backend, updateScreens, addNew_backend, dropGone_starts]
  intro m hm
  refine (hms m hm).imp (fun hin => ?_) fun ⟨s, howner⟩ => ⟨s, dropGone_virtual w _ _ howner⟩
  exact (hscreens m.wireId).mpr ⟨hin, fun h => h.2 (List.mem_map_of_mem hm)⟩

theorem setMonitors_starts (hw : w.backend.Fresh) {list : List Entry}
    (hquiet : Quiet w (.helper (.monitors list))) :
    (w.setMonitors list).backend.starts = w.backend.starts := by
  obtain ⟨idsByWire, nextMonitor, monitors, heq⟩ := place_eq w.backend list
  have hcaptures : (w.backend.place list).captures = w.backend.captures := by rw [heq]
  have hsent : (w.backend.place list).sent = w.backend.sent := by rw [heq]
  rw [setMonitors, setMonitors_of_available hw fun x hx => (hquiet x hx).1, onMonitors_starts]
  · rw [starts, hsent]
    rfl
  intro m hm
  obtain ⟨e, hin, hfrom⟩ := mem_placeMonitors hm
  refine (hquiet _ hin).2.imp_right fun hvirtual => ?_
  rcases hfrom with hknown | ⟨hnone, -⟩
  · rw [captureOf, hknown, bind_some, Option.any_eq_true] at hvirtual
    obtain ⟨c, hc, hvirtual⟩ := hvirtual
    refine ⟨c.source, ?_⟩
    show (w.backend.place list).owner m.id = _
    rw [owner, hcaptures, hc, map_some, hvirtual]
  · rw [captureOf, hnone] at hvirtual
    cases hvirtual

theorem removeEach_starts (w : World) (ms : List MonitorId) :
    (w.removeEach ms).backend.starts = w.backend.starts := by
  induction ms generalizing w with
  | nil => rfl
  | cons m ms ih =>
    rw [removeEach, ih]
    exact destroyVirtualMonitor_starts _ _

theorem sessionDetached_starts (w : World) (id : SessionId) :
    (w.sessionDetached id).backend.starts = w.backend.starts := by
  unfold sessionDetached removeVirtuals
  split
  · rfl
  · exact removeEach_starts { w with sessions := w.sessions.erase id } _

theorem addMonitor_starts (w : World) (id : SessionId) (msg : Call) (width height : Int) :
    (w.addMonitor id msg width height).backend.starts = w.backend.starts := by
  have hcreate := createVirtualMonitor_starts w.backend width height
  unfold addMonitor
  split
  · rw [answer_backend]
  split
  · rw [answer_backend]
  split
  · rename_i backend heq
    rw [heq] at hcreate
    rw [answer_backend]
    exact hcreate
  rename_i backend m heq
  rw [heq] at hcreate
  rw [answerAdds_backend]
  exact hcreate

theorem addTimedOut_starts (w : World) (m : MonitorId) :
    (w.addTimedOut m).backend.starts = w.backend.starts := by
  unfold addTimedOut
  split
  · rfl
  · dsimp only
    split <;> exact destroyVirtualMonitor_starts _ _

theorem removeMonitor_starts (w : World) (id : SessionId) (msg : Call) (wire : String) :
    (w.removeMonitor id msg wire).backend.starts = w.backend.starts := by
  unfold removeMonitor
  split
  · rw [answer_backend]
  · rw [answer_backend]
    exact destroyVirtualMonitor_starts _ _

theorem Loses.starts {w' : World} (h : Loses w w') : w'.backend.starts = w.backend.starts := by
  induction h with
  | refl w => rfl
  | lose source reason monitor why _ ih =>
    rw [ih, onCaptureLost_backend]
    rfl

theorem dropHelper_starts (w : World) : w.dropHelper.backend.starts = w.backend.starts := by
  rw [dropHelper_backend]
  split
  · rw [onMonitors_starts (by simp)]
    exact (Loses.loseAll _ _).starts
  · rfl

theorem handle_starts (hw : w.backend.Fresh) {m : Helper}
    (hquiet : Quiet w (.helper m)) : (w.handle m).backend.starts = w.backend.starts := by
  unfold handle
  split
  · split
    · rw [dropHelper_starts]
      exact send_starts _ rfl
    · rw [onSessionChanged_backend]
      exact send_starts { w.backend with welcomed := true } rfl
  split
  · rfl
  split
  · exact setMonitors_starts hw hquiet
  · split
    · exact captureStarted_starts _ _ _ _
    · rfl
  · exact (Loses.captureLost w _ _ _).starts
  · exact virtualConnector_starts _ _ _ _
  · exact (Loses.sharingStopped w _).starts
  · rfl

theorem onReader_starts {s : SourceId} {monitor : MonitorId} {r : Reader}
    (hreader : (w.backend.sources s).reader = some monitor) (hquiet : Quiet w (.reader s r)) :
    (w.onReader s monitor r).backend.starts = w.backend.starts := by
  rw [Quiet, hreader, bind_some] at hquiet
  cases hc : w.backend.captures[monitor]? with
  | none =>
    cases r with
    | memory => rfl
    | stalled => simp only [onReader, restartCapture, hc, Bool.false_eq_true, if_false]
    | memoryChanged => simp only [onReader, restartForMemory, hc]
    | fallback why => simp only [onReader, fallBackToShm, hc]
    | failed why => simp only [onReader, hc]
  | some c =>
    rw [hc, all_some] at hquiet
    cases r with
    | memory => rfl
    | stalled =>
      have hkept : w.backend.restartCapture monitor = (w.backend, false) := by
        simp only [restartCapture, hc]
        rcases Bool.or_eq_true_iff.mp hquiet with hvirtual | htried
        · rw [if_pos hvirtual]
        · rw [if_pos (of_decide_eq_true htried)]
          split <;> rfl
      simp only [onReader, hkept, Bool.false_eq_true, if_false]
    | memoryChanged => simp only [onReader, restartForMemory, hc, if_pos hquiet]
    | fallback why => simp only [onReader, fallBackToShm, hc, if_pos (of_decide_eq_true hquiet)]
    | failed why =>
      simp only [onReader, hc]
      rfl

end World

/-! ## Every callback -/

theorem step_starts {w w' : World} {a : Act} (hw : w.backend.Fresh) (hquiet : Quiet w a)
    (hresume : ∀ id msg, a ≠ .resumeSharing id msg) (hstep : step w a = some w') :
    w'.backend.starts = w.backend.starts := by
  cases a with
  | attach id =>
    obtain ⟨-, rfl⟩ := guarded_not.mp hstep
    unfold World.sessionAttached
    dsimp only
    split <;> rfl
  | detach id =>
    obtain ⟨-, rfl⟩ := guarded.mp hstep
    exact w.sessionDetached_starts id
  | resumeSharing id msg => exact absurd rfl (hresume id msg)
  | addMonitor id msg width height =>
    obtain ⟨-, rfl⟩ := guarded.mp hstep
    exact w.addMonitor_starts id msg width height
  | removeMonitor id msg wire =>
    obtain ⟨-, rfl⟩ := guarded.mp hstep
    exact w.removeMonitor_starts id msg wire
  | addTimedOut m =>
    obtain ⟨-, rfl⟩ := guarded.mp hstep
    exact w.addTimedOut_starts m
  | connect =>
    obtain ⟨-, rfl⟩ := guarded_not.mp hstep
    rfl
  | helper m =>
    obtain ⟨-, rfl⟩ := guarded.mp hstep
    exact World.handle_starts hw hquiet
  | disconnect =>
    obtain ⟨-, rfl⟩ := guarded.mp hstep
    exact w.dropHelper_starts
  | reader s r =>
    simp only [step, map_eq_some_iff] at hstep
    obtain ⟨monitor, hreader, rfl⟩ := hstep
    exact World.onReader_starts hreader hquiet

/-- **A stop holds.** After a `sharing-stopped` that any run leads to, for
as long as no session resumes and every callback has nothing to start, the
helper is sent no `start-capture`. -/
theorem stays_stopped {w w' w'' : World} {as : List Act} (hw : system.Reachable w)
    (hstopped : system.step w (.helper .sharingStopped) = some w')
    (hrun : system.run w' as = some w'')
    (hresume : ∀ id msg, Act.resumeSharing id msg ∉ as)
    (hquiet : system.AllSteps Quiet w' as) : w''.backend.starts = w'.backend.starts := by
  have hw' : system.Reachable w' := hw.step hstopped
  have hno : system.AllSteps (fun _ a => ∀ id msg, a ≠ .resumeSharing id msg) w' as :=
    system.allSteps_of_forall fun a ha _ id msg heq => hresume id msg (heq ▸ ha)
  refine system.run_induction (P := fun v => v.backend.starts = w'.backend.starts)
    (fun v a v' hv hQ hstep => ?_) rfl ((hquiet.and_reachable hw').and hno) hrun
  obtain ⟨⟨hreach, hq⟩, hnot⟩ := hQ
  exact (step_starts (fresh_of_reachable hreach) hq hnot hstep).trans hv

def oneMonitor : List Entry := [{ key := { connector := "DP-1" } }]

/-- One monitor, captured: what comes before the stop. -/
def untilStopped : List Act :=
  [.connect, .helper (.hello protocol), .helper (.monitors oneMonitor),
    .helper (.captureStarted 1 true true), .reader 0 .memory]

/-- A virtual monitor of a session beside it. -/
def addVirtual : List Act :=
  [.attach "s", .addMonitor "s" { id := 1 } 1920 1080, .helper (.virtualConnector 2 "Meta-0"),
    .helper (.captureStarted 2 true true), .reader 1 .memory,
    .helper (.monitors (oneMonitor ++ [{ key := { connector := "Meta-0", isVirtual := true } }]))]

/-- The monitor is unplugged, and only the virtual one stays. -/
def whileStopped : List Act :=
  [.helper (.monitors [{ key := { connector := "Meta-0", isVirtual := true } }]), .attach "t",
    .helper (.captureLost 1 "stopped")]

/-- The monitor is unplugged while sharing is stopped, a virtual monitor
stays, and a session comes. -/
theorem stays_stopped_unplugged : ∃ w w' w'',
    system.run system.init (untilStopped ++ addVirtual) = some w ∧
    step w (.helper .sharingStopped) = some w' ∧ system.run w' whileStopped = some w'' ∧
    w''.screens.keys = ["virtual-1"] ∧ w''.backend.starts = w'.backend.starts := by
  obtain ⟨w, hrun, hw⟩ : ∃ w, system.run system.init (untilStopped ++ addVirtual) = some w ∧
      ((step w (.helper .sharingStopped)).map fun w' =>
        (decide (system.AllSteps Quiet w' whileStopped),
          (system.run w' whileStopped).map fun w'' => w''.screens.keys)) =
      some (true, some ["virtual-1"]) := by
    rw [← map_eq_some_iff]
    decide +kernel
  obtain ⟨w', hstopped, hw'⟩ := map_eq_some_iff.mp hw
  obtain ⟨hquiet, hkeys⟩ := Prod.mk.inj hw'
  obtain ⟨w'', hrun', hscreens⟩ := map_eq_some_iff.mp hkeys
  exact ⟨w, w', w'', hrun, hstopped, hrun', hscreens,
    stays_stopped ⟨_, hrun⟩ hstopped hrun' (by simp [whileStopped]) (of_decide_eq_true hquiet)⟩

/-- **A layout resumes the capture.** The helper lists the monitor again:
its source is not available, so the capture is asked for a second time,
though nobody resumed. -/
theorem layout_resumes_capture : ∃ w w' w'', system.run system.init untilStopped = some w ∧
    step w (.helper .sharingStopped) = some w' ∧
    system.run w' [.helper (.monitors oneMonitor)] = some w'' ∧ w'.sharing = .stopped ∧
    w''.sharing = .stopped ∧ w'.backend.starts = [.startCapture 1 "DP-1" "metadata"] ∧
    w''.backend.starts = [.startCapture 1 "DP-1" "metadata", .startCapture 1 "DP-1" "metadata"] := by
  obtain ⟨w, hrun, hw⟩ : ∃ w, system.run system.init untilStopped = some w ∧
      ((step w (.helper .sharingStopped)).map fun w' =>
        ((w'.sharing, w'.backend.starts),
          (system.run w' [.helper (.monitors oneMonitor)]).map fun w'' =>
            (w''.sharing, w''.backend.starts))) =
      some ((.stopped, [.startCapture 1 "DP-1" "metadata"]),
        some (.stopped,
          [.startCapture 1 "DP-1" "metadata", .startCapture 1 "DP-1" "metadata"])) := by
    rw [← map_eq_some_iff]
    decide +kernel
  obtain ⟨w', hstopped, hw'⟩ := map_eq_some_iff.mp hw
  obtain ⟨hfirst, hsecond⟩ := Prod.mk.inj hw'
  obtain ⟨w'', hrun', hw''⟩ := map_eq_some_iff.mp hsecond
  obtain ⟨hsharing, hstarts⟩ := Prod.mk.inj hfirst
  obtain ⟨hsharing', hstarts'⟩ := Prod.mk.inj hw''
  exact ⟨w, w', w'', hrun, hstopped, hrun', hsharing, hsharing', hstarts, hstarts'⟩

end Fjarr.Desktop
