/-
Fjarr.Desktop.Sharing — what sessions believe about sharing.

The capability's own events, with any arguments: sessions come and go,
captures are lost for any reason, the monitor set changes, a session asks
to resume. A session believes what the last `sharing` event it was sent
says, and that sharing is on before the first (`view`).

The set of stopped screens is a subset of the screens, and only
`on_monitors` shrinks it without telling anybody. So sessions are told
the truth exactly as long as no `on_monitors` empties it while someone
watches (`sharing_truthful_iff`); after one that does, a session waits
for a resume that does nothing (`unplugged_while_stopped`).
-/
import Fjarr.Desktop.Capability

namespace Fjarr.Desktop

open Lib List

/-! ## The capability alone -/

inductive CapabilityAct where
  | attach (id : SessionId)
  | detach (id : SessionId)
  | captureLost (monitor : MonitorId) (why : CaptureLost)
  | monitors (list : List Monitor)
  | resumeSharing (id : SessionId) (msg : Call)
  deriving DecidableEq, Repr

/-- One event of the capability. -/
def capabilityStep (w : World) : CapabilityAct → Option World
  | .attach id => if id ∈ w.sessions then none else some (w.sessionAttached id)
  | .detach id => if id ∈ w.sessions then some (w.sessionDetached id) else none
  | .captureLost monitor why => some (w.onCaptureLost monitor why)
  | .monitors list => some (w.onMonitors list)
  | .resumeSharing id msg => if id ∈ w.sessions then some (w.resumeSharing id msg) else none

/-- Any events in any order. -/
def capability : System World CapabilityAct where
  init := {}
  step := capabilityStep

/-! ## What a session believes -/

def viewStep (id : SessionId) (now : Sharing) (e : SessionId × Event) : Sharing :=
  match e.2 with
  | .attached => if e.1 = id then .on else now
  | .sharing state => if e.1 = id then state else now
  | _ => now

/-- The state in the last `sharing` event since it attached, or on. -/
def view (events : List (SessionId × Event)) (id : SessionId) : Sharing :=
  events.foldl (viewStep id) .on

/-- Every session believes what is so. -/
def World.Truthful (w : World) : Prop := ∀ id ∈ w.sessions, view w.events id = w.sharing

/-- While some session believes sharing is stopped, a resume tells every
session that it is on. -/
def World.ResumeTells (w : World) : Prop :=
  (∃ id ∈ w.sessions, view w.events id = .stopped) → ∀ by' msg,
    ∀ id ∈ w.sessions, (id, Event.sharing .on) ∈ (w.resumeSharing by' msg).events.drop w.events.length ∧
      view (w.resumeSharing by' msg).events id = .on

/-- The event says nothing about sharing. -/
def Event.Aside : Event → Prop
  | .attached | .sharing _ => False
  | _ => True

theorem view_append_aside {events es : List (SessionId × Event)} (hes : ∀ e ∈ es, e.2.Aside)
    (id : SessionId) : view (events ++ es) id = view events id := by
  induction es using reverseRecOn with
  | nil => rw [append_nil]
  | append_singleton es e ih =>
    rw [← append_assoc, view, foldl_append]
    have hlast : e.2.Aside := hes e (by simp)
    have hrest := ih fun e' he' => hes e' (by simp [he'])
    obtain ⟨receiver, e⟩ := e
    cases e <;> first | exact hlast.elim | exact hrest

variable {w : World} {wire : String}

theorem view_tellAll {state : Sharing} {id : SessionId} (hid : id ∈ w.sessions) :
    view (w.tellAll (.sharing state)).events id = state := by
  have hfold : ∀ (ids : List SessionId) (now : Sharing), id ∈ ids ∨ now = state →
      (ids.map fun id' => (id', Event.sharing state)).foldl (viewStep id) now = state := by
    intro ids
    induction ids with
    | nil =>
      intro now hor
      exact hor.resolve_left (by simp)
    | cons id' ids ih =>
      intro now hor
      refine ih _ ?_
      show id ∈ ids ∨ (if id' = id then state else now) = state
      by_cases hsame : id' = id
      · exact .inr (if_pos hsame)
      · rw [if_neg hsame]
        refine hor.imp_left fun hmem => (mem_cons.mp hmem).resolve_left (Ne.symm hsame)
  rw [World.tellAll, view, foldl_append]
  exact hfold _ _ (.inl (Std.ExtTreeSet.mem_toList.mpr hid))

/-! ## What each part changes -/

/-- What the sharing state consists of, apart from the screens. -/
structure Told (w w' : World) : Prop where
  sessions : w'.sessions = w.sessions
  stopped : w'.stopped = w.stopped
  events : ∃ es, w'.events = w.events ++ es ∧ ∀ e ∈ es, e.2.Aside

namespace Told

variable {w w' w'' : World}

theorem same (hsessions : w'.sessions = w.sessions) (hstopped : w'.stopped = w.stopped)
    (hevents : w'.events = w.events) : Told w w' :=
  ⟨hsessions, hstopped, [], by rw [hevents, append_nil], by simp⟩

theorem refl (w : World) : Told w w := same rfl rfl rfl

theorem trans (h : Told w w') (h' : Told w' w'') : Told w w'' := by
  obtain ⟨es, hes, haside⟩ := h.events
  obtain ⟨es', hes', haside'⟩ := h'.events
  refine ⟨h'.sessions.trans h.sessions, h'.stopped.trans h.stopped, es ++ es', ?_, ?_⟩
  · rw [hes', hes, append_assoc]
  · intro e he
    exact (mem_append.mp he).elim (haside e) (haside' e)

theorem sharing (h : Told w w') : w'.sharing = w.sharing := by
  rw [World.sharing, World.sharing, h.stopped]

theorem view (h : Told w w') (id : SessionId) : view w'.events id = view w.events id := by
  obtain ⟨es, hes, haside⟩ := h.events
  rw [hes, view_append_aside haside]

theorem truthful (h : Told w w') : w'.Truthful ↔ w.Truthful := by
  simp only [World.Truthful, h.sessions, h.view, h.sharing]

variable (w : World)

theorem tell (id : SessionId) {e : Event} (he : e.Aside) : Told w (w.tell id e) :=
  ⟨rfl, rfl, [(id, e)], rfl, by simpa using he⟩

theorem answer (id : SessionId) (msg : Call) (r : Reply) :
    Told w (w.answer id msg r) := by
  unfold World.answer
  split
  · exact tell w id trivial
  · exact refl w

theorem answerAdds (ms : List Monitor) : Told w (w.answerAdds ms) := by
  induction ms generalizing w with
  | nil => exact refl w
  | cons m ms ih =>
    rw [World.answerAdds]
    split
    · exact ih w
    rename_i p hp
    have htell : Told w (if w.sessions.contains p.session then
        w.tell p.session (.reply p.request (.monitor m.wireId)) else w) := by
      split
      · exact tell w _ trivial
      · exact refl w
    refine htell.trans (Told.trans ?_ (ih _))
    exact same rfl rfl rfl

theorem removeEach (ms : List MonitorId) : Told w (w.removeEach ms) := by
  induction ms generalizing w with
  | nil => exact refl w
  | cons m ms ih =>
    refine Told.trans ?_ (ih _)
    exact same rfl rfl rfl

theorem removeVirtuals (id : SessionId) : Told w (w.removeVirtuals id) := by
  unfold World.removeVirtuals
  split
  · exact refl w
  · exact (removeEach w _).trans (same rfl rfl rfl)

theorem addNew (ms : List Monitor) : Told w (w.addNew ms) := by
  induction ms generalizing w with
  | nil => exact refl w
  | cons m ms ih =>
    rw [World.addNew]
    split
    · refine Told.trans ?_ (ih _)
      exact same rfl rfl rfl
    · refine Told.trans ?_ (ih _)
      exact same rfl rfl rfl

theorem recapture (wires : List String) : Told w (w.recapture wires) := by
  induction wires generalizing w with
  | nil => exact refl w
  | cons wire wires ih =>
    rw [World.recapture]
    split
    · exact ih w
    · refine Told.trans ?_ (ih _)
      exact same rfl rfl rfl

end Told

/-! ## The stopped screens -/

/-- A stopped screen is a screen. -/
def World.StoppedAreScreens (w : World) : Prop := ∀ wire ∈ w.stopped, wire ∈ w.screens

theorem addNew_mem (w : World) (ms : List Monitor) (h : wire ∈ w.screens) :
    wire ∈ (w.addNew ms).screens := by
  induction ms generalizing w with
  | nil => exact h
  | cons m ms ih =>
    rw [World.addNew]
    split <;> exact ih _ (Std.ExtTreeMap.mem_insert.mpr (.inr h))

theorem dropGone_spec (w : World) (present : List String) (l : List (String × Screen)) :
    (w.dropGone present l).sessions = w.sessions ∧ (w.dropGone present l).events = w.events ∧
    (∀ wire, wire ∈ (w.dropGone present l).stopped ↔
      wire ∈ w.stopped ∧ ¬ (wire ∈ l.map Prod.fst ∧ wire ∉ present)) ∧
    (∀ wire, wire ∈ (w.dropGone present l).screens ↔
      wire ∈ w.screens ∧ ¬ (wire ∈ l.map Prod.fst ∧ wire ∉ present)) := by
  induction l generalizing w with
  | nil => simp [World.dropGone]
  | cons x l ih =>
    obtain ⟨wire', sc⟩ := x
    rw [World.dropGone]
    split
    · rename_i hin
      have hin : wire' ∈ present := contains_iff_mem.mp hin
      obtain ⟨hsessions, hevents, hstopped, hscreens⟩ := ih w
      have hsame : ∀ wire, ¬ (wire ∈ l.map Prod.fst ∧ wire ∉ present) ↔
          ¬ (wire ∈ (wire', sc).1 :: l.map Prod.fst ∧ wire ∉ present) := by
        intro wire
        refine not_congr ⟨fun h => ⟨mem_cons_of_mem _ h.1, h.2⟩, fun h => ⟨?_, h.2⟩⟩
        refine (mem_cons.mp h.1).resolve_left ?_
        rintro rfl
        exact h.2 hin
      refine ⟨hsessions, hevents, fun wire => ?_, fun wire => ?_⟩
      · rw [hstopped, hsame, map_cons]
      · rw [hscreens, hsame, map_cons]
    rename_i hout
    have hout : wire' ∉ present := fun hmem => hout (contains_iff_mem.mpr hmem)
    obtain ⟨hsessions, hevents, hstopped, hscreens⟩ := ih { w with
      stopped := w.stopped.erase wire'
      backend := w.backend.stopCapture sc.monitor.id
      screens := w.screens.erase wire' }
    have hmem : ∀ wire, (wire' ≠ wire ∧ ¬ (wire ∈ l.map Prod.fst ∧ wire ∉ present)) ↔
        ¬ (wire ∈ (wire', sc).1 :: l.map Prod.fst ∧ wire ∉ present) := by
      intro wire
      constructor
      · rintro ⟨hne, hnot⟩ ⟨hin, hp⟩
        exact hnot ⟨(mem_cons.mp hin).resolve_left (Ne.symm hne), hp⟩
      intro hnot
      refine ⟨?_, fun h => hnot ⟨mem_cons_of_mem _ h.1, h.2⟩⟩
      rintro rfl
      exact hnot ⟨mem_cons_self, hout⟩
    refine ⟨hsessions, hevents, fun wire => ?_, fun wire => ?_⟩
    · rw [hstopped, map_cons, ← hmem, Std.ExtTreeSet.mem_erase]
      simp only [ne_eq, Std.LawfulEqCmp.compare_eq_iff_eq]
      tauto
    rw [hscreens, map_cons, ← hmem, Std.ExtTreeMap.mem_erase]
    simp only [ne_eq, Std.LawfulEqCmp.compare_eq_iff_eq]
    tauto

theorem sessionDetached_screens (w : World) (id : SessionId) :
    (w.sessionDetached id).screens = w.screens := by
  have heach : ∀ (ms : List MonitorId) (v : World), (v.removeEach ms).screens = v.screens := by
    intro ms
    induction ms with
    | nil => exact fun _ => rfl
    | cons m ms ih => exact fun v => ih _
  unfold World.sessionDetached World.removeVirtuals
  split
  · rfl
  · exact heach _ _

theorem answerAdds_screens (w : World) (ms : List Monitor) :
    (w.answerAdds ms).screens = w.screens := by
  induction ms generalizing w with
  | nil => rfl
  | cons m ms ih =>
    rw [World.answerAdds]
    split
    · exact ih w
    rw [ih]
    dsimp only
    split <;> rfl

theorem onMonitors_spec (hinv : w.StoppedAreScreens) (ms : List Monitor) :
    (w.onMonitors ms).sessions = w.sessions ∧
    (∀ id, view (w.onMonitors ms).events id = view w.events id) ∧
    (∀ wire, wire ∈ (w.onMonitors ms).stopped ↔ wire ∈ w.stopped ∧ wire ∈ ms.map Monitor.wireId) ∧
    (w.onMonitors ms).StoppedAreScreens := by
  obtain ⟨hsessions, hevents, hstopped, hscreens⟩ :=
    dropGone_spec w (ms.map Monitor.wireId) w.screens.toList
  have hkeys : ∀ wire, wire ∈ w.screens.toList.map Prod.fst ↔ wire ∈ w.screens := by
    intro wire
    rw [Std.ExtTreeMap.map_fst_toList_eq_keys, Std.ExtTreeMap.mem_keys]
  have hstopped : ∀ wire, wire ∈ (w.dropGone (ms.map Monitor.wireId) w.screens.toList).stopped ↔
      wire ∈ w.stopped ∧ wire ∈ ms.map Monitor.wireId := by
    intro wire
    rw [hstopped, hkeys]
    constructor
    · rintro ⟨hin, hnot⟩
      exact ⟨hin, by_contra fun hp => hnot ⟨hinv wire hin, hp⟩⟩
    · rintro ⟨hin, hp⟩
      exact ⟨hin, fun h => h.2 hp⟩
  have htold : Told (w.dropGone (ms.map Monitor.wireId) w.screens.toList) (w.onMonitors ms) := by
    refine (Told.addNew _ ms).trans (Told.trans ?_ (Told.answerAdds _ ms))
    refine ⟨rfl, rfl, _, rfl, fun e he => ?_⟩
    obtain ⟨id, -, rfl⟩ := mem_map.mp he
    exact trivial
  refine ⟨htold.sessions.trans hsessions, fun id => ?_, fun wire => ?_, fun wire hwire => ?_⟩
  · rw [htold.view, hevents]
  · rw [htold.stopped, hstopped]
  rw [htold.stopped, hstopped] at hwire
  rw [World.onMonitors, answerAdds_screens]
  refine addNew_mem _ ms ((hscreens wire).mpr ⟨hinv wire hwire.1, fun h => h.2 hwire.2⟩)

theorem sharing_eq_on (w : World) : w.sharing = .on ↔ ∀ wire, wire ∉ w.stopped := by
  rw [World.sharing]
  constructor
  · intro h wire hmem
    split at h
    · rename_i hempty
      rw [Std.ExtTreeSet.isEmpty_iff] at hempty
      rw [hempty] at hmem
      simp at hmem
    · cases h
  intro h
  rw [if_pos]
  rw [Std.ExtTreeSet.isEmpty_iff]
  refine Std.ExtTreeSet.ext_mem fun wire => ?_
  simpa using h wire

theorem sharing_eq_stopped (w : World) : w.sharing = .stopped ↔ ∃ wire, wire ∈ w.stopped := by
  have hcases : w.sharing = .stopped ↔ ¬ w.sharing = .on := by
    cases w.sharing <;> simp
  rw [hcases, sharing_eq_on]
  simp

theorem screenOf_mem {monitor : MonitorId}
    (h : w.screenOf monitor = some wire) : wire ∈ w.screens := by
  obtain ⟨⟨wire', sc⟩, hfind, rfl⟩ := Option.map_eq_some_iff.mp h
  have hmem := mem_of_find?_eq_some hfind
  rw [Std.ExtTreeMap.mem_toList_iff_getElem?_eq_some] at hmem
  exact Std.ExtTreeMap.mem_iff_isSome_getElem?.mpr (by rw [hmem]; rfl)

theorem answer_screens (w : World) (id : SessionId) (msg : Call) (r : Reply) :
    (w.answer id msg r).screens = w.screens := by
  unfold World.answer
  split <;> rfl

/-! ## Every event -/

/-- Someone at the robot stopped sharing, and the event is not a monitor
set without any of the stopped screens. -/
def KeepsAStopped (w : World) : CapabilityAct → Prop
  | .monitors list =>
    w.sessions.isEmpty = true ∨ w.stopped.isEmpty = true ∨
      w.stopped.toList.any (fun wire => (list.map Monitor.wireId).contains wire) = true
  | _ => True

instance (w : World) (a : CapabilityAct) : Decidable (KeepsAStopped w a) := by
  cases a <;> unfold KeepsAStopped <;> infer_instance

theorem stopped_step {w' : World} {a : CapabilityAct} (hinv : w.StoppedAreScreens)
    (hstep : capabilityStep w a = some w') : w'.StoppedAreScreens := by
  cases a with
  | attach id =>
    obtain ⟨-, rfl⟩ := guarded_not.mp hstep
    unfold World.sessionAttached
    dsimp only
    split <;> exact hinv
  | detach id =>
    obtain ⟨-, rfl⟩ := guarded.mp hstep
    intro wire hwire
    rw [sessionDetached_screens]
    rw [World.sessionDetached, (Told.removeVirtuals _ id).stopped] at hwire
    exact hinv wire hwire
  | captureLost monitor why =>
    cases hstep
    unfold World.onCaptureLost
    split
    · exact hinv
    split
    · exact hinv
    rename_i wire hwire
    have hadded : ∀ wire' ∈ w.stopped.insert wire, wire' ∈ w.screens := by
      intro wire' hmem
      rcases Std.ExtTreeSet.mem_insert.mp hmem with heq | hmem
      · rw [← Std.LawfulEqCmp.eq_of_compare heq]
        exact screenOf_mem hwire
      · exact hinv wire' hmem
    dsimp only
    split <;> exact hadded
  | monitors list =>
    cases hstep
    exact (onMonitors_spec hinv list).2.2.2
  | resumeSharing id msg =>
    obtain ⟨-, rfl⟩ := guarded.mp hstep
    intro wire hwire
    rw [World.resumeSharing, (Told.answer _ id msg .ok).stopped] at hwire
    rw [World.resumeSharing, answer_screens]
    unfold World.resume at hwire ⊢
    split at hwire
    · rw [if_pos ‹_›]
      exact hinv wire hwire
    · simp [World.tellAll] at hwire

theorem attach_truthful {id : SessionId} (hnew : id ∉ w.sessions) (h : w.Truthful) :
    (w.sessionAttached id).Truthful := by
  have hmine : view ((w.events ++ [(id, .attached)]) ++ [(id, .desktop w.desktopRunning)]) id =
      .on := by
    rw [view_append_aside (by simp [Event.Aside]), view, foldl_append]
    simp [viewStep]
  have hothers : ∀ id', id' ≠ id →
      view ((w.events ++ [(id, .attached)]) ++ [(id, .desktop w.desktopRunning)]) id' =
        view w.events id' := by
    intro id' hne
    rw [view_append_aside (by simp [Event.Aside]), view, foldl_append]
    simp [viewStep, Ne.symm hne, view]
  have hsplit : ∀ id' ∈ w.sessions.insert id, id' = id ∨ id' ≠ id ∧ id' ∈ w.sessions := by
    intro id' hid'
    rcases Std.ExtTreeSet.mem_insert.mp hid' with heq | hmem
    · exact .inl (Std.LawfulEqCmp.eq_of_compare heq).symm
    refine .inr ⟨?_, hmem⟩
    rintro rfl
    exact hnew hmem
  intro id' hid'
  unfold World.sessionAttached at hid' ⊢
  dsimp only at hid' ⊢
  split at hid'
  · rename_i hstopped
    rw [if_pos hstopped]
    rcases hsplit id' hid' with rfl | ⟨hne, hmem⟩
    · rw [World.tell, view, foldl_append]
      simp [viewStep, World.sharing, World.tell]
    rw [World.tell, view, foldl_append]
    simp only [viewStep, foldl_cons, foldl_nil, Ne.symm hne, if_false]
    exact (hothers id' hne).trans (h id' hmem)
  rename_i hempty
  rw [if_neg hempty]
  rcases hsplit id' hid' with rfl | ⟨hne, hmem⟩
  · refine hmine.trans ?_
    symm
    simpa [World.sharing, World.tell] using hempty
  · exact (hothers id' hne).trans (h id' hmem)

/-- Losing a capture: whoever makes the set non-empty tells everybody. -/
theorem captureLost_truthful (h : w.Truthful) (monitor : MonitorId)
    (why : CaptureLost) : (w.onCaptureLost monitor why).Truthful := by
  unfold World.onCaptureLost
  split
  · exact h
  split
  · exact h
  rename_i wire hwire
  dsimp only
  split
  · rename_i hmore
    -- already stopped, and told so
    have hbefore : w.sharing = .stopped := by simpa [World.sharing] using hmore
    have hafter : World.sharing { w with stopped := w.stopped.insert wire } = .stopped :=
      (sharing_eq_stopped _).mpr ⟨wire, by simp⟩
    intro id hid
    rw [hafter, ← hbefore]
    exact h id hid
  · intro id hid
    exact view_tellAll hid

theorem resume_tells (hstopped : ∃ wire, wire ∈ w.stopped) :
    w.resume.sessions = w.sessions ∧ w.resume.sharing = .on ∧
      (∀ id ∈ w.sessions, view w.resume.events id = .on) ∧
      ∃ es, w.resume.events = w.events ++ es ∧ ∀ id ∈ w.sessions, (id, .sharing .on) ∈ es := by
  have hne : ¬ w.stopped.isEmpty = true := by
    intro hempty
    obtain ⟨wire, hwire⟩ := hstopped
    rw [Std.ExtTreeSet.isEmpty_iff] at hempty
    rw [hempty] at hwire
    simp at hwire
  have htold := Told.recapture w w.stopped.toList
  have hmem : ∀ id ∈ w.sessions, id ∈ (w.recapture w.stopped.toList).sessions := by
    intro id hid
    rw [htold.sessions]
    exact hid
  have hon : ({ w.recapture w.stopped.toList with stopped := {} } : World).sharing = .on :=
    (sharing_eq_on _).mpr (by simp)
  obtain ⟨es, hes, -⟩ := htold.events
  unfold World.resume
  rw [if_neg hne]
  dsimp only
  refine ⟨htold.sessions, hon, fun id hid => ?_, ?_⟩
  · rw [hon]
    exact view_tellAll (hmem id hid)
  refine ⟨es ++ (w.recapture w.stopped.toList).sessions.toList.map fun id => (id, .sharing .on),
    ?_, fun id hid => ?_⟩
  · rw [hon, World.tellAll]
    dsimp only
    rw [hes, append_assoc]
  · refine mem_append_right _ (mem_map.mpr ⟨id, ?_, rfl⟩)
    exact Std.ExtTreeSet.mem_toList.mpr (hmem id hid)

theorem resume_truthful (h : w.Truthful) : w.resume.Truthful := by
  by_cases hstopped : ∃ wire, wire ∈ w.stopped
  · obtain ⟨hsessions, hon, hview, -⟩ := resume_tells hstopped
    intro id hid
    rw [hsessions] at hid
    rw [hon]
    exact hview id hid
  have hempty : w.stopped.isEmpty = true := by
    rw [Std.ExtTreeSet.isEmpty_iff]
    refine Std.ExtTreeSet.ext_mem fun wire => ?_
    simpa using fun hmem => hstopped ⟨wire, hmem⟩
  rw [World.resume, if_pos hempty]
  exact h

theorem World.Truthful.resumeTells (h : w.Truthful) : w.ResumeTells := by
  rintro ⟨id, hid, hview⟩ by' msg id' hid'
  have hstopped : ∃ wire, wire ∈ w.stopped := by
    rw [← sharing_eq_stopped, ← h id hid]
    exact hview
  obtain ⟨-, -, hon, es, hes, hall⟩ := resume_tells hstopped
  obtain ⟨es', hes', haside⟩ := (Told.answer w.resume by' msg .ok).events
  rw [World.resumeSharing, hes', hes, append_assoc, drop_left]
  refine ⟨mem_append_left _ (hall id' hid'), ?_⟩
  rw [← append_assoc, ← hes, view_append_aside haside]
  exact hon id' hid'

/-- **One event**: it keeps every session's belief true exactly if it is
not a monitor set that empties the stopped screens behind a session's
back. -/
theorem truthful_step_iff {w' : World} {a : CapabilityAct} (hinv : w.StoppedAreScreens)
    (h : w.Truthful) (hstep : capabilityStep w a = some w') : KeepsAStopped w a ↔ w'.Truthful := by
  cases a with
  | attach id =>
    obtain ⟨hnew, rfl⟩ := guarded_not.mp hstep
    exact iff_of_true trivial (attach_truthful hnew h)
  | detach id =>
    obtain ⟨-, rfl⟩ := guarded.mp hstep
    refine iff_of_true trivial ((Told.removeVirtuals _ id).truthful.mpr fun id' hid' => ?_)
    exact h id' (Std.ExtTreeSet.mem_of_mem_erase hid')
  | captureLost monitor why =>
    cases hstep
    exact iff_of_true trivial (captureLost_truthful h monitor why)
  | monitors list =>
    cases hstep
    obtain ⟨hsessions, hview, hstopped, -⟩ := onMonitors_spec hinv list
    have hsame : (w.onMonitors list).Truthful ↔
        ((∃ id, id ∈ w.sessions) → (w.onMonitors list).sharing = w.sharing) := by
      constructor
      · rintro htruth ⟨id, hid⟩
        rw [← h id hid, ← htruth id (hsessions ▸ hid), hview]
      intro hsharing id hid
      rw [hsessions] at hid
      rw [hview, h id hid, hsharing ⟨id, hid⟩]
    have hkept : (w.onMonitors list).sharing = w.sharing ↔
        ((∃ wire, wire ∈ w.stopped) → ∃ wire ∈ w.stopped, wire ∈ list.map Monitor.wireId) := by
      constructor
      · intro heq hsome
        rw [← sharing_eq_stopped, ← heq, sharing_eq_stopped] at hsome
        obtain ⟨wire, hwire⟩ := hsome
        exact ⟨wire, (hstopped wire).mp hwire⟩
      intro himp
      by_cases hsome : ∃ wire, wire ∈ w.stopped
      · obtain ⟨wire, hwire⟩ := himp hsome
        rw [(sharing_eq_stopped w).mpr hsome, sharing_eq_stopped]
        exact ⟨wire, (hstopped wire).mpr hwire⟩
      · rw [(sharing_eq_on w).mpr (fun wire hwire => hsome ⟨wire, hwire⟩), sharing_eq_on]
        exact fun wire hwire => hsome ⟨wire, ((hstopped wire).mp hwire).1⟩
    have hempty : ∀ s : Std.ExtTreeSet String, s.isEmpty = true ↔ ¬ ∃ x, x ∈ s := by
      intro s
      rw [Std.ExtTreeSet.isEmpty_iff]
      constructor
      · rintro rfl ⟨x, hx⟩
        simp at hx
      intro hnone
      refine Std.ExtTreeSet.ext_mem fun x => ?_
      simpa using fun hx => hnone ⟨x, hx⟩
    rw [hsame, hkept, KeepsAStopped, hempty, hempty]
    simp only [any_eq_true, Std.ExtTreeSet.mem_toList, contains_iff_mem]
    tauto
  | resumeSharing id msg =>
    obtain ⟨-, rfl⟩ := guarded.mp hstep
    exact iff_of_true trivial ((Told.answer _ id msg .ok).truthful.mpr (resume_truthful h))

/-! ## The result -/

theorem reachable_stopped (hw : capability.Reachable w) : w.StoppedAreScreens :=
  capability.invariant (fun wire hwire => by simp [capability] at hwire)
    (fun _ _ _ h hstep => stopped_step h hstep) hw

/-- **When sessions are told the truth.** Along every run: every session's
belief is true, and a resume reaches everybody who waits for one, in every
state, exactly if no monitor set leaves none of the stopped screens while
a session is attached. -/
theorem sharing_truthful_iff {as : List CapabilityAct} {w : World}
    (hrun : capability.run {} as = some w) :
    capability.AllSteps KeepsAStopped {} as ↔
      capability.AllStates (fun w => w.Truthful ∧ w.ResumeTells) {} as := by
  have htruthful : ∀ w : World, w.Truthful ∧ w.ResumeTells ↔ w.Truthful := fun w =>
    ⟨fun h => h.1, fun h => ⟨h, h.resumeTells⟩⟩
  simp only [htruthful]
  refine capability.allSteps_iff_states (R := fun v _ => capability.Reachable v ∧ True) ?_ ?_ ?_ hrun
  · rintro v a v' htruth ⟨hv, -⟩ hstep
    exact truthful_step_iff (reachable_stopped hv) htruth hstep
  · intro id hid
    simp at hid
  · exact (capability.allSteps_true _ _).and_reachable capability.reachable_init

/-- One monitor. -/
def screenA : Monitor := { id := 1, wireId := "a", key := { connector := "DP-1" } }

def screenB : Monitor := { id := 2, wireId := "b", key := { connector := "DP-2" } }

/-- Two screens are stopped, one is unplugged, and a session resumes. -/
def stopAndResume : List CapabilityAct :=
  [.attach "s", .monitors [screenA, screenB], .captureLost 1 .sharingStopped,
    .captureLost 2 .sharingStopped, .monitors [screenB], .attach "t",
    .resumeSharing "t" { id := 7 }]

theorem sharing_truthful_resumed :
    ∃ w, capability.run {} stopAndResume = some w ∧
      capability.AllStates (fun w => w.Truthful ∧ w.ResumeTells) {} stopAndResume := by
  obtain ⟨w, hrun⟩ : ∃ w, capability.run {} stopAndResume = some w := by
    rw [← Option.isSome_iff_exists]
    decide +kernel
  exact ⟨w, hrun, (sharing_truthful_iff hrun).mp (by decide +kernel)⟩

/-- **Unplugged while stopped.** The only stopped screen is unplugged: no
screen is stopped any more, the session still believes sharing is, and
its resume tells it nothing. -/
theorem unplugged_while_stopped :
    ∃ w, capability.run {} [.attach "s", .monitors [screenA], .captureLost 1 .sharingStopped,
        .monitors []] = some w ∧
      "s" ∈ w.sessions ∧ w.stopped.isEmpty = true ∧ view w.events "s" = .stopped ∧
      view (w.resumeSharing "s" { id := 7 }).events "s" = .stopped := by
  refine evaluated
    (fun w => (w.sessions.contains "s", w.stopped.isEmpty, view w.events "s",
      view (w.resumeSharing "s" { id := 7 }).events "s"))
    (b := (true, true, .stopped, .stopped)) (by decide +kernel) fun w hrun hw => ?_
  simp only [Prod.mk.injEq, Std.ExtTreeSet.contains_iff_mem] at hw
  exact hw

end Fjarr.Desktop
