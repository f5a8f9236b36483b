/-
Fjarr.Media.Recovery — the media plane over whole runs, and what a bad
camera may cost.

`mediaPlane` interleaves the sessions' registrations and subscriptions
with the loop's posted callbacks, the timers, bus errors and the sources'
comings and goings, at any times. A session subscribes a track it holds a
registration of and unsubscribes before it gives that up, whatever the
others hold, and a rebuild of the plane comes after the close of every
session.

A rebuild is meant for failures of the encode path alone: more than five
of one track within a minute of each other (`spree`). `restart_producer`
counts every failure of the track in one counter under one clock, and
takes a failure for the source's by the producer the track has when the
callback runs, which the first of several errors has torn down
(`one_camera_rebuilds`). So the budget is spent by outside failures alone
in every run whose source failures are met while the producer says so or
the source is gone, and whose outside failures come more than a minute
after the track's last source failure (`rebuild_spends_budget`).
-/
import Fjarr.Lib.Transition
import Fjarr.Media.Plane

namespace Fjarr.Media.Recovery

open Lib List Option Function MediaPlane

/-! ## Runs -/

/-- A failure that `restart_producer` was called with. -/
structure Failed where
  time : Nat
  origin : Origin
  deriving DecidableEq, Repr

/-- A rebuild asked for, and the track's failures until then, the last one
first. -/
structure Request where
  track : String
  reason : String
  failures : List Failed
  deriving DecidableEq, Repr

structure World where
  plane : MediaPlane
  /-- The registrations the sessions hold, each by the session's sink for
  the track. -/
  holds : List (String × Sink) := []
  /-- What the sessions have subscribed. -/
  subscriptions : List (HubKey × Sink) := []
  /-- Each track's failures, the last one first. -/
  failures : String → List Failed := fun _ => []
  requests : List Request := []
  /-- A rebuild is asked for and not made yet. -/
  requested : Bool := false
  /-- When a subscriber last left a (track, tier). -/
  left : HubKey → Nat := fun _ => 0

inductive Act where
  /-- A session registers a track, and holds that unless it cannot add the
  track to its pipeline. -/
  | register (reg : TrackRegistration) (holder : Option Sink)
  | unregister (id : String) (sink : Sink)
  | subscribe (key : HubKey) (sink : Sink)
  | unsubscribe (key : HubKey) (sink : Sink)
  /-- The loop runs the callback posted first. -/
  | dispatch (b : Build) (s : Start)
  | busError (id error : String) (origin : Origin)
  | setSource (source : Nat) (a : Availability)
  | graceFires (id tier : String)
  | restartFires (id : String) (b : Build) (active thumbnail : Start)
  | rebuild
  | tick (ms : Nat)

namespace World

/-- The call of `restart_producer` a callback ends in. -/
def settle (w : World) (r : MediaPlane × Option Failure) : World :=
  match r.2 with
  | none => { w with plane := r.1 }
  | some f =>
    match r.1.tracks f.track with
    | none => { w with plane := r.1 }
    | some _ =>
      let failures := ⟨r.1.now, f.origin⟩ :: w.failures f.track
      let (plane, reason) := r.1.restartProducer f.track f.error
      { w with
        plane
        failures := Function.update w.failures f.track failures
        requests := w.requests ++ (reason.map fun reason => ⟨f.track, reason, failures⟩).toList
        requested := w.requested || reason.isSome }

/-- What the posted callback does. -/
def dispatch (w : World) (m : Post) (rest : List Post) (b : Build) (s : Start) : World :=
  let plane := { w.plane with posts := rest }
  match m with
  | .demand key n => w.settle (plane.onDemand key n b s)
  | .failed f => w.settle (plane, some f)

end World

/-- The sessions close, which ends their subscriptions, -/
def closeAll (p : MediaPlane) (subscriptions : List (HubKey × Sink)) : MediaPlane :=
  subscriptions.foldl (fun p s => p.unsubscribe s.1 s.2) p

/-- and then are flushed (`flush_close`), which gives their tracks up. -/
def flushAll (p : MediaPlane) (holds : List (String × Sink)) : MediaPlane :=
  holds.foldl (fun p h => p.unregisterTrack h.1) p

/-- The timer is armed and due. -/
def due (timer : Option Nat) (now : Nat) : Bool := timer.any (· ≤ now)

def step (w : World) : Act → Option World
  | .register reg holder =>
    some { w with
      plane := w.plane.registerTrack reg
      holds := w.holds ++ (holder.map fun sink => (reg.spec.trackId, sink)).toList }
  | .unregister id sink =>
    if (id, sink) ∈ w.holds ∧ ∀ s ∈ w.subscriptions, (s.1.trackId, s.2) ≠ (id, sink) then
      some { w with plane := w.plane.unregisterTrack id, holds := w.holds.erase (id, sink) }
    else none
  | .subscribe key sink =>
    if (key.trackId, sink) ∈ w.holds ∧ (key, sink) ∉ w.subscriptions then
      some { w with
        plane := w.plane.subscribe key sink, subscriptions := w.subscriptions ++ [(key, sink)] }
    else none
  | .unsubscribe key sink =>
    if (key, sink) ∈ w.subscriptions then
      some { w with
        plane := w.plane.unsubscribe key sink
        subscriptions := w.subscriptions.filter (· ≠ (key, sink))
        left := Function.update w.left key w.plane.now }
    else none
  | .dispatch b s =>
    match w.plane.posts with
    | [] => none
    | m :: rest => some (w.dispatch m rest b s)
  | .busError id error origin =>
    (w.plane.busError id error origin).map fun plane => { w with plane }
  | .setSource source a =>
    some { w with plane := { w.plane with sources := Function.update w.plane.sources source a } }
  | .graceFires id tier =>
    if due ((w.plane.tracks id).bind (·.graceTimers tier)) w.plane.now then
      some { w with plane := w.plane.graceFires id tier }
    else none
  | .restartFires id b active thumbnail =>
    if due ((w.plane.tracks id).bind (·.restartTimer)) w.plane.now then
      some (w.settle (w.plane.restartFires id b active thumbnail))
    else none
  | .rebuild =>
    some { w with
      plane := (flushAll (closeAll w.plane w.subscriptions) w.holds).rebuild
      holds := []
      subscriptions := []
      requested := false
      left := fun key => if ∃ s ∈ w.subscriptions, s.1 = key then w.plane.now else w.left key }
  | .tick ms => some { w with plane := { w.plane with now := w.plane.now + ms } }

/-- The plane with its grace period and the hub's ring size. -/
def mediaPlane (graceMs ringSize : Nat) : System World Act where
  init := { plane := { graceMs, hub := { ringSize } } }
  step := step

/-! ## The budget -/

/-- How many of the times, the last one first, follow each other within a
minute. -/
def spree : List Nat → Nat
  | [] => 0
  | [_] => 1
  | t :: t' :: ts => if t - t' ≤ minuteMs then spree (t' :: ts) + 1 else 1

/-- When the failures outside the source bin were. -/
def outside (failures : List Failed) : List Nat :=
  (failures.filter (·.origin = .outside)).map (·.time)

/-- Every rebuild was asked for by a failure outside the source bin, with
more than five of them within a minute of each other. -/
def BudgetSpent (w : World) : Prop :=
  ∀ r ∈ w.requests, r.failures.head?.map (·.origin) = some .outside ∧
    5 < spree (outside r.failures)

/-- The source is seen to have failed: the producer says so, or the source
is gone. -/
def Blamed (w : World) (id : String) : Prop :=
  ((w.plane.tracks id).bind (·.producer)).any (·.errorInSource) = true ∨
    w.plane.trackAvailable id = false

/-- The track's last source failure is more than a minute ago. -/
def Recovered (w : World) (id : String) : Prop :=
  ∀ f ∈ w.failures id, f.origin = .source → minuteMs < w.plane.now - f.time

instance (w : World) (id : String) : Decidable (Blamed w id) :=
  inferInstanceAs (Decidable (_ ∨ _))

instance (w : World) (id : String) : Decidable (Recovered w id) :=
  inferInstanceAs (Decidable (∀ f ∈ w.failures id, _))

/-- The callback about to run, if it is an error's, meets the source to
blame for it or one that has not failed in the last minute, as the error
came from the source or not; and a tier start that fails meets the latter. -/
def CallbackAttributed (w : World) (s : Start) : Option Post → Prop
  | none => True
  | some (.demand key _) => s = .ok ∨ Recovered w key.trackId
  | some (.failed f) => if f.origin = .source then Blamed w f.track else Recovered w f.track

instance (w : World) (s : Start) : (m : Option Post) → Decidable (CallbackAttributed w s m)
  | none => isTrue trivial
  | some (.demand key _) => inferInstanceAs (Decidable (s = .ok ∨ Recovered w key.trackId))
  | some (.failed f) =>
    inferInstanceAs (Decidable
      (if f.origin = .source then Blamed w f.track else Recovered w f.track))

/-- The same of a build that fails when the restart timer fires. -/
def Attributed (w : World) : Act → Prop
  | .dispatch _ s => CallbackAttributed w s w.plane.posts.head?
  | .restartFires id b _ _ => b = .ok ∨ Recovered w id
  | _ => True

instance (w : World) : (a : Act) → Decidable (Attributed w a)
  | .dispatch _ s => inferInstanceAs (Decidable (CallbackAttributed w s w.plane.posts.head?))
  | .restartFires id b _ _ => inferInstanceAs (Decidable (b = .ok ∨ Recovered w id))
  | .register _ _ | .unregister _ _ | .subscribe _ _ | .unsubscribe _ _ | .busError _ _ _
  | .setSource _ _ | .graceFires _ _ | .rebuild | .tick _ => isTrue trivial

theorem spree_cons_of_near {t t' : Nat} {ts : List Nat} (h : t - t' ≤ minuteMs) :
    spree (t :: t' :: ts) = spree (t' :: ts) + 1 := if_pos h

theorem spree_pos (t : Nat) (ts : List Nat) : 1 ≤ spree (t :: ts) := by
  cases ts with
  | nil => exact le_rfl
  | cons t' ts =>
    rw [spree]
    split <;> omega

/-! ## The ladder -/

/-- Each track's counter and clock are as before, or the counter is zero. -/
def Calm (p p' : MediaPlane) : Prop :=
  p'.now = p.now ∧ ∀ id r', p'.tracks id = some r' →
    r'.restarts = 0 ∨ ∃ r, p.tracks id = some r ∧ r'.restarts = r.restarts ∧
      r'.lastError = r.lastError

namespace Calm

variable {p p' p'' : MediaPlane}

theorem refl (p : MediaPlane) : Calm p p := ⟨rfl, fun _ r h => .inr ⟨r, h, rfl, rfl⟩⟩

theorem trans (h : Calm p p') (h' : Calm p' p'') : Calm p p'' := by
  refine ⟨h'.1.trans h.1, fun id r'' hr'' => ?_⟩
  obtain hzero | ⟨r', hr', hrestarts, herror⟩ := h'.2 id r'' hr''
  · exact .inl hzero
  obtain hzero | ⟨r, hr, hrestarts', herror'⟩ := h.2 id r' hr'
  · exact .inl (hrestarts.trans hzero)
  · exact .inr ⟨r, hr, hrestarts.trans hrestarts', herror.trans herror'⟩

theorem of_tracks (hnow : p'.now = p.now) (htracks : p'.tracks = p.tracks) : Calm p p' :=
  ⟨hnow, fun _ r h => .inr ⟨r, htracks ▸ h, rfl, rfl⟩⟩

/-- One track is gone, new, or its counter and clock are as before. -/
theorem setTrack (p : MediaPlane) (id : String) {o : Option Registered}
    (h : ∀ r', o = some r' → r'.restarts = 0 ∨ ∃ r, p.tracks id = some r ∧
      r'.restarts = r.restarts ∧ r'.lastError = r.lastError) : Calm p (p.setTrack id o) := by
  refine ⟨rfl, fun id' r' hr' => ?_⟩
  by_cases hid : id' = id
  · subst hid
    exact h r' (by simpa [MediaPlane.setTrack] using hr')
  · exact .inr ⟨r', by simpa [MediaPlane.setTrack, update_of_ne hid] using hr', rfl, rfl⟩

theorem keep {id : String} {r s : Registered} (hr : p.tracks id = some r)
    (hrestarts : s.restarts = r.restarts) (herror : s.lastError = r.lastError) :
    Calm p (p.setTrack id (some s)) := by
  refine setTrack p id fun r' hr' => ?_
  cases hr'
  exact .inr ⟨r, hr, hrestarts, herror⟩

section

variable (p : MediaPlane)
variable (key : HubKey)

theorem registerTrack (reg : TrackRegistration) :
    Calm p (p.registerTrack reg) := by
  unfold MediaPlane.registerTrack
  split
  · rename_i r hr
    exact keep hr rfl rfl
  refine setTrack p _ fun r' hr' => ?_
  cases hr'
  exact .inl rfl

theorem unregisterTrack (id : String) : Calm p (p.unregisterTrack id) := by
  unfold MediaPlane.unregisterTrack
  split
  · exact refl p
  rename_i r hr
  split
  · have hclear : Calm p (p.clearTiers id r) := of_tracks rfl rfl
    exact hclear.trans (setTrack _ id fun _ hnone => absurd hnone.symm (some_ne_none _))
  · exact keep hr rfl rfl

theorem subscribe (sink : Sink) :
    Calm p (p.subscribe key sink) := by
  unfold MediaPlane.subscribe
  dsimp only
  split <;> exact of_tracks rfl rfl

theorem unsubscribe (sink : Sink) :
    Calm p (p.unsubscribe key sink) := by
  unfold MediaPlane.unsubscribe
  split
  · exact refl p
  dsimp only
  split <;> exact of_tracks rfl rfl

theorem closeAll (subscriptions : List (HubKey × Sink)) :
    Calm p (closeAll p subscriptions) := by
  unfold Recovery.closeAll
  induction subscriptions generalizing p with
  | nil => exact refl p
  | cons s subscriptions ih => exact (unsubscribe p s.1 s.2).trans (ih _)

theorem flushAll (holds : List (String × Sink)) : Calm p (flushAll p holds) := by
  unfold Recovery.flushAll
  induction holds generalizing p with
  | nil => exact refl p
  | cons h holds ih => exact (unregisterTrack p h.1).trans (ih _)

theorem onDemand (n : Nat) (b : Build) (s : Start) :
    Calm p (p.onDemand key n b s).1 := by
  unfold MediaPlane.onDemand
  split
  · exact refl p
  rename_i r hr
  split
  · dsimp only
    split <;> exact keep hr rfl rfl
  · exact keep hr rfl rfl

theorem graceFires (id tier : String) : Calm p (p.graceFires id tier) := by
  unfold MediaPlane.graceFires
  split
  · exact refl p
  rename_i r hr
  dsimp only
  split
  · exact keep hr rfl rfl
  split
  · exact keep hr rfl rfl
  · exact (keep (s := { r.setGrace tier none with producer := _ }) hr rfl rfl).trans
      (of_tracks rfl rfl)

theorem restartFires (id : String) (b : Build) (active thumbnail : Start) :
    Calm p (p.restartFires id b active thumbnail).1 := by
  unfold MediaPlane.restartFires
  split
  · exact refl p
  rename_i r hr
  have hcalm : Calm p (p.setTrack id (some { r with restartTimer := none })) := keep hr rfl rfl
  have hset : (p.setTrack id (some { r with restartTimer := none })).tracks id =
      some { r with restartTimer := none } := update_self ..
  dsimp only
  split
  · exact hcalm
  split
  · exact hcalm.trans (keep hset rfl rfl)
  split
  · exact hcalm
  · exact hcalm.trans (keep hset rfl rfl)

theorem rebuild : Calm p p.rebuild := by
  refine ⟨rfl, fun id r' hr' => .inl ?_⟩
  obtain ⟨r, -, rfl⟩ := map_eq_some_iff.mp hr'
  rfl

end

theorem busError {p p' : MediaPlane} {id error : String} {origin : Origin}
    (h : p.busError id error origin = some p') : Calm p p' := by
  unfold MediaPlane.busError at h
  split at h
  · cases h
  rename_i r hr
  obtain ⟨producer, -, rfl⟩ := map_eq_some_iff.mp h
  dsimp only
  have hkeep := keep (s := { r with producer := some { producer with
    error, errorInSource := decide (origin = .source) } }) hr rfl rfl
  exact hkeep.trans (of_tracks rfl rfl)

end Calm

variable {p : MediaPlane} {id : String} {r : Registered}

/-- What `restart_producer` leaves of a registered track: the failure is
counted, and a rebuild is asked for only past the budget and by a failure
not taken for the source's. -/
theorem restartProducer_spec
    (hr : p.tracks id = some r) (error : String) :
    ∃ r', (p.restartProducer id error).1.tracks = Function.update p.tracks id (some r') ∧
      (p.restartProducer id error).1.now = p.now ∧
      r'.restarts = (r.countFailure p.now).restarts ∧ r'.lastError = p.now ∧
      ((p.restartProducer id error).2.isSome →
        5 < r'.restarts ∧ p.sourceFailure id r = false) := by
  simp only [restartProducer, hr]
  split
  · rename_i hbudget
    exact ⟨_, rfl, rfl, rfl, rfl, fun _ => ⟨hbudget.2, by simpa using hbudget.1⟩⟩
  · exact ⟨_, rfl, rfl, rfl, rfl, nofun⟩

theorem startTier_ok (p : Producer) (tier : String) : (p.startTier tier .ok).2 = true := by
  unfold Producer.startTier
  split
  · rfl
  split <;> rfl

/-- A demand callback fails outside the source, when the tier does not
start. -/
theorem onDemand_failure {key : HubKey} {n : Nat} {b : Build} {s : Start}
    {f : Failure} (h : (p.onDemand key n b s).2 = some f) :
    f.track = key.trackId ∧ f.origin = .outside ∧ s ≠ .ok := by
  unfold onDemand at h
  split at h
  · cases h
  split at h
  · dsimp only at h
    split at h
    · cases h
    rename_i producer _
    obtain ⟨hstart, rfl⟩ := guarded_not.mp h
    refine ⟨rfl, rfl, ?_⟩
    rintro rfl
    exact hstart (startTier_ok producer key.tier)
  · cases h

theorem unavailableReason_setTrack {s : Registered}
    (hr : p.tracks id = some r) (hreg : s.reg = r.reg) :
    (p.setTrack id (some s)).unavailableReason id = p.unavailableReason id := by
  simp only [unavailableReason, setTrack, update_self, hr, hreg]
  rfl

theorem ensureProducer_ok
    (hr : p.tracks id = some r) (havailable : p.unavailableReason id = none) :
    r.ensureProducer .ok ≠ none := by
  intro hnone
  unfold Registered.ensureProducer at hnone
  split at hnone
  · cases hnone
  · rw [map_eq_none_iff] at hnone
    simp [unavailableReason, hr, hnone] at havailable

/-- The restart timer fails because the source is gone, or because the
producer cannot be built. -/
theorem restartFires_failure {b : Build} {active thumbnail : Start}
    {f : Failure} (h : (p.restartFires id b active thumbnail).2 = some f) :
    f.track = id ∧
      (f.origin = .source ∧ (p.restartFires id b active thumbnail).1.trackAvailable id = false ∨
        f.origin = .outside ∧ b ≠ .ok) := by
  unfold restartFires at h ⊢
  split at h
  · cases h
  rename_i r hr
  have hset : (p.setTrack id (some { r with restartTimer := none })).tracks id =
      some { r with restartTimer := none } := update_self ..
  dsimp only at h ⊢
  split at h
  · cases h
  rename_i hdemanded
  rw [if_neg hdemanded]
  split at h
  · rename_i reason hreason
    cases h
    refine ⟨rfl, .inl ⟨rfl, ?_⟩⟩
    have hsame := unavailableReason_setTrack
      (s := { r with restartTimer := none, sourceError := reason }) hset rfl
    simp only [trackAvailable, hsame, hreason]
    rfl
  rename_i havailable
  split at h
  · rename_i hbuild
    cases h
    refine ⟨rfl, .inr ⟨rfl, ?_⟩⟩
    rintro rfl
    exact ensureProducer_ok hset havailable hbuild
  · cases h

theorem step_dispatch {w w' : World} {b : Build} {s : Start}
    (h : step w (.dispatch b s) = some w') :
    ∃ m rest, w.plane.posts = m :: rest ∧ w' = w.dispatch m rest b s := by
  simp only [step] at h
  split at h
  · cases h
  rename_i m rest hposts
  exact ⟨m, rest, hposts, (some.inj h).symm⟩

/-- **The invariant**: a track whose last failure was outside the source
has counted no more failures than there were outside. -/
structure Inv (w : World) : Prop where
  counted : ∀ id r, w.plane.tracks id = some r → r.restarts = 0 ∨
    ∃ f fs, w.failures id = f :: fs ∧ r.lastError = f.time ∧
      (f.origin = .outside → r.restarts ≤ spree (outside (f :: fs)))
  spent : BudgetSpent w

namespace Inv

variable {w : World}

theorem calm (h : Inv w) {w' : World} (hp : Calm w.plane w'.plane)
    (hfailures : w'.failures = w.failures) (hrequests : w'.requests = w.requests) : Inv w' := by
  refine ⟨fun id r' hr' => ?_, fun r hr => h.spent r (hrequests ▸ hr)⟩
  obtain hzero | ⟨r, hr, hrestarts, herror⟩ := hp.2 id r' hr'
  · exact .inl hzero
  · rw [hrestarts, herror, hfailures]
    exact h.counted id r hr

/-- **Step.** A failure that meets the source to blame for it, or one that
has not failed in the last minute. -/
theorem settle (h : Inv w) (r : MediaPlane × Option Failure) (hcalm : Calm w.plane r.1)
    (hf : ∀ f, r.2 = some f →
      if f.origin = .source then
        ∀ t, r.1.tracks f.track = some t → r.1.sourceFailure f.track t = true
      else Recovered w f.track) : Inv (w.settle r) := by
  unfold World.settle
  split
  · exact h.calm hcalm rfl rfl
  rename_i f hfailed
  have hf := hf f hfailed
  split
  · exact h.calm hcalm rfl rfl
  rename_i t ht
  obtain ⟨t', htracks, hnow, hrestarts, herror, hrequest⟩ := restartProducer_spec ht f.error
  -- the count after an outside failure
  have hcount : f.origin = .outside →
      t'.restarts ≤ spree (outside (⟨r.1.now, f.origin⟩ :: w.failures f.track)) := by
    intro horigin
    rw [if_neg (by simp [horigin])] at hf
    have hone : 1 ≤ spree (outside (⟨r.1.now, f.origin⟩ :: w.failures f.track)) := by
      simp only [outside, horigin, decide_true, filter_cons_of_pos, map_cons]
      exact spree_pos _ _
    rw [hrestarts, Registered.countFailure]
    split
    · exact hone
    rename_i hnear
    obtain hzero | ⟨t₀, ht₀, hsame, hsame'⟩ := hcalm.2 f.track t ht
    · simpa [hzero] using hone
    obtain hzero | ⟨g, gs, hgs, htime, hle⟩ := h.counted f.track t₀ ht₀
    · simpa [hsame, hzero] using hone
    -- the failure before is within the minute, so it was outside too
    have hg : g.origin = .outside := by
      cases hg : g.origin with
      | outside => rfl
      | source =>
        have hold := hf g (by rw [hgs]; exact mem_cons_self) hg
        rw [hcalm.1, hsame', htime] at hnear
        omega
    have hle := hle hg
    simp only [outside, hgs, horigin, hg, decide_true, filter_cons_of_pos, map_cons]
      at hle ⊢
    rw [spree_cons_of_near (by rw [hsame', htime] at hnear; omega), hsame]
    omega
  refine ⟨fun id r' hr' => ?_, fun req hreq => ?_⟩
  · simp only [htracks] at hr'
    by_cases hid : id = f.track
    · subst hid
      rw [update_self] at hr'
      cases hr'
      exact .inr ⟨_, _, update_self .., herror, hcount⟩
    rw [update_of_ne hid] at hr'
    simp only [update_of_ne hid]
    have hcalm' : Inv { w with plane := r.1 } := h.calm hcalm rfl rfl
    exact hcalm'.counted id r' hr'
  simp only [mem_append, mem_toList, map_eq_some_iff] at hreq
  obtain hreq | ⟨reason, hreason, rfl⟩ := hreq
  · exact h.spent req hreq
  obtain ⟨hbudget, hblamed⟩ := hrequest (by rw [hreason]; rfl)
  have horigin : f.origin = .outside := by
    cases horigin : f.origin with
    | outside => rfl
    | source =>
      rw [if_pos horigin] at hf
      exact absurd (hf t ht) (by simp [hblamed])
  exact ⟨by simp [horigin], lt_of_lt_of_le hbudget (hcount horigin)⟩

/-- **Step.** -/
theorem step (h : Inv w) {a : Act} (ha : Attributed w a) {w' : World}
    (hstep : step w a = some w') : Inv w' := by
  cases a with
  | register reg holder =>
    cases hstep
    exact h.calm (Calm.registerTrack w.plane reg) rfl rfl
  | unregister id sink =>
    obtain ⟨-, rfl⟩ := guarded.mp hstep
    exact h.calm (Calm.unregisterTrack w.plane id) rfl rfl
  | subscribe key sink =>
    obtain ⟨-, rfl⟩ := guarded.mp hstep
    exact h.calm (Calm.subscribe w.plane key sink) rfl rfl
  | unsubscribe key sink =>
    obtain ⟨-, rfl⟩ := guarded.mp hstep
    exact h.calm (Calm.unsubscribe w.plane key sink) rfl rfl
  | dispatch b s =>
    obtain ⟨m, rest, hposts, rfl⟩ := step_dispatch hstep
    have hrest : Calm w.plane { w.plane with posts := rest } := Calm.of_tracks rfl rfl
    have hm : CallbackAttributed w s (some m) := by
      simpa [Attributed, hposts] using ha
    cases m with
    | demand key n =>
      refine h.settle _ (hrest.trans (Calm.onDemand _ key n b s)) fun f hf => ?_
      obtain ⟨htrack, horigin, hs⟩ := onDemand_failure hf
      rw [if_neg (by simp [horigin]), htrack]
      exact hm.resolve_left hs
    | failed f =>
      refine h.settle ({ w.plane with posts := rest }, some f) hrest fun f' hf' => ?_
      cases hf'
      by_cases horigin : f.origin = .source
      · simp only [CallbackAttributed, if_pos horigin] at hm
        rw [if_pos horigin]
        intro t ht
        have ht' : w.plane.tracks f.track = some t := ht
        simp only [Blamed, ht', bind_some] at hm
        obtain hproducer | hgone := hm
        · simp only [sourceFailure, hproducer, Bool.true_or]
        have hgone' : trackAvailable { w.plane with posts := rest } f.track = false :=
          hgone
        simp [sourceFailure, hgone']
      simp only [CallbackAttributed, if_neg horigin] at hm
      rw [if_neg horigin]
      exact hm
  | busError id error origin =>
    obtain ⟨p, hp, rfl⟩ := map_eq_some_iff.mp hstep
    exact h.calm (Calm.busError hp) rfl rfl
  | setSource source availability =>
    cases hstep
    exact h.calm (Calm.of_tracks rfl rfl) rfl rfl
  | graceFires id tier =>
    obtain ⟨-, rfl⟩ := guarded.mp hstep
    exact h.calm (Calm.graceFires w.plane id tier) rfl rfl
  | restartFires id b active thumbnail =>
    obtain ⟨-, rfl⟩ := guarded.mp hstep
    refine h.settle _ (Calm.restartFires w.plane id b active thumbnail) fun f hf => ?_
    obtain ⟨htrack, ⟨horigin, hgone⟩ | ⟨horigin, hb⟩⟩ := restartFires_failure hf
    · rw [if_pos horigin, htrack]
      intro t _
      simp [sourceFailure, hgone]
    · rw [if_neg (by simp [horigin]), htrack]
      exact ha.resolve_left hb
  | rebuild =>
    cases hstep
    have hclosed := (Calm.closeAll w.plane w.subscriptions).trans (Calm.flushAll _ w.holds)
    exact h.calm (hclosed.trans (Calm.rebuild _)) rfl rfl
  | tick ms =>
    cases hstep
    exact ⟨h.counted, h.spent⟩

end Inv

/-! ## Result -/

/-- **A bad camera does not take the plane with it**: in every run whose
failures all meet the condition, every rebuild was asked for by a failure
outside the source bin after more than five of them within a minute of each
other. -/
theorem rebuild_spends_budget {graceMs ringSize : Nat} {acts : List Act} {w : World}
    (hrun : (mediaPlane graceMs ringSize).run (mediaPlane graceMs ringSize).init acts = some w)
    (hattributed : (mediaPlane graceMs ringSize).AllSteps Attributed
      (mediaPlane graceMs ringSize).init acts) : BudgetSpent w := by
  have hinv : Inv w := by
    refine (mediaPlane graceMs ringSize).run_induction
      (fun _ _ _ h ha hstep => Inv.step h ha hstep) ?_ hattributed hrun
    exact ⟨fun _ _ hr => absurd hr.symm (some_ne_none _),
      fun _ hr => absurd hr not_mem_nil⟩
  exact hinv.spent

def cam : TrackRegistration :=
  { spec := { trackId := "cam", source := some { id := 0 } }, cap := "fjarr.camera" }

/-- A camera that one viewer watches, with its producer running. -/
def watched : List Act :=
  [.register cam (some 1), .subscribe ⟨"cam", "active"⟩ 1, .dispatch .ok .ok]

/-- The encoder fails as soon as the producer is back, `n` times. -/
def encoderFails : Nat → List Act
  | 0 => []
  | n + 1 => [.busError "cam" "encode: error" .outside, .dispatch .ok .ok, .tick 5000,
      .restartFires "cam" .ok .ok .ok] ++ encoderFails n

/-- The last failure, which finds the budget spent. -/
def sixEncoderFailures : List Act :=
  watched ++ encoderFails 5 ++ [.busError "cam" "encode: error" .outside, .dispatch .ok .ok]

theorem rebuild_spends_budget_six :
    ∃ w, (mediaPlane 10000 31).run (mediaPlane 10000 31).init sixEncoderFailures = some w ∧
      w.requests.length = 1 ∧ BudgetSpent w := by
  refine evaluated (·.requests.length) (b := 1) (by decide +kernel) fun w hrun hw => ?_
  exact ⟨hw, rebuild_spends_budget hrun (by decide +kernel)⟩

/-- The camera's pipeline posts two errors of its source before the first
is handled. -/
def twoSourceErrors : List Act :=
  List.replicate 2 (.busError "cam" "source: error" .source) ++
    List.replicate 2 (.dispatch .ok .ok)

/-- The camera is retried twice and fails again each time. -/
def sixSourceErrors : List Act :=
  watched ++ twoSourceErrors ++ [.tick 1000, .restartFires "cam" .ok .ok .ok] ++
    twoSourceErrors ++ [.tick 4000, .restartFires "cam" .ok .ok .ok] ++ twoSourceErrors

/-- When its failures were, the last one first. -/
def sixTimes : List Failed := [5000, 5000, 1000, 1000, 0, 0].map (⟨·, .source⟩)

/-- All six come from inside the source bin, and the sixth asks for a
rebuild. -/
theorem one_camera_rebuilds :
    ∃ w, (mediaPlane 10000 31).run (mediaPlane 10000 31).init sixSourceErrors = some w ∧
      w.failures "cam" = sixTimes ∧
      w.requests.map (·.reason) = ["producer:cam: source: error"] ∧ ¬ BudgetSpent w := by
  refine evaluated (fun w => (w.failures "cam", w.requests))
    (b := (sixTimes, [⟨"cam", "producer:cam: source: error", sixTimes⟩]))
    (by decide +kernel) fun w _ hw => ?_
  obtain ⟨hfailures, hrequests⟩ := Prod.mk.inj hw
  refine ⟨hfailures, by rw [hrequests]; rfl, fun h => ?_⟩
  have horigin := (h _ (by rw [hrequests]; exact mem_cons_self)).1
  cases horigin

end Fjarr.Media.Recovery
