/-
Fjarr.Media.Serving — whoever watches a track is served or being retried.

Demand fires only when a (track, tier) gets its first subscriber or loses
its last one, so whatever fails in between has to arrange the next try.
`on_demand` does not when the producer cannot be built, and the restart
timer does not look at the tiers it starts: a viewer then waits until
somebody else comes or goes (`unserved`). In every run without these two,
every watched tier runs, or a restart is scheduled, or a rebuild is asked
for; and in every run whose callbacks and grace timers are not late, a
tier nobody watches runs for the grace period at most (`watched_is_served`).

`Attended` and `Resting` are the two halves, kept step by step.
-/
import Fjarr.Media.Demand

namespace Fjarr.Media.Serving

open Lib Recovery List Option Function

/-! ## Served and rested -/

/-- Every watched tier that is possible runs in a playing producer, or is
retried, or waits for the rebuild. -/
def Served (w : World) : Prop :=
  ∀ id r tier, w.plane.tracks id = some r → w.plane.tierPossible id tier = true →
    0 < w.plane.hub.subscriberCount ⟨id, tier⟩ →
    (∃ p, r.producer = some p ∧ tier ∈ p.tiers ∧ p.playing = true) ∨
      r.restartTimer.isSome = true ∨ w.requested = true

/-- A tier runs without a subscriber for the grace period at most. -/
def Rested (w : World) : Prop :=
  ∀ id r p tier, w.plane.tracks id = some r → r.producer = some p → tier ∈ p.tiers →
    w.plane.hub.subscriberCount ⟨id, tier⟩ = 0 →
    w.plane.now ≤ w.left ⟨id, tier⟩ + w.plane.graceMs

/-- The demand callback about to run can build the producer it needs. -/
def CallbackBuilds (w : World) (b : Build) : Option Post → Prop
  | some (.demand key n) => 0 < n → ∀ r ∈ w.plane.tracks key.trackId, r.producer = none →
      b = .ok ∧ r.reg.spec.source.isSome = true
  | _ => True

instance (w : World) (b : Build) : (o : Option Post) → Decidable (CallbackBuilds w b o)
  | some (.demand key n) => inferInstanceAs (Decidable (0 < n →
      ∀ r ∈ w.plane.tracks key.trackId, r.producer = none →
        b = .ok ∧ r.reg.spec.source.isSome = true))
  | some (.failed _) | none => isTrue trivial

/-- A demand callback can build the producer it needs, and the restart
timer starts every watched tier. -/
def Sound (w : World) : Act → Prop
  | .dispatch b _ => CallbackBuilds w b w.plane.posts.head?
  | .restartFires id _ active thumbnail =>
    (0 < w.plane.hub.subscriberCount ⟨id, "active"⟩ → active = .ok) ∧
      (0 < w.plane.hub.subscriberCount ⟨id, "thumbnail"⟩ → thumbnail = .ok)
  | _ => True

instance (w : World) : (a : Act) → Decidable (Sound w a)
  | .dispatch b _ => inferInstanceAs (Decidable (CallbackBuilds w b w.plane.posts.head?))
  | .restartFires id _ active thumbnail => inferInstanceAs (Decidable
      ((0 < w.plane.hub.subscriberCount ⟨id, "active"⟩ → active = .ok) ∧
        (0 < w.plane.hub.subscriberCount ⟨id, "thumbnail"⟩ → thumbnail = .ok)))
  | .register _ _ | .unregister _ _ | .subscribe _ _ | .unsubscribe _ _ | .busError _ _ _
  | .setSource _ _ | .graceFires _ _ | .rebuild | .tick _ => isTrue trivial

/-- Time does not pass over a demand callback or a grace timer. -/
def Prompt (w : World) : Act → Prop
  | .tick ms => Quiet w ∧ ∀ id r tier d, w.plane.tracks id = some r →
      r.graceTimers tier = some d → w.plane.now + ms ≤ d
  | _ => True

/-! ## Whoever watches -/

/-- The track's watched tiers run or are retried. -/
structure Fine (p : MediaPlane) (id : String) (r : Registered) : Prop where
  steady : ∀ q, r.producer = some q → Steady q
  served : ∀ tier, tier = "active" ∨ tier = "thumbnail" → p.hub.sinks ⟨id, tier⟩ ≠ [] →
    lastDemand p.posts ⟨id, tier⟩ = none → r.restartTimer.isSome = true ∨
      ∃ q, r.producer = some q ∧ (q.tierPossible tier = true → tier ∈ q.tiers)

/-- A rebuild is asked for, or every track is fine. -/
def Attended (w : World) : Prop :=
  w.requested = true ∨ ∀ id r, w.plane.tracks id = some r → Fine w.plane id r

namespace Fine

variable {p p' : MediaPlane} {id : String} {r r' : Registered}

/-- Nothing about the track's producer or restart changes, and nobody new
waits. -/
theorem congr (h : Fine p id r) (hproducer : r'.producer = r.producer)
    (htimer : r'.restartTimer = r.restartTimer)
    (hwaits : ∀ tier, p'.hub.sinks ⟨id, tier⟩ ≠ [] → lastDemand p'.posts ⟨id, tier⟩ = none →
      p.hub.sinks ⟨id, tier⟩ ≠ [] ∧ lastDemand p.posts ⟨id, tier⟩ = none) : Fine p' id r' := by
  refine ⟨fun q hq => h.steady q (hproducer ▸ hq), fun tier htier hsinks hlast => ?_⟩
  obtain ⟨hsinks', hlast'⟩ := hwaits tier hsinks hlast
  rw [hproducer, htimer]
  exact h.served tier htier hsinks' hlast'

theorem of_still (h : Fine p id r) (hstill : Still p p') (hproducer : r'.producer = r.producer)
    (htimer : r'.restartTimer = r.restartTimer) : Fine p' id r' := by
  refine h.congr hproducer htimer fun tier hsinks hlast => ?_
  rw [hstill.sinks] at hsinks
  rw [hstill.posts] at hlast
  exact ⟨hsinks, hlast⟩

theorem of_keeps (h : Fine p id r) (hkeeps : Keeps p p') : Fine p' id r :=
  h.of_still hkeeps.toStill rfl rfl

/-- A track that is retried, or that nobody waits for. -/
theorem of_none (hproducer : r.producer = none)
    (h : r.restartTimer.isSome = true ∨ ∀ tier, p.hub.sinks ⟨id, tier⟩ = []) : Fine p id r := by
  refine ⟨fun q hq => ?_, fun tier _ hsinks _ => ?_⟩
  · cases hq.symm.trans hproducer
  · exact .inl (h.resolve_right fun hempty => hsinks (hempty tier))

end Fine

variable {p : MediaPlane} {id : String} {r : Registered}

/-- What `restart_producer` leaves: the producer while it asks for a
rebuild, or none and a restart scheduled. -/
theorem restartProducer_cases
    (hr : p.tracks id = some r) (error : String) :
    ∃ r', (p.restartProducer id error).1.tracks = Function.update p.tracks id (some r') ∧
      r'.graceTimers = r.graceTimers ∧
      ((p.restartProducer id error).2.isSome = true ∧ r'.producer = r.producer ∨
        (p.restartProducer id error).2 = none ∧ r'.producer = none ∧
          r'.restartTimer.isSome = true) := by
  simp only [MediaPlane.restartProducer, hr]
  split
  · exact ⟨_, rfl, rfl, .inl ⟨rfl, rfl⟩⟩
  · exact ⟨_, rfl, rfl, .inr ⟨rfl, rfl, rfl⟩⟩

theorem tracks_cases {p' : MediaPlane} {o : Option Registered} {i : String} {t : Registered}
    (ht : p'.tracks i = some t) (htracks : p'.tracks = Function.update p.tracks id o) :
    i = id ∧ o = some t ∨ i ≠ id ∧ p.tracks i = some t := by
  rw [htracks] at ht
  by_cases hi : i = id
  · subst hi
    rw [update_self] at ht
    exact .inl ⟨rfl, ht⟩
  · rw [update_of_ne hi] at ht
    exact .inr ⟨hi, ht⟩

section

variable {p' : MediaPlane} {rest : List Post} {key k : HubKey} {n : Nat}
  (hposts : p.posts = .demand key n :: rest) (hkeeps : Keeps { p with posts := rest } p')
include hposts hkeeps

theorem lastDemand_self (hlast : lastDemand p'.posts key = none) :
    lastDemand p.posts key = some n := by
  rw [hkeeps.posts] at hlast
  rw [hposts, lastDemand_cons, hlast, Post.demandOf, if_pos rfl]
  rfl

theorem lastDemand_other (hk : k ≠ key) (hlast : lastDemand p'.posts k = none) :
    lastDemand p.posts k = none := by
  rw [hkeeps.posts] at hlast
  rw [hposts, lastDemand_cons, hlast, Post.demandOf, if_neg (Ne.symm hk)]
  rfl

end

namespace Attended

variable {w : World}

/-- A callback or timer, once `restart_producer` has seen to its failure. -/
theorem settle (r : MediaPlane × Option Failure)
    (h : w.requested = true ∨ ∀ id t, r.1.tracks id = some t →
      (∀ f, r.2 = some f → f.track ≠ id) → Fine r.1 id t) : Attended (w.settle r) := by
  have hkeeps := keeps_settle w r
  unfold World.settle at hkeeps ⊢
  split
  · rename_i hnone
    exact h.imp_right fun h id t ht =>
      h id t ht fun f hf => absurd (hf.symm.trans hnone) (some_ne_none _)
  rename_i f hf
  simp only [hf] at hkeeps
  split
  · rename_i hgone
    refine h.imp_right fun h id t ht => h id t ht fun f' hf' => ?_
    cases hf'.symm.trans hf
    rintro rfl
    cases ht.symm.trans hgone
  rename_i t ht
  simp only [ht] at hkeeps
  obtain ⟨t', htracks, -, ⟨hasked, -⟩ | ⟨hnone, hproducer, htimer⟩⟩ :=
    restartProducer_cases ht f.error
  · left
    simp [hasked]
  refine h.imp (fun hw => by simp [hw]) fun h id t₁ ht₁ => ?_
  obtain ⟨-, heq⟩ | ⟨hid, ht₁⟩ := tracks_cases ht₁ htracks
  · cases heq
    exact .of_none hproducer (.inl htimer)
  refine (h id t₁ ht₁ fun f' hf' => ?_).of_keeps hkeeps
  cases hf'.symm.trans hf
  exact Ne.symm hid

variable {p : MediaPlane} {id i : String} {r t : Registered}

/-- A demand callback: the tier starts in the track's producer, which is
built if need be. -/
theorem onDemand {rest : List Post} {key : HubKey} {n : Nat} {b : Build}
    {s : Start} (hedge : Edge p) (h : ∀ i r, p.tracks i = some r → Fine p i r)
    (hposts : p.posts = .demand key n :: rest)
    (hbuild : 0 < n → ∀ r ∈ p.tracks key.trackId, r.producer = none →
      b = .ok ∧ r.reg.spec.source.isSome = true)
    (ht : (MediaPlane.onDemand { p with posts := rest } key n b s).1.tracks i = some t)
    (hok : ∀ f, (MediaPlane.onDemand { p with posts := rest } key n b s).2 = some f → f.track ≠ i) :
    Fine (MediaPlane.onDemand { p with posts := rest } key n b s).1 i t := by
  have hkeeps := Keeps.onDemand { p with posts := rest } key n b s
  obtain ⟨hi, hr⟩ | ⟨rfl, r, hr, hcases⟩ := onDemand_cases ht
  · refine (h i t hr).congr rfl rfl fun tier hsinks hlast => ⟨hkeeps.sinks _ ▸ hsinks, ?_⟩
    exact lastDemand_other hposts hkeeps (fun heq => hi (congrArg HubKey.trackId heq)) hlast
  have hfine := h key.trackId r hr
  obtain ⟨rfl, rfl⟩ | ⟨hn, hnone, -⟩ | ⟨hn, q, hq, rfl, hstart⟩ := hcases
  · -- nobody is left: the grace timer is armed
    refine hfine.congr rfl rfl fun tier hsinks hlast => ⟨hkeeps.sinks _ ▸ hsinks, ?_⟩
    refine lastDemand_other hposts hkeeps (fun hkey => ?_) hlast
    rw [hkey] at hsinks hlast
    rw [hkeeps.sinks] at hsinks
    exact hsinks ((hedge key 0 (lastDemand_self hposts hkeeps hlast)).mp rfl)
  · exact absurd hnone (ensureProducer_some (hbuild hn r hr))
  have hsteady : Steady q := by
    obtain hold | ⟨-, hnew⟩ := ensureProducer_cases hq
    · exact hfine.steady q hold
    · exact fun hne => absurd hnew hne
  have hstarted := startTier_started q key.tier s
  -- a start that fails goes to the restart
  obtain ⟨hsteady', hmem⟩ := startTier_true (hstart hok) hsteady
  refine ⟨fun q' hq' => some.inj hq' ▸ hsteady', fun tier htier hsinks hlast => ?_⟩
  by_cases hkey : tier = key.tier
  · subst hkey
    refine .inr ⟨_, rfl, fun hpossible => hmem ?_⟩
    rwa [tierPossible_congr hstarted.kind hstarted.source] at hpossible
  have hlast' := lastDemand_other hposts hkeeps (fun heq => hkey (congrArg HubKey.tier heq)) hlast
  refine (hfine.served tier htier (hkeeps.sinks _ ▸ hsinks) hlast').imp_right ?_
  rintro ⟨q', hq', hserved⟩
  obtain hold | ⟨hnone, -⟩ := ensureProducer_cases hq
  · cases hold.symm.trans hq'
    refine ⟨_, rfl, fun hpossible => hstarted.kept tier (hserved ?_)⟩
    rwa [tierPossible_congr hstarted.kind hstarted.source] at hpossible
  · cases hq'.symm.trans hnone

theorem graceFires (hc : p.hub.Counted)
    (h : ∀ i r, p.tracks i = some r → Fine p i r)
    (hr : p.tracks id = some r) (tier : String)
    (ht : (p.graceFires id tier).tracks i = some t) : Fine (p.graceFires id tier) i t := by
  have hkeeps := Keeps.graceFires p id tier
  have hfine := h id r hr
  obtain ⟨t', htracks, htimer, -, hproducer⟩ := graceFires_cases hr tier
  obtain ⟨rfl, heq⟩ | ⟨-, ht⟩ := tracks_cases ht htracks
  swap
  · exact (h i t ht).of_keeps hkeeps
  cases heq
  obtain ⟨hnone, hnone'⟩ | ⟨q, hq, ⟨-, hq'⟩ | ⟨hzero, hq'⟩⟩ := hproducer
  · exact (hfine.of_keeps hkeeps).congr (hnone'.trans hnone.symm) htimer fun _ => And.intro
  · exact (hfine.of_keeps hkeeps).congr (hq'.trans hq.symm) htimer fun _ => And.intro
  refine ⟨fun q' hq'' => ?_, fun tier' htier hsinks hlast => ?_⟩
  · cases hq''.symm.trans hq'
    exact (hfine.steady q hq).stopTier tier
  have hne : tier' ≠ tier := by
    rintro rfl
    rw [hkeeps.sinks] at hsinks
    exact absurd hzero (Nat.pos_iff_ne_zero.mp ((hc.subscriberCount_pos _).mpr hsinks))
  rw [htimer]
  refine ((hfine.of_keeps hkeeps).served tier' htier hsinks hlast).imp_right ?_
  rintro ⟨q', hq'', hserved⟩
  cases hq''.symm.trans hq
  exact ⟨_, hq', fun hpossible => mem_stopTier.mpr ⟨hserved hpossible, hne⟩⟩

theorem restartFires (hc : p.hub.Counted)
    (h : ∀ i r, p.tracks i = some r → Fine p i r)
    (hr : p.tracks id = some r) {b : Build} {active thumbnail : Start}
    (hactive : 0 < p.hub.subscriberCount ⟨id, "active"⟩ → active = .ok)
    (hthumbnail : 0 < p.hub.subscriberCount ⟨id, "thumbnail"⟩ → thumbnail = .ok)
    (ht : (p.restartFires id b active thumbnail).1.tracks i = some t)
    (hok : ∀ f, (p.restartFires id b active thumbnail).2 = some f → f.track ≠ i) :
    Fine (p.restartFires id b active thumbnail).1 i t := by
  have hkeeps := Keeps.restartFires p id b active thumbnail
  have hfine := h id r hr
  obtain ⟨t', htracks, -, hcases⟩ := restartFires_cases hr b active thumbnail
  obtain ⟨rfl, heq⟩ | ⟨-, ht⟩ := tracks_cases ht htracks
  swap
  · exact (h i t ht).of_keeps hkeeps
  cases heq
  obtain ⟨hnone, hnone', hq⟩ | ⟨f, hf, htrack, -⟩ | ⟨q, hq, hq'⟩ := hcases
  · -- nobody watches
    refine ⟨fun q' hq' => hfine.steady q' (hq ▸ hq'), fun tier htier hsinks _ => ?_⟩
    rw [hkeeps.sinks] at hsinks
    have hpos := (hc.subscriberCount_pos _).mpr hsinks
    obtain rfl | rfl := htier
    · omega
    · omega
  · exact absurd htrack (hok f hf)
  have hsteady : Steady q := by
    obtain hold | ⟨-, hnew⟩ := ensureProducer_cases hq
    · exact hfine.steady q hold
    · exact fun hne => absurd hnew hne
  obtain ⟨hkind, hsource, -, -, hstarts⟩ :=
    startDemanded_spec p i q [("active", active), ("thumbnail", thumbnail)]
  obtain ⟨hsteady', hserved⟩ := hstarts (by simpa using ⟨hactive, hthumbnail⟩) hsteady
  refine ⟨fun q' hq'' => some.inj (hq'.symm.trans hq'') ▸ hsteady',
    fun tier htier hsinks _ => .inr ⟨_, hq', fun hpossible => ?_⟩⟩
  rw [hkeeps.sinks] at hsinks
  rw [tierPossible_congr hkind hsource] at hpossible
  have hpos := (hc.subscriberCount_pos _).mpr hsinks
  obtain rfl | rfl := htier
  · exact hserved ("active", active) (by simp) hpos hpossible
  · exact hserved ("thumbnail", thumbnail) (by simp) hpos hpossible

section

variable (hw : Wired w) (h : Attended w)

include h

include hw in
/-- A track that is new has no viewer yet. -/
theorem register (reg : TrackRegistration) (holds : List (String × Sink)) :
    Attended { w with plane := w.plane.registerTrack reg, holds } := by
  refine h.imp_right fun h i t ht => ?_
  obtain ⟨hnone, rfl⟩ | ⟨r, reg', refs, hr, rfl⟩ := registerTrack_tracks ht
  · refine .of_none rfl (.inr fun tier => ?_)
    rw [(Still.registerTrack ..).sinks]
    exact @Wired.sinks_eq_nil _ hw ⟨i, tier⟩ hnone
  · exact (h i r hr).of_still (.registerTrack ..) rfl rfl

theorem unregister (id : String) (holds : List (String × Sink)) :
    Attended { w with plane := w.plane.unregisterTrack id, holds } := by
  refine h.imp_right fun h i t ht => ?_
  obtain ⟨r, refs, hr, rfl⟩ := unregisterTrack_tracks ht
  exact (h i r hr).of_still (.unregisterTrack ..) rfl rfl

include hw in
/-- A first subscriber has its callback under way. -/
theorem subscribe (key : HubKey) (sink : Sink) (subscriptions : List (HubKey × Sink)) :
    Attended { w with plane := w.plane.subscribe key sink, subscriptions } := by
  refine h.imp_right fun h i t ht => ?_
  rw [subscribe_tracks] at ht
  refine (h i t ht).congr rfl rfl fun tier hsinks hlast => ?_
  obtain ⟨hsinks', hlast'⟩ := subscribe_spec hw.counted key ⟨i, tier⟩ sink
  rw [hsinks'] at hsinks
  rw [hlast'] at hlast
  split at hlast
  · cases hlast
  rename_i hmore
  refine ⟨?_, hlast⟩
  split at hsinks
  · rename_i hkey
    rw [hkey]
    exact fun hempty => hmore ⟨hkey, hempty⟩
  · exact hsinks

include hw in
/-- Whoever still waits did before. -/
theorem unsubscribe (key : HubKey) (sink : Sink) (subscriptions : List (HubKey × Sink))
    (left : HubKey → Nat) :
    Attended { w with plane := w.plane.unsubscribe key sink, subscriptions, left } := by
  refine h.imp_right fun h i t ht => ?_
  rw [unsubscribe_tracks] at ht
  refine (h i t ht).congr rfl rfl fun tier hsinks hlast => ?_
  obtain ⟨hsinks', hlast'⟩ := unsubscribe_spec hw.counted key ⟨i, tier⟩ sink
  rw [hsinks'] at hsinks
  rw [hlast'] at hlast
  split at hlast
  · cases hlast
  refine ⟨?_, hlast⟩
  split at hsinks
  · rename_i hkey
    rw [hkey]
    rintro hempty
    exact hsinks (by rw [hempty]; rfl)
  · exact hsinks

/-- A posted failure goes to `restart_producer`. -/
theorem failed {f : Failure} {rest : List Post} (hposts : w.plane.posts = .failed f :: rest) :
    Attended (w.settle ({ w.plane with posts := rest }, some f)) := by
  refine settle ({ w.plane with posts := rest }, some f)
    (h.imp_right fun h i t ht hok => (h i t ht).congr rfl rfl fun tier hsinks hlast => ?_)
  refine ⟨hsinks, ?_⟩
  have hlast' : lastDemand rest ⟨i, tier⟩ = none := hlast
  rw [hposts, lastDemand_cons, hlast']
  rfl

theorem busError {error : String} {origin : Origin} {p : MediaPlane}
    (hp : w.plane.busError id error origin = some p) : Attended { w with plane := p } := by
  obtain ⟨r, q, hr, hq, rfl⟩ := busError_eq hp
  refine h.imp_right fun h i t ht => ?_
  have hfine : Fine w.plane i t := by
    obtain ⟨rfl, heq⟩ | ⟨-, ht⟩ := tracks_cases ht rfl
    swap
    · exact h i t ht
    cases heq
    have hfine := h i r hr
    refine ⟨fun q' hq' => some.inj hq' ▸ hfine.steady q hq, fun tier htier hsinks hlast => ?_⟩
    refine (hfine.served tier htier hsinks hlast).imp_right ?_
    rintro ⟨q', hq', hserved⟩
    obtain rfl := some.inj (hq.symm.trans hq')
    exact ⟨_, rfl, hserved⟩
  refine hfine.congr rfl rfl fun tier hsinks hlast => ⟨hsinks, ?_⟩
  simp only [lastDemand_post_failed] at hlast
  exact hlast

include hw in
/-- **Step.** -/
theorem step {a : Act} (ha : Sound w a) {w' : World} (hstep : Recovery.step w a = some w') :
    Attended w' := by
  cases a with
  | register reg holder =>
    cases hstep
    exact h.register hw reg _
  | unregister id sink =>
    obtain ⟨-, rfl⟩ := guarded.mp hstep
    exact h.unregister id _
  | subscribe key sink =>
    obtain ⟨-, rfl⟩ := guarded.mp hstep
    exact h.subscribe hw key sink _
  | unsubscribe key sink =>
    obtain ⟨-, rfl⟩ := guarded.mp hstep
    exact h.unsubscribe hw key sink _ _
  | dispatch b s =>
    obtain ⟨m, rest, hposts, rfl⟩ := step_dispatch hstep
    cases m with
    | demand key n =>
      have hbuild : CallbackBuilds w b (some (.demand key n)) := by
        simpa [Sound, hposts] using ha
      exact settle _ (h.imp_right fun h i t ht hok => onDemand hw.edge h hposts hbuild ht hok)
    | failed f => exact h.failed hposts
  | busError id error origin =>
    obtain ⟨p, hp, rfl⟩ := map_eq_some_iff.mp hstep
    exact h.busError hp
  | graceFires id tier =>
    obtain ⟨hdue, rfl⟩ := guarded.mp hstep
    refine h.imp_right fun h i t ht => ?_
    cases hr : w.plane.tracks id with
    | none => simp [hr, due] at hdue
    | some r => exact graceFires hw.counted h hr tier ht
  | restartFires id b active thumbnail =>
    obtain ⟨hdue, rfl⟩ := guarded.mp hstep
    refine settle _ (h.imp_right fun h i t ht hok => ?_)
    cases hr : w.plane.tracks id with
    | none => simp [hr, due] at hdue
    | some r => exact restartFires hw.counted h hr ha.1 ha.2 ht hok
  | rebuild =>
    cases hstep
    refine .inr fun i t ht => ?_
    obtain ⟨r, -, rfl⟩ := map_eq_some_iff.mp ht
    exact .of_none rfl (.inr fun tier => (hw.rebuild w.left).sinks ⟨i, tier⟩)
  -- neither the sources nor the clock say who waits
  | setSource source availability =>
    cases hstep
    exact h.imp_right fun h i t ht => (h i t ht).congr rfl rfl fun _ => And.intro
  | tick ms =>
    cases hstep
    exact h.imp_right fun h i t ht => (h i t ht).congr rfl rfl fun _ => And.intro

end

end Attended

/-! ## Nobody watches -/

/-- A tier that runs unwatched has its grace timer armed, and no grace timer
is overdue. -/
structure Idle (p : MediaPlane) (left : HubKey → Nat) (id : String) (r : Registered) : Prop where
  armed : ∀ q tier, r.producer = some q → tier ∈ q.tiers → p.hub.sinks ⟨id, tier⟩ = [] →
    lastDemand p.posts ⟨id, tier⟩ = none →
    ∃ d, r.graceTimers tier = some d ∧ d ≤ left ⟨id, tier⟩ + p.graceMs
  timely : ∀ tier d, r.graceTimers tier = some d → p.now ≤ d

structure Resting (w : World) : Prop where
  /-- A callback that says that nobody is left is not late. -/
  fresh : ∀ key n, lastDemand w.plane.posts key = some n → w.plane.hub.sinks key = [] →
    w.left key = w.plane.now
  tracks : ∀ id r, w.plane.tracks id = some r → Idle w.plane w.left id r

namespace Idle

variable {p p' : MediaPlane} {left left' : HubKey → Nat} {id : String} {r r' : Registered}

/-- No branch is new, and the grace timers are as before. -/
theorem congr (h : Idle p left id r) (hnow : p'.now = p.now) (hgraceMs : p'.graceMs = p.graceMs)
    (hgrace : r'.graceTimers = r.graceTimers)
    (hbranch : ∀ q' tier, r'.producer = some q' → tier ∈ q'.tiers → p'.hub.sinks ⟨id, tier⟩ = [] →
      ∃ q, r.producer = some q ∧ tier ∈ q.tiers)
    (hempty : ∀ tier, p'.hub.sinks ⟨id, tier⟩ = [] → lastDemand p'.posts ⟨id, tier⟩ = none →
      p.hub.sinks ⟨id, tier⟩ = [] ∧ lastDemand p.posts ⟨id, tier⟩ = none ∧
        left' ⟨id, tier⟩ = left ⟨id, tier⟩) : Idle p' left' id r' := by
  refine ⟨fun q' tier hq' hmem hsinks hlast => ?_, fun tier d hd => ?_⟩
  · obtain ⟨q, hq, hmem'⟩ := hbranch q' tier hq' hmem hsinks
    obtain ⟨hsinks', hlast', hleft⟩ := hempty tier hsinks hlast
    rw [hgrace, hgraceMs, hleft]
    exact h.armed q tier hq hmem' hsinks' hlast'
  · rw [hnow]
    exact h.timely tier d (hgrace ▸ hd)

theorem same (h : Idle p left id r) (hnow : p'.now = p.now) (hgraceMs : p'.graceMs = p.graceMs)
    (hgrace : r'.graceTimers = r.graceTimers) (hproducer : r'.producer = r.producer)
    (hempty : ∀ tier, p'.hub.sinks ⟨id, tier⟩ = [] → lastDemand p'.posts ⟨id, tier⟩ = none →
      p.hub.sinks ⟨id, tier⟩ = [] ∧ lastDemand p.posts ⟨id, tier⟩ = none ∧
        left' ⟨id, tier⟩ = left ⟨id, tier⟩) : Idle p' left' id r' :=
  h.congr hnow hgraceMs hgrace (fun q' _ hq' hmem _ => ⟨q', hproducer ▸ hq', hmem⟩) hempty

theorem of_still (h : Idle p left id r) (hstill : Still p p')
    (hgrace : r'.graceTimers = r.graceTimers) (hproducer : r'.producer = r.producer) :
    Idle p' left id r' := by
  refine h.same hstill.now hstill.graceMs hgrace hproducer fun tier hsinks hlast => ?_
  exact ⟨hstill.sinks _ ▸ hsinks, hstill.posts ▸ hlast, rfl⟩

theorem of_keeps (h : Idle p left id r) (hkeeps : Keeps p p') : Idle p' left id r :=
  h.of_still hkeeps.toStill rfl rfl

/-- One tier's grace timer is set or cleared, and no other tier's branch is
new. -/
theorem regrace (h : Idle p left id r) {tier₀ : String} {due : Option Nat}
    (hnow : p'.now = p.now) (hgraceMs : p'.graceMs = p.graceMs)
    (hgrace : r'.graceTimers = Function.update r.graceTimers tier₀ due)
    (hbranch : ∀ q' tier, tier ≠ tier₀ → r'.producer = some q' → tier ∈ q'.tiers →
      ∃ q, r.producer = some q ∧ tier ∈ q.tiers)
    (hempty : ∀ tier, tier ≠ tier₀ → p'.hub.sinks ⟨id, tier⟩ = [] →
      lastDemand p'.posts ⟨id, tier⟩ = none →
      p.hub.sinks ⟨id, tier⟩ = [] ∧ lastDemand p.posts ⟨id, tier⟩ = none)
    (harmed : ∀ q', r'.producer = some q' → tier₀ ∈ q'.tiers → p'.hub.sinks ⟨id, tier₀⟩ = [] →
      lastDemand p'.posts ⟨id, tier₀⟩ = none →
      ∃ d, due = some d ∧ d ≤ left ⟨id, tier₀⟩ + p.graceMs)
    (htimely : ∀ d, due = some d → p.now ≤ d) : Idle p' left id r' := by
  refine ⟨fun q' tier hq' hmem hsinks hlast => ?_, fun tier d hd => ?_⟩
  · rw [hgrace, hgraceMs]
    by_cases hne : tier = tier₀
    · subst hne
      rw [update_self]
      exact harmed q' hq' hmem hsinks hlast
    obtain ⟨q, hq, hmem'⟩ := hbranch q' tier hne hq' hmem
    obtain ⟨hsinks', hlast'⟩ := hempty tier hne hsinks hlast
    rw [update_of_ne hne]
    exact h.armed q tier hq hmem' hsinks' hlast'
  rw [hnow]
  rw [hgrace] at hd
  by_cases hne : tier = tier₀
  · subst hne
    rw [update_self] at hd
    exact htimely d hd
  · rw [update_of_ne hne] at hd
    exact h.timely tier d hd

/-- A track without a producer, and without timers. -/
theorem of_none (hproducer : r.producer = none) (hgrace : ∀ tier, r.graceTimers tier = none) :
    Idle p left id r :=
  ⟨fun _ _ hq => absurd (hq.symm.trans hproducer) (some_ne_none _),
    fun tier _ hd => absurd (hd.symm.trans (hgrace tier)) (some_ne_none _)⟩

end Idle

namespace Resting

variable {w : World}

theorem settle (r : MediaPlane × Option Failure)
    (hfresh : ∀ key n, lastDemand r.1.posts key = some n → r.1.hub.sinks key = [] →
      w.left key = r.1.now)
    (h : ∀ id t, r.1.tracks id = some t → Idle r.1 w.left id t) : Resting (w.settle r) := by
  have hkeeps := keeps_settle w r
  have hleft := (settle_subscriptions w r).2.2
  refine ⟨fun key n hn hsinks => ?_, fun id t ht => ?_⟩
  · rw [hleft, hkeeps.now]
    exact hfresh key n (hkeeps.posts ▸ hn) (hkeeps.sinks key ▸ hsinks)
  rw [hleft]
  revert hkeeps ht
  unfold World.settle
  split
  · exact fun _ ht => h id t ht
  rename_i f hf
  split
  · exact fun _ ht => h id t ht
  rename_i t₀ ht₀
  obtain ⟨t₁, htracks, hgrace, hproducer⟩ := restartProducer_cases ht₀ f.error
  intro hkeeps ht
  obtain ⟨rfl, heq⟩ | ⟨-, ht⟩ := tracks_cases ht htracks
  swap
  · exact (h id t ht).of_keeps hkeeps
  cases heq
  refine Idle.of_keeps ((h _ t₀ ht₀).congr rfl rfl hgrace (fun q tier hq hmem _ => ?_)
    fun tier hsinks hlast => ⟨hsinks, hlast, rfl⟩) hkeeps
  obtain ⟨-, hsame⟩ | ⟨-, hnone, -⟩ := hproducer
  · exact ⟨q, hsame ▸ hq, hmem⟩
  · cases hq.symm.trans hnone

variable {key : HubKey} {i id : String} {t r : Registered} {p : MediaPlane} {left : HubKey → Nat}

theorem onDemand {rest : List Post} {n : Nat} (b : Build) (s : Start)
    (hw : Wired w) (h : Resting w) (hposts : w.plane.posts = .demand key n :: rest)
        (ht : (MediaPlane.onDemand { w.plane with posts := rest } key n b s).1.tracks i = some t) :
    Idle (MediaPlane.onDemand { w.plane with posts := rest } key n b s).1 w.left i t := by
  have hkeeps := Keeps.onDemand { w.plane with posts := rest } key n b s
  obtain ⟨hi, hr⟩ | ⟨rfl, r, hr, hcases⟩ := onDemand_cases ht
  · refine (h.tracks i t hr).same hkeeps.now hkeeps.graceMs rfl rfl fun tier hsinks hlast =>
      ⟨hkeeps.sinks _ ▸ hsinks, ?_, rfl⟩
    exact lastDemand_other hposts hkeeps (fun heq => hi (congrArg HubKey.trackId heq)) hlast
  have hidle := h.tracks _ r hr
  generalize (MediaPlane.onDemand { w.plane with posts := rest } key n b s).1 = p' at hkeeps ⊢
  have hempty : ∀ tier, tier ≠ key.tier → p'.hub.sinks ⟨key.trackId, tier⟩ = [] →
      lastDemand p'.posts ⟨key.trackId, tier⟩ = none → w.plane.hub.sinks ⟨key.trackId, tier⟩ = [] ∧
        lastDemand w.plane.posts ⟨key.trackId, tier⟩ = none := fun tier hne hsinks hlast =>
    ⟨hkeeps.sinks _ ▸ hsinks,
      lastDemand_other hposts hkeeps (fun heq => hne (congrArg HubKey.tier heq)) hlast⟩
  -- the tier itself: what this callback told it is the last thing it will be told
  have hkey : p'.hub.sinks key = [] → lastDemand p'.posts key = none →
      n = 0 ∧ w.left key = w.plane.now := by
    intro hsinks hlast
    rw [hkeeps.sinks] at hsinks
    have hlast' := lastDemand_self hposts hkeeps hlast
    exact ⟨(hw.edge key n hlast').mpr hsinks, h.fresh key n hlast' hsinks⟩
  obtain ⟨rfl, rfl⟩ | ⟨hn, -, rfl⟩ | ⟨hn, q, hq, rfl, -⟩ := hcases
  · refine hidle.regrace hkeeps.now hkeeps.graceMs rfl (fun q' _ _ hq' hmem => ⟨q', hq', hmem⟩)
      hempty (fun _ _ _ hsinks hlast => ⟨_, rfl, ?_⟩) fun d hd => ?_
    · exact (congrArg (· + w.plane.graceMs) (hkey hsinks hlast).2).ge
    · have hdue : w.plane.now + w.plane.graceMs = d := some.inj hd
      omega
  · exact hidle.regrace hkeeps.now hkeeps.graceMs rfl (fun q' _ _ hq' hmem => ⟨q', hq', hmem⟩)
      hempty (fun _ _ _ hsinks hlast => absurd (hkey hsinks hlast).1 hn.ne') nofun
  refine hidle.regrace hkeeps.now hkeeps.graceMs rfl (fun q' tier hne hq' hmem => ?_)
    hempty (fun _ _ _ hsinks hlast => absurd (hkey hsinks hlast).1 hn.ne') nofun
  cases hq'
  have hmem' := ((startTier_started q key.tier s).added tier hmem).resolve_right hne
  obtain hsame | ⟨-, hempty⟩ := ensureProducer_cases hq
  · exact ⟨q, hsame, hmem'⟩
  · simp [hempty] at hmem'

theorem graceFires (hc : p.hub.Counted)
    (h : ∀ i r, p.tracks i = some r → Idle p left i r)
    (hr : p.tracks id = some r) (tier : String)
    (ht : (p.graceFires id tier).tracks i = some t) : Idle (p.graceFires id tier) left i t := by
  have hkeeps := Keeps.graceFires p id tier
  obtain ⟨t', htracks, -, hgrace, hproducer⟩ := graceFires_cases hr tier
  obtain ⟨rfl, heq⟩ | ⟨-, ht⟩ := tracks_cases ht htracks
  swap
  · exact (h i t ht).of_keeps hkeeps
  cases heq
  refine (h i r hr).regrace hkeeps.now hkeeps.graceMs hgrace (fun q' tier' _ hq' hmem => ?_)
    (fun tier' _ hsinks hlast => ?_) (fun q' hq' hmem hsinks _ => ?_) nofun
  · obtain ⟨-, hnone⟩ | ⟨q, hq, ⟨-, hsame⟩ | ⟨-, hstopped⟩⟩ := hproducer
    · exact absurd (hq'.symm.trans hnone) (some_ne_none _)
    · obtain rfl := some.inj (hsame.symm.trans hq')
      exact ⟨q, hq, hmem⟩
    · obtain rfl := some.inj (hstopped.symm.trans hq')
      exact ⟨q, hq, (mem_stopTier.mp hmem).1⟩
  · rw [hkeeps.sinks] at hsinks
    rw [hkeeps.posts] at hlast
    exact ⟨hsinks, hlast⟩
  rw [hkeeps.sinks] at hsinks
  obtain ⟨-, hnone⟩ | ⟨q, -, ⟨hpos, -⟩ | ⟨-, hstopped⟩⟩ := hproducer
  · exact absurd (hq'.symm.trans hnone) (some_ne_none _)
  · exact absurd hsinks ((hc.subscriberCount_pos _).mp hpos)
  · obtain rfl := some.inj (hstopped.symm.trans hq')
    exact absurd rfl (mem_stopTier.mp hmem).2

theorem restartFires (hc : p.hub.Counted)
    (h : ∀ i r, p.tracks i = some r → Idle p left i r)
    (hr : p.tracks id = some r) (b : Build) (active thumbnail : Start)
    (ht : (p.restartFires id b active thumbnail).1.tracks i = some t) :
    Idle (p.restartFires id b active thumbnail).1 left i t := by
  have hkeeps := Keeps.restartFires p id b active thumbnail
  obtain ⟨t', htracks, hgrace, hcases⟩ := restartFires_cases hr b active thumbnail
  obtain ⟨rfl, heq⟩ | ⟨-, ht⟩ := tracks_cases ht htracks
  swap
  · exact (h i t ht).of_keeps hkeeps
  cases heq
  refine (h i r hr).congr hkeeps.now hkeeps.graceMs hgrace (fun q' tier hq' hmem hsinks => ?_)
    fun tier hsinks hlast => ⟨hkeeps.sinks _ ▸ hsinks, hkeeps.posts ▸ hlast, rfl⟩
  obtain ⟨-, -, hsame⟩ | ⟨-, -, -, hsame⟩ | ⟨q, hq, hstarted⟩ := hcases
  · exact ⟨q', hsame ▸ hq', hmem⟩
  · exact ⟨q', hsame ▸ hq', hmem⟩
  cases hq'.symm.trans hstarted
  obtain ⟨-, -, -, hadded, -⟩ :=
    startDemanded_spec p i q [("active", active), ("thumbnail", thumbnail)]
  rw [hkeeps.sinks] at hsinks
  obtain hold | hpos := hadded tier hmem
  · obtain hsame | ⟨-, hempty⟩ := ensureProducer_cases hq
    · exact ⟨q, hsame, hold⟩
    · simp [hempty] at hold
  · exact absurd hsinks ((hc.subscriberCount_pos _).mp hpos)

theorem mem_sinks (hw : Wired w) {sink : Sink} (h : (key, sink) ∈ w.subscriptions) :
    sink ∈ w.plane.hub.sinks key := by
  rw [hw.sinks]
  exact List.mem_map.mpr ⟨(key, sink), mem_filter.mpr ⟨h, by simp⟩, rfl⟩

theorem unsubscribe (hw : Wired w) (h : Resting w) {sink : Sink}
    (hmem : (key, sink) ∈ w.subscriptions) :
    Resting { w with
      plane := w.plane.unsubscribe key sink
      subscriptions := w.subscriptions.filter (· ≠ (key, sink))
      left := Function.update w.left key w.plane.now } := by
  have hspec := fun k => unsubscribe_spec hw.counted key k sink
  have hnow := (Calm.unsubscribe w.plane key sink).1
  refine ⟨fun k n hn hsinks => ?_, fun i t ht => ?_⟩
  · simp only [hnow, (hspec k).1, (hspec k).2] at hn hsinks ⊢
    by_cases hk : k = key
    · subst hk
      rw [update_self]
    rw [if_neg hk] at hsinks
    rw [if_neg (fun h => hk h.1)] at hn
    rw [update_of_ne hk]
    exact h.fresh k n hn hsinks
  simp only [unsubscribe_tracks] at ht
  refine (h.tracks i t ht).same hnow (unsubscribe_graceMs ..) rfl rfl fun tier hsinks hlast => ?_
  simp only [(hspec ⟨i, tier⟩).1, (hspec ⟨i, tier⟩).2] at hsinks hlast
  by_cases hk : (⟨i, tier⟩ : HubKey) = key
  · rw [if_pos hk] at hsinks
    have hsome := entries_isSome (ne_nil_of_mem (mem_sinks hw hmem))
    rw [if_pos ⟨hk, hsome, hsinks⟩] at hlast
    cases hlast
  rw [if_neg hk] at hsinks
  rw [if_neg (fun h => hk h.1)] at hlast
  exact ⟨hsinks, hlast, update_of_ne hk ..⟩

section

variable (hw : Wired w) (h : Resting w)

include h

theorem fresh_of_still {p : MediaPlane} (hstill : Still w.plane p) (key : HubKey) (n : Nat)
    (hn : lastDemand p.posts key = some n) (hsinks : p.hub.sinks key = []) :
    w.left key = p.now := by
  rw [hstill.posts] at hn
  rw [hstill.sinks] at hsinks
  rw [hstill.now]
  exact h.fresh key n hn hsinks

theorem register (reg : TrackRegistration) (holds : List (String × Sink)) :
    Resting { w with plane := w.plane.registerTrack reg, holds } := by
  refine ⟨h.fresh_of_still (.registerTrack ..), fun i t ht => ?_⟩
  obtain ⟨-, rfl⟩ | ⟨r, reg', refs, hr, rfl⟩ := registerTrack_tracks ht
  · exact .of_none rfl fun _ => rfl
  · exact (h.tracks i r hr).of_still (.registerTrack ..) rfl rfl

theorem unregister (id : String) (holds : List (String × Sink)) :
    Resting { w with plane := w.plane.unregisterTrack id, holds } := by
  refine ⟨h.fresh_of_still (.unregisterTrack ..), fun i t ht => ?_⟩
  obtain ⟨r, refs, hr, rfl⟩ := unregisterTrack_tracks ht
  exact (h.tracks i r hr).of_still (.unregisterTrack ..) rfl rfl

include hw in
theorem subscribe (key : HubKey) (sink : Sink) (subscriptions : List (HubKey × Sink)) :
    Resting { w with plane := w.plane.subscribe key sink, subscriptions } := by
  have hnow := (Calm.subscribe w.plane key sink).1
  have hother : ∀ k, (w.plane.subscribe key sink).hub.sinks k = [] →
      w.plane.hub.sinks k = [] ∧
        lastDemand (w.plane.subscribe key sink).posts k = lastDemand w.plane.posts k := by
    intro k hsinks
    obtain ⟨hsinks', hlast'⟩ := subscribe_spec hw.counted key k sink
    rw [hsinks'] at hsinks
    by_cases hk : k = key
    · simp [hk] at hsinks
    · rw [if_neg hk] at hsinks
      rw [if_neg (fun h => hk h.1)] at hlast'
      exact ⟨hsinks, hlast'⟩
  refine ⟨fun k n hn hsinks => ?_, fun i t ht => ?_⟩
  · obtain ⟨hsinks', hlast'⟩ := hother k hsinks
    exact (h.fresh k n (hlast'.symm.trans hn) hsinks').trans hnow.symm
  · rw [subscribe_tracks] at ht
    refine (h.tracks i t ht).same hnow (subscribe_graceMs ..) rfl rfl fun tier hsinks hlast => ?_
    obtain ⟨hsinks', hlast'⟩ := hother ⟨i, tier⟩ hsinks
    exact ⟨hsinks', hlast'.symm.trans hlast, rfl⟩

include hw in
theorem dispatch {m : Post} {rest : List Post} (hposts : w.plane.posts = m :: rest) (b : Build)
    (s : Start) : Resting (w.dispatch m rest b s) := by
  have hrest : ∀ key n, lastDemand rest key = some n → w.plane.hub.sinks key = [] →
      w.left key = w.plane.now := fun key n hn =>
    h.fresh key n (hposts ▸ lastDemand_of_tail hn)
  cases m with
  | demand key n =>
    have hkeeps := Keeps.onDemand { w.plane with posts := rest } key n b s
    refine settle _ (fun k n' hn hsinks => ?_) fun i t ht => h.onDemand b s hw hposts ht
    rw [hkeeps.posts] at hn
    rw [hkeeps.sinks] at hsinks
    rw [hkeeps.now]
    exact hrest k n' hn hsinks
  | failed f =>
    refine settle ({ w.plane with posts := rest }, some f) hrest fun i t ht => ?_
    refine (h.tracks i t ht).same rfl rfl rfl rfl fun tier hsinks hlast => ⟨hsinks, ?_, rfl⟩
    have hlast' : lastDemand rest ⟨i, tier⟩ = none := hlast
    rw [hposts, lastDemand_cons, hlast']
    rfl

theorem busError {error : String} {origin : Origin} {p : MediaPlane}
    (hp : w.plane.busError id error origin = some p) : Resting { w with plane := p } := by
  obtain ⟨r, q, hr, hq, rfl⟩ := busError_eq hp
  refine ⟨fun key n hn hsinks => ?_, fun i t ht => ?_⟩
  · simp only [lastDemand_post_failed] at hn
    exact h.fresh key n hn hsinks
  · have hidle : Idle w.plane w.left i t := by
      obtain ⟨rfl, heq⟩ | ⟨-, ht⟩ := tracks_cases ht rfl
      swap
      · exact h.tracks i t ht
      cases heq
      refine (h.tracks i r hr).congr rfl rfl rfl (fun q' tier hq' hmem _ => ⟨q, hq, ?_⟩)
        fun _ hsinks hlast => ⟨hsinks, hlast, rfl⟩
      cases hq'
      exact hmem
    refine hidle.same rfl rfl rfl rfl fun tier hsinks hlast => ⟨hsinks, ?_, rfl⟩
    simp only [lastDemand_post_failed] at hlast
    exact hlast

include hw in
/-- The rebuild comes when the last viewers left. -/
theorem rebuild : Resting { w with
    plane := (flushAll (closeAll w.plane w.subscriptions) w.holds).rebuild
    holds := []
    subscriptions := []
    requested := false
    left := fun key => if ∃ s ∈ w.subscriptions, s.1 = key then w.plane.now else w.left key } := by
  have hstill := (Still.flushAll (closeAll w.plane w.subscriptions) w.holds).trans (.rebuild _)
  obtain ⟨-, -, -, hlast⟩ := closeAll_spec hw.counted hw.edge w.subscriptions
  refine ⟨fun key n hn _ => ?_, fun i t ht => ?_⟩
  · have hnow := hstill.now.trans (Calm.closeAll w.plane w.subscriptions).1
    simp only [hstill.posts, hnow] at hn ⊢
    split
    · rfl
    · rename_i hfree
      have hnone : ∀ s ∈ w.subscriptions, s.1 ≠ key := fun s hs heq => hfree ⟨s, hs, heq⟩
      refine h.fresh key n ((hlast key hnone).symm.trans hn) ?_
      rw [hw.sinks, map_eq_nil_iff, filter_eq_nil_iff]
      exact fun s hs => by simpa using hnone s hs
  · obtain ⟨r, -, rfl⟩ := map_eq_some_iff.mp ht
    exact .of_none rfl fun _ => rfl

include hw in
/-- **Step.** -/
theorem step {a : Act} (ha : Prompt w a) {w' : World} (hstep : Recovery.step w a = some w') :
    Resting w' := by
  cases a with
  | register reg holder =>
    cases hstep
    exact h.register reg _
  | unregister id sink =>
    obtain ⟨-, rfl⟩ := guarded.mp hstep
    exact h.unregister id _
  | subscribe key sink =>
    obtain ⟨-, rfl⟩ := guarded.mp hstep
    exact h.subscribe hw key sink _
  | unsubscribe key sink =>
    obtain ⟨hmem, rfl⟩ := guarded.mp hstep
    exact h.unsubscribe hw hmem
  | dispatch b s =>
    obtain ⟨m, rest, hposts, rfl⟩ := step_dispatch hstep
    exact h.dispatch hw hposts b s
  | busError id error origin =>
    obtain ⟨p, hp, rfl⟩ := map_eq_some_iff.mp hstep
    exact h.busError hp
  | setSource source availability =>
    cases hstep
    exact ⟨h.fresh, fun i t ht =>
      (h.tracks i t ht).same rfl rfl rfl rfl fun _ hsinks hlast => ⟨hsinks, hlast, rfl⟩⟩
  | graceFires id tier =>
    obtain ⟨hdue, rfl⟩ := guarded.mp hstep
    refine ⟨h.fresh_of_still (Keeps.graceFires ..).toStill, fun i t ht => ?_⟩
    cases hr : w.plane.tracks id with
    | none => simp [hr, due] at hdue
    | some r => exact graceFires hw.counted h.tracks hr tier ht
  | restartFires id b active thumbnail =>
    obtain ⟨hdue, rfl⟩ := guarded.mp hstep
    refine settle _ (h.fresh_of_still (Keeps.restartFires ..).toStill) fun i t ht => ?_
    cases hr : w.plane.tracks id with
    | none => simp [hr, due] at hdue
    | some r => exact restartFires hw.counted h.tracks hr b active thumbnail ht
  | rebuild =>
    cases hstep
    exact h.rebuild hw
  | tick ms =>
    cases hstep
    obtain ⟨hquiet, htimers⟩ := ha
    refine ⟨fun key n hn _ => ?_, fun i t ht => ?_⟩
    · exact absurd (hn.symm.trans (lastDemand_eq_none hquiet key)) (some_ne_none _)
    · exact ⟨(h.tracks i t ht).armed, fun tier d hd => htimers i t tier d ht hd⟩

end

end Resting

/-! ## Result -/

/-- What the plane takes for possible, the track's producer does too. -/
theorem tierPossible_producer {tier : String} {q : Producer}
    (hr : p.tracks id = some r) (hq : r.producer = some q) (h : p.tierPossible id tier = true) :
    q.tierPossible tier = true := by
  simp only [MediaPlane.tierPossible, hr, hq] at h
  split at h
  · cases h
  split at h
  · have hactive : tier = "active" := by simpa using h
    subst hactive
    unfold Producer.tierPossible
    split
    · rfl
    split <;> rfl
  · exact h

theorem tierPossible_tier {tier : String}
    (hr : p.tracks id = some r) (h : p.tierPossible id tier = true) :
    tier = "active" ∨ tier = "thumbnail" := by
  simp only [MediaPlane.tierPossible, hr] at h
  split at h
  · cases h
  rename_i hneither
  by_contra hother
  exact hneither (not_or.mp hother)

theorem Attended.served {w : World} (hw : Wired w) (h : Attended w) (hquiet : Quiet w) :
    Served w := by
  intro id r tier hr hpossible hcount
  obtain hrequested | h := h
  · exact .inr (.inr hrequested)
  have hfine := h id r hr
  have hsinks := (hw.counted.subscriberCount_pos _).mp hcount
  obtain htimer | ⟨q, hq, hmem⟩ :=
    hfine.served tier (tierPossible_tier hr hpossible) hsinks (lastDemand_eq_none hquiet _)
  · exact .inr (.inl htimer)
  · have htier := hmem (tierPossible_producer hr hq hpossible)
    exact .inl ⟨q, hq, htier, hfine.steady q hq (ne_nil_of_mem htier)⟩

theorem Resting.rested {w : World} (hw : Wired w) (h : Resting w) (hquiet : Quiet w) :
    Rested w := by
  intro id r q tier hr hq hmem hcount
  have hidle := h.tracks id r hr
  have hsinks : w.plane.hub.sinks ⟨id, tier⟩ = [] := by
    by_contra hsome
    exact absurd hcount ((hw.counted.subscriberCount_pos _).mpr hsome).ne'
  obtain ⟨d, hd, hle⟩ := hidle.armed q tier hq hmem hsinks (lastDemand_eq_none hquiet _)
  exact (hidle.timely tier d hd).trans hle

theorem Wired.init (graceMs ringSize : Nat) : Wired (mediaPlane graceMs ringSize).init :=
  ⟨FrameHub.counted_new ringSize, fun _ => rfl, nofun, fun _ => Nat.zero_le _, nofun⟩

/-- **Subscriptions, the hub and demand agree** in every run, and nobody
subscribes a track that is not registered. -/
theorem subscribers_wired {graceMs ringSize : Nat} {w : World}
    (h : (mediaPlane graceMs ringSize).Reachable w) :
    Wired w ∧ ∀ s ∈ w.subscriptions, (w.plane.tracks s.1.trackId).isSome = true := by
  have hw : Wired w := (mediaPlane graceMs ringSize).invariant (Wired.init ..)
    (fun _ _ _ h hstep => h.step hstep) h
  exact ⟨hw, fun _ => hw.registered⟩

/-- Two sessions share a camera; the first leaves and gives its registration
up before its callback runs. -/
def oneGivesUp : List Act :=
  watched ++ [.register cam (some 2), .subscribe ⟨"cam", "thumbnail"⟩ 2,
    .unsubscribe ⟨"cam", "active"⟩ 1, .unregister "cam" 1]

theorem subscribers_wired_camera :
    ∃ w, (mediaPlane 10000 31).run (mediaPlane 10000 31).init oneGivesUp = some w ∧
      w.plane.posts = [.demand ⟨"cam", "thumbnail"⟩ 1, .demand ⟨"cam", "active"⟩ 0] ∧
      w.plane.hub.sinks ⟨"cam", "active"⟩ = [] ∧ w.plane.hub.sinks ⟨"cam", "thumbnail"⟩ = [2] ∧
      (w.plane.tracks "cam").isSome = true ∧ Wired w := by
  refine evaluated (fun w => (w.plane.posts, w.subscriptions))
    (b := ([.demand ⟨"cam", "thumbnail"⟩ 1, .demand ⟨"cam", "active"⟩ 0],
      [(⟨"cam", "thumbnail"⟩, 2)])) (by decide +kernel) fun w hrun hw => ?_
  obtain ⟨hposts, hsubs⟩ := Prod.mk.inj hw
  obtain ⟨hwired, hregistered⟩ := subscribers_wired ⟨_, hrun⟩
  refine ⟨hposts, ?_, ?_, hregistered _ (by rw [hsubs]; exact mem_cons_self), hwired⟩
  · exact (hwired.edge ⟨"cam", "active"⟩ 0 (by rw [hposts]; decide)).mp rfl
  · rw [hwired.sinks, hsubs]
    decide

/-- **Whoever watches is served or being retried**: whenever no demand
callback is under way, every possible tier with a subscriber runs, or a
restart is scheduled, or a rebuild is asked for, in every run whose demand
callbacks can build their producer and whose restarts start what is
watched; and a tier without a subscriber runs for the grace period at most,
in every run whose callbacks and grace timers are not late. -/
theorem watched_is_served {graceMs ringSize : Nat} {acts : List Act} {w : World}
    (hrun : (mediaPlane graceMs ringSize).run (mediaPlane graceMs ringSize).init acts = some w)
    (hquiet : Quiet w) :
    ((mediaPlane graceMs ringSize).AllSteps Sound (mediaPlane graceMs ringSize).init acts →
        Served w) ∧
      ((mediaPlane graceMs ringSize).AllSteps Prompt (mediaPlane graceMs ringSize).init acts →
        Rested w) := by
  have hinit := Wired.init graceMs ringSize
  refine ⟨fun hsound => ?_, fun hprompt => ?_⟩
  · have hinv : Wired w ∧ Attended w := by
      refine (mediaPlane graceMs ringSize).run_induction (P := fun w => Wired w ∧ Attended w)
        (fun _ _ _ h ha hstep => ⟨h.1.step hstep, h.2.step h.1 ha hstep⟩)
        ⟨hinit, .inr fun _ _ hr => absurd hr.symm (some_ne_none _)⟩ hsound hrun
    exact hinv.2.served hinv.1 hquiet
  · have hinv : Wired w ∧ Resting w := by
      refine (mediaPlane graceMs ringSize).run_induction (P := fun w => Wired w ∧ Resting w)
        (fun _ _ _ h ha hstep => ⟨h.1.step hstep, h.2.step h.1 ha hstep⟩)
        ⟨hinit, nofun, fun _ _ hr => absurd hr.symm (some_ne_none _)⟩ hprompt hrun
    exact hinv.2.rested hinv.1 hquiet

/-- Of a camera's two viewers the one of the active tier leaves. -/
def oneLeaves : List Act :=
  .tick 5 :: (watched ++ [.register cam (some 2), .subscribe ⟨"cam", "thumbnail"⟩ 2,
    .dispatch .ok .ok, .unsubscribe ⟨"cam", "active"⟩ 1, .dispatch .ok .ok])

theorem watched_is_served_one_left :
    ∃ w, (mediaPlane 10000 31).run (mediaPlane 10000 31).init oneLeaves = some w ∧
      w.plane.hub.subscriberCount ⟨"cam", "thumbnail"⟩ = 1 ∧
      (w.plane.tracks "cam").bind (·.producer.map (·.tiers)) = some ["active", "thumbnail"] ∧
      Served w ∧ Rested w := by
  refine evaluated (fun w => (w.plane.posts, w.plane.hub.subscriberCount ⟨"cam", "thumbnail"⟩,
      (w.plane.tracks "cam").bind (·.producer.map (·.tiers))))
    (b := ([], 1, some ["active", "thumbnail"])) (by decide +kernel) fun w hrun hw => ?_
  obtain ⟨hposts, hcount, htiers⟩ : _ ∧ _ ∧ _ := by simpa only [Prod.mk.injEq] using hw
  have hquiet : Quiet w := by
    rw [Quiet, hposts]
    exact fun _ hm => absurd hm not_mem_nil
  obtain ⟨hserved, hrested⟩ := watched_is_served hrun hquiet
  refine ⟨hcount, htiers, hserved (by decide +kernel), hrested ⟨⟨?_, ?_⟩, fun s _ => ?_⟩⟩
  -- time passes before anything is registered, and not again
  · exact fun _ hm => absurd hm not_mem_nil
  · exact fun _ _ _ _ hr => absurd hr.symm (some_ne_none _)
  · refine System.allSteps_of_forall _ fun a ha s => ?_
    fin_cases ha <;> trivial

/-- The producer of a watched camera cannot be built. -/
def buildFails : List Act :=
  [.register cam (some 1), .subscribe ⟨"cam", "active"⟩ 1, .dispatch (.failed "no encoder") .ok]

theorem unserved :
    ∃ w, (mediaPlane 10000 31).run (mediaPlane 10000 31).init buildFails = some w ∧
      Quiet w ∧ ¬ Served w := by
  refine evaluated (fun w => decide (w.plane.posts = [] ∧ w.requested = false ∧
      w.plane.hub.subscriberCount ⟨"cam", "active"⟩ = 1 ∧
      w.plane.tierPossible "cam" "active" = true ∧
      (w.plane.tracks "cam").map (fun r => (r.producer, r.restartTimer)) = some (none, none)))
    (b := true) (by decide +kernel) fun w _ hw => ?_
  obtain ⟨hposts, hrequested, hcount, hpossible, hr⟩ := of_decide_eq_true hw
  obtain ⟨r, hr, hproducer⟩ := map_eq_some_iff.mp hr
  obtain ⟨hnone, htimer⟩ := Prod.mk.inj hproducer
  refine ⟨?_, fun h => ?_⟩
  · rw [Quiet, hposts]
    exact fun _ hm => absurd hm not_mem_nil
  obtain ⟨q, hq, -⟩ | hretried | hrequest := h "cam" r "active" hr hpossible (by omega)
  · exact absurd (hq.symm.trans hnone) (some_ne_none _)
  · simp [htimer] at hretried
  · simp [hrequested] at hrequest

end Fjarr.Media.Serving
