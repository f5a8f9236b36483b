/-
Fjarr.Media.Demand — demand callbacks, and what the plane's steps leave alone.

A (track, tier) posts a demand callback when it gets its first subscriber
and when it loses its last one. Over any run the hub's subscribers are the
sessions' subscriptions, and the last callback under way for a (track,
tier) says whether it has any (`Wired`). The rest says once what each
callback and timer does to a track (`onDemand_cases`, `graceFires_cases`,
`restartFires_cases`) and what all of them keep (`Keeps`).
-/
import Fjarr.Media.Recovery
import Fjarr.Media.Subscribers

namespace Fjarr.Media.Serving

open Lib Recovery List Option Function MediaPlane FrameHub

/-! ## Demand under way -/

def Post.isDemand : Post → Bool
  | .demand _ _ => true
  | .failed _ => false

/-- No demand callback is under way. -/
def Quiet (w : World) : Prop := ∀ m ∈ w.plane.posts, Post.isDemand m = false

/-- What the callback says of the (track, tier)'s subscribers. -/
def Post.demandOf (key : HubKey) : Post → Option Nat
  | .demand k n => if k = key then some n else none
  | .failed _ => none

/-- What the last demand callback under way will say. -/
def lastDemand (posts : List Post) (key : HubKey) : Option Nat :=
  (posts.filterMap (Post.demandOf key)).getLast?

theorem lastDemand_append (posts : List Post) (m : Post) (key : HubKey) :
    lastDemand (posts ++ [m]) key = (Post.demandOf key m).or (lastDemand posts key) := by
  unfold lastDemand
  cases hm : Post.demandOf key m with
  | none => simp [filterMap_append, hm]
  | some n => simp [filterMap_append, hm]

theorem lastDemand_cons (m : Post) (posts : List Post) (key : HubKey) :
    lastDemand (m :: posts) key = (lastDemand posts key).or (Post.demandOf key m) := by
  unfold lastDemand
  cases hm : Post.demandOf key m with
  | none => simp [hm]
  | some n =>
    rw [filterMap_cons_some hm, getLast?_cons]
    cases (posts.filterMap (Post.demandOf key)).getLast? <;> rfl

theorem lastDemand_eq_none {posts : List Post} (h : ∀ m ∈ posts, Post.isDemand m = false)
    (key : HubKey) : lastDemand posts key = none := by
  rw [lastDemand, getLast?_eq_none_iff, filterMap_eq_nil_iff]
  intro m hm
  cases m with
  | demand k n => exact absurd (h _ hm) nofun
  | failed f => rfl

variable {key : HubKey} {p : MediaPlane} {id : String} {r : Registered} {q : Producer}

theorem lastDemand_of_tail {m : Post} {posts : List Post} {n : Nat}
    (h : lastDemand posts key = some n) : lastDemand (m :: posts) key = some n := by
  rw [lastDemand_cons, h, some_or]

/-! ## Subscribers -/

/-- The last demand callback under way tells whether there are subscribers. -/
def Edge (p : MediaPlane) : Prop :=
  ∀ key n, lastDemand p.posts key = some n → (n = 0 ↔ p.hub.sinks key = [])


theorem subscribe_spec (hc : p.hub.Counted) (key k : HubKey) (sink : Sink) :
    (p.subscribe key sink).hub.sinks k =
        (if k = key then p.hub.sinks key ++ [sink] else p.hub.sinks k) ∧
      lastDemand (p.subscribe key sink).posts k =
        if k = key ∧ p.hub.sinks key = [] then some 1 else lastDemand p.posts k := by
  have hcount : (p.hub.subscribe key sink).subscriberCount key = 1 ↔ p.hub.sinks key = [] := by
    rw [(hc.subscribe key sink).subscriberCount, sinks_subscribe hc, if_pos rfl]
    simp
  unfold MediaPlane.subscribe
  dsimp only
  split
  · rename_i hone
    refine ⟨sinks_subscribe hc key k sink, ?_⟩
    rw [post, lastDemand_append, Post.demandOf]
    by_cases hk : k = key
    · subst hk
      rw [if_pos rfl, if_pos ⟨rfl, hcount.mp hone⟩]
      rfl
    · rw [if_neg (Ne.symm hk), if_neg (fun h => hk h.1)]
      rfl
  rename_i hmore
  refine ⟨sinks_subscribe hc key k sink, ?_⟩
  rw [if_neg (fun h => hmore (hcount.mpr h.2))]

section

variable (p : MediaPlane) (key : HubKey) (sink : Sink)

theorem subscribe_tracks :
    (p.subscribe key sink).tracks = p.tracks := by
  unfold MediaPlane.subscribe
  dsimp only
  split <;> rfl

theorem unsubscribe_tracks :
    (p.unsubscribe key sink).tracks = p.tracks := by
  unfold MediaPlane.unsubscribe
  split
  · rfl
  dsimp only
  split <;> rfl

theorem subscribe_graceMs :
    (p.subscribe key sink).graceMs = p.graceMs := by
  unfold MediaPlane.subscribe
  dsimp only
  split <;> rfl

theorem unsubscribe_graceMs :
    (p.unsubscribe key sink).graceMs = p.graceMs := by
  unfold MediaPlane.unsubscribe
  split
  · rfl
  dsimp only
  split <;> rfl

end

theorem subscribe_counted (hc : p.hub.Counted) (key : HubKey) (sink : Sink) :
    (p.subscribe key sink).hub.Counted := by
  unfold MediaPlane.subscribe
  dsimp only
  split <;> exact hc.subscribe key sink

theorem unsubscribe_spec (hc : p.hub.Counted) (key k : HubKey) (sink : Sink) :
    (p.unsubscribe key sink).hub.sinks k =
        (if k = key then (p.hub.sinks key).filter (· ≠ sink) else p.hub.sinks k) ∧
      lastDemand (p.unsubscribe key sink).posts k =
        if k = key ∧ (p.hub.entries key).isSome ∧ (p.hub.sinks key).filter (· ≠ sink) = [] then
          some 0
        else lastDemand p.posts k := by
  have hsinks := sinks_unsubscribe hc key k sink
  have hcount : (p.hub.unsubscribe key sink).subscriberCount key = 0 ↔
      (p.hub.sinks key).filter (· ≠ sink) = [] := by
    rw [(hc.unsubscribe key sink).subscriberCount, sinks_unsubscribe hc, if_pos rfl,
      length_eq_zero_iff]
  unfold MediaPlane.unsubscribe
  split
  · rename_i hnone
    rw [FrameHub.unsubscribe, hnone] at hsinks
    exact ⟨hsinks, by simp [hnone]⟩
  rename_i e hsome
  dsimp only
  split
  · rename_i hzero
    refine ⟨hsinks, ?_⟩
    rw [post, lastDemand_append, Post.demandOf]
    by_cases hk : k = key
    · subst hk
      rw [if_pos rfl, if_pos ⟨rfl, by simp [hsome], hcount.mp hzero⟩]
      rfl
    · rw [if_neg (Ne.symm hk), if_neg (fun h => hk h.1)]
      rfl
  rename_i hmore
  refine ⟨hsinks, ?_⟩
  rw [if_neg (fun h => hmore (hcount.mpr h.2.2))]

theorem unsubscribe_counted (hc : p.hub.Counted) (key : HubKey) (sink : Sink) :
    (p.unsubscribe key sink).hub.Counted := by
  unfold MediaPlane.unsubscribe
  split
  · exact hc
  dsimp only
  split <;> exact hc.unsubscribe key sink

theorem entries_isSome {h : FrameHub} (hsinks : h.sinks key ≠ []) :
    (h.entries key).isSome = true := by
  cases hnone : h.entries key with
  | none => exact absurd (by rw [sinks, entry_of_none hnone]; rfl) hsinks
  | some e => rfl

theorem Edge.unsubscribe (h : Edge p) (hc : p.hub.Counted) (key : HubKey)
    (sink : Sink) : Edge (p.unsubscribe key sink) := by
  intro k n hn
  obtain ⟨hsinks, hlast⟩ := unsubscribe_spec hc key k sink
  rw [hlast] at hn
  rw [hsinks]
  by_cases hk : k = key
  · subst hk
    rw [if_pos rfl]
    split at hn
    · rename_i hleft
      cases hn
      simpa using hleft.2.2
    rename_i hstay
    rw [h k n hn]
    refine ⟨fun hempty => by rw [hempty]; rfl, fun hfilter => ?_⟩
    by_contra hsome
    exact hstay ⟨rfl, entries_isSome hsome, hfilter⟩
  rw [if_neg hk]
  rw [if_neg (fun h => hk h.1)] at hn
  exact h k n hn

/-- Closing the sessions takes their subscriptions out, with a callback for
each (track, tier) that loses its last one. -/
theorem closeAll_spec (hc : p.hub.Counted) (h : Edge p)
    (subs : List (HubKey × Sink)) :
    (closeAll p subs).hub.Counted ∧ Edge (closeAll p subs) ∧
      (∀ k, (closeAll p subs).hub.sinks k = (p.hub.sinks k).filter fun s => (k, s) ∉ subs) ∧
      ∀ k, (∀ s ∈ subs, s.1 ≠ k) → lastDemand (closeAll p subs).posts k = lastDemand p.posts k := by
  unfold closeAll
  induction subs generalizing p with
  | nil => exact ⟨hc, h, fun k => by simp, fun k _ => rfl⟩
  | cons s subs ih =>
    obtain ⟨hc', h', hsinks, hlast⟩ :=
      ih (unsubscribe_counted hc s.1 s.2) (h.unsubscribe hc s.1 s.2)
    refine ⟨hc', h', fun k => ?_, fun k hk => ?_⟩
    · refine (hsinks k).trans ?_
      rw [(unsubscribe_spec hc s.1 k s.2).1]
      split
      · rename_i hk
        subst hk
        rw [List.filter_filter]
        refine filter_congr fun x _ => ?_
        simp [Prod.ext_iff, Bool.and_comm]
      rename_i hk
      refine filter_congr fun x _ => ?_
      simp [Prod.ext_iff, hk]
    refine (hlast k fun x hx => hk x (mem_cons_of_mem _ hx)).trans ?_
    rw [(unsubscribe_spec hc s.1 k s.2).2,
      if_neg (fun h => hk s mem_cons_self h.1.symm)]

/-! ## Callbacks and timers -/

/-- The subscribers, the queue and the clock stay. -/
structure Still (p p' : MediaPlane) : Prop where
  counted : p.hub.Counted → p'.hub.Counted
  sinks : ∀ k, p'.hub.sinks k = p.hub.sinks k
  posts : p'.posts = p.posts
  now : p'.now = p.now
  graceMs : p'.graceMs = p.graceMs

/-- How often the track is registered. -/
def refs (p : MediaPlane) (id : String) : Nat := ((p.tracks id).map (·.refs)).getD 0

/-- So do the registrations. -/
structure Keeps (p p' : MediaPlane) : Prop extends Still p p' where
  refs : ∀ id, refs p' id = refs p id

namespace Still

variable {p p' p'' : MediaPlane}

theorem trans (h : Still p p') (h' : Still p' p'') : Still p p'' :=
  ⟨h'.counted ∘ h.counted, fun k => (h'.sinks k).trans (h.sinks k), h'.posts.trans h.posts,
    h'.now.trans h.now, h'.graceMs.trans h.graceMs⟩

theorem of_tracks (tracks : String → Option Registered) : Still p { p with tracks } :=
  ⟨id, fun _ => rfl, rfl, rfl, rfl⟩

theorem clearAll (gone : HubKey → Bool) : Still p { p with hub := p.hub.clearAll gone } :=
  ⟨fun hc => hc.clearAll gone, fun k => sinks_clearAll p.hub gone k, rfl, rfl, rfl⟩

theorem registerTrack (p : MediaPlane) (reg : TrackRegistration) : Still p (p.registerTrack reg) := by
  unfold MediaPlane.registerTrack
  split <;> exact of_tracks _

theorem unregisterTrack (p : MediaPlane) (id : String) : Still p (p.unregisterTrack id) := by
  unfold MediaPlane.unregisterTrack
  split
  · exact of_tracks p.tracks
  split
  · exact (clearAll _).trans (of_tracks _)
  · exact of_tracks _

theorem flushAll (p : MediaPlane) (holds : List (String × Sink)) : Still p (flushAll p holds) := by
  unfold Recovery.flushAll
  induction holds generalizing p with
  | nil => exact of_tracks p.tracks
  | cons h holds ih => exact (unregisterTrack p h.1).trans (ih _)

theorem rebuild (p : MediaPlane) : Still p p.rebuild :=
  ⟨fun hc => hc.clearAll _, fun k => sinks_clearAll p.hub _ k, rfl, rfl, rfl⟩

end Still

namespace Keeps

variable {p p' p'' : MediaPlane}

theorem refl (p : MediaPlane) : Keeps p p := ⟨.of_tracks p.tracks, fun _ => rfl⟩

theorem trans (h : Keeps p p') (h' : Keeps p' p'') : Keeps p p'' :=
  ⟨h.toStill.trans h'.toStill, fun id => (h'.refs id).trans (h.refs id)⟩

theorem setTrack {id : String} {r s : Registered} (hr : p.tracks id = some r)
    (hs : s.refs = r.refs) : Keeps p (p.setTrack id (some s)) := by
  refine ⟨.of_tracks _, fun i => ?_⟩
  by_cases hi : i = id
  · subst hi
    simp [Serving.refs, MediaPlane.setTrack, hr, hs]
  · simp [Serving.refs, MediaPlane.setTrack, update_of_ne hi]

variable (p : MediaPlane)

theorem clear (key : HubKey) : Keeps p { p with hub := p.hub.clear key } :=
  ⟨⟨fun hc => hc.clear key, fun _ => sinks_clear .., rfl, rfl, rfl⟩, fun _ => rfl⟩

theorem clearTiers (id : String) (r : Registered) : Keeps p (p.clearTiers id r) :=
  ⟨.clearAll _, fun _ => rfl⟩

theorem onDemand (key : HubKey) (n : Nat) (b : Build) (s : Start) :
    Keeps p (p.onDemand key n b s).1 := by
  unfold MediaPlane.onDemand
  split
  · exact refl p
  rename_i r hr
  split
  · dsimp only
    split <;> exact setTrack hr rfl
  · exact setTrack hr rfl

theorem graceFires (id tier : String) : Keeps p (p.graceFires id tier) := by
  unfold MediaPlane.graceFires
  split
  · exact refl p
  rename_i r hr
  dsimp only
  split
  · exact setTrack hr rfl
  rename_i producer _
  split
  · exact setTrack hr rfl
  have hset := setTrack
    (s := { r.setGrace tier none with producer := some (producer.stopTier tier) }) hr rfl
  split
  · exact hset.trans (clear _ ⟨id, tier⟩)
  · exact hset

theorem restartProducer (id error : String) :
    Keeps p (p.restartProducer id error).1 := by
  unfold MediaPlane.restartProducer
  split
  · exact refl p
  rename_i r hr
  dsimp only
  split
  · exact setTrack hr rfl
  · have hr' : (p.clearTiers id r).tracks id = some r := hr
    exact (clearTiers p id r).trans (setTrack hr' rfl)

theorem restartFires (id : String) (b : Build) (active thumbnail : Start) :
    Keeps p (p.restartFires id b active thumbnail).1 := by
  unfold MediaPlane.restartFires
  split
  · exact refl p
  rename_i r hr
  have hset := setTrack (s := { r with restartTimer := none }) hr rfl
  have hr' : (p.setTrack id (some { r with restartTimer := none })).tracks id =
      some { r with restartTimer := none } := update_self ..
  dsimp only
  split
  · exact hset
  split
  · exact hset.trans (setTrack hr' rfl)
  split
  · exact hset
  · exact hset.trans (setTrack hr' rfl)

end Keeps

/-- The hub's subscribers are the sessions' subscriptions, each to a track
its session holds a registration of, and the plane counts these. -/
structure Wired (w : World) : Prop where
  counted : w.plane.hub.Counted
  sinks : ∀ key, w.plane.hub.sinks key = (w.subscriptions.filter (·.1 = key)).map (·.2)
  subscribed : ∀ s ∈ w.subscriptions, (s.1.trackId, s.2) ∈ w.holds
  held : ∀ id, w.holds.countP (·.1 = id) ≤ refs w.plane id
  edge : Edge w.plane

theorem keeps_settle (w : World) (r : MediaPlane × Option Failure) :
    Keeps r.1 (w.settle r).plane := by
  unfold World.settle
  split
  · exact Keeps.refl _
  split
  · exact Keeps.refl _
  · exact Keeps.restartProducer ..

theorem settle_subscriptions (w : World) (r : MediaPlane × Option Failure) :
    (w.settle r).subscriptions = w.subscriptions ∧ (w.settle r).holds = w.holds ∧
      (w.settle r).left = w.left := by
  unfold World.settle
  split
  · exact ⟨rfl, rfl, rfl⟩
  split <;> exact ⟨rfl, rfl, rfl⟩

theorem busError_eq {p' : MediaPlane} {error : String} {origin : Origin}
    (h : p.busError id error origin = some p') :
    ∃ r q, p.tracks id = some r ∧ r.producer = some q ∧
      p' = (p.setTrack id (some { r with producer := some { q with
          error, errorInSource := decide (origin = .source) } })).post
        (.failed ⟨id, error, origin⟩) := by
  unfold busError at h
  split at h
  · cases h
  rename_i r hr
  obtain ⟨q, hq, rfl⟩ := map_eq_some_iff.mp h
  exact ⟨r, q, hr, hq, rfl⟩

theorem lastDemand_post_failed (p : MediaPlane) (f : Failure) (key : HubKey) :
    lastDemand (p.post (.failed f)).posts key = lastDemand p.posts key := by
  rw [post, lastDemand_append]
  rfl

theorem setTrack_tracks_ne (p : MediaPlane) {i : String} (hi : i ≠ id) (o : Option Registered) :
    (p.setTrack id o).tracks i = p.tracks i := update_of_ne hi ..

theorem setTrack_tracks_self (p : MediaPlane) (id : String) (o : Option Registered) :
    (p.setTrack id o).tracks id = o := update_self ..

/-- A track after a registration is new, or but for the registration as
before. -/
theorem registerTrack_tracks {reg : TrackRegistration} {i : String} {t : Registered}
    (ht : (p.registerTrack reg).tracks i = some t) :
    p.tracks i = none ∧ t = { reg } ∨
      ∃ r reg' refs, p.tracks i = some r ∧ t = { r with reg := reg', refs } := by
  by_cases hi : i = reg.spec.trackId
  · subst hi
    unfold registerTrack at ht
    split at ht
    · rename_i r hr
      exact .inr ⟨r, _, _, hr, (some.inj ((setTrack_tracks_self ..).symm.trans ht)).symm⟩
    · rename_i hr
      exact .inl ⟨hr, (some.inj ((setTrack_tracks_self ..).symm.trans ht)).symm⟩
  · refine .inr ⟨t, t.reg, t.refs, ?_, rfl⟩
    unfold registerTrack at ht
    split at ht <;> rwa [setTrack_tracks_ne _ hi] at ht

/-- A track that is left after a registration was given up is as before, but
for the count. -/
theorem unregisterTrack_tracks {i : String} {t : Registered}
    (ht : (p.unregisterTrack id).tracks i = some t) :
    ∃ r refs, p.tracks i = some r ∧ t = { r with refs } := by
  unfold unregisterTrack at ht
  split at ht
  · exact ⟨t, t.refs, ht, rfl⟩
  rename_i r hr
  by_cases hi : i = id
  · subst hi
    split at ht
    · cases (setTrack_tracks_self ..).symm.trans ht
    · exact ⟨r, _, hr, (some.inj ((setTrack_tracks_self ..).symm.trans ht)).symm⟩
  · refine ⟨t, t.refs, ?_, rfl⟩
    split at ht <;> rwa [setTrack_tracks_ne _ hi] at ht

theorem refs_registerTrack (p : MediaPlane) (reg : TrackRegistration) (i : String) :
    refs (p.registerTrack reg) i = refs p i + if i = reg.spec.trackId then 1 else 0 := by
  unfold registerTrack refs
  by_cases hi : i = reg.spec.trackId
  · subst hi
    split
    · rename_i r hr
      simp [setTrack_tracks_self, hr]
    · rename_i hr
      simp [setTrack_tracks_self, hr]
  · split <;> simp [setTrack_tracks_ne _ hi, hi]

theorem refs_unregisterTrack (p : MediaPlane) (id i : String) :
    refs (p.unregisterTrack id) i = refs p i - if i = id then 1 else 0 := by
  unfold unregisterTrack refs
  by_cases hi : i = id
  · subst hi
    split
    · rename_i hr
      simp [hr]
    rename_i r hr
    split
    · rename_i hlast
      simp only [setTrack_tracks_self, hr]
      simpa using (Nat.sub_eq_zero_of_le hlast).symm
    · simp [setTrack_tracks_self, hr]
  · split
    · simp [hi]
    split <;> simp [setTrack_tracks_ne _ hi, clearTiers]

namespace Wired

variable {w : World}

variable (h : Wired w)
include h

/-- A step that leaves the subscribers, and sends nothing new about them. -/
theorem of_still {w' : World} {p : MediaPlane} (hstill : Still p w'.plane)
    (hhub : p.hub = w.plane.hub)
    (hposts : ∀ key n, lastDemand p.posts key = some n → lastDemand w.plane.posts key = some n)
    (hsubs : w'.subscriptions = w.subscriptions)
    (hsubscribed : ∀ s ∈ w.subscriptions, (s.1.trackId, s.2) ∈ w'.holds)
    (hheld : ∀ id, w'.holds.countP (·.1 = id) ≤ refs w'.plane id) : Wired w' := by
  refine ⟨hstill.counted (hhub ▸ h.counted), fun key => ?_, hsubs ▸ hsubscribed, hheld,
    fun key n hn => ?_⟩
  · rw [hstill.sinks, hhub, hsubs]
    exact h.sinks key
  rw [hstill.posts] at hn
  rw [hstill.sinks, hhub]
  exact h.edge key n (hposts key n hn)

/-- One that leaves the registrations too. -/
theorem of_keeps {w' : World} {p : MediaPlane} (hkeeps : Keeps p w'.plane)
    (hhub : p.hub = w.plane.hub) (htracks : p.tracks = w.plane.tracks)
    (hposts : ∀ key n, lastDemand p.posts key = some n → lastDemand w.plane.posts key = some n)
    (hsubs : w'.subscriptions = w.subscriptions) (hholds : w'.holds = w.holds) : Wired w' := by
  refine h.of_still hkeeps.toStill hhub hposts hsubs (hholds ▸ h.subscribed) fun id => ?_
  rw [hholds, hkeeps.refs, refs, htracks]
  exact h.held id

/-- A callback popped from the queue. -/
theorem settle {m : Post} {rest : List Post} (hposts : w.plane.posts = m :: rest)
    (r : MediaPlane × Option Failure) (hr : Keeps { w.plane with posts := rest } r.1) :
    Wired (w.settle r) := by
  obtain ⟨hsubs, hholds, -⟩ := settle_subscriptions w r
  refine h.of_keeps (hr.trans (keeps_settle w r)) rfl rfl (fun key n hn => ?_) hsubs hholds
  rw [hposts]
  exact lastDemand_of_tail hn

theorem registered {s : HubKey × Sink} (hs : s ∈ w.subscriptions) :
    (w.plane.tracks s.1.trackId).isSome = true := by
  have hpos : 0 < w.holds.countP (·.1 = s.1.trackId) :=
    countP_pos_iff.mpr ⟨_, h.subscribed s hs, decide_eq_true rfl⟩
  have hrefs : 0 < refs w.plane s.1.trackId := hpos.trans_le (h.held _)
  cases ht : w.plane.tracks s.1.trackId with
  | none => simp [refs, ht] at hrefs
  | some r => rfl

theorem sinks_eq_nil {key : HubKey} (hnone : w.plane.tracks key.trackId = none) :
    w.plane.hub.sinks key = [] := by
  rw [h.sinks, map_eq_nil_iff, filter_eq_nil_iff]
  rintro s hs hkey
  have hregistered := h.registered hs
  rw [of_decide_eq_true hkey, hnone] at hregistered
  cases hregistered

theorem register (reg : TrackRegistration) (holder : Option Sink) :
    Wired { w with
      plane := w.plane.registerTrack reg
      holds := w.holds ++ (holder.map fun sink => (reg.spec.trackId, sink)).toList } := by
  refine h.of_still (.registerTrack ..) rfl (fun _ _ hn => hn) rfl
    (fun s hs => mem_append_left _ (h.subscribed s hs)) fun id => ?_
  rw [refs_registerTrack, countP_append]
  refine Nat.add_le_add (h.held id) ?_
  cases holder with
  | none => exact Nat.zero_le _
  | some sink => simp [countP_singleton, eq_comm]

theorem unregister {id : String} {sink : Sink} (hholds : (id, sink) ∈ w.holds)
    (hfree : ∀ s ∈ w.subscriptions, (s.1.trackId, s.2) ≠ (id, sink)) :
    Wired { w with plane := w.plane.unregisterTrack id, holds := w.holds.erase (id, sink) } := by
  refine h.of_still (.unregisterTrack ..) rfl (fun _ _ hn => hn) rfl
    (fun s hs => (mem_erase_of_ne (hfree s hs)).mpr (h.subscribed s hs)) fun i => ?_
  rw [refs_unregisterTrack, countP_erase]
  simpa [hholds, eq_comm] using Nat.sub_le_sub_right (h.held i) _

theorem subscribe {key : HubKey} (sink : Sink)
    (hholds : (key.trackId, sink) ∈ w.holds) :
    Wired { w with
      plane := w.plane.subscribe key sink, subscriptions := w.subscriptions ++ [(key, sink)] } := by
  have hspec := fun k => subscribe_spec h.counted key k sink
  refine ⟨subscribe_counted h.counted key sink, fun k => ?_, fun s hs => ?_, fun id => ?_,
    fun k n hn => ?_⟩
  · simp only [(hspec k).1]
    by_cases hk : k = key
    · subst hk
      simp [h.sinks]
    · simp [hk, Ne.symm hk, h.sinks]
  · rcases mem_snoc.mp hs with hs | rfl
    · exact h.subscribed s hs
    · exact hholds
  · simp only [refs, subscribe_tracks]
    exact h.held id
  simp only [(hspec k).1, (hspec k).2] at hn ⊢
  by_cases hk : k = key
  · subst hk
    rw [if_pos rfl]
    split at hn
    · cases hn
      simp
    rename_i hmore
    have hne : w.plane.hub.sinks k ≠ [] := fun hempty => hmore ⟨rfl, hempty⟩
    have hn0 : n ≠ 0 := fun hzero => hne ((h.edge k n hn).mp hzero)
    simp [hn0]
  rw [if_neg hk]
  rw [if_neg (fun h => hk h.1)] at hn
  exact h.edge k n hn

theorem unsubscribe (key : HubKey) (sink : Sink) (left : HubKey → Nat) :
    Wired { w with
      plane := w.plane.unsubscribe key sink
      subscriptions := w.subscriptions.filter (· ≠ (key, sink))
      left } := by
  refine ⟨unsubscribe_counted h.counted key sink, fun k => ?_,
    fun s hs => h.subscribed s (mem_of_mem_filter hs), fun id => ?_,
    h.edge.unsubscribe h.counted key sink⟩
  · simp only [(unsubscribe_spec h.counted key k sink).1, h.sinks]
    rw [List.filter_filter]
    by_cases hk : k = key
    · subst hk
      rw [if_pos rfl, List.filter_map, List.filter_filter]
      congr 1
      refine filter_congr fun s _ => ?_
      by_cases hs : s.1 = k <;> simp [Prod.ext_iff, hs]
    rw [if_neg hk]
    congr 1
    refine filter_congr fun s _ => ?_
    by_cases hs : s.1 = k <;> simp [Prod.ext_iff, hs, hk]
  · simp only [refs, unsubscribe_tracks]
    exact h.held id

theorem rebuild (left : HubKey → Nat) :
    Wired { w with
      plane := (flushAll (closeAll w.plane w.subscriptions) w.holds).rebuild
      holds := []
      subscriptions := []
      requested := false
      left } := by
  obtain ⟨hc, hedge, hsinks, -⟩ := closeAll_spec h.counted h.edge w.subscriptions
  have hstill := (Still.flushAll (closeAll w.plane w.subscriptions) w.holds).trans (.rebuild _)
  refine ⟨hstill.counted hc, fun key => ?_, nofun, fun _ => Nat.zero_le _, fun key n hn => ?_⟩
  swap
  · simp only [hstill.posts, hstill.sinks] at hn ⊢
    exact hedge key n hn
  rw [hstill.sinks, hsinks, h.sinks, List.filter_map, map_eq_nil_iff.mpr]
  · rfl
  rw [List.filter_filter, filter_eq_nil_iff]
  intro s hs
  by_cases hkey : s.1 = key
  · subst hkey
    simpa using hs
  · simp [hkey]

/-- **Step.** -/
theorem step {a : Act} {w' : World} (hstep : Recovery.step w a = some w') :
    Wired w' := by
  cases a with
  | register reg holder =>
    cases hstep
    exact h.register reg holder
  | unregister id sink =>
    obtain ⟨⟨hholds, hfree⟩, rfl⟩ := guarded.mp hstep
    exact h.unregister hholds hfree
  | subscribe key sink =>
    obtain ⟨⟨hholds, -⟩, rfl⟩ := guarded.mp hstep
    exact h.subscribe sink hholds
  | unsubscribe key sink =>
    obtain ⟨-, rfl⟩ := guarded.mp hstep
    exact h.unsubscribe key sink _
  | dispatch b s =>
    obtain ⟨m, rest, hposts, rfl⟩ := step_dispatch hstep
    cases m with
    | demand key n => exact h.settle hposts _ (Keeps.onDemand ..)
    | failed f => exact h.settle hposts ({ w.plane with posts := rest }, some f) (Keeps.refl _)
  | busError id error origin =>
    obtain ⟨p, hp, rfl⟩ := map_eq_some_iff.mp hstep
    obtain ⟨r, q, hr, -, rfl⟩ := busError_eq hp
    have hset := Keeps.setTrack (s := { r with producer := some { q with
      error, errorInSource := decide (origin = .source) } }) hr rfl
    refine ⟨h.counted, h.sinks, h.subscribed, fun i => ?_, fun key n hn => ?_⟩
    · exact (h.held i).trans (hset.refs i).ge
    · simp only [lastDemand_post_failed] at hn
      exact h.edge key n hn
  | setSource source availability =>
    cases hstep
    exact ⟨h.counted, h.sinks, h.subscribed, h.held, h.edge⟩
  | graceFires id tier =>
    obtain ⟨-, rfl⟩ := guarded.mp hstep
    exact h.of_keeps (Keeps.graceFires ..) rfl rfl (fun _ _ hn => hn) rfl rfl
  | restartFires id b active thumbnail =>
    obtain ⟨-, rfl⟩ := guarded.mp hstep
    obtain ⟨hsubs, hholds, -⟩ :=
      settle_subscriptions w (w.plane.restartFires id b active thumbnail)
    exact h.of_keeps ((Keeps.restartFires ..).trans (keeps_settle ..)) rfl rfl (fun _ _ hn => hn)
      hsubs hholds
  | rebuild =>
    cases hstep
    exact h.rebuild _
  | tick ms =>
    cases hstep
    exact ⟨h.counted, h.sinks, h.subscribed, h.held, h.edge⟩

end Wired

/-! ## Tiers -/

theorem tierPossible_congr {p p' : Producer} (hkind : p'.kind = p.kind)
    (hsource : p'.source = p.source) (tier : String) :
    p'.tierPossible tier = p.tierPossible tier := by
  simp only [Producer.tierPossible, hkind, hsource]

/-- A producer with a branch is playing. -/
def Steady (p : Producer) : Prop := p.tiers ≠ [] → p.playing = true

/-- What starting a tier does to the producer's branches. -/
structure Started (p p' : Producer) (tier : String) : Prop where
  kind : p'.kind = p.kind
  source : p'.source = p.source
  kept : ∀ t ∈ p.tiers, t ∈ p'.tiers
  added : ∀ t ∈ p'.tiers, t ∈ p.tiers ∨ t = tier

theorem startTier_started (p : Producer) (tier : String) (s : Start) :
    Started p (p.startTier tier s).1 tier := by
  have hnew : ∀ t ∈ p.tiers ++ [tier], t ∈ p.tiers ∨ t = tier := by simp
  have hsame : Started p p tier := ⟨rfl, rfl, fun _ ht => ht, fun _ ht => .inl ht⟩
  unfold Producer.startTier
  split
  · exact hsame
  split
  · exact hsame
  split
  · exact ⟨rfl, rfl, fun _ ht => ht, fun _ ht => .inl ht⟩
  · exact ⟨rfl, rfl, fun _ ht => mem_append_left _ ht, hnew⟩
  · split <;> exact ⟨rfl, rfl, fun _ ht => mem_append_left _ ht, hnew⟩

/-- A start that succeeds leaves a branch that plays, if there can be one. -/
theorem startTier_true {p : Producer} {tier : String} {s : Start}
    (h : (p.startTier tier s).2 = true) (hsteady : Steady p) :
    Steady (p.startTier tier s).1 ∧
      (p.tierPossible tier = true → tier ∈ (p.startTier tier s).1.tiers) := by
  unfold Producer.startTier at h ⊢
  split
  · rename_i hmem
    exact ⟨hsteady, fun _ => hmem⟩
  rename_i hmem
  rw [if_neg hmem] at h
  split
  · rename_i hnot
    exact ⟨hsteady, fun hpossible => by simp [hpossible] at hnot⟩
  rename_i hpossible
  rw [if_neg hpossible] at h
  cases s with
  | failed error => cases h
  | ok => exact ⟨fun _ => rfl, fun _ => by simp⟩
  | refused =>
    dsimp only at h ⊢
    split
    · rename_i hplaying
      exact ⟨fun _ => hplaying, fun _ => by simp⟩
    rename_i hplaying
    rw [if_neg hplaying] at h
    cases h

/-- The restart timer's loop, when every watched tier starts. -/
theorem startDemanded_spec (p : MediaPlane) (id : String) (producer : Producer)
    (starts : List (String × Start)) :
    let q := p.startDemanded id producer starts
    q.kind = producer.kind ∧ q.source = producer.source ∧ (∀ t ∈ producer.tiers, t ∈ q.tiers) ∧
      (∀ t ∈ q.tiers, t ∈ producer.tiers ∨ 0 < p.hub.subscriberCount ⟨id, t⟩) ∧
      ((∀ s ∈ starts, 0 < p.hub.subscriberCount ⟨id, s.1⟩ → s.2 = .ok) → Steady producer →
        Steady q ∧ ∀ s ∈ starts, 0 < p.hub.subscriberCount ⟨id, s.1⟩ →
          producer.tierPossible s.1 = true → s.1 ∈ q.tiers) := by
  unfold startDemanded
  induction starts generalizing producer with
  | nil => exact ⟨rfl, rfl, fun _ ht => ht, fun _ ht => .inl ht, fun _ h => ⟨h, nofun⟩⟩
  | cons s starts ih =>
    rw [foldl_cons]
    split
    · rename_i hwatched
      have hstarted := startTier_started producer s.1 s.2
      obtain ⟨hkind, hsource, hkept, hadded, hok⟩ := ih (producer.startTier s.1 s.2).1
      refine ⟨hkind.trans hstarted.kind, hsource.trans hstarted.source,
        fun t ht => hkept t (hstarted.kept t ht), fun t ht => ?_, fun hall hsteady => ?_⟩
      · obtain ht | ht := hadded t ht
        · refine (hstarted.added t ht).imp_right fun heq => ?_
          rw [heq]
          exact hwatched
        · exact .inr ht
      have hs : s.2 = .ok := hall s mem_cons_self hwatched
      have htrue : (producer.startTier s.1 s.2).2 = true := by
        rw [hs]
        exact startTier_ok producer s.1
      obtain ⟨hsteady', hmem⟩ := startTier_true htrue hsteady
      obtain ⟨hsteady'', hrest⟩ := hok (fun x hx => hall x (mem_cons_of_mem _ hx)) hsteady'
      refine ⟨hsteady'', fun x hx hcount hpossible => ?_⟩
      obtain rfl | hx := mem_cons.mp hx
      · exact hkept x.1 (hmem hpossible)
      refine hrest x hx hcount ?_
      rw [tierPossible_congr hstarted.kind hstarted.source]
      exact hpossible
    rename_i hunwatched
    obtain ⟨hkind, hsource, hkept, hadded, hok⟩ := ih producer
    refine ⟨hkind, hsource, hkept, hadded, fun hall hsteady => ?_⟩
    obtain ⟨hsteady', hrest⟩ := hok (fun x hx => hall x (mem_cons_of_mem _ hx)) hsteady
    refine ⟨hsteady', fun x hx hcount hpossible => ?_⟩
    obtain rfl | hx := mem_cons.mp hx
    · exact absurd hcount hunwatched
    · exact hrest x hx hcount hpossible

variable {b : Build}

theorem ensureProducer_cases
    (h : r.ensureProducer b = some q) : r.producer = some q ∨ r.producer = none ∧ q.tiers = [] := by
  unfold Registered.ensureProducer at h
  split at h
  · rename_i hproducer
    exact .inl (hproducer.trans h)
  rename_i hnone
  split at h
  · cases h
  · obtain ⟨source, -, rfl⟩ := map_eq_some_iff.mp h
    exact .inr ⟨hnone, rfl⟩

theorem ensureProducer_some
    (h : r.producer = none → b = .ok ∧ r.reg.spec.source.isSome = true) :
    r.ensureProducer b ≠ none := by
  unfold Registered.ensureProducer
  split
  · nofun
  rename_i hnone
  obtain ⟨rfl, hsource⟩ := h hnone
  obtain ⟨source, hsource⟩ := isSome_iff_exists.mp hsource
  simp [hsource]

/-- What a demand callback leaves of a track: the one it is about has its
grace timer armed or disarmed, and a start that fails is handed on. -/
theorem onDemand_cases {i : String} {t : Registered} {n : Nat} {s : Start}
    (ht : (p.onDemand key n b s).1.tracks i = some t) :
    i ≠ key.trackId ∧ p.tracks i = some t ∨ i = key.trackId ∧ ∃ r, p.tracks i = some r ∧
      (n = 0 ∧ t = r.setGrace key.tier (some (p.now + p.graceMs)) ∨
        0 < n ∧ r.ensureProducer b = none ∧ t = r.setGrace key.tier none ∨
        0 < n ∧ ∃ q, r.ensureProducer b = some q ∧
          t = { r.setGrace key.tier none with producer := some (q.startTier key.tier s).1 } ∧
          ((∀ f, (p.onDemand key n b s).2 = some f → f.track ≠ i) →
            (q.startTier key.tier s).2 = true)) := by
  unfold onDemand at ht ⊢
  cases hr : p.tracks key.trackId with
  | none =>
    simp only [hr] at ht
    refine .inl ⟨?_, ht⟩
    rintro rfl
    cases ht.symm.trans hr
  | some r =>
    have hensure : (r.setGrace key.tier none).ensureProducer b = r.ensureProducer b := rfl
    simp only [hr, hensure] at ht ⊢
    by_cases hi : i = key.trackId
    · subst hi
      refine .inr ⟨rfl, r, hr, ?_⟩
      rcases Nat.eq_zero_or_pos n with rfl | hn
      · rw [if_neg (Nat.lt_irrefl 0), setTrack_tracks_self] at ht
        exact .inl ⟨rfl, (some.inj ht).symm⟩
      rw [if_pos hn] at ht ⊢
      cases hq : r.ensureProducer b with
      | none =>
        simp only [hq, setTrack_tracks_self] at ht
        exact .inr (.inl ⟨hn, rfl, (some.inj ht).symm⟩)
      | some q =>
        simp only [hq, setTrack_tracks_self] at ht
        refine .inr (.inr ⟨hn, q, rfl, (some.inj ht).symm, fun hok => ?_⟩)
        by_contra hfalse
        exact hok _ (if_neg hfalse) rfl
    · refine .inl ⟨hi, ?_⟩
      split at ht
      · split at ht
        all_goals rwa [setTrack_tracks_ne _ hi] at ht
      · rwa [setTrack_tracks_ne _ hi] at ht

/-- The grace timer of a registered track: the tier stops if there is a
producer and nobody watches. -/
theorem graceFires_cases
    (hr : p.tracks id = some r) (tier : String) :
    ∃ t, (p.graceFires id tier).tracks = Function.update p.tracks id (some t) ∧
      t.restartTimer = r.restartTimer ∧
      t.graceTimers = Function.update r.graceTimers tier none ∧
      (r.producer = none ∧ t.producer = none ∨ ∃ q, r.producer = some q ∧
        (0 < p.hub.subscriberCount ⟨id, tier⟩ ∧ t.producer = some q ∨
          p.hub.subscriberCount ⟨id, tier⟩ = 0 ∧ t.producer = some (q.stopTier tier))) := by
  have hproducer : (r.setGrace tier none).producer = r.producer := rfl
  simp only [graceFires, hr, hproducer]
  cases hq : r.producer with
  | none => exact ⟨_, rfl, rfl, rfl, .inl ⟨rfl, hq⟩⟩
  | some q =>
    dsimp only
    split
    · rename_i hwatched
      exact ⟨_, rfl, rfl, rfl, .inr ⟨q, rfl, .inl ⟨hwatched, hq⟩⟩⟩
    · rename_i hunwatched
      exact ⟨_, rfl, rfl, rfl, .inr ⟨q, rfl, .inr ⟨Nat.eq_zero_of_not_pos hunwatched, rfl⟩⟩⟩

/-- The restart timer of a registered track: nobody watches, or it fails, or
it starts what is watched. -/
theorem restartFires_cases
    (hr : p.tracks id = some r) (b : Build) (active thumbnail : Start) :
    ∃ t, (p.restartFires id b active thumbnail).1.tracks = Function.update p.tracks id (some t) ∧
      t.graceTimers = r.graceTimers ∧
      (p.hub.subscriberCount ⟨id, "active"⟩ = 0 ∧ p.hub.subscriberCount ⟨id, "thumbnail"⟩ = 0 ∧
          t.producer = r.producer ∨
        (∃ f, (p.restartFires id b active thumbnail).2 = some f ∧ f.track = id ∧
          t.producer = r.producer) ∨
        ∃ q, r.ensureProducer b = some q ∧ t.producer = some
          (p.startDemanded id q [("active", active), ("thumbnail", thumbnail)])) := by
  have hensure : Registered.ensureProducer { r with restartTimer := none } b = r.ensureProducer b :=
    rfl
  simp only [restartFires, hr, hensure]
  split
  · rename_i hunwatched
    exact ⟨_, rfl, rfl, .inl ⟨hunwatched.1, hunwatched.2, rfl⟩⟩
  split
  · exact ⟨_, update_idem .., rfl, .inr (.inl ⟨_, rfl, rfl, rfl⟩)⟩
  split
  · exact ⟨_, rfl, rfl, .inr (.inl ⟨_, rfl, rfl, rfl⟩)⟩
  · rename_i q hq
    exact ⟨_, update_idem .., rfl, .inr (.inr ⟨q, hq, rfl⟩)⟩

theorem mem_stopTier {tier t : String} :
    t ∈ (q.stopTier tier).tiers ↔ t ∈ q.tiers ∧ t ≠ tier := by
  simp [Producer.stopTier]

theorem Steady.stopTier (h : Steady q) (tier : String) :
    Steady (q.stopTier tier) := by
  intro hne
  have hold : q.tiers ≠ [] := by
    rintro hempty
    simp [Producer.stopTier, hempty] at hne
  simp only [Producer.stopTier] at hne ⊢
  rw [if_neg hne]
  exact h hold

end Fjarr.Media.Serving
