/-
Fjarr.Media.Keyframes — the keyframe limiter of one (track, tier):
`MediaPlane::request_keyframe` (agent/src/media/media_plane.cpp) over
`Producer::request_keyframe` (agent/src/media/producer.cpp).

A request inside the second after the last one is deferred to a timer,
which asks again when it fires. The limiter's state is the registration's
and outlives a producer; each start of the tier's encoder has a number of
its own. Audio and a passthrough camera have no keyframe to force
(`passthrough_forces_none`); keyframes are forced at most once a second,
whichever producer and encoder they are forced on, and while an encoder
runs its newest request was answered or is deferred (`keyframes_limited`).
-/
import Fjarr.Lib.Transition

namespace Fjarr.Media.Keyframes

open Lib

/-- The window, in nanoseconds as all times here. -/
def window : Int := 1000000000

/-- A producer: whether it encodes video itself, and the number of the
tier's encoder while that runs. -/
structure Producer where
  encodes : Bool
  tier : Option Nat := none

/-- A request to, or a keyframe forced on, a numbered encoder. -/
inductive Event where
  | requested (encoder : Nat)
  | forced (encoder : Nat) (time : Int)
  deriving DecidableEq

def Event.encoder : Event → Nat
  | .requested n | .forced n _ => n

/-- What is registered for the track, as far as it concerns the tier;
`timer` is when the deferred request is due. The log's newest entry is its
first. -/
structure Limiter where
  producer : Option Producer := none
  lastKeyframe : Option Int := none
  timer : Option Int := none
  now : Int := 0
  started : Nat := 0
  log : List Event := []

namespace Limiter

/-- `Producer::request_keyframe`. -/
def force (l : Limiter) (p : Producer) : Limiter :=
  match p.tier with
  | none => l
  | some n => if p.encodes then { l with log := .forced n l.now :: l.log } else l

/-- `MediaPlane::request_keyframe`. -/
def requestKeyframe (l : Limiter) : Limiter :=
  match l.producer with
  | none => l
  | some p =>
    let l := { l with log := (p.tier.map Event.requested).toList ++ l.log }
    match l.lastKeyframe.filter (l.now - · < window) with
    | some last =>
      if l.timer.isSome then l -- one deferred request is enough
      else
        let wait := (window - (l.now - last)).tdiv 1000000 * 1000000 + 1000000
        { l with timer := some (l.now + wait) }
    | none => force { l with lastKeyframe := some l.now } p

end Limiter

inductive Act where
  | request
  /-- The deferred request's timer. -/
  | fires
  /-- A producer is built, or goes. -/
  | build (encodes : Bool)
  | reset
  /-- The tier's encoder starts, or stops. -/
  | startTier
  | stopTier
  | tick (ns : Nat)

def limiter : System Limiter Act where
  init := {}
  step l
    | .request => some l.requestKeyframe
    | .fires =>
      if l.timer.any (· ≤ l.now) then some { l with timer := none }.requestKeyframe else none
    | .build encodes => some { l with producer := some { encodes } }
    | .reset => some { l with producer := none }
    | .startTier => l.producer.map fun p =>
      { l with producer := some { p with tier := some l.started }, started := l.started + 1 }
    | .stopTier => l.producer.map fun p => { l with producer := some { p with tier := none } }
    | .tick ns => some { l with now := l.now + ns }

/-- The newer of two keyframes is a window later. -/
def Event.Apart : Event → Event → Prop
  | .forced _ t, .forced _ t' => window ≤ t - t'
  | _, _ => True

/-- The newest entry of the running encoder is a keyframe, unless a request
is deferred. -/
def Limiter.Answered (l : Limiter) : Prop :=
  ∀ p ∈ l.producer, p.encodes = true → ∀ n ∈ p.tier,
    l.log.find? (·.encoder = n) = some (.requested n) → l.timer.isSome = true

/-- Keyframes are a window apart and not after the last one noted, and
numbers are given out once. -/
structure Limited (l : Limiter) : Prop where
  apart : l.log.Pairwise Event.Apart
  noted : ∀ n t, .forced n t ∈ l.log → ∃ last, l.lastKeyframe = some last ∧ t ≤ last
  numbered : ∀ e ∈ l.log, e.encoder < l.started
  running : ∀ p ∈ l.producer, ∀ n ∈ p.tier, n < l.started

variable {l l' : Limiter}

theorem Limited.of_producer (h : Limited l) (o : Option Producer)
    (ho : ∀ p ∈ o, ∀ n ∈ p.tier, n < l.started) : Limited { l with producer := o } :=
  ⟨h.apart, h.noted, h.numbered, ho⟩

theorem Limited.cons {e : Event} (h : Limited l) (hapart : ∀ e' ∈ l.log, e.Apart e')
    (hnoted : ∀ n t, e = .forced n t → l.lastKeyframe = some t) (he : e.encoder < l.started) :
    Limited { l with log := e :: l.log } := by
  refine ⟨List.pairwise_cons.mpr ⟨hapart, h.apart⟩, fun n t hmem => ?_, fun e' he' => ?_,
    h.running⟩
  · obtain rfl | hmem := List.mem_cons.mp hmem
    · exact ⟨t, hnoted n t rfl, le_rfl⟩
    · exact h.noted n t hmem
  · obtain rfl | he' := List.mem_cons.mp he'
    · exact he
    · exact h.numbered e' he'

/-- The window is open: the encoder that runs is forced. -/
theorem Limited.force {p : Producer} (h : Limited l) (hp : l.producer = some p)
    (hpast : ∀ last, l.lastKeyframe = some last → window ≤ l.now - last) :
    Limited (.force { l with lastKeyframe := some l.now } p) ∧
      (Limiter.force { l with lastKeyframe := some l.now } p).Answered := by
  have hold : ∀ n t, .forced n t ∈ l.log → window ≤ l.now - t := by
    intro n t hmem
    obtain ⟨last, heq, hle⟩ := h.noted n t hmem
    have hw := hpast last heq
    omega
  have hnow : Limited { l with lastKeyframe := some l.now } := by
    refine ⟨h.apart, fun n t hmem => ⟨l.now, rfl, ?_⟩, h.numbered, h.running⟩
    have hw := hold n t hmem
    rw [window] at hw
    omega
  unfold Limiter.force
  split
  · rename_i htier
    exact ⟨hnow, by simp [Limiter.Answered, hp, htier]⟩
  rename_i n htier
  split
  · refine ⟨hnow.cons (fun e he => ?_) (by simp) (h.running p hp n htier), ?_⟩
    · cases e with
      | requested => trivial
      | forced n' t => exact hold n' t he
    · simp [Limiter.Answered, hp, htier, Event.encoder]
  · rename_i hnot
    exact ⟨hnow, by simp [Limiter.Answered, hp, hnot]⟩

/-- **A request** is answered at once or deferred. -/
theorem Limited.request (h : Limited l) :
    Limited l.requestKeyframe ∧ l.requestKeyframe.Answered := by
  unfold Limiter.requestKeyframe
  split
  · rename_i hp
    exact ⟨h, by simp [Limiter.Answered, hp]⟩
  rename_i p hp
  have hasked : Limited { l with log := (p.tier.map Event.requested).toList ++ l.log } := by
    cases htier : p.tier with
    | none => exact h
    | some n => exact h.cons (fun _ _ => trivial) nofun (h.running p hp n htier)
  dsimp only
  split
  · split
    · rename_i htimer
      exact ⟨hasked, fun _ _ _ _ _ _ => htimer⟩
    · exact ⟨⟨hasked.apart, hasked.noted, hasked.numbered, hasked.running⟩, fun _ _ _ _ _ _ => rfl⟩
  · rename_i hlast
    refine hasked.force hp fun last heq => ?_
    have hheq : l.lastKeyframe = some last := heq
    simpa [hheq] using hlast

/-- **Step.** -/
theorem Limited.step {a : Act} (h : Limited l ∧ l.Answered) (hstep : limiter.step l a = some l') :
    Limited l' ∧ l'.Answered := by
  obtain ⟨h, hanswered⟩ := h
  cases a with
  | request => exact Option.some.inj hstep ▸ h.request
  | fires =>
    obtain ⟨-, rfl⟩ := guarded.mp hstep
    exact Limited.request (l := { l with timer := none })
      ⟨h.apart, h.noted, h.numbered, h.running⟩
  | build encodes =>
    cases hstep
    exact ⟨h.of_producer _ (by simp), by simp [Limiter.Answered]⟩
  | reset =>
    cases hstep
    exact ⟨h.of_producer _ (by simp), by simp [Limiter.Answered]⟩
  | startTier =>
    obtain ⟨p, -, rfl⟩ := Option.map_eq_some_iff.mp hstep
    refine ⟨⟨h.apart, h.noted, fun e he => (h.numbered e he).trans (Nat.lt_succ_self _), ?_⟩, ?_⟩
    · simp
    -- the encoder is new: nothing was asked of it
    intro _ hp _ n hn hfind
    cases hp
    cases hn
    have hlt := h.numbered _ (List.mem_of_find?_eq_some hfind)
    exact absurd hlt (Nat.lt_irrefl _)
  | stopTier =>
    obtain ⟨p, -, rfl⟩ := Option.map_eq_some_iff.mp hstep
    exact ⟨h.of_producer _ (by simp), by simp [Limiter.Answered]⟩
  | tick ns =>
    cases hstep
    exact ⟨⟨h.apart, h.noted, h.numbered, h.running⟩, hanswered⟩

/-- **Keyframe requests are limited but not lost**, in every run: two
keyframes are a second apart, and while an encoder runs, its newest request
was answered or is deferred. -/
theorem keyframes_limited (h : limiter.Reachable l) :
    l.log.Pairwise Event.Apart ∧ l.Answered := by
  obtain ⟨hlimited, hanswered⟩ := limiter.invariant (P := fun l => Limited l ∧ l.Answered)
    ⟨⟨List.Pairwise.nil, by simp [limiter], by simp [limiter], by simp [limiter]⟩,
      by simp [limiter, Limiter.Answered]⟩
    (fun _ _ _ => Limited.step) h
  exact ⟨hlimited.apart, hanswered⟩

/-- Two requests at once: the second is deferred. -/
theorem keyframes_limited_two : ∃ l,
    limiter.run limiter.init [.build true, .startTier, .request, .request] = some l ∧
      l.log = [.requested 0, .forced 0 0, .requested 0] ∧ l.Answered := by
  refine evaluated (·.log) (by decide +kernel) fun l hrun hlog => ⟨hlog, ?_⟩
  exact (keyframes_limited ⟨_, hrun⟩).2

/-- **A passthrough camera.** The request to it is counted and dropped. -/
theorem passthrough_forces_none :
    (limiter.run limiter.init [.build false, .startTier, .request]).map
      (fun l => (l.log, l.timer)) = some ([.requested 0], none) := by
  decide +kernel

end Fjarr.Media.Keyframes
