/-
Fjarr.Web.Requests — the requests of `EnvelopeRouter`
(web/packages/core/src/router.ts): `request`, `handleIncoming` and
`failPending`.

A promise is known by the `event_id` of its request, which is fresh. The
handlers of a settled promise run later, as microtasks, so what they do is
a step of its own, and so is what a progress callback does. The delivery to
subscribers is left out.
-/
import Fjarr.Lib.Transition

namespace Fjarr.Web.Requests

open Lib

inductive Kind where
  | request | event | accept | feedback | result
  deriving DecidableEq

/-- The error of a result; `data` is there if it is an object. -/
structure ResultError where
  code : Option String := none
  message : Option String := none
  data : Option String := none
  deriving DecidableEq

/-- `body` stands for the payload's other fields. -/
structure ResultPayload where
  ok : Bool
  error : Option ResultError := none
  body : String := ""
  deriving DecidableEq

structure Envelope where
  cap : String
  type : String
  kind : Kind
  eventId : String
  payload : Option ResultPayload := none
  deriving DecidableEq

structure FjarrError where
  code : String
  message : String
  causedBy : Option String := none
  data : Option String := none
  deriving DecidableEq

/-- `threw` is a rejection with what `transmit` threw. -/
inductive Outcome where
  | resolved (payload : ResultPayload)
  | rejected (error : FjarrError)
  | threw (error : String)
  deriving DecidableEq

/-- What the closures of a request have captured. -/
structure Request where
  cap : String
  type : String
  timeoutMs : Nat := 10000
  progress : Bool := false

/-- What there is under an event id: the pending entry, the armed timer, and
every call of the promise's `resolve` and `reject`. -/
structure Slot where
  issued : Bool := false
  pending : Option Request := none
  timer : Option Request := none
  settled : List Outcome := []

/-- The entry is deleted, the timer gone, and the promise settled. -/
def Slot.settle (s : Slot) (o : Outcome) : Slot :=
  { s with pending := none, timer := none, settled := s.settled ++ [o] }

/-- `progressed` are the envelopes handed to a progress callback. -/
structure Router where
  slots : String → Slot := fun _ => {}
  received : List Envelope := []
  progressed : List Envelope := []

namespace Router

def set (r : Router) (id : String) (s : Slot) : Router :=
  { r with slots := Function.update r.slots id s }

/-- `request`; `sent` is what `transmit` returns or throws. -/
def request (r : Router) (id : String) (q : Request) (sent : Except String Bool) : Router :=
  let s := { r.slots id with issued := true }
  r.set id (match sent with
    | .error e => { s with settled := s.settled ++ [.threw e] }
    | .ok false =>
      { s with settled := s.settled ++ [.rejected
        { code := "not-connected", message := q.cap ++ "/" ++ q.type ++
            ": control channel not open" }] }
    | .ok true => { s with timer := some q, pending := some q })

/-- The timer's callback. -/
def timeout (r : Router) (id : String) (q : Request) : Router :=
  r.set id ((r.slots id).settle (.rejected
    { code := "timeout", causedBy := some id
      message := q.cap ++ "/" ++ q.type ++ ": no result within " ++ toString q.timeoutMs ++
        " ms" }))

/-- What a result settles its request with. -/
def outcome (env : Envelope) : Outcome :=
  match env.payload with
  | some ⟨true, error, body⟩ => .resolved ⟨true, error, body⟩
  | payload =>
    let err := (payload.bind (·.error)).getD {}
    .rejected
      { code := err.code.getD "internal", data := err.data, causedBy := some env.eventId
        message := err.message.getD (env.cap ++ "/" ++ env.type ++ " failed") }

def handleIncoming (r : Router) (env : Envelope) : Router :=
  let s := r.slots env.eventId
  match env.kind with
  | .result => if s.pending.isSome then r.set env.eventId (s.settle (outcome env)) else r
  | .accept | .feedback =>
    if s.pending.any (·.progress) then { r with progressed := r.progressed ++ [env] } else r
  | .event | .request => r

def failPending (r : Router) (code message : String) : Router :=
  { r with slots := fun id =>
    let s := r.slots id
    if s.pending.isSome then s.settle (.rejected { code, message, causedBy := some id }) else s }

end Router

inductive Act where
  | request (id : String) (q : Request) (sent : Except String Bool)
  | incoming (env : Envelope)
  | timeout (id : String)
  | failPending (code message : String)

def router : System Router Act where
  init := {}
  step r
    | .request id q sent => if (r.slots id).issued then none else some (r.request id q sent)
    | .incoming env => some (Router.handleIncoming { r with received := r.received ++ [env] } env)
    | .timeout id => (r.slots id).timer.map (r.timeout id)
    | .failPending code message => some (r.failPending code message)

/-- A result with this payload came for the request. -/
def Answered (received : List Envelope) (id : String) (p : ResultPayload) : Prop :=
  ∃ env ∈ received,
    env.kind = .result ∧ env.eventId = id ∧ env.payload = some p ∧ p.ok = true

/-- Not used, pending with its timer, or settled once. -/
def Slot.Sound (received : List Envelope) (id : String) (s : Slot) : Prop :=
  s = {} ∨ (∃ q, s = { issued := true, pending := some q, timer := some q }) ∨
    ∃ o, s = { issued := true, settled := [o] } ∧ ∀ p, o = .resolved p → Answered received id p

def Sound (r : Router) : Prop := ∀ id, (r.slots id).Sound r.received id

variable {r r' : Router} {id : String} {received : List Envelope} {s : Slot}

theorem Slot.Sound.settle {o : Outcome} (h : s.Sound received id) (hs : s.pending.isSome = true)
    (ho : ∀ p, o = .resolved p → Answered received id p) : (s.settle o).Sound received id := by
  obtain rfl | ⟨q, rfl⟩ | ⟨o', rfl, -⟩ := h
  · cases hs
  · exact .inr (.inr ⟨o, rfl, ho⟩)
  · cases hs

theorem Slot.Sound.receive (h : s.Sound received id) (env : Envelope) :
    s.Sound (received ++ [env]) id := by
  refine h.imp_right (Or.imp_right ?_)
  rintro ⟨o, hs, ho⟩
  refine ⟨o, hs, fun p hp => ?_⟩
  obtain ⟨env', hmem, hown⟩ := ho p hp
  exact ⟨env', List.mem_append_left _ hmem, hown⟩

theorem Sound.set (h : Sound r) (hs : s.Sound r.received id) : Sound (r.set id s) := by
  intro id'
  by_cases heq : id' = id
  · subst heq
    simpa [Router.set] using hs
  · simpa [Router.set, heq] using h id'

theorem outcome_resolved {env : Envelope} {p : ResultPayload}
    (h : Router.outcome env = .resolved p) : env.payload = some p ∧ p.ok = true := by
  unfold Router.outcome at h
  split at h
  · rename_i heq
    cases h
    exact ⟨heq, rfl⟩
  · cases h

/-- An envelope settles the pending request it answers, and no other. -/
theorem Sound.handleIncoming {env : Envelope} (h : Sound r) (hmem : env ∈ r.received) :
    Sound (r.handleIncoming env) := by
  unfold Router.handleIncoming
  dsimp only
  split
  · rename_i hkind
    split
    · rename_i hpending
      refine h.set ((h env.eventId).settle hpending fun p hp => ?_)
      exact ⟨env, hmem, hkind, rfl, outcome_resolved hp⟩
    · exact h
  · split <;> exact h
  · split <;> exact h
  · exact h
  · exact h

/-- **Step.** -/
theorem Sound.step {a : Act} (h : Sound r) (hstep : router.step r a = some r') : Sound r' := by
  cases a with
  | request id q sent =>
    obtain ⟨hnew, rfl⟩ := guarded_not.mp hstep
    refine h.set ?_
    obtain hs | ⟨q', hs⟩ | ⟨o, hs, -⟩ := h id
    · rw [hs]
      match sent with
      | .ok true => exact .inr (.inl ⟨q, rfl⟩)
      | .ok false | .error _ => exact .inr (.inr ⟨_, rfl, nofun⟩)
    · exact absurd (by rw [hs]) hnew
    · exact absurd (by rw [hs]) hnew
  | incoming env =>
    cases hstep
    exact Sound.handleIncoming (fun id => (h id).receive env) (by simp)
  | timeout id =>
    obtain ⟨q, hq, rfl⟩ := Option.map_eq_some_iff.mp hstep
    refine h.set ((h id).settle ?_ nofun)
    obtain hs | ⟨q', hs⟩ | ⟨o, hs, -⟩ := h id
    · cases (congrArg Slot.timer hs).symm.trans hq
    · rw [hs]
      rfl
    · cases (congrArg Slot.timer hs).symm.trans hq
  | failPending code message =>
    cases hstep
    intro id
    simp only [Router.failPending]
    split
    · rename_i hpending
      exact (h id).settle hpending nofun
    · exact h id

theorem step_settled {a : Act} {o : Outcome} (hs : r.slots id = { issued := true, settled := [o] })
    (hstep : router.step r a = some r') : r'.slots id = r.slots id := by
  cases a with
  | request id' q sent =>
    obtain ⟨hnew, rfl⟩ := guarded_not.mp hstep
    refine Function.update_of_ne ?_ ..
    rintro rfl
    exact hnew (by rw [hs])
  | incoming env =>
    cases hstep
    unfold Router.handleIncoming
    dsimp only
    split
    · split
      · rename_i hpending
        refine Function.update_of_ne ?_ ..
        rintro rfl
        simp [hs] at hpending
      · rfl
    · split <;> rfl
    · split <;> rfl
    · rfl
    · rfl
  | timeout id' =>
    obtain ⟨q, hq, rfl⟩ := Option.map_eq_some_iff.mp hstep
    refine Function.update_of_ne ?_ ..
    rintro rfl
    simp [hs] at hq
  | failPending code message =>
    cases hstep
    simp [Router.failPending, hs]

/-- **Every request settles once, by its own answer**, in every run: a
request is not settled and its timer will settle it, or it is settled once,
and then no step changes it, its timer is not armed and an envelope for it
changes nothing at all; and what resolved it is the payload of its own
result. -/
theorem requests_settle_once (h : router.Reachable r) :
    (∀ id, (r.slots id).issued = true →
      (r.slots id).settled = [] ∧
        (∃ r', router.step r (.timeout id) = some r' ∧ ∃ o, (r'.slots id).settled = [o]) ∨
      (∃ o, (r.slots id).settled = [o]) ∧
        (∀ a r', router.step r a = some r' → r'.slots id = r.slots id) ∧
        router.step r (.timeout id) = none ∧
        ∀ env, env.eventId = id → router.step r (.incoming env) =
          some { r with received := r.received ++ [env] }) ∧
    ∀ id p, .resolved p ∈ (r.slots id).settled → Answered r.received id p := by
  have hsound : Sound r :=
    router.invariant (fun _ => .inl rfl) (fun _ _ _ => Sound.step) h
  refine ⟨fun id hissued => ?_, fun id p hp => ?_⟩
  · obtain hs | ⟨q, hs⟩ | ⟨o, hs, -⟩ := hsound id
    · rw [hs] at hissued
      cases hissued
    · refine .inl ⟨by rw [hs], r.timeout id q, by simp [router, hs], ?_⟩
      simp only [Router.timeout, Router.set, Function.update_self, Slot.settle, hs]
      exact ⟨_, rfl⟩
    refine .inr ⟨⟨o, by rw [hs]⟩, fun _ _ => step_settled hs, by simp [router, hs], ?_⟩
    rintro env rfl
    simp only [router, Router.handleIncoming, hs, Option.isSome_none, Option.any_none]
    cases env.kind <;> rfl
  · obtain hs | ⟨q, hs⟩ | ⟨o, hs, ho⟩ := hsound id
    · simp [hs] at hp
    · simp [hs] at hp
    · rw [hs] at hp
      exact ho p (List.mem_singleton.mp hp).symm

/-- A result that comes twice. -/
theorem requests_settle_once_twice : ∃ r, router.run router.init
      [.request "1" { cap := "c", type := "t" } (.ok true),
        .incoming ⟨"c", "t", .result, "1", some { ok := true }⟩,
        .incoming ⟨"c", "t", .result, "1", some { ok := false }⟩] = some r ∧
    (r.slots "1").settled = [.resolved { ok := true }] ∧
    Answered r.received "1" { ok := true } := by
  refine evaluated (fun r => (r.slots "1").settled) (b := [.resolved { ok := true }])
    (by decide +kernel) fun r hrun hsettled => ?_
  exact ⟨hsettled, (requests_settle_once ⟨_, hrun⟩).2 "1" _ (by rw [hsettled]; simp)⟩

end Fjarr.Web.Requests
