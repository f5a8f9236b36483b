/-
Fjarr.Core.Demand — what demands, ticks and closes leave alone.

A demand changes a branch's enabled flag, its tiers and its valve, and
nothing of the negotiation: not which tracks there are, on which m-lines,
nor any offer (`Held`). So does everything made of demands: select-tracks,
the rate tick, the test hook's silence and the close. A valve follows the
enabled and negotiated flags throughout (`Gated`).
-/
import Fjarr.Core.Tracks

namespace Fjarr.Core

open Lib Media ConsumerTrack

/-! ## Branches -/

namespace ConsumerTrack

/-- The valve is open exactly for an enabled and negotiated track. -/
def Gated (t : ConsumerTrack) : Prop := ∀ v, t.valve = some v → v = !(t.enabled && t.negotiated)

/-- What a demand may change. -/
structure Touched (t t' : ConsumerTrack) : Prop where
  same : t' = { t with
    enabled := t'.enabled, tier := t'.tier, demandedTier := t'.demandedTier, valve := t'.valve }
  branch : t'.valve.isSome = t.valve.isSome
  gated : t.Gated → t'.Gated

namespace Touched

theorem refl (t : ConsumerTrack) : Touched t t := ⟨rfl, rfl, id⟩

theorem trans {t t' t'' : ConsumerTrack} (h : Touched t t') (h' : Touched t' t'') :
    Touched t t'' := by
  refine ⟨?_, h'.branch.trans h.branch, fun hg => h'.gated (h.gated hg)⟩
  rw [h'.same, h.same]

end Touched

theorem gated_applyValve (t : ConsumerTrack) : t.applyValve.Gated := by
  intro v hv
  obtain ⟨v', -, rfl⟩ := Option.map_eq_some_iff.mp hv
  rfl

theorem touched_setEnabled (t : ConsumerTrack) (enabled : Bool) :
    Touched t (t.setEnabled enabled) := by
  unfold setEnabled
  split
  · exact .refl t
  · exact ⟨rfl, by simp [applyValve], fun _ => gated_applyValve _⟩

theorem setEnabled_enabled {t : ConsumerTrack} (hbranch : t.valve.isSome = true) (enabled : Bool) :
    (t.setEnabled enabled).enabled = enabled := by
  have hnone : ¬ t.valve.isNone = true := by
    rw [Option.isNone_iff_eq_none]
    rintro hnone
    simp [hnone] at hbranch
  rw [setEnabled, if_neg hnone]
  rfl

variable (t : ConsumerTrack)

theorem setEnabled_demandedTier (enabled : Bool) :
    (t.setEnabled enabled).demandedTier = t.demandedTier := by
  unfold setEnabled
  split <;> rfl

theorem touched_demanded (demanded : String) :
    Touched t { t with demandedTier := demanded } := ⟨rfl, rfl, id⟩

theorem touched_tier (tier : String) : Touched t { t with tier } :=
  ⟨rfl, rfl, id⟩

end ConsumerTrack

namespace Consumer

/-- Branches are touched, and nothing else changes. -/
structure Touched (c c' : Consumer) : Prop where
  lines : c'.lines = c.lines
  nextPt : c'.nextPt = c.nextPt
  offerInFlight : c'.offerInFlight = c.offerInFlight
  offeredSendonly : c'.offeredSendonly = c.offeredSendonly
  negotiations : c'.negotiations = c.negotiations
  tracks : ∀ id : String, Option.Rel ConsumerTrack.Touched c.tracks[id]? c'.tracks[id]?

namespace Touched

variable {c c' c'' : Consumer}

theorem refl (c : Consumer) : Touched c c := by
  refine ⟨rfl, rfl, rfl, rfl, rfl, fun id => ?_⟩
  cases c.tracks[id]? with
  | none => exact .none
  | some t => exact .some (.refl t)

theorem trans (h : Touched c c') (h' : Touched c' c'') : Touched c c'' := by
  refine ⟨h'.lines.trans h.lines, h'.nextPt.trans h.nextPt,
    h'.offerInFlight.trans h.offerInFlight, h'.offeredSendonly.trans h.offeredSendonly,
    h'.negotiations.trans h.negotiations, fun id => ?_⟩
  exact Maps.rel_trans (h.tracks id) (h'.tracks id) .trans

variable {id : String}

theorem some_of_some (h : Touched c c') {t' : ConsumerTrack}
    (ht' : c'.tracks[id]? = some t') :
    ∃ t, c.tracks[id]? = some t ∧ ConsumerTrack.Touched t t' :=
  Maps.rel_some_right (h.tracks id) ht'

theorem of_some (h : Touched c c') {t : ConsumerTrack}
    (ht : c.tracks[id]? = some t) :
    ∃ t', c'.tracks[id]? = some t' ∧ ConsumerTrack.Touched t t' :=
  Maps.rel_some_left (h.tracks id) ht

theorem setTrack {t t' : ConsumerTrack} (ht : c.tracks[id]? = some t)
    (htouched : ConsumerTrack.Touched t t') : Touched c (c.setTrack id t') := by
  refine ⟨rfl, rfl, rfl, rfl, rfl, fun i => ?_⟩
  rw [Consumer.setTrack, Maps.get?_insert]
  split
  · rename_i hi
    rw [hi, ht]
    exact .some htouched
  · exact (refl c).tracks i

theorem setEnabled (c : Consumer) (id : String) (enabled : Bool) :
    Touched c (c.setEnabled id enabled) := by
  unfold Consumer.setEnabled
  split
  · exact refl c
  · rename_i t ht
    exact setTrack ht (t.touched_setEnabled enabled)

theorem setEnabled_all {α : Type} (c : Consumer) (ids : List α) (id : α → String)
    (enabled : Bool) : Touched c (ids.foldl (fun c e => c.setEnabled (id e) enabled) c) := by
  induction ids generalizing c with
  | nil => exact refl c
  | cons e ids ih => exact (setEnabled c (id e) enabled).trans (ih _)

end Touched

end Consumer

/-! ## Sessions -/

/-- The session's tracks and negotiation stay as they are. -/
structure Held (s s' : Session) : Prop where
  tracks : s'.tracks = s.tracks
  caps : s'.caps = s.caps
  renegotiationPending : s'.renegotiationPending = s.renegotiationPending
  manifestVersion : s'.manifestVersion = s.manifestVersion
  sent : s'.sent = s.sent
  applied : s'.applied = s.applied
  closing : s.closing = true → s'.closing = true
  consumer : Option.Rel Consumer.Touched s.consumer s'.consumer

namespace Held

variable {s s' s'' : Session}

theorem of_eq (s : Session) {s' : Session} (htracks : s'.tracks = s.tracks)
    (hcaps : s'.caps = s.caps) (hpending : s'.renegotiationPending = s.renegotiationPending)
    (hversion : s'.manifestVersion = s.manifestVersion) (hsent : s'.sent = s.sent)
    (happlied : s'.applied = s.applied) (hclosing : s.closing = true → s'.closing = true)
    (hconsumer : s'.consumer = s.consumer) : Held s s' := by
  refine ⟨htracks, hcaps, hpending, hversion, hsent, happlied, hclosing, ?_⟩
  rw [hconsumer]
  cases s.consumer with
  | none => exact .none
  | some c => exact .some (.refl c)

theorem refl (s : Session) : Held s s := of_eq s rfl rfl rfl rfl rfl rfl id rfl

theorem trans (h : Held s s') (h' : Held s' s'') : Held s s'' := by
  refine ⟨h'.tracks.trans h.tracks, h'.caps.trans h.caps,
    h'.renegotiationPending.trans h.renegotiationPending,
    h'.manifestVersion.trans h.manifestVersion, h'.sent.trans h.sent, h'.applied.trans h.applied,
    fun hc => h'.closing (h.closing hc), ?_⟩
  exact Maps.rel_trans h.consumer h'.consumer .trans

theorem of_touched {c c' : Consumer} (hc : s.consumer = some c) (h : Consumer.Touched c c')
    (htracks : s'.tracks = s.tracks) (hcaps : s'.caps = s.caps)
    (hpending : s'.renegotiationPending = s.renegotiationPending)
    (hversion : s'.manifestVersion = s.manifestVersion) (hsent : s'.sent = s.sent)
    (happlied : s'.applied = s.applied) (hclosing : s.closing = true → s'.closing = true)
    (hc' : s'.consumer = some c') : Held s s' := by
  refine ⟨htracks, hcaps, hpending, hversion, hsent, happlied, hclosing, ?_⟩
  rw [hc, hc']
  exact .some h

theorem consumer_some (h : Held s s') {c' : Consumer} (hc' : s'.consumer = some c') :
    ∃ c, s.consumer = some c ∧ Consumer.Touched c c' :=
  Maps.rel_some_right h.consumer hc'

theorem some_consumer (h : Held s s') {c : Consumer} (hc : s.consumer = some c) :
    ∃ c', s'.consumer = some c' ∧ Consumer.Touched c c' :=
  Maps.rel_some_left h.consumer hc

theorem setEnabled_all {α : Type} (s : Session) (ids : List α) (id : α → String) (enabled : Bool) :
    Held s { s with
      consumer := s.consumer.map fun c =>
        ids.foldl (fun c e => c.setEnabled (id e) enabled) c } := by
  cases hc : s.consumer with
  | none => exact of_eq s rfl rfl rfl rfl rfl rfl (fun h => h) hc.symm
  | some c =>
    exact of_touched hc (.setEnabled_all c ids id enabled) rfl rfl rfl rfl rfl rfl (fun h => h) rfl

end Held

namespace Ctx

/-! ## Demands -/

theorem applyDemand_branch {x : Ctx} {c : Consumer} {ct : ConsumerTrack} {id : String}
    (hc : x.session.consumer = some c) (ht : c.tracks[id]? = some ct) (enabled : Bool)
    (demanded : String) :
    ∃ ct', ConsumerTrack.Touched ct ct' ∧ ct'.demandedTier = demanded ∧
      (ct.valve.isSome = true → enabled = false ∨ x.session.silentMedia = false →
        ct'.enabled = enabled) ∧
      (x.applyDemand id enabled demanded).session.consumer = some (c.setTrack id ct') := by
  have hdemanded := ct.touched_demanded demanded
  unfold applyDemand
  simp only [hc, ht]
  cases enabled with
  | false =>
    refine ⟨setEnabled { ct with demandedTier := demanded } false,
      hdemanded.trans (touched_setEnabled ..),
      setEnabled_demandedTier .., fun hvalve _ => ?_, rfl⟩
    exact setEnabled_enabled (t := { ct with demandedTier := demanded }) hvalve false
  | true =>
    let tier := ((x.session.tierPolicy id).setDemanded demanded).effective
    have htier := hdemanded.trans (touched_tier _ tier)
    cases hsilent : x.session.silentMedia with
    | true => exact ⟨_, htier, rfl, by simp, rfl⟩
    | false =>
      refine ⟨setEnabled { ct with demandedTier := demanded, tier } true,
        htier.trans (touched_setEnabled ..),
        setEnabled_demandedTier .., fun hvalve _ => ?_, rfl⟩
      exact setEnabled_enabled
        (t := { ct with demandedTier := demanded, tier }) hvalve true

theorem held_applyDemand (x : Ctx) (id : String) (enabled : Bool) (demanded : String) :
    Held x.session (x.applyDemand id enabled demanded).session := by
  cases hc : x.session.consumer with
  | none =>
    have heq : x.applyDemand id enabled demanded = x := by simp only [applyDemand, hc]
    rw [heq]
    exact .refl _
  | some c =>
    cases ht : c.tracks[id]? with
    | none =>
      have heq : x.applyDemand id enabled demanded = x := by simp only [applyDemand, hc, ht]
      rw [heq]
      exact .refl _
    | some ct =>
      obtain ⟨ct', htouched, -, -, heq⟩ := applyDemand_branch hc ht enabled demanded
      have hsame : (x.applyDemand id enabled demanded).session.tracks = x.session.tracks ∧
          (x.applyDemand id enabled demanded).session.caps = x.session.caps ∧
          (x.applyDemand id enabled demanded).session.renegotiationPending =
            x.session.renegotiationPending ∧
          (x.applyDemand id enabled demanded).session.manifestVersion = x.session.manifestVersion ∧
          (x.applyDemand id enabled demanded).session.sent = x.session.sent ∧
          (x.applyDemand id enabled demanded).session.applied = x.session.applied ∧
          (x.applyDemand id enabled demanded).session.state = x.session.state := by
        simp only [applyDemand, hc, ht]
        split <;> exact ⟨rfl, rfl, rfl, rfl, rfl, rfl, rfl⟩
      obtain ⟨htracks, hcaps, hpending, hversion, hsent, happlied, hstate⟩ := hsame
      refine .of_touched hc (.setTrack ht htouched) htracks hcaps hpending hversion hsent happlied
        (fun h => ?_) heq
      simpa only [Session.closing, hstate] using h

/-! ## What is made of demands -/

theorem held_unsubscribeAll (x : Ctx) : Held x.session x.unsubscribeAll.session :=
  .of_eq _ rfl rfl rfl rfl rfl rfl id rfl

theorem held_close (x : Ctx) : Held x.session x.close.session := by
  unfold close
  split
  · exact .refl _
  have hstate : Held x.session { x.session with state := .closing } :=
    .of_eq _ rfl rfl rfl rfl rfl rfl (fun _ => rfl) rfl
  exact (hstate.trans (held_unsubscribeAll { x with
    session := { x.session with state := .closing } })).trans
      (.setEnabled_all _ x.session.tracks.keys id false)

theorem held_close_of {x : Ctx} {s : Session} (hs : x.session = s) : Held s x.close.session :=
  hs ▸ held_close x

variable (x : Ctx)

theorem close_closing : x.close.session.closing = true := by
  unfold close
  split
  · assumption
  · rfl

theorem held_tickTrack (share : String → Share) (evidence : Evidence) (id : String) :
    Held x.session (x.tickTrack share evidence id).session := by
  unfold tickTrack
  split
  · exact .refl _
  dsimp only
  have hpolicy : ∀ (policy : String → TierPolicy) (plane : MediaPlane),
      Held x.session (Ctx.session { x with
        session := { x.session with tierPolicy := policy }, plane }) := fun _ _ =>
    .of_eq _ rfl rfl rfl rfl rfl rfl (fun h => h) rfl
  split
  · exact (hpolicy _ _).trans (held_applyDemand _ id true _)
  · exact hpolicy _ x.plane

theorem held_rateTick (share : String → Share) (evidence : Evidence) :
    Held x.session (x.rateTick share evidence).session := by
  unfold rateTick
  split
  · exact .refl _
  have hfold : ∀ (ids : List String) (x : Ctx), Held x.session
      (ids.foldl (fun x id => x.tickTrack share evidence id) x).session := by
    intro ids
    induction ids with
    | nil => exact fun x => .refl _
    | cons id ids ih => exact fun x => (held_tickTrack x share evidence id).trans (ih _)
  exact hfold _ x

theorem held_testSilence (media : Bool) :
    Held x.session (x.testSilence media).session := by
  have hsilent : Held x.session { x.session with silentMedia := media } :=
    .of_eq _ rfl rfl rfl rfl rfl rfl id rfl
  unfold testSilence
  dsimp only
  split
  · exact hsilent
  · exact hsilent.trans (.setEnabled_all _ x.session.tracks.keys id false)

theorem held_silenceEnds : Held x.session x.silenceEnds.session := by
  have hsilent : Held x.session { x.session with silentMedia := false } :=
    .of_eq _ rfl rfl rfl rfl rfl rfl id rfl
  unfold silenceEnds
  dsimp only
  split
  · exact hsilent
  rename_i c hc
  split
  · exact hsilent
  have hall := hsilent.trans
    (.setEnabled_all _ x.session.subscribedTier.toList (fun e => e.1) true)
  simpa only [hc, Option.map_some] using hall

theorem held_applyEntry (t : Json) : Held x.session (x.applyEntry t).1.session := by
  unfold applyEntry
  split
  · dsimp only
    split
    · split <;> exact held_applyDemand ..
    · exact held_applyDemand ..
  all_goals exact .refl _

theorem held_applyEntries (tracks : List Json) :
    Held x.session (x.applyEntries tracks).1.session := by
  induction tracks generalizing x with
  | nil => exact .refl _
  | cons t rest ih =>
    have ht := held_applyEntry x t
    unfold applyEntries
    split
    · rename_i x' heq
      rw [heq] at ht
      exact ht.trans (ih x')
    rename_i x' e heq
    rw [heq] at ht
    exact ht

theorem held_selectTracks (cap : String) (known : Bool) (payload : Json) :
    Held x.session (x.selectTracks cap known payload).1.session := by
  have hhandle : Held x.session (x.handleSelectTracks cap payload).1.session := by
    unfold handleSelectTracks
    split
    · exact .refl _
    · split
      · exact .refl _
      · exact .refl _
      have happly := held_applyEntries x ‹List Json›
      split
      · rename_i heq
        rw [heq] at happly
        exact happly
      rename_i heq
      rw [heq] at happly
      exact happly
    · exact .refl _
  unfold selectTracks
  split
  · exact .refl _
  split
  · split
    · exact .refl _
    split
    · exact .refl _
    · exact hhandle
  · exact .refl _

end Ctx

end Fjarr.Core
