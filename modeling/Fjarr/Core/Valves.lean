/-
Fjarr.Core.Valves — which answers open a valve.

A valve is open for an enabled track that the peer's answer accepted
(`Gated`). The answer is read by m-line: it settles whichever track is on
an m-line its offer sends on when the answer is applied
(`Consumer.settle`). That is the track the offer's manifest lists there
unless the m-line changed hands meanwhile, which takes an `update_tracks`
that adds a track while a sent offer is not settled and finds an m-line of
its kind that the offer sends on in the pool (`Act.apart`). Without such
calls an open valve's track was accepted by the last applied answer to an
offer that listed it on its m-line (`valve_opens_negotiated`); with one, the
new track's valve opens on the old one's answer (`opened_by_old_answer`).
-/
import Fjarr.Core.Offers

namespace Fjarr.Core

open Lib Media List Option Consumer

/-! ## One negotiation -/

/-- There is one negotiation at most, and none when no offer is in flight. -/
def Single (s : Session) : Prop :=
  ∀ c, s.consumer = some c →
    c.negotiations.length ≤ 1 ∧ (c.offerInFlight = false → c.negotiations = [])

namespace Single

variable {s s' : Session}

theorem aloft (h : Single s) (ha : Aloft s s') : Single s' := by
  intro c' hc'
  obtain ⟨c, hc, hneg, hflight, -⟩ := ha.consumer c' hc'
  rw [hneg, hflight]
  exact h c hc

theorem requestOffer (h : Single s) : Single s.requestOffer := by
  obtain ⟨heq, -⟩ | ⟨c, hc, -, ⟨-, heq⟩ | ⟨hidle, heq⟩⟩ := s.requestOffer_cases
  · rw [heq]
    exact h
  · rw [heq]
    exact h
  rw [heq]
  intro c' hc'
  cases hc'
  rw [(h c hc).2 hidle]
  exact ⟨le_rfl, fun hfalse => Bool.noConfusion hfalse⟩

theorem set {c d : Consumer} {j : Nat} {stage : Stage} (h : Single s) (hc : s.consumer = some c)
    (hd : s'.consumer = some d) (hneg : d.negotiations = c.negotiations.set j stage)
    (hflight : d.offerInFlight = c.offerInFlight) : Single s' := by
  intro c' hc'
  cases hc'.symm.trans hd
  rw [hneg, length_set, hflight]
  refine ⟨(h c hc).1, fun hidle => ?_⟩
  rw [(h c hc).2 hidle]
  rfl

theorem ended {c d : Consumer} {j : Nat} {stage : Stage} (h : Single s) (hc : s.consumer = some c)
    (hj : c.negotiations[j]? = some stage) (hd : s'.consumer = some d)
    (hneg : d.negotiations = c.negotiations.eraseIdx j) : Single s' := by
  intro c' hc'
  cases hc'.symm.trans hd
  obtain ⟨hstages, rfl⟩ := eq_singleton (h c hc).1 hj
  rw [hneg, hstages]
  exact ⟨Nat.zero_le 1, fun _ => rfl⟩

theorem remoteDescriptionSet (h : Single s) : Single s.remoteDescriptionSet := by
  unfold Session.remoteDescriptionSet
  split
  · exact requestOffer (s := { s with renegotiationPending := false }) h
  · exact h

theorem moves (mids : Nat → String) (h : Single s) (hmoves : Moves mids s s') : Single s' := by
  cases hmoves with
  | held hheld => exact h.aloft (.of_held hheld)
  | closed => exact nofun
  | runs hc hj | created hc hj | sent hc hj | answered hc hj => exact h.set hc rfl rfl rfl
  | @failed c j _ hc hj hheld _ =>
    have hover : Single { s with consumer := some (c.offerFailed j) } := h.ended hc hj rfl rfl
    exact hover.aloft (.of_held hheld)
  | @unparseable c j _ _ hc hj hheld _ =>
    have hover : Single { s with consumer := some { c with
        negotiations := c.negotiations.eraseIdx j } } := h.ended hc hj rfl rfl
    exact hover.aloft (.of_held hheld)
  | @applied c j offer accepted s₁ hc hj hs₁ =>
    have hover : Single { s with consumer := some (c.answerApplied j) } := h.ended hc hj rfl rfl
    have hset : Single s₁ := hs₁ ▸ hover.remoteDescriptionSet
    intro c' hc'
    obtain ⟨d, hd, rfl⟩ := map_eq_some_iff.mp hc'
    exact hset d hd

end Single

/-! ## Which answer settles a track -/

/-- The offer's manifest lists the track on the m-line. -/
def Offer.lists (o : Offer) (id : String) (mline : Nat) : Bool :=
  o.tracks.any fun e => e.trackId = id && (o.sdp[mline]?).any (·.mid = e.mid)

/-- The last applied answer to an offer that listed the track on its m-line
accepted it, and the offer was sent after the track was added. -/
def Settled (s : Session) (id : String) (t : ConsumerTrack) : Prop :=
  ∃ o accepted, s.applied.find? (fun a => a.1.lists id t.mline) = some (o, accepted) ∧
    accepted[t.mline]? = some true ∧ t.since < o.manifestVersion

/-- `update_tracks` adds no track of a kind of which an m-line is in the
pool, or given up by the same call, that a sent offer sends on whose answer
is not applied. -/
def Act.apart (w : World) : Act → Bool
  | .updateTracks k cap fullSet => (w.sessions[k]?).all fun s => s.consumer.all fun c =>
      c.negotiations.all (!·.told) || fullSet.all fun t =>
        s.tracks.contains t.spec.trackId || c.tracks.toList.all fun e =>
          !(e.2.kind = t.spec.kind && e.2.mline ∈ c.offeredSendonly &&
            (e.2.pooled || e.1 ∈ Ctx.removed s cap fullSet))
  | _ => true

/-- The offer the peer has. -/
def Stage.offer : Stage → Option Offer
  | .offered o | .answered o _ => some o
  | .creating | .created _ | .describing _ => none

/-- What the tracks and the offer under way have to do with each other. -/
structure Sealed (s : Session) : Prop where
  placed : ∀ c, s.consumer = some c → c.Placed
  single : Single s
  since : ∀ c, s.consumer = some c → ∀ (id : String) t, c.tracks[id]? = some t →
    t.since ≤ s.manifestVersion
  settled : ∀ c, s.consumer = some c → ∀ (id : String) t, c.tracks[id]? = some t →
    t.pooled = false → t.negotiated = true → Settled s id t
  /-- An offer that is made sends on the settled tracks' m-lines. -/
  sends : ∀ c, s.consumer = some c → ∀ stage ∈ c.negotiations, ∀ sdp, stage.sdp = some sdp →
    sdp.length ≤ c.lines.length ∧ ∀ (id : String) t, c.tracks[id]? = some t → t.pooled = false →
      t.negotiated = true → t.mline ∈ Consumer.sendLines sdp
  offered : ∀ c, s.consumer = some c → ∀ stage ∈ c.negotiations, ∀ sdp, stage.sdp = some sdp →
    stage = .describing sdp ∨ stage.offer.isSome = true →
      c.offeredSendonly = Consumer.sendLines sdp
  named : ∀ c, s.consumer = some c → ∀ sdp, .describing sdp ∈ c.negotiations →
    ∀ (id : String) t, c.tracks[id]? = some t → ∀ m, sdp[t.mline]? = some m → t.mid = m.mid
  listed : ∀ c, s.consumer = some c → ∀ stage ∈ c.negotiations, ∀ o, stage.offer = some o →
    ∀ (id : String) t, c.tracks[id]? = some t → t.pooled = false → t.mline ∈ c.offeredSendonly →
      o.lists id t.mline = true ∧ t.since < o.manifestVersion

theorem mem_sendLines {sdp : Sdp} {i : Nat} :
    i ∈ Consumer.sendLines sdp ↔ ∃ m, sdp[i]? = some m ∧ m.sends = true := by
  rw [sendLines, mem_filter, mem_range]
  constructor
  · rintro ⟨hlt, hany⟩
    exact ⟨sdp[i], getElem?_eq_getElem hlt, by simpa [hlt] using hany⟩
  · rintro ⟨m, hm, hsends⟩
    exact ⟨(List.getElem?_eq_some_iff.mp hm).1, by simp [hm, hsends]⟩

namespace Sealed

variable {s s' : Session}

theorem steady (h : Sealed s) (hsingle : Single s')
    (hconsumer : ∀ c', s'.consumer = some c' → ∃ c, s.consumer = some c ∧ c.Seated c' ∧
      c'.offeredSendonly = c.offeredSendonly ∧
      (∀ stage ∈ c'.negotiations, stage ∈ c.negotiations ∨ stage = .creating) ∧
      ∀ (id : String) t t', c.tracks[id]? = some t → c'.tracks[id]? = some t' →
        t'.negotiated = t.negotiated ∧ t'.mid = t.mid)
    (hversion : s'.manifestVersion = s.manifestVersion) (happlied : s'.applied = s.applied) :
    Sealed s' := by
  have hold : ∀ {c : Consumer} {stage : Stage}, (stage ∈ c.negotiations ∨ stage = .creating) →
      stage.sdp.isSome = true → stage ∈ c.negotiations := by
    rintro c stage (hstage | rfl) hsdp
    · exact hstage
    · exact Bool.noConfusion hsdp
  have hoffer : ∀ {stage : Stage} {o : Offer}, stage.offer = some o → stage.sdp.isSome = true := by
    intro stage o ho
    cases stage <;> first | rfl | cases ho.symm
  refine ⟨fun c' hc' => ?_, hsingle, fun c' hc' id t' ht' => ?_,
    fun c' hc' id t' ht' hlive hneg => ?_, fun c' hc' stage hstage sdp hsdp => ?_,
    fun c' hc' stage hstage sdp hsdp hknown => ?_, fun c' hc' sdp hsdp id t' ht' m hm => ?_,
    fun c' hc' stage hstage o ho id t' ht' hlive hmline => ?_⟩
  all_goals obtain ⟨c, hc, hseated, hsendonly, hstages, hsame⟩ := hconsumer c' hc'
  · exact (h.placed c hc).seated hseated
  · obtain ⟨t, ht, hseat⟩ := hseated.some_of_some ht'
    rw [hseat.since, hversion]
    exact h.since c hc id t ht
  · obtain ⟨t, ht, hseat⟩ := hseated.some_of_some ht'
    rw [Settled, happlied, hseat.mline, hseat.since]
    exact h.settled c hc id t ht (hseat.pooled.symm.trans hlive)
      ((hsame id t t' ht ht').1.symm.trans hneg)
  · have hmem := hold (hstages stage hstage) (by rw [hsdp]; rfl)
    obtain ⟨hlength, hsends⟩ := h.sends c hc stage hmem sdp hsdp
    refine ⟨hlength.trans hseated.length_le, fun id t' ht' hlive hneg => ?_⟩
    obtain ⟨t, ht, hseat⟩ := hseated.some_of_some ht'
    rw [hseat.mline]
    exact hsends id t ht (hseat.pooled.symm.trans hlive) ((hsame id t t' ht ht').1.symm.trans hneg)
  · rw [hsendonly]
    exact h.offered c hc stage (hold (hstages stage hstage) (by rw [hsdp]; rfl)) sdp hsdp
      hknown
  · obtain ⟨t, ht, hseat⟩ := hseated.some_of_some ht'
    rw [(hsame id t t' ht ht').2]
    exact h.named c hc sdp (hold (hstages _ hsdp) rfl) id t ht m (hseat.mline ▸ hm)
  obtain ⟨t, ht, hseat⟩ := hseated.some_of_some ht'
  rw [hseat.mline, hseat.since]
  exact h.listed c hc stage (hold (hstages stage hstage) (hoffer ho)) o ho id t ht
    (hseat.pooled.symm.trans hlive) (hsendonly ▸ hseat.mline ▸ hmline)

theorem held (h : Sealed s) (hheld : Held s s') : Sealed s' := by
  refine h.steady (h.single.aloft (.of_held hheld)) (fun c' hc' => ?_) hheld.manifestVersion
    hheld.applied
  obtain ⟨c, hc, htouched⟩ := hheld.consumer_some hc'
  refine ⟨c, hc, .of_touched htouched, htouched.offeredSendonly,
    fun stage hstage => .inl (htouched.negotiations ▸ hstage), fun id t t' ht ht' => ?_⟩
  obtain ⟨u, hu, htrack⟩ := htouched.some_of_some ht'
  cases ht.symm.trans hu
  exact ⟨htrack.negotiated, htrack.mid⟩

variable {c d : Consumer} {j : Nat} {offer : Offer}

theorem same (h : Sealed s) (hc : s.consumer = some c) (hsingle : Single s')
    (hd : s'.consumer = some d) (htracks : d.tracks = c.tracks)
    (hlines : ∃ more, d.lines = c.lines ++ more) (hsendonly : d.offeredSendonly = c.offeredSendonly)
    (hstages : ∀ stage ∈ d.negotiations, stage ∈ c.negotiations ∨ stage = .creating)
    (hversion : s'.manifestVersion = s.manifestVersion) (happlied : s'.applied = s.applied) :
    Sealed s' := by
  refine h.steady hsingle (fun c' hc' => ?_) hversion happlied
  cases hc'.symm.trans hd
  refine ⟨c, hc, .of_tracks_eq hlines htracks, hsendonly, hstages, fun id t t' ht ht' => ?_⟩
  rw [htracks] at ht'
  cases ht.symm.trans ht'
  exact ⟨rfl, rfl⟩

theorem requestOffer (h : Sealed s) : Sealed s.requestOffer := by
  have hsingle := h.single.requestOffer
  obtain ⟨heq, -⟩ | ⟨c, hc, -, ⟨-, heq⟩ | ⟨-, heq⟩⟩ := s.requestOffer_cases
  · rw [heq]
    exact h
  · rw [heq] at hsingle ⊢
    exact h.same hc hsingle hc rfl ⟨[], (append_nil _).symm⟩ rfl (fun _ hst => .inl hst) rfl
      rfl
  rw [heq] at hsingle ⊢
  refine h.same hc hsingle rfl rfl ⟨[], (append_nil _).symm⟩ rfl (fun stage hst => ?_) rfl
    rfl
  exact (mem_append.mp hst).imp id mem_singleton.mp

/-! ## Replies -/

theorem stage (stage : Stage) (hplaced : d.Placed) (hsingle : Single s')
    (hd : s'.consumer = some d) (hneg : d.negotiations = [stage])
    (hsince : ∀ (id : String) t, d.tracks[id]? = some t → t.since ≤ s'.manifestVersion)
    (hsettled : ∀ (id : String) t, d.tracks[id]? = some t → t.pooled = false →
      t.negotiated = true → Settled s' id t)
    (hsends : ∀ sdp, stage.sdp = some sdp → sdp.length ≤ d.lines.length ∧
      ∀ (id : String) t, d.tracks[id]? = some t → t.pooled = false → t.negotiated = true →
        t.mline ∈ Consumer.sendLines sdp)
    (hoffered : ∀ sdp, stage.sdp = some sdp → stage = .describing sdp ∨ stage.offer.isSome = true →
      d.offeredSendonly = Consumer.sendLines sdp)
    (hnamed : ∀ sdp, stage = .describing sdp → ∀ (id : String) t, d.tracks[id]? = some t →
      ∀ m, sdp[t.mline]? = some m → t.mid = m.mid)
    (hlisted : ∀ o, stage.offer = some o → ∀ (id : String) t, d.tracks[id]? = some t →
      t.pooled = false → t.mline ∈ d.offeredSendonly →
        o.lists id t.mline = true ∧ t.since < o.manifestVersion) : Sealed s' := by
  have hmem : ∀ st, st ∈ d.negotiations → st = stage := by
    intro st hst
    rw [hneg] at hst
    exact mem_singleton.mp hst
  refine ⟨fun c hc => ?_, hsingle, fun c hc => ?_, fun c hc => ?_, fun c hc st hst => ?_,
    fun c hc st hst => ?_, fun c hc sdp hsdp => ?_, fun c hc st hst => ?_⟩
  all_goals cases hc.symm.trans hd
  · exact hplaced
  · exact hsince
  · exact hsettled
  · rw [hmem st hst]
    exact hsends
  · rw [hmem st hst]
    exact hoffered
  · exact hnamed sdp (hmem _ hsdp).symm
  · rw [hmem st hst]
    exact hlisted

section

variable (h : Sealed s) (hc : s.consumer = some c)
include h hc

theorem runs {mids : Nat → String} (hj : c.negotiations[j]? = some .creating) (ok : Bool) :
    Sealed { s with consumer := some (c.offerRuns j mids ok) } := by
  have hsingle : Single { s with consumer := some (c.offerRuns j mids ok) } :=
    h.single.moves mids (.runs hc hj)
  obtain ⟨hstages, rfl⟩ := eq_singleton (h.single c hc).1 hj
  have hseated := c.seated_offerRuns 0 mids ok
  have hneg : (c.offerRuns 0 mids ok).negotiations = [.created (if ok then
      some (describe (c.offerRuns 0 mids ok).lines mids) else none)] := by
    rw [offerRuns, hstages]
    rfl
  refine stage _ ((h.placed c hc).seated hseated) hsingle rfl hneg (h.since c hc) (h.settled c hc)
    (fun sdp hsdp => ?_) (fun sdp _ hknown => ?_) (fun sdp heq => absurd heq (by simp))
    (fun o ho => absurd ho (some_ne_none o).symm)
  · obtain rfl := some.inj (ite_none_right_eq_some.mp hsdp).2
    refine ⟨by rw [describe, length_mapIdx], fun id t ht hlive _ => ?_⟩
    have hline := hseated.line ((h.placed c hc).sends id t ht hlive)
    refine mem_sendLines.mpr ⟨{ mid := mids t.mline, sends := true }, ?_, rfl⟩
    rw [describe, getElem?_mapIdx, hline]
    rfl
  obtain heq | hnone := hknown
  · exact absurd heq (by simp)
  · exact Bool.noConfusion hnone

theorem created {sdp : Sdp} (hj : c.negotiations[j]? = some (.created (some sdp))) :
    Sealed { s with consumer := some (c.offerCreated j sdp) } := by
  have hsingle := h.single.moves toString (.created hc hj)
  obtain ⟨hstages, rfl⟩ := eq_singleton (h.single c hc).1 hj
  have hmem := mem_of_getElem? hj
  have hseated := c.seated_offerCreated 0 sdp
  have hneg : (c.offerCreated 0 sdp).negotiations = [.describing sdp] := by
    rw [offerCreated, hstages]
    rfl
  refine stage _ ((h.placed c hc).seated hseated) hsingle rfl hneg (fun id t' ht' => ?_)
    (fun id t' ht' hlive hnegotiated => ?_) (fun sdp' hsdp' => ?_) (fun sdp' hsdp' _ => ?_)
    (fun sdp' heq id t' ht' m hm => ?_) (fun o ho => absurd ho (some_ne_none o).symm)
  · obtain ⟨t, ht, rfl⟩ := offerCreated_track ht'
    exact h.since c hc id t ht
  · obtain ⟨t, ht, rfl⟩ := offerCreated_track ht'
    exact h.settled c hc id t ht hlive hnegotiated
  · obtain ⟨hlength, hsends⟩ := h.sends c hc _ hmem sdp' hsdp'
    refine ⟨hlength, fun id t' ht' hlive hnegotiated => ?_⟩
    obtain ⟨t, ht, rfl⟩ := offerCreated_track ht'
    exact hsends id t ht hlive hnegotiated
  · rw [← some.inj hsdp']
    rfl
  obtain ⟨t, ht, rfl⟩ := offerCreated_track ht'
  obtain rfl := Stage.describing.inj heq
  have hm' : sdp[t.mline]? = some m := hm
  simp only [midOf, hm', map_some, getD_some]

theorem sent {sdp : Sdp} {state : State} (hj : c.negotiations[j]? = some (.describing sdp))
    (hoffer : offer = { sdp, tracks := c.manifest, manifestVersion := s.manifestVersion + 1 })
    (hstate : s.closing = true → state = s.state) :
    Sealed { s with
      manifestVersion := s.manifestVersion + 1, sent := s.sent ++ [offer], state
      consumer := some { c with negotiations := c.negotiations.set j (.offered offer) } } := by
  have hsingle := h.single.moves toString (.sent hc hj hoffer hstate)
  obtain ⟨hstages, rfl⟩ := eq_singleton (h.single c hc).1 hj
  have hmem := mem_of_getElem? hj
  have hsendonly := h.offered c hc _ hmem sdp rfl (.inl rfl)
  have hsdp : offer.sdp = sdp := by rw [hoffer]
  refine stage (.offered offer) ?_ hsingle rfl (by rw [hstages]; rfl) (fun id t ht => ?_)
    (h.settled c hc) (fun sdp' hsdp' => ?_) (fun sdp' hsdp' _ => ?_)
    (fun sdp' heq => by simp at heq) (fun o ho id t ht hlive hmline => ?_)
  · exact (h.placed c hc).seated (.of_eq rfl rfl)
  · exact (h.since c hc id t ht).trans (Nat.le_succ _)
  · rw [← some.inj hsdp', hsdp]
    exact h.sends c hc _ hmem sdp rfl
  · rw [← some.inj hsdp', hsdp]
    exact hsendonly
  cases ho
  obtain ⟨m, hm, -⟩ := mem_sendLines.mp (hsendonly ▸ hmline)
  have hmid := h.named c hc sdp hmem id t ht m hm
  rw [hoffer]
  refine ⟨List.any_eq_true.mpr ⟨t.manifestEntry, ?_, ?_⟩,
    Nat.lt_succ_of_le (h.since c hc id t ht)⟩
  · exact List.mem_map_of_mem (mem_live.mpr ⟨id, ht, hlive⟩)
  · simp [ConsumerTrack.manifestEntry, (h.placed c hc).keyed id t ht, hm, hmid]

theorem answered (hj : c.negotiations[j]? = some (.offered offer)) (accepted : List Bool) :
    Sealed { s with consumer := some { c with
      negotiations := c.negotiations.set j (.answered offer accepted) } } := by
  have hsingle : Single { s with consumer := some { c with
      negotiations := c.negotiations.set j (.answered offer accepted) } } :=
    h.single.moves toString (.answered hc hj)
  obtain ⟨hstages, rfl⟩ := eq_singleton (h.single c hc).1 hj
  have hmem := mem_of_getElem? hj
  refine stage (.answered offer accepted) ?_ hsingle rfl (by rw [hstages]; rfl) (h.since c hc)
    (h.settled c hc) (fun sdp hsdp => h.sends c hc (.offered offer) hmem sdp hsdp)
    (fun sdp hsdp _ => ?_) (fun sdp heq => by simp at heq)
    (fun o ho => h.listed c hc (.offered offer) hmem o ho)
  · exact (h.placed c hc).seated (.of_eq rfl rfl)
  · exact h.offered c hc _ hmem sdp hsdp (.inr rfl)

theorem applied {accepted : List Bool} (hj : c.negotiations[j]? = some (.answered offer accepted))
    (hsingle : Single s') (htracks : d.tracks = c.tracks) (hlines : d.lines = c.lines)
    (hsendonly : d.offeredSendonly = c.offeredSendonly)
    (hstages : ∀ stage ∈ d.negotiations, stage = .creating)
    (hd : s'.consumer = some (d.settleAll offer.sdp accepted))
    (hversion : s'.manifestVersion = s.manifestVersion)
    (happlied : s'.applied = (offer, accepted) :: s.applied) : Sealed s' := by
  have hmem := mem_of_getElem? hj
  have hget : ∀ (id : String) t', (d.settleAll offer.sdp accepted).tracks[id]? = some t' →
      ∃ t, c.tracks[id]? = some t ∧
        t' = midOf offer.sdp (settle c.offeredSendonly accepted t) := by
    intro id t' ht'
    rw [settleAll, Std.ExtTreeMap.getElem?_map, htracks, hsendonly] at ht'
    obtain ⟨t, ht, rfl⟩ := map_eq_some_iff.mp ht'
    exact ⟨t, ht, rfl⟩
  have hseated : c.Seated (d.settleAll offer.sdp accepted) := by
    have hsettled := d.seated_settleAll offer.sdp accepted
    refine ⟨?_, htracks ▸ hsettled.tracks⟩
    obtain ⟨more, hmore⟩ := hsettled.lines
    exact ⟨more, hlines ▸ hmore⟩
  have hnone : ∀ stage ∈ d.negotiations, stage.sdp = none := by
    intro stage hstage
    rw [hstages stage hstage]
    rfl
  refine ⟨fun c' hc' => ?_, hsingle, fun c' hc' id t' ht' => ?_,
    fun c' hc' id t' ht' hlive hneg => ?_, fun c' hc' stage hstage sdp hsdp => ?_,
    fun c' hc' stage hstage sdp hsdp => ?_, fun c' hc' sdp hsdp => ?_,
    fun c' hc' stage hstage o ho => ?_⟩
  all_goals cases hc'.symm.trans hd
  · exact (h.placed c hc).seated hseated
  · obtain ⟨t, ht, rfl⟩ := hget id t' ht'
    rw [hversion]
    exact (ConsumerTrack.seated_settle c.offeredSendonly accepted t).since ▸ h.since c hc id t ht
  · obtain ⟨t, ht, rfl⟩ := hget id t' ht'
    have hseat := ConsumerTrack.seated_settle c.offeredSendonly accepted t
    have hlive' : t.pooled = false := hseat.pooled.symm.trans hlive
    have hmline : t.mline ∈ c.offeredSendonly := by
      by_contra hnot
      have hsame : settle c.offeredSendonly accepted t = t := by
        rw [settle, if_pos (by simp [hnot])]
      have hneg' : t.negotiated = true := by
        rw [hsame] at hneg
        exact hneg
      rw [h.offered c hc _ hmem offer.sdp rfl (.inr rfl)] at hnot
      exact hnot ((h.sends c hc _ hmem offer.sdp rfl).2 id t ht hlive' hneg')
    obtain ⟨hlists, hsince⟩ := h.listed c hc _ hmem offer rfl id t ht hlive' hmline
    have haccepted : accepted[t.mline]? = some true := by
      have hset : (settle c.offeredSendonly accepted t).negotiated =
          (accepted[t.mline]?).getD false := by
        rw [settle, if_neg (by simp [hlive', hmline])]
        rfl
      have htrue := hset.symm.trans hneg
      cases hget : accepted[t.mline]? with
      | none => rw [hget] at htrue; exact Bool.noConfusion htrue
      | some b => rw [hget] at htrue; exact congrArg some htrue
    refine ⟨offer, accepted, ?_, ?_, ?_⟩
    · rw [happlied]
      refine find?_cons_of_pos ?_
      change offer.lists id (settle c.offeredSendonly accepted t).mline = true
      rw [hseat.mline]
      exact hlists
    · change accepted[(settle c.offeredSendonly accepted t).mline]? = some true
      rw [hseat.mline]
      exact haccepted
    · exact hseat.since ▸ hsince
  · cases (hnone stage hstage).symm.trans hsdp
  · cases (hnone stage hstage).symm.trans hsdp
  · exact absurd (hstages _ hsdp) (by simp)
  · rw [hstages stage hstage] at ho
    cases ho

end

theorem moves {mids : Nat → String} (h : Sealed s) (hmoves : Moves mids s s') : Sealed s' := by
  have hsingle := h.single.moves mids hmoves
  cases hmoves with
  | held hheld => exact h.held hheld
  | closed =>
    exact ⟨nofun, hsingle, nofun, nofun, nofun, nofun, nofun, nofun⟩
  | runs hc hj => exact h.runs hc hj _
  | created hc hj => exact h.created hc hj
  | @failed c j _ hc hj hheld _ =>
    have hover : Sealed { s with consumer := some (c.offerFailed j) } :=
      h.same hc (h.single.ended hc hj rfl rfl) rfl rfl ⟨[], (append_nil _).symm⟩ rfl
        (fun stage hstage => .inl (mem_of_mem_eraseIdx hstage)) rfl rfl
    exact hover.held hheld
  | sent hc hj hoffer hstate => exact h.sent hc hj hoffer hstate
  | answered hc hj => exact h.answered hc hj _
  | @unparseable c j _ _ hc hj hheld _ =>
    have hover : Sealed { s with consumer := some { c with
        negotiations := c.negotiations.eraseIdx j } } :=
      h.same hc (h.single.ended hc hj rfl rfl) rfl rfl ⟨[], (append_nil _).symm⟩ rfl
        (fun stage hstage => .inl (mem_of_mem_eraseIdx hstage)) rfl rfl
    exact hover.held hheld
  | @applied c j offer accepted s₁ hc hj hs₁ =>
    obtain ⟨d, hd, htracks, hlines, hsendonly, hneg, -, happlied, hversion⟩ :=
      Session.remoteDescriptionSet_spec (s := { s with consumer := some (c.answerApplied j) }) rfl
    rw [← hs₁] at hd happlied hversion
    have hover : (c.answerApplied j).negotiations = [] := by
      obtain ⟨hstages, rfl⟩ := eq_singleton (h.single c hc).1 hj
      rw [answerApplied, hstages]
      rfl
    refine h.applied hc hj hsingle htracks hlines hsendonly (fun stage hstage => ?_)
      (by rw [hd]; rfl) hversion (by rw [happlied])
    rw [hover] at hneg
    obtain hneg | hneg := hneg
    · rw [hneg] at hstage
      exact absurd hstage not_mem_nil
    · rw [hneg] at hstage
      exact mem_singleton.mp hstage

/-! ## Tracks come and go -/

theorem fewer (h : Sealed s) (hc : s.consumer = some c)
    (ha : Aloft s s') (hd : s'.consumer = some d) (hplaced : d.Placed)
    (hlines : c.lines.length ≤ d.lines.length)
    (hold : ∀ (id : String) t', d.tracks[id]? = some t' →
      ∃ (id₀ : String) (t : ConsumerTrack), c.tracks[id₀]? = some t ∧
        t'.mline = t.mline ∧ t'.mid = t.mid ∧ t'.since = t.since)
    (hlive : ∀ (id : String) t', d.tracks[id]? = some t' → t'.pooled = false →
      c.tracks[id]? = some t') : Sealed s' := by
  obtain ⟨c₁, hc₁, hneg, -, hsendonly⟩ := ha.consumer d hd
  cases hc₁.symm.trans hc
  refine ⟨fun c' hc' => ?_, h.single.aloft ha, fun c' hc' id t' ht' => ?_,
    fun c' hc' id t' ht' hl hn => ?_, fun c' hc' stage hstage sdp hsdp => ?_,
    fun c' hc' stage hstage => ?_, fun c' hc' sdp hsdp id t' ht' m hm => ?_,
    fun c' hc' stage hstage o ho id t' ht' hl hmline => ?_⟩
  all_goals cases hc'.symm.trans hd
  · exact hplaced
  · obtain ⟨id₀, t, ht, -, -, hsince⟩ := hold id t' ht'
    rw [hsince, ha.manifestVersion]
    exact h.since c hc id₀ t ht
  · rw [Settled, ha.applied]
    exact h.settled c hc id t' (hlive id t' ht' hl) hl hn
  · obtain ⟨hlength, hsends⟩ := h.sends c hc stage (hneg ▸ hstage) sdp hsdp
    exact ⟨hlength.trans hlines, fun id t' ht' hl hn => hsends id t' (hlive id t' ht' hl) hl hn⟩
  · rw [hsendonly]
    exact h.offered c hc stage (hneg ▸ hstage)
  · obtain ⟨id₀, t, ht, hmline, hmid, -⟩ := hold id t' ht'
    rw [hmid]
    exact h.named c hc sdp (hneg ▸ hsdp) id₀ t ht m (hmline ▸ hm)
  · exact h.listed c hc stage (hneg ▸ hstage) o ho id t' (hlive id t' ht' hl) hl
      (hsendonly ▸ hmline)

theorem without (h : Sealed s) (id : String) : Sealed (s.without id) := by
  have ha := Aloft.without s id
  cases hc : s.consumer with
  | none =>
    refine h.steady (h.single.aloft ha) (fun c' hc' => ?_) rfl rfl
    obtain ⟨c, hc₁, -⟩ := ha.consumer c' hc'
    cases hc.symm.trans hc₁
  | some c =>
    have hd : (s.without id).consumer = some (c.removeTrack id) := by rw [Session.without, hc]; rfl
    refine h.fewer hc ha hd ((h.placed c hc).removeTrack id) ?_ (fun id' t' ht' => ?_)
      (fun id' t' ht' hl => live_of_removeTrack ht' hl)
    · unfold removeTrack
      split
      · exact le_rfl
      · exact (length_set ..).ge
    cases ht : c.tracks[id]? with
    | none =>
      rw [removeTrack_none ht] at ht'
      exact ⟨id', t', ht', rfl, rfl, rfl⟩
    | some t =>
      rw [removeTrack_get? ht] at ht'
      split at ht'
      · cases ht'
        exact ⟨id, t, ht, rfl, rfl, rfl⟩
      · exact ⟨id', t', (ite_none_left_eq_some.mp ht').2, rfl, rfl, rfl⟩

theorem joins {cap : String} {t : Ctx.Wanted} (h : Sealed s) (hjoins : Joins s cap t s')
    (hapart : ∀ c, s.consumer = some c → ∀ stage ∈ c.negotiations, stage.told = true →
      ∀ (id : String) ct, c.tracks[id]? = some ct → ct.pooled = true → ct.kind = t.spec.kind →
        ct.mline ∉ c.offeredSendonly) : Sealed s' := by
  have ha := Aloft.of_joins hjoins
  cases hjoins with
  | there hc ht =>
    exact h.same hc (h.single.aloft ha) hc rfl ⟨[], (append_nil _).symm⟩ rfl
      (fun _ hst => .inl hst) rfl rfl
  | refused hc =>
    exact h.same hc (h.single.aloft ha) rfl rfl ⟨[], (append_nil _).symm⟩ rfl
      (fun _ hst => .inl hst) rfl rfl
  | failed hc hnew htakes =>
    have hspares := htakes.spares
    exact h.fewer hc ha rfl ((h.placed _ hc).takes htakes).1 hspares.lines
      (fun id t' ht' => ⟨id, t', hspares.old id t' ht', rfl, rfl, rfl⟩)
      (fun id t' ht' _ => hspares.old id t' ht')
  | @joined c c₁ t₁ sink hc hnew htakes =>
    have hspares := htakes.spares
    obtain ⟨-, hlive₁, hneg₁, hsince₁, -, -⟩ := hspares.track
    have hget : ∀ (id : String) t', (c₁.setTrack t.spec.trackId t₁).tracks[id]? = some t' →
        id = t.spec.trackId ∧ t' = t₁ ∨ c.tracks[id]? = some t' := fun id t' ht' =>
      (Maps.of_get?_insert ht').imp_right fun hold => hspares.old id t' hold.2
    refine ⟨fun c' hc' => ?_, h.single.aloft ha, fun c' hc' id t' ht' => ?_,
      fun c' hc' id t' ht' hl hn => ?_, fun c' hc' stage hstage sdp hsdp => ?_,
      fun c' hc' stage hstage => ?_, fun c' hc' sdp hsdp id t' ht' m hm => ?_,
      fun c' hc' stage hstage o ho id t' ht' hl hmline => ?_⟩
    all_goals cases hc'
    · exact ((h.placed c hc).takes htakes).2
    · obtain ⟨-, rfl⟩ | hold := hget id t' ht'
      · exact hsince₁.le
      · exact h.since c hc id t' hold
    · obtain ⟨-, rfl⟩ | hold := hget id t' ht'
      · rw [hneg₁] at hn
        exact Bool.noConfusion hn
      · exact h.settled c hc id t' hold hl hn
    · obtain ⟨hlength, hsends⟩ := h.sends c hc stage (hspares.negotiations ▸ hstage) sdp hsdp
      refine ⟨hlength.trans hspares.lines, fun id t' ht' hl hn => ?_⟩
      obtain ⟨-, rfl⟩ | hold := hget id t' ht'
      · rw [hneg₁] at hn
        exact Bool.noConfusion hn
      · exact hsends id t' hold hl hn
    · intro sdp hsdp hknown
      exact hspares.offeredSendonly.trans
        (h.offered c hc stage (hspares.negotiations ▸ hstage) sdp hsdp hknown)
    · have hstage : .describing sdp ∈ c.negotiations := hspares.negotiations ▸ hsdp
      obtain ⟨-, rfl⟩ | hold := hget id t' ht'
      · cases htakes with
        | pooled hpid hpooled hkind => exact h.named c hc sdp hstage _ _ hpid m hm
        | fresh =>
          have hlength := (h.sends c hc _ hstage sdp rfl).1
          have hlt := (List.getElem?_eq_some_iff.mp hm).1
          exact absurd hlt (Nat.not_lt.mpr hlength)
      · exact h.named c hc sdp hstage id t' hold m hm
    have hold' : stage ∈ c.negotiations := hspares.negotiations ▸ hstage
    have hmline' : t'.mline ∈ c.offeredSendonly := hspares.offeredSendonly ▸ hmline
    have htold : stage.told = true := by
      cases stage <;> first | rfl | cases ho.symm
    obtain ⟨-, rfl⟩ | hold := hget id t' ht'
    · cases htakes with
      | pooled hpid hpooled hkind =>
        have hnot := hapart c hc stage hold' htold _ _ hpid hpooled hkind
        exact absurd hmline' hnot
      | fresh =>
        have hsdp : stage.sdp = some o.sdp := by
          cases stage <;> first | exact congrArg (·.map (·.sdp)) ho |
            cases ho.symm
        have hlength := (h.sends c hc stage hold' o.sdp hsdp).1
        rw [h.offered c hc stage hold' o.sdp hsdp (.inr (by rw [ho]; rfl))] at hmline'
        obtain ⟨m, hm, -⟩ := mem_sendLines.mp hmline'
        have hlt := (List.getElem?_eq_some_iff.mp hm).1
        exact absurd hlt (Nat.not_lt.mpr hlength)
    · exact h.listed c hc stage hold' o ho id t' hold hl hmline'

end Sealed

/-- Where the pooled m-lines that a sent offer sends on come from, while
`update_tracks` drops tracks. -/
structure Dropped (c₀ c : Consumer) (gone : List String) : Prop where
  live : ∀ (id : String) t, c.tracks[id]? = some t → t.pooled = false →
    ∃ t₀, c₀.tracks[id]? = some t₀ ∧ t₀.kind = t.kind ∧ t₀.mline = t.mline
  pooled : ∀ (id : String) t, c.tracks[id]? = some t → t.pooled = true →
    ∃ (id₀ : String) (t₀ : ConsumerTrack), c₀.tracks[id₀]? = some t₀ ∧ t₀.kind = t.kind ∧
      t₀.mline = t.mline ∧ (t₀.pooled = true ∨ id₀ ∈ gone)

namespace Dropped

variable {c₀ c c' : Consumer} {gone : List String}

theorem refl (c : Consumer) (gone : List String) : Dropped c c gone :=
  ⟨fun _ t ht _ => ⟨t, ht, rfl, rfl⟩, fun id t ht hpooled => ⟨id, t, ht, rfl, rfl, .inl hpooled⟩⟩

theorem seated (h : Dropped c₀ c gone) (hs : c.Seated c') : Dropped c₀ c' gone := by
  refine ⟨fun id t' ht' hlive => ?_, fun id t' ht' hpooled => ?_⟩
  · obtain ⟨t, ht, hseat⟩ := hs.some_of_some ht'
    rw [hseat.kind, hseat.mline]
    exact h.live id t ht (hseat.pooled.symm.trans hlive)
  obtain ⟨t, ht, hseat⟩ := hs.some_of_some ht'
  rw [hseat.kind, hseat.mline]
  exact h.pooled id t ht (hseat.pooled.symm.trans hpooled)

theorem removeTrack (h : Dropped c₀ c gone) {id : String} (hid : id ∈ gone) :
    Dropped c₀ (c.removeTrack id) gone := by
  refine ⟨fun id' t' ht' hlive => ?_, fun id' t' ht' hpooled => ?_⟩
  · exact h.live id' t' (live_of_removeTrack ht' hlive) hlive
  cases ht : c.tracks[id]? with
  | none =>
    rw [removeTrack_none ht] at ht'
    exact h.pooled id' t' ht' hpooled
  | some t =>
    rw [removeTrack_get? ht] at ht'
    split at ht'
    · cases ht'
      cases hold : t.pooled with
      | true => exact h.pooled id t ht hold
      | false =>
        obtain ⟨t₀, ht₀, hkind, hmline⟩ := h.live id t ht hold
        exact ⟨id, t₀, ht₀, hkind, hmline, .inr hid⟩
    · exact h.pooled id' t' (ite_none_left_eq_some.mp ht').2 hpooled

end Dropped

namespace Sealed

variable {s s' : Session}

/-- Pooled m-lines that a sent offer sends on are of no kind that a track to
be added has. -/
def Clear (new : List Ctx.Wanted) (s : Session) : Prop :=
  ∀ c, s.consumer = some c → ∀ stage ∈ c.negotiations, stage.told = true →
    ∀ (id : String) t, c.tracks[id]? = some t → t.pooled = true → t.mline ∈ c.offeredSendonly →
      ∀ w ∈ new, t.kind ≠ w.spec.kind

theorem clear_held {new : List Ctx.Wanted} (h : Clear new s) (hheld : Held s s') :
    Clear new s' := by
  intro c' hc' stage hstage htold id t' ht' hpooled hmline w hw
  obtain ⟨c, hc, htouched⟩ := hheld.consumer_some hc'
  obtain ⟨t, ht, htrack⟩ := htouched.some_of_some ht'
  have hseat := htrack.seated
  rw [hseat.kind]
  exact h c hc stage (htouched.negotiations ▸ hstage) htold id t ht
    (hseat.pooled.symm.trans hpooled) (htouched.offeredSendonly ▸ hseat.mline ▸ hmline) w hw

theorem clear_joins {new : List Ctx.Wanted} {cap : String} {t : Ctx.Wanted} (h : Clear new s)
    (hjoins : Joins s cap t s') : Clear new s' := by
  have ha := Aloft.of_joins hjoins
  intro c' hc' stage hstage htold id t' ht' hpooled hmline
  obtain ⟨c, hc, hneg, -, hsendonly⟩ := ha.consumer c' hc'
  refine h c hc stage (hneg ▸ hstage) htold id t' ?_ hpooled (hsendonly ▸ hmline)
  cases hjoins with
  | there hc₁ ht =>
    cases hc'.symm.trans hc
    exact ht'
  | refused hc₁ =>
    cases hc₁.symm.trans hc
    cases hc'
    exact ht'
  | failed hc₁ hnew htakes =>
    cases hc₁.symm.trans hc
    cases hc'
    exact htakes.spares.old id t' ht'
  | joined hc₁ hnew htakes =>
    cases hc₁.symm.trans hc
    cases hc'
    obtain ⟨-, rfl⟩ | ⟨-, ht'⟩ := Maps.of_get?_insert ht'
    · rw [htakes.spares.track.2.1] at hpooled
      exact Bool.noConfusion hpooled
    · exact htakes.spares.old id t' ht'

theorem updateTracks {x : Ctx} {cap : String} {fullSet : List Ctx.Wanted} (h : Sealed x.session)
    (hapart : ∀ c, x.session.consumer = some c → ∀ stage ∈ c.negotiations, stage.told = true →
      ∀ t ∈ fullSet, x.session.tracks.contains t.spec.trackId = false → ∀ (id : String) ct,
        c.tracks[id]? = some ct → ct.mline ∈ c.offeredSendonly →
          ct.pooled = true ∨ id ∈ Ctx.removed x.session cap fullSet → ct.kind ≠ t.spec.kind) :
    Sealed (x.updateTracks cap fullSet).session := by
  let gone := Ctx.removed x.session cap fullSet
  let new := fullSet.filter fun t => !x.session.tracks.contains t.spec.trackId
  -- the removals, which know where every pooled m-line came from
  let Through (s : Session) : Prop := Sealed s ∧
    ∀ c₀ c, x.session.consumer = some c₀ → s.consumer = some c → Dropped c₀ c gone
  have hdropped : Ctx.Kept x.session fullSet (gone.foldl Ctx.dropTrack x).session ∧
      Through (gone.foldl Ctx.dropTrack x).session := by
    refine Ctx.dropTracks_keep (P := Through) ?_ (fun id hid => (Ctx.mem_removed hid).2) ?_
      (.refl _ _) ⟨h, fun c₀ c hc₀ hc => ?_⟩
    · rintro s s' ⟨hsealed, hdrop⟩ hsame
      refine ⟨hsealed.held hsame, fun c₀ c' hc₀ hc' => ?_⟩
      obtain ⟨c, hc, htouched⟩ := hsame.consumer_some hc'
      exact (hdrop c₀ c hc₀ hc).seated (.of_touched htouched)
    · rintro s id hid ⟨hsealed, hdrop⟩
      refine ⟨hsealed.without id, fun c₀ c' hc₀ hc' => ?_⟩
      obtain ⟨c, hc, rfl⟩ := map_eq_some_iff.mp hc'
      exact (hdrop c₀ c hc₀ hc).removeTrack hid
    · rw [some.inj (hc₀.symm.trans hc)]
      exact .refl c gone
  obtain ⟨hkept, hsealed, hdrop⟩ := hdropped
  have hclear : Clear new (gone.foldl Ctx.dropTrack x).session := by
    intro c hc stage hstage htold id t ht hpooled hmline w hw
    obtain ⟨c₀, hc₀, hneg, -, hsendonly⟩ := hkept.aloft.consumer c hc
    obtain ⟨id₀, t₀, ht₀, hkind, hline, hfrom⟩ := (hdrop c₀ c hc₀ hc).pooled id t ht hpooled
    obtain ⟨hw, hnew⟩ := mem_filter.mp hw
    rw [← hkind]
    refine hapart c₀ hc₀ stage (hneg ▸ hstage) htold w hw (by simpa using hnew) id₀ t₀ ht₀ ?_ hfrom
    rw [hline, ← hsendonly]
    exact hmline
  -- the additions, of tracks that were not there
  have hchanged : Sealed (x.changed cap fullSet).1.session := by
    refine (Ctx.addTracks_keeps (P := fun s => Sealed s ∧ Clear new s)
      (fun s s' hs hsame => ⟨hs.1.held hsame, clear_held hs.2 hsame⟩) ?_ hkept
      ⟨hsealed, hclear⟩).2.1
    rintro s s' t ht hnot - ⟨hsealed, hclear⟩ hjoins
    have hnew : t ∈ new := mem_filter.mpr ⟨ht, by rw [hnot]; rfl⟩
    refine ⟨hsealed.joins hjoins
      fun c hc stage hstage htold id ct hct hpooled hkind hmline => ?_, clear_joins hclear hjoins⟩
    exact hclear c hc stage hstage htold id ct hct hpooled hmline t hnew hkind
  obtain heq | ⟨-, ⟨-, -, heq⟩ | heq⟩ := x.updateTracks_cases cap fullSet
  · rw [heq]
    exact h
  · rw [heq]
    exact hchanged
  · rw [heq]
    exact hchanged.requestOffer

theorem attach (p : MediaPlane) (n : Sink) (built : Bool) (caps : List String)
    (pending : List (String × Ctx.Wanted)) (uplinks : Nat) :
    Sealed (Ctx.attach { session := {}, plane := p, nextSink := n }
      built caps pending uplinks).session := by
  refine Ctx.attach_keeps (P := Sealed) (fun _ _ => Sealed.held) built ?_ (fun _ _ hs => hs)
    (fun s s' t _ hnone hs hjoins => hs.joins hjoins fun c hc stage hstage => ?_)
    fun s hs => requestOffer (hs.steady (fun c' hc' => ?_) (fun c' hc' => ?_) rfl rfl)
  · refine ⟨fun c hc => ?_, fun c hc => ?_, ?_, ?_, ?_, ?_, ?_, ?_⟩
    · cases hc
      exact .empty
    · cases hc
      exact ⟨Nat.zero_le 1, fun _ => rfl⟩
    all_goals nofun
  · rw [hnone c hc] at hstage
    cases hstage
  · obtain ⟨c, hc, rfl⟩ := map_eq_some_iff.mp hc'
    exact hs.single c hc
  obtain ⟨c, hc, rfl⟩ := map_eq_some_iff.mp hc'
  refine ⟨c, hc, .of_tracks_eq ⟨_, rfl⟩ rfl, rfl, fun stage hstage => .inl hstage,
    fun id t t' ht ht' => ?_⟩
  cases ht'.symm.trans ht
  exact ⟨rfl, rfl⟩

end Sealed

end Fjarr.Core
