/-
Fjarr.Core.Offers — renegotiation, for any interleaving of update_tracks
with webrtcbin's replies and the peer's answers.

§1 Serialisation: there is one negotiation at a time, and a change that
   finds one under way is noted and offered after it
   (`renegotiation_serialised`). It fails for a track that is named like an
   entry of the pool: `add_track` finds the pooled m-line under that name
   and takes it for the track (`pool_name_lost`).
§2 Manifests: the manifest sent with an offer describes its SDP
   (`manifest_describes_offer`) unless a track is added between the two:
   the SDP is made when create-offer runs, and the manifest is read when
   the offer is sent (`manifest_ahead`).
-/
import Fjarr.Core.Moves

namespace Fjarr.Core

open Lib Media List Option Consumer

/-! ## The manifest -/

namespace Consumer

theorem mem_live {c : Consumer} {t : ConsumerTrack} :
    t ∈ c.live ↔ ∃ id : String, c.tracks[id]? = some t ∧ t.pooled = false := by
  rw [live, mem_insertionSort, mem_filter, List.mem_map]
  constructor
  · rintro ⟨⟨⟨id, t'⟩, hmem, rfl⟩, hlive⟩
    exact ⟨id, Std.ExtTreeMap.mem_toList_iff_getElem?_eq_some.mp hmem, by simpa using hlive⟩
  · rintro ⟨id, ht, hlive⟩
    exact ⟨⟨(id, t), Std.ExtTreeMap.mem_toList_iff_getElem?_eq_some.mpr ht, rfl⟩, by simp [hlive]⟩

theorem Placed.live_nodup {c : Consumer} (h : c.Placed) : (c.live.map (·.mline)).Nodup := by
  have hkeys := c.tracks.distinct_keys_toList
  have hpair : (c.tracks.toList.map (·.2)).Pairwise fun t t' => t.mline ≠ t'.mline := by
    rw [pairwise_map]
    refine hkeys.imp_of_mem fun {e e'} hmem hmem' hne hline => hne ?_
    rw [Std.compare_eq_iff_eq]
    exact h.distinct e.1 e'.1 e.2 e'.2 (Std.ExtTreeMap.mem_toList_iff_getElem?_eq_some.mp hmem)
      (Std.ExtTreeMap.mem_toList_iff_getElem?_eq_some.mp hmem') hline
  have hperm := (perm_insertionSort (fun t t' : ConsumerTrack => t.mline ≤ t'.mline)
    ((c.tracks.toList.map (·.2)).filter (!·.pooled))).map (·.mline)
  rw [Consumer.live, hperm.nodup_iff]
  exact pairwise_map.mpr (hpair.filter _)

theorem eq_singleton {stages : List Stage} {j : Nat} {stage : Stage} (hone : stages.length ≤ 1)
    (hj : stages[j]? = some stage) : stages = [stage] ∧ j = 0 := by
  match stages, hone with
  | [], _ => simp at hj
  | [_], _ =>
    obtain ⟨hlt, rfl⟩ := List.getElem?_eq_some_iff.mp hj
    obtain rfl : j = 0 := by simpa using hlt
    exact ⟨rfl, rfl⟩

end Consumer

/-! ## §1 Serialisation -/

/-- A name the pool gives. -/
def poolLike (id : String) : Bool := id.toList.take 6 = "_pool:".toList

theorem poolLike_poolId (mline : Nat) : poolLike (ConsumerTrack.poolId mline) = true := by
  simp [poolLike, ConsumerTrack.poolId, String.toList_append]

/-- No track is named like an entry of the pool. -/
def Act.plainNames : Act → Bool
  | .attach _ _ pending _ => pending.all fun t => !poolLike t.2.spec.trackId
  | .updateTracks _ _ fullSet => fullSet.all fun t => !poolLike t.spec.trackId
  | _ => true

/-- The last offer lists the session's tracks. -/
def Session.Current (s : Session) : Prop :=
  ∃ o, s.sent.getLast? = some o ∧
    ∀ id, id ∈ o.tracks.map (·.trackId) ↔ s.tracks.contains id = true

/-- Renegotiation is serialised and loses no change. -/
structure Serialised (s : Session) : Prop where
  one : ∀ c, s.consumer = some c → c.negotiations.length ≤ 1
  versions : s.sent.map (·.manifestVersion) = List.range' 1 s.sent.length
  current : ∀ c, s.consumer = some c → s.closing = false → c.offerInFlight = false →
    c.negotiations = [] → s.Current

/-- The session's tracks are the live ones, and pooled m-lines have the
pool's names. -/
structure Matched (s : Session) (c : Consumer) : Prop where
  placed : c.Placed
  pool : ∀ (id : String) t, c.tracks[id]? = some t → t.pooled = poolLike id
  live : ∀ id : String, (s.tracks[id]?).isSome = true ↔
    ∃ t, c.tracks[id]? = some t ∧ t.pooled = false

namespace Matched

variable {s s' : Session} {c c' : Consumer}

theorem seated (h : Matched s c) (hs : c.Seated c') (htracks : s'.tracks = s.tracks) :
    Matched s' c' := by
  refine ⟨h.placed.seated hs, fun id t' ht' => ?_, fun id => ?_⟩
  · obtain ⟨t, ht, hseat⟩ := hs.some_of_some ht'
    exact hseat.pooled.trans (h.pool id t ht)
  rw [htracks, h.live]
  constructor
  · rintro ⟨t, ht, hlive⟩
    obtain ⟨t', ht', hseat⟩ := hs.of_some ht
    exact ⟨t', ht', hseat.pooled.trans hlive⟩
  rintro ⟨t', ht', hlive⟩
  obtain ⟨t, ht, hseat⟩ := hs.some_of_some ht'
  exact ⟨t, ht, hseat.pooled.symm.trans hlive⟩

theorem without (h : Matched s c) (id : String) : Matched (s.without id) (c.removeTrack id) := by
  have hplaced := h.placed.removeTrack id
  cases ht : c.tracks[id]? with
  | none =>
    rw [removeTrack_none ht]
    refine ⟨h.placed, h.pool, fun id' => ?_⟩
    rw [Session.without, Maps.get?_erase]
    split
    · rename_i hid
      rw [hid, ht]
      simp
    · exact h.live id'
  | some t =>
    refine ⟨hplaced, fun id' t' ht' => ?_, fun id' => ?_⟩
    · rw [removeTrack_get? ht] at ht'
      split at ht'
      · rename_i hpool
        rw [hpool, poolLike_poolId, ← some.inj ht']
      · exact h.pool id' t' (ite_none_left_eq_some.mp ht').2
    rw [Session.without, Maps.get?_erase, removeTrack_get? ht]
    by_cases hpool : id' = ConsumerTrack.poolId t.mline
    · -- a record the pool's name had was pooled itself
      have hnot : ¬ (s.tracks[id']?).isSome = true := by
        rw [h.live]
        rintro ⟨t', ht', hlive⟩
        rw [h.pool id' t' ht', hpool, poolLike_poolId] at hlive
        exact Bool.noConfusion hlive
      rw [if_pos hpool]
      refine iff_of_false (fun hsome => ?_) ?_
      · split at hsome
        · exact absurd hsome (by simp)
        · exact hnot hsome
      rintro ⟨t', ht', hlive⟩
      rw [← some.inj ht'] at hlive
      exact Bool.noConfusion hlive
    rw [if_neg hpool]
    split
    · simp
    · exact h.live id'

theorem joins {cap : String} {t : Ctx.Wanted} (hs : ∀ c, s.consumer = some c → Matched s c)
    (hname : poolLike t.spec.trackId = false) (hjoins : Joins s cap t s') :
    ∀ c', s'.consumer = some c' → Matched s' c' := by
  intro c' hc'
  cases hjoins with
  | @there c ct hc ht =>
    have h := hs c' hc'
    cases hc.symm.trans hc'
    refine ⟨h.placed, h.pool, fun id => ?_⟩
    rw [Maps.get?_insert]
    split
    · rename_i hid
      rw [hid]
      exact iff_of_true rfl ⟨ct, ht, (h.pool _ ct ht).trans hname⟩
    · exact h.live id
  | refused hc =>
    cases hc'
    exact (hs _ hc).seated (.of_eq rfl rfl) rfl
  | @failed c c₁ t₁ sink hc hnew htakes =>
    cases hc'
    have h := hs _ hc
    have hspares := htakes.spares
    refine ⟨(h.placed.takes htakes).1, fun id t' ht' => h.pool id t' (hspares.old id t' ht'),
      fun id => ?_⟩
    rw [h.live]
    exact ⟨fun ⟨t', ht', hlive⟩ => ⟨t', hspares.live id t' ht' hlive, hlive⟩,
      fun ⟨t', ht', hlive⟩ => ⟨t', hspares.old id t' ht', hlive⟩⟩
  | @joined c c₁ t₁ sink hc hnew htakes =>
    cases hc'
    have h := hs _ hc
    have hspares := htakes.spares
    refine ⟨(h.placed.takes htakes).2, fun id t' ht' => ?_, fun id => ?_⟩
    · obtain ⟨rfl, rfl⟩ | ⟨-, ht'⟩ := Maps.of_get?_insert ht'
      · rw [hname]
        exact hspares.track.2.1
      · exact h.pool id t' (hspares.old id t' ht')
    rw [setTrack, Maps.get?_insert, Maps.get?_insert]
    split
    · exact iff_of_true rfl ⟨t₁, rfl, hspares.track.2.1⟩
    rw [h.live]
    exact ⟨fun ⟨t', ht', hlive⟩ => ⟨t', hspares.live id t' ht' hlive, hlive⟩,
      fun ⟨t', ht', hlive⟩ => ⟨t', hspares.old id t' ht', hlive⟩⟩

theorem manifest (h : Matched s c) (id : String) :
    id ∈ c.manifest.map (·.trackId) ↔ s.tracks.contains id = true := by
  rw [Std.ExtTreeMap.contains_eq_isSome_getElem?, h.live, Consumer.manifest, List.map_map,
    List.mem_map]
  constructor
  · rintro ⟨t, hmem, rfl⟩
    obtain ⟨id, ht, hlive⟩ := mem_live.mp hmem
    have hkey : t.trackId = id := h.placed.keyed id t ht
    exact ⟨t, by rw [← ht, ← hkey]; rfl, hlive⟩
  · rintro ⟨t, ht, hlive⟩
    exact ⟨t, mem_live.mpr ⟨id, ht, hlive⟩, h.placed.keyed id t ht⟩

end Matched

/-- The peer was told of the tracks at this stage. -/
def Stage.told : Stage → Bool
  | .offered _ | .answered .. => true
  | .creating | .created _ | .describing _ => false

/-- What holds between any two of a session's callbacks, but for the last
offer's being current. -/
structure Orderly (s : Session) : Prop where
  matched : ∀ c, s.consumer = some c → Matched s c
  one : ∀ c, s.consumer = some c → c.negotiations.length ≤ 1
  version : s.manifestVersion = s.sent.length
  versions : s.sent.map (·.manifestVersion) = List.range' 1 s.sent.length
  idle : ∀ c, s.consumer = some c → c.offerInFlight = false → c.negotiations = []
  pending : ∀ c, s.consumer = some c → s.closing = false → s.renegotiationPending = true →
    c.offerInFlight = true

/-- A change is noted, unless it is going to be offered or the last offer
has it. -/
structure Serial (s : Session) : Prop extends Orderly s where
  current : ∀ c, s.consumer = some c → s.closing = false →
    (∀ stage ∈ c.negotiations, stage.told = true) → s.renegotiationPending = true ∨ s.Current

theorem Serial.serialised {s : Session} (h : Serial s) : Serialised s := by
  refine ⟨h.one, h.versions, fun c hc hopen hidle hnone => ?_⟩
  obtain hpending | hcurrent := h.current c hc hopen (by simp [hnone])
  · rw [h.pending c hc hopen hpending] at hidle
    exact Bool.noConfusion hidle
  · exact hcurrent

namespace Orderly

variable {s s' : Session}

theorem keeps (h : Orderly s) (hmatched : ∀ c, s'.consumer = some c → Matched s' c)
    (hconsumer : ∀ c', s'.consumer = some c' → ∃ c, s.consumer = some c ∧
      c'.negotiations = c.negotiations ∧ c'.offerInFlight = c.offerInFlight)
    (hpending : s'.renegotiationPending = s.renegotiationPending)
    (hversion : s'.manifestVersion = s.manifestVersion) (hsent : s'.sent = s.sent)
    (hopen : s'.closing = false → s.closing = false) : Orderly s' := by
  refine ⟨hmatched, fun c' hc' => ?_, ?_, ?_, fun c' hc' hidle => ?_, fun c' hc' hopen' hp => ?_⟩
  · obtain ⟨c, hc, hneg, -⟩ := hconsumer c' hc'
    rw [hneg]
    exact h.one c hc
  · rw [hversion, hsent]
    exact h.version
  · rw [hsent]
    exact h.versions
  · obtain ⟨c, hc, hneg, hflight⟩ := hconsumer c' hc'
    rw [hneg]
    exact h.idle c hc (hflight.symm.trans hidle)
  · obtain ⟨c, hc, -, hflight⟩ := hconsumer c' hc'
    rw [hflight]
    exact h.pending c hc (hopen hopen') (hpending.symm.trans hp)

theorem aloft (h : Orderly s) (ha : Aloft s s')
    (hmatched : ∀ c, s'.consumer = some c → Matched s' c) : Orderly s' := by
  refine h.keeps hmatched (fun c' hc' => ?_) ha.renegotiationPending ha.manifestVersion ha.sent
    ha.open_of_open
  obtain ⟨c, hc, hneg, hflight, -⟩ := ha.consumer c' hc'
  exact ⟨c, hc, hneg, hflight⟩

theorem held (h : Orderly s) (hsame : Held s s') : Orderly s' := by
  refine h.aloft (.of_held hsame) fun c' hc' => ?_
  obtain ⟨c, hc, htouched⟩ := hsame.consumer_some hc'
  exact (h.matched c hc).seated (.of_touched htouched) hsame.tracks

theorem joins {cap : String} {t : Ctx.Wanted} (h : Orderly s)
    (hplain : poolLike t.spec.trackId = false) (hjoins : Joins s cap t s') : Orderly s' :=
  h.aloft (.of_joins hjoins) (Matched.joins h.matched hplain hjoins)

theorem without (h : Orderly s) (id : String) : Orderly (s.without id) := by
  refine h.aloft (.without s id) fun c' hc' => ?_
  obtain ⟨c, hc, rfl⟩ := map_eq_some_iff.mp hc'
  exact (h.matched c hc).without id

theorem requestOffer (h : Orderly s) : Serial s.requestOffer := by
  obtain ⟨heq, hnone⟩ | ⟨c, hc, hopen, ⟨hflight, heq⟩ | ⟨hidle, heq⟩⟩ := s.requestOffer_cases
  · rw [heq]
    refine ⟨h, fun c hc hopen => ?_⟩
    obtain hnone | hclosing := hnone
    · cases hnone.symm.trans hc
    · rw [hclosing] at hopen
      exact Bool.noConfusion hopen
  · rw [heq]
    refine ⟨⟨fun c' hc' => ?_, h.one, h.version, h.versions, h.idle, fun c' hc' _ _ => ?_⟩,
      fun _ _ _ _ => .inl rfl⟩
    · exact (h.matched c' hc').seated (.of_touched (.refl c')) rfl
    · rw [← some.inj (hc.symm.trans hc')]
      exact hflight
  rw [heq]
  have hnone := h.idle c hc hidle
  refine ⟨⟨fun c' hc' => ?_, fun c' hc' => ?_, h.version, h.versions, fun c' hc' hfalse => ?_,
    fun c' hc' _ _ => ?_⟩, fun c' hc' _ htold => ?_⟩
  all_goals cases hc'
  · exact (h.matched c hc).seated (.of_eq rfl rfl) rfl
  · rw [hnone]
    exact le_rfl
  · exact Bool.noConfusion hfalse
  · rfl
  · exact absurd (htold .creating (by simp)) Bool.false_ne_true

end Orderly

namespace Serial

variable {s s' : Session}

theorem seated (h : Serial s)
    (hconsumer : ∀ c', s'.consumer = some c' → ∃ c, s.consumer = some c ∧ c.Seated c' ∧
      c'.negotiations = c.negotiations ∧ c'.offerInFlight = c.offerInFlight)
    (htracks : s'.tracks = s.tracks) (hpending : s'.renegotiationPending = s.renegotiationPending)
    (hversion : s'.manifestVersion = s.manifestVersion) (hsent : s'.sent = s.sent)
    (hopen : s'.closing = false → s.closing = false) : Serial s' := by
  refine ⟨h.toOrderly.keeps (fun c' hc' => ?_) (fun c' hc' => ?_) hpending hversion hsent hopen,
    fun c' hc' hopen' htold => ?_⟩
  · obtain ⟨c, hc, hs, -, -⟩ := hconsumer c' hc'
    exact (h.matched c hc).seated hs htracks
  · obtain ⟨c, hc, -, hstays⟩ := hconsumer c' hc'
    exact ⟨c, hc, hstays⟩
  obtain ⟨c, hc, -, hneg, -⟩ := hconsumer c' hc'
  rw [hpending, Session.Current, hsent, htracks]
  exact h.current c hc (hopen hopen') (hneg ▸ htold)

theorem held (h : Serial s) (hheld : Held s s') : Serial s' := by
  refine h.seated (fun c' hc' => ?_) hheld.tracks hheld.renegotiationPending hheld.manifestVersion
    hheld.sent (Aloft.of_held hheld).open_of_open
  obtain ⟨c, hc, htouched⟩ := hheld.consumer_some hc'
  exact ⟨c, hc, .of_touched htouched, htouched.negotiations, htouched.offerInFlight⟩

theorem ends {c d : Consumer} (h : Serial s) (hc : s.consumer = some c) (hs : c.Seated d)
    (hnone : d.negotiations = []) (hheld : Held { s with consumer := some d } s')
    (hclosing : s'.closing = true) : Serial s' := by
  have hnot : ¬ s'.closing = false := by
    rw [hclosing]
    exact fun h => Bool.noConfusion h
  have hstages : ∀ c', s'.consumer = some c' → Matched s' c' ∧ c'.negotiations = [] := by
    intro c' hc'
    obtain ⟨d', hd', htouched⟩ := hheld.consumer_some hc'
    cases hd'
    have hmatched : Matched { s with consumer := some d } d := (h.matched c hc).seated hs rfl
    exact ⟨hmatched.seated (.of_touched htouched) hheld.tracks, htouched.negotiations.trans hnone⟩
  refine ⟨⟨fun c' hc' => (hstages c' hc').1, fun c' hc' => ?_, ?_, ?_,
    fun c' hc' _ => (hstages c' hc').2, fun _ _ hopen => absurd hopen hnot⟩,
    fun _ _ hopen => absurd hopen hnot⟩
  · rw [(hstages c' hc').2]
    exact Nat.zero_le 1
  · rw [hheld.manifestVersion, hheld.sent]
    exact h.version
  · rw [hheld.sent]
    exact h.versions

theorem stage {c c' : Consumer} (stage : Stage) (h : Serial s)
    (hc : s.consumer = some c) (hc' : s'.consumer = some c') (hs : c.Seated c')
    (hstages : c'.negotiations = [stage]) (hflight : c'.offerInFlight = c.offerInFlight)
    (hbusy : c.negotiations ≠ []) (htracks : s'.tracks = s.tracks)
    (hpending : s'.renegotiationPending = s.renegotiationPending)
    (hopen : s'.closing = false → s.closing = false)
    (hversion : s'.manifestVersion = s'.sent.length)
    (hversions : s'.sent.map (·.manifestVersion) = List.range' 1 s'.sent.length)
    (hcurrent : s'.closing = false → stage.told = true →
      s'.renegotiationPending = true ∨ s'.Current) : Serial s' := by
  have heq : ∀ d, s'.consumer = some d → d = c' := fun d hd => some.inj (hd.symm.trans hc')
  refine ⟨⟨fun d hd => ?_, fun d hd => ?_, hversion, hversions, fun d hd hidle => ?_,
    fun d hd hopen' hp => ?_⟩, fun d hd hopen' htold => ?_⟩
  all_goals obtain rfl := heq d hd
  · exact (h.matched c hc).seated hs htracks
  · rw [hstages]
    exact le_rfl
  · exact absurd (h.idle c hc (hflight.symm.trans hidle)) hbusy
  · rw [hflight]
    exact h.pending c hc (hopen hopen') (hpending.symm.trans hp)
  · exact hcurrent hopen' (htold stage (by simp [hstages]))

/-- `remote-description-set`: the negotiation is over, and a noted change
is offered. -/
theorem remoteDescriptionSet {c : Consumer} {offer : Offer} {accepted : List Bool}
    (h : Serial s) (hc : s.consumer = some c)
    (hstages : c.negotiations = [.answered offer accepted]) :
    Serial (Session.remoteDescriptionSet { s with consumer := some (c.answerApplied 0) }) := by
  have hnone : (c.answerApplied 0).negotiations = [] := by
    rw [answerApplied, hstages]
    rfl
  have hmatched : ∀ pending : Bool, ∀ d, some (c.answerApplied 0) = some d →
      Matched { s with
        consumer := some (c.answerApplied 0), renegotiationPending := pending } d := by
    intro pending d hd
    cases hd
    exact (h.matched c hc).seated (.of_eq rfl rfl) rfl
  have hone : ∀ d, some (c.answerApplied 0) = some d → d.negotiations.length ≤ 1 := by
    intro d hd
    rw [← some.inj hd, hnone]
    exact Nat.zero_le 1
  have hidle : ∀ d, some (c.answerApplied 0) = some d → d.offerInFlight = false →
      d.negotiations = [] := by
    intro d hd _
    rw [← some.inj hd, hnone]
  unfold Session.remoteDescriptionSet
  split
  · exact Orderly.requestOffer ⟨hmatched false, hone, h.version, h.versions, hidle,
      fun _ _ _ hp => Bool.noConfusion hp⟩
  rename_i hif
  have hunnoted : s.closing = false → ¬ s.renegotiationPending = true := by
    intro hopen hpending
    apply hif
    change (s.renegotiationPending && true && !s.closing) = true
    rw [hpending, hopen]
    rfl
  refine ⟨⟨hmatched _, hone, h.version, h.versions, hidle,
    fun _ _ hopen hp => absurd hp (hunnoted hopen)⟩, fun _ _ hopen _ => ?_⟩
  exact h.current c hc hopen (by simp [hstages, Stage.told])

theorem moves {mids : Nat → String} (h : Serial s) (hmoves : Moves mids s s') : Serial s' := by
  cases hmoves with
  | held hheld => exact h.held hheld
  | closed =>
    exact ⟨⟨nofun, nofun, h.version, h.versions, nofun, nofun⟩, nofun⟩
  | @runs c j ok hc hj =>
    obtain ⟨hstages, rfl⟩ := eq_singleton (h.one c hc) hj
    have hset : ∃ sdp, (c.offerRuns 0 mids ok).negotiations = [.created sdp] := by
      rw [offerRuns, hstages]
      exact ⟨_, rfl⟩
    obtain ⟨sdp, hset⟩ := hset
    exact h.stage (.created sdp) hc rfl (c.seated_offerRuns 0 mids ok) hset rfl (by simp [hstages])
      rfl rfl id h.version h.versions (fun _ htold => Bool.noConfusion htold)
  | @created c j sdp hc hj =>
    obtain ⟨hstages, rfl⟩ := eq_singleton (h.one c hc) hj
    refine h.stage (.describing sdp) hc rfl (c.seated_offerCreated 0 sdp) ?_ rfl
      (by simp [hstages]) rfl rfl id h.version h.versions
      (fun _ htold => Bool.noConfusion htold)
    rw [offerCreated, hstages]
    rfl
  | @failed c j _ hc hj hheld hclosing =>
    obtain ⟨hstages, rfl⟩ := eq_singleton (h.one c hc) hj
    refine h.ends (d := c.offerFailed 0) hc (.of_eq rfl rfl) ?_
      hheld hclosing
    rw [offerFailed, hstages]
    rfl
  | @sent c j sdp offer state hc hj hoffer hstate =>
    obtain ⟨hstages, rfl⟩ := eq_singleton (h.one c hc) hj
    refine h.stage (.offered offer) hc rfl
      (.of_eq rfl rfl) ?_ rfl (by simp [hstages]) rfl rfl
      (fun hopen => ?_) ?_ ?_ (fun _ _ => .inr ⟨offer, by simp, fun id => ?_⟩)
    · rw [hstages]
      rfl
    · by_contra hclosing
      rw [Bool.not_eq_false] at hclosing
      rw [Session.closing, hstate hclosing] at hopen
      rw [Session.closing, hopen] at hclosing
      exact Bool.noConfusion hclosing
    · simp [h.version]
    · rw [map_append, h.versions, length_append, length_singleton,
        range'_concat, hoffer, h.version]
      simp [Nat.add_comm]
    · rw [hoffer]
      exact (h.matched c hc).manifest id
  | @answered c j offer accepted hc hj =>
    obtain ⟨hstages, rfl⟩ := eq_singleton (h.one c hc) hj
    refine h.stage (.answered offer accepted) hc rfl
      (.of_eq rfl rfl) ?_ rfl (by simp [hstages]) rfl rfl
      id h.version h.versions (fun hopen _ => ?_)
    · rw [hstages]
      rfl
    · exact h.current c hc hopen (by simp [hstages, Stage.told])
  | @unparseable c j offer _ hc hj hheld hclosing =>
    obtain ⟨hstages, rfl⟩ := eq_singleton (h.one c hc) hj
    refine h.ends (d := { c with negotiations := c.negotiations.eraseIdx 0 }) hc
      (.of_eq rfl rfl) ?_ hheld hclosing
    rw [hstages]
    rfl
  | @applied c j offer accepted s₁ hc hj hs₁ =>
    obtain ⟨hstages, rfl⟩ := eq_singleton (h.one c hc) hj
    have hset : Serial s₁ := hs₁ ▸ h.remoteDescriptionSet hc hstages
    refine hset.seated (fun c' hc' => ?_) rfl rfl rfl rfl id
    obtain ⟨d, hd, rfl⟩ := map_eq_some_iff.mp hc'
    exact ⟨d, hd, d.seated_settleAll offer.sdp accepted, rfl, rfl⟩

theorem changed {x : Ctx} (cap : String) {fullSet : List Ctx.Wanted} (h : Serial x.session)
    (hplain : ∀ t ∈ fullSet, poolLike t.spec.trackId = false) :
    Aloft x.session (x.changed cap fullSet).1.session ∧
      Orderly (x.changed cap fullSet).1.session := by
  obtain ⟨hkept, hdropped⟩ := Ctx.dropTracks_keep (fun _ _ => Orderly.held)
    (fun id hid => (Ctx.mem_removed hid).2) (fun s id _ hs => hs.without id)
    (.refl x.session fullSet) h.toOrderly
  exact Ctx.addTracks_keeps (fun _ _ => Orderly.held)
    (fun s s' t ht _ _ hs hjoins => hs.joins (hplain t ht) hjoins) hkept hdropped

theorem updateTracks {x : Ctx} {cap : String} {fullSet : List Ctx.Wanted} (h : Serial x.session)
    (hplain : ∀ t ∈ fullSet, poolLike t.spec.trackId = false) :
    Serial (x.updateTracks cap fullSet).session := by
  obtain ⟨haloft, horderly⟩ := h.changed cap hplain
  obtain heq | ⟨-, ⟨hgone, hadded, heq⟩ | heq⟩ := x.updateTracks_cases cap fullSet
  · rw [heq]
    exact h
  · rw [heq]
    refine ⟨horderly, fun c' hc' hopen htold => ?_⟩
    obtain ⟨c, hc, hneg, -, -⟩ := haloft.consumer c' hc'
    have htracks : (x.changed cap fullSet).1.session.tracks = x.session.tracks := by
      rw [Ctx.changed, hgone] at hadded ⊢
      exact Ctx.addTracks_none hadded
    rw [haloft.renegotiationPending, Session.Current, haloft.sent, htracks]
    exact h.current c hc (haloft.open_of_open hopen) (hneg ▸ htold)
  · rw [heq]
    exact horderly.requestOffer

theorem attach (p : MediaPlane) (n : Sink) (built : Bool) (caps : List String)
    {pending : List (String × Ctx.Wanted)} (uplinks : Nat)
    (hplain : ∀ t ∈ pending, poolLike t.2.spec.trackId = false) :
    Serial (Ctx.attach { session := {}, plane := p, nextSink := n }
      built caps pending uplinks).session := by
  refine Ctx.attach_keeps (P := Orderly) (fun _ _ => Orderly.held) built ?_
    (fun s hclosing hs => ⟨hs, fun _ _ hopen => ?_⟩)
    (fun s s' t ht _ hs hjoins => hs.joins (hplain t ht) hjoins)
    fun s hs => (hs.aloft ?_ fun c' hc' => ?_).requestOffer
  · refine ⟨fun c hc => ?_, fun c hc => ?_, rfl, rfl, fun c hc _ => ?_,
      fun _ _ _ hp => Bool.noConfusion hp⟩
    all_goals cases hc
    · refine ⟨.empty, nofun, fun id => iff_of_false ?_ ?_⟩
      · simp
      · rintro ⟨t, ht, -⟩
        exact absurd ht (by simp)
    · exact Nat.zero_le 1
    · rfl
  · rw [hclosing] at hopen
    exact Bool.noConfusion hopen
  · refine ⟨rfl, rfl, rfl, rfl, id, fun c' hc' => ?_⟩
    obtain ⟨c, hc, rfl⟩ := map_eq_some_iff.mp hc'
    exact ⟨c, hc, rfl, rfl, rfl⟩
  · obtain ⟨c, hc, rfl⟩ := map_eq_some_iff.mp hc'
    exact (hs.matched c hc).seated (.of_tracks_eq ⟨_, rfl⟩ rfl) rfl

end Serial

/-- **Run.** No track is named like an entry of the pool. -/
theorem serial_of_run {mids : Nat → String} {graceMs ringSize : Nat} {as : List Act} {w : World}
    (hplain : ∀ a ∈ as, a.plainNames = true)
    (hrun : (agent mids graceMs ringSize).run (agent mids graceMs ringSize).init as = some w) :
    ∀ s ∈ w.sessions, Serial s := by
  refine (agent mids graceMs ringSize).run_induction (P := fun w => ∀ s ∈ w.sessions, Serial s)
    (Q := fun _ a => a.plainNames = true) (fun w a w' h hname hstep => ?_)
    (fun s hs => absurd hs not_mem_nil)
    (System.allSteps_of_forall _ fun a ha _ => hplain a ha) hrun
  refine sessions_step hstep h (fun built caps pending uplinks ha => ?_)
    (fun s s' hs hmoves => hs.moves hmoves) (fun k cap fullSet x ha _ hs => ?_)
  · subst ha
    refine Serial.attach _ _ built caps uplinks fun t ht => ?_
    simpa using List.all_eq_true.mp hname t ht
  subst ha
  refine hs.updateTracks fun t ht => ?_
  simpa using List.all_eq_true.mp hname t ht

/-- **Renegotiation is serialised and loses no change**, in every session of
every run in which no track is named like an entry of the pool. -/
theorem renegotiation_serialised (mids : Nat → String) (graceMs ringSize : Nat) (as : List Act)
    (w : World) (hplain : ∀ a ∈ as, a.plainNames = true)
    (hrun : (agent mids graceMs ringSize).run (agent mids graceMs ringSize).init as = some w) :
    ∀ s ∈ w.sessions, Serialised s :=
  fun s hs => (serial_of_run hplain hrun s hs).serialised

/-- A camera of the first source. -/
def camera (name : String) : Ctx.Wanted where
  spec := { trackId := name, source := some { id := 0 } }

/-- A camera is offered, answered, and replaced by one with the name its
m-line has in the pool. -/
def poolNamed : List Act :=
  [.attach true ["fjarr.camera"] [("fjarr.camera", camera "front")] 0,
    .offerRuns 0 0 true, .reply 0 0, .reply 0 0, .answer 0 0 (some [true]), .reply 0 0,
    .updateTracks 0 "fjarr.camera" [camera "_pool:0"],
    .offerRuns 0 0 true, .reply 0 0, .reply 0 0, .answer 0 0 (some [false]), .reply 0 0]

theorem renegotiation_serialised_before_pool_name :
    ∃ w, (agent toString 10000 31).run (agent toString 10000 31).init (poolNamed.take 6) = some w ∧
      ∃ s ∈ w.sessions, Serialised s ∧ s.tracks.keys = ["front"] := by
  refine evaluated (fun w => (w.sessions[0]?).map (·.tracks.keys)) (b := some ["front"])
    (by decide +kernel) fun w hrun hw => ?_
  obtain ⟨s, hs, hkeys⟩ := map_eq_some_iff.mp hw
  have hmem := mem_of_getElem? hs
  exact ⟨s, hmem,
    renegotiation_serialised toString 10000 31 _ w (by decide) hrun s hmem, hkeys⟩

/-- The session has the second camera, nothing is in flight, and the last
offer lists no track. -/
theorem pool_name_lost :
    ∃ w, (agent toString 10000 31).run (agent toString 10000 31).init poolNamed = some w ∧
      ∃ s ∈ w.sessions, ∃ c, s.consumer = some c ∧ s.closing = false ∧ c.offerInFlight = false ∧
        c.negotiations = [] ∧ s.tracks.keys = ["_pool:0"] ∧ ¬ s.Current := by
  refine evaluated (fun w => (w.sessions[0]?).map fun s : Session => decide (s.closing = false ∧
      s.tracks.keys = ["_pool:0"] ∧ s.tracks.contains "_pool:0" = true ∧
      (s.sent.getLast?).map (·.tracks) = some [] ∧
      s.consumer.map (fun c => (c.offerInFlight, c.negotiations)) = some (false, [])))
    (b := some true) (by decide +kernel) fun w hrun hw => ?_
  obtain ⟨s, hs, hr⟩ := map_eq_some_iff.mp hw
  obtain ⟨hopen, hkeys, hhas, hlast, hconsumer⟩ := of_decide_eq_true hr
  obtain ⟨c, hc, hidle⟩ := map_eq_some_iff.mp hconsumer
  rw [Prod.mk.injEq] at hidle
  refine ⟨s, mem_of_getElem? hs, c, hc, hopen, hidle.1, hidle.2, hkeys, ?_⟩
  rintro ⟨o, ho, hids⟩
  rw [ho, map_some, some.injEq] at hlast
  have hlisted := (hids "_pool:0").mpr hhas
  rw [hlast] at hlisted
  exact absurd hlisted not_mem_nil

/-! ## §2 Manifests -/

/-- The manifest's entries have mids of their own, of m-sections that send. -/
structure Offer.Describes (o : Offer) : Prop where
  sends : ∀ e ∈ o.tracks, e.mid ≠ "" ∧ ∃ m ∈ o.sdp, m.mid = e.mid ∧ m.sends = true
  distinct : (o.tracks.map (·.mid)).Nodup

/-- The SDP of an offer that is made and not sent. -/
def Stage.made : Stage → Option Sdp
  | .created sdp => sdp
  | .describing sdp => some sdp
  | .creating | .offered _ | .answered .. => none

/-- The SDP of an offer that is made. -/
def Stage.sdp : Stage → Option Sdp
  | .created sdp => sdp
  | .describing sdp => some sdp
  | .offered o | .answered o _ => some o.sdp
  | .creating => none

/-- `update_tracks` names no track the session lacks, while an offer of its
is made and not sent. -/
def Act.timely (w : World) : Act → Bool
  | .updateTracks k _ fullSet => (w.sessions[k]?).all fun s =>
      s.consumer.all (fun c => c.negotiations.all (·.made.isNone)) ||
        fullSet.all fun t => s.tracks.contains t.spec.trackId
  | _ => true

/-- The SDPs are webrtcbin's, what is made and not sent sends on every live
track's m-line, and what was sent is described. -/
structure Faithful (mids : Nat → String) (s : Session) : Prop where
  placed : ∀ c, s.consumer = some c → c.Placed
  numbered : ∀ c, s.consumer = some c → ∀ stage ∈ c.negotiations, ∀ sdp, stage.sdp = some sdp →
    ∀ (i : Nat) m, sdp[i]? = some m → m.mid = mids i
  made : ∀ c, s.consumer = some c → ∀ stage ∈ c.negotiations, ∀ sdp, stage.made = some sdp →
    ∀ (id : String) t, c.tracks[id]? = some t → t.pooled = false →
      ∃ m, sdp[t.mline]? = some m ∧ m.sends = true
  named : ∀ c, s.consumer = some c → ∀ sdp, .describing sdp ∈ c.negotiations →
    ∀ (id : String) t, c.tracks[id]? = some t → t.pooled = false → t.mid = mids t.mline
  sent : ∀ o ∈ s.sent, o.Describes

namespace Faithful

variable {mids : Nat → String} {s s' : Session}

section

variable (h : Faithful mids s)
include h

theorem seated (hconsumer : ∀ c', s'.consumer = some c' → ∃ c, s.consumer = some c ∧ c.Seated c' ∧
      (∀ stage ∈ c'.negotiations, stage ∈ c.negotiations ∨ stage.made = none ∧
        ∀ sdp, stage.sdp = some sdp → ∃ old ∈ c.negotiations, old.sdp = some sdp) ∧
      ∀ (id : String) t t', c.tracks[id]? = some t → c'.tracks[id]? = some t' →
        t'.mid = t.mid ∨ t'.mid = mids t.mline)
    (hsent : ∀ o ∈ s'.sent, o ∈ s.sent ∨ o.Describes) : Faithful mids s' := by
  refine ⟨fun c' hc' => ?_, fun c' hc' stage hstage sdp hsdp => ?_,
    fun c' hc' stage hstage sdp hmade id t' ht' hlive => ?_,
    fun c' hc' sdp hsdp id t' ht' hlive => ?_, fun o ho => (hsent o ho).elim (h.sent o) id⟩
  all_goals obtain ⟨c, hc, hseated, hstages, hmid⟩ := hconsumer c' hc'
  · exact (h.placed c hc).seated hseated
  · obtain hold | ⟨-, hfrom⟩ := hstages stage hstage
    · exact h.numbered c hc stage hold sdp hsdp
    · obtain ⟨old, hold, hsame⟩ := hfrom sdp hsdp
      exact h.numbered c hc old hold sdp hsame
  · obtain ⟨t, ht, hseat⟩ := hseated.some_of_some ht'
    rw [hseat.mline]
    obtain hold | ⟨hnone, -⟩ := hstages stage hstage
    · exact h.made c hc stage hold sdp hmade id t ht (hseat.pooled.symm.trans hlive)
    · cases hnone.symm.trans hmade
  obtain ⟨t, ht, hseat⟩ := hseated.some_of_some ht'
  rw [hseat.mline]
  obtain hold | ⟨hnone, -⟩ := hstages _ hsdp
  · obtain hsame | hmids := hmid id t t' ht ht'
    · exact hsame.trans (h.named c hc sdp hold id t ht (hseat.pooled.symm.trans hlive))
    · exact hmids
  · cases hnone

theorem held (hheld : Held s s') : Faithful mids s' := by
  refine h.seated (fun c' hc' => ?_) (fun o ho => .inl (hheld.sent ▸ ho))
  obtain ⟨c, hc, htouched⟩ := hheld.consumer_some hc'
  refine ⟨c, hc, .of_touched htouched, fun stage hstage => .inl (htouched.negotiations ▸ hstage),
    fun id t t' ht ht' => .inl ?_⟩
  obtain ⟨u, hu, htrack⟩ := htouched.some_of_some ht'
  rw [htrack.mid, some.inj (hu.symm.trans ht)]

variable {c : Consumer}

theorem stages {d : Consumer} (hc : s.consumer = some c)
    (hd : s'.consumer = some d) (htracks : d.tracks = c.tracks) (hlines : d.lines = c.lines)
    (hstages : ∀ stage ∈ d.negotiations, stage ∈ c.negotiations ∨ stage.made = none ∧
      ∀ sdp, stage.sdp = some sdp → ∃ old ∈ c.negotiations, old.sdp = some sdp)
    (hsent : ∀ o ∈ s'.sent, o ∈ s.sent ∨ o.Describes) : Faithful mids s' := by
  refine h.seated (fun c' hc' => ?_) hsent
  cases hc'.symm.trans hd
  refine ⟨c, hc, .of_tracks_eq ⟨[], by rw [hlines, append_nil]⟩ htracks, hstages,
    fun id t t' ht ht' => .inl ?_⟩
  rw [htracks] at ht'
  rw [some.inj (ht'.symm.trans ht)]

theorem runs {j : Nat} (hc : s.consumer = some c) (ok : Bool) :
    Faithful mids { s with consumer := some (c.offerRuns j mids ok) } := by
  let lines := if .data ∈ c.lines then c.lines else c.lines ++ [.data]
  have hseated := c.seated_offerRuns j mids ok
  have hnew : ∀ stage ∈ (c.offerRuns j mids ok).negotiations, stage ∈ c.negotiations ∨
      stage = .created (if ok then some (describe lines mids) else none) :=
    fun stage hstage => mem_or_eq_of_mem_set hstage
  have hsdp : ∀ sdp, (if ok then some (describe lines mids) else none) = some sdp →
      sdp = describe lines mids := by
    intro sdp hsdp
    exact (some.inj (ite_none_right_eq_some.mp hsdp).2).symm
  refine ⟨fun c' hc' => ?_, fun c' hc' stage hstage sdp hstagesdp i m hm => ?_,
    fun c' hc' stage hstage sdp hmade id t ht hlive => ?_, fun c' hc' sdp hmem => ?_, h.sent⟩
  all_goals cases hc'
  · exact (h.placed c hc).seated hseated
  · obtain hold | rfl := hnew stage hstage
    · exact h.numbered c hc stage hold sdp hstagesdp i m hm
    rw [hsdp sdp hstagesdp, describe, getElem?_mapIdx] at hm
    obtain ⟨line, -, rfl⟩ := map_eq_some_iff.mp hm
    rfl
  · obtain hold | rfl := hnew stage hstage
    · exact h.made c hc stage hold sdp hmade id t ht hlive
    have hline : lines[t.mline]? = some .sendonly :=
      hseated.line ((h.placed c hc).sends id t ht hlive)
    refine ⟨{ mid := mids t.mline, sends := true }, ?_, rfl⟩
    rw [hsdp sdp hmade, describe, getElem?_mapIdx, hline]
    rfl
  obtain hold | hnot := hnew _ hmem
  · exact h.named c hc sdp hold
  · exact absurd hnot (by simp)

theorem created {j : Nat} {sdp : Sdp}
    (hc : s.consumer = some c) (hj : c.negotiations[j]? = some (.created (some sdp))) :
    Faithful mids { s with consumer := some (c.offerCreated j sdp) } := by
  have hmem := mem_of_getElem? hj
  have hseated := c.seated_offerCreated j sdp
  have hnew : ∀ stage ∈ (c.offerCreated j sdp).negotiations, stage ∈ c.negotiations ∨
      stage = .describing sdp := fun stage hstage => mem_or_eq_of_mem_set hstage
  refine ⟨fun c' hc' => ?_, fun c' hc' stage hstage sdp' hsdp' => ?_,
    fun c' hc' stage hstage sdp' hmade id t' ht' hlive => ?_,
    fun c' hc' sdp' hsdp' id t' ht' hlive => ?_, h.sent⟩
  all_goals cases hc'
  · exact (h.placed c hc).seated hseated
  · obtain hold | rfl := hnew stage hstage
    · exact h.numbered c hc stage hold sdp' hsdp'
    · exact h.numbered c hc _ hmem sdp' hsdp'
  · obtain ⟨t, ht, rfl⟩ := offerCreated_track ht'
    obtain hold | rfl := hnew stage hstage
    · exact h.made c hc stage hold sdp' hmade id t ht hlive
    · exact h.made c hc _ hmem sdp' hmade id t ht hlive
  obtain ⟨t, ht, rfl⟩ := offerCreated_track ht'
  obtain ⟨m, hm, -⟩ := h.made c hc _ hmem sdp rfl id t ht hlive
  have hmid := h.numbered c hc _ hmem sdp rfl t.mline m hm
  simp only [midOf, hm, map_some, getD_some, hmid]

theorem describes {sdp : Sdp}
    (hinj : Function.Injective mids) (hne : ∀ i, mids i ≠ "") (hc : s.consumer = some c)
    (hstage : .describing sdp ∈ c.negotiations) (version : Nat) :
    Offer.Describes { sdp, tracks := c.manifest, manifestVersion := version } := by
  have hmid : ∀ t ∈ c.live, t.mid = mids t.mline := by
    intro t ht
    obtain ⟨id, hget, hlive⟩ := mem_live.mp ht
    exact h.named c hc sdp hstage id t hget hlive
  refine ⟨fun e he => ?_, ?_⟩
  · obtain ⟨t, ht, rfl⟩ := List.mem_map.mp he
    obtain ⟨id, hget, hlive⟩ := mem_live.mp ht
    obtain ⟨m, hm, hsends⟩ := h.made c hc _ hstage sdp rfl id t hget hlive
    refine ⟨?_, m, mem_of_getElem? hm, ?_, hsends⟩
    · exact (hmid t ht).trans_ne (hne t.mline)
    · exact (h.numbered c hc _ hstage sdp rfl t.mline m hm).trans (hmid t ht).symm
  have hmids : c.manifest.map (·.mid) = (c.live.map (·.mline)).map mids := by
    rw [manifest, List.map_map, List.map_map]
    exact map_congr_left hmid
  rw [hmids]
  exact (h.placed c hc).live_nodup.map hinj

/-- The answer's m-lines keep webrtcbin's mids. -/
theorem applied {d : Consumer} {offer : Offer} {accepted : List Bool}
    (hc : s.consumer = some c) (hmem : .answered offer accepted ∈ c.negotiations)
    (htracks : d.tracks = c.tracks) (hlines : d.lines = c.lines)
    (hstages : ∀ stage ∈ d.negotiations, stage ∈ c.negotiations ∨ stage = .creating)
    (hd : s'.consumer = some (d.settleAll offer.sdp accepted)) (hsent : s'.sent = s.sent) :
    Faithful mids s' := by
  refine h.seated (fun c' hc' => ?_) (fun o ho => .inl (hsent ▸ ho))
  cases hc'.symm.trans hd
  have hsettled := d.seated_settleAll offer.sdp accepted
  refine ⟨c, hc, ⟨?_, ?_⟩, fun stage hstage => ?_, fun id t t' ht ht' => ?_⟩
  · obtain ⟨more, hmore⟩ := hsettled.lines
    exact ⟨more, hlines ▸ hmore⟩
  · exact htracks ▸ hsettled.tracks
  · obtain hold | rfl := hstages stage hstage
    · exact .inl hold
    · exact .inr ⟨rfl, fun sdp hsdp => absurd hsdp (some_ne_none sdp).symm⟩
  rw [settleAll, Std.ExtTreeMap.getElem?_map, htracks, ht] at ht'
  cases ht'
  have hsettle := ConsumerTrack.seated_settle d.offeredSendonly accepted t
  have hmid : (settle d.offeredSendonly accepted t).mid = t.mid := by
    unfold settle
    split <;> rfl
  simp only [midOf, hsettle.mline, hmid]
  cases hm : offer.sdp[t.mline]? with
  | none => exact .inl rfl
  | some m => exact .inr (h.numbered c hc _ hmem offer.sdp rfl t.mline m hm)

theorem moves (hinj : Function.Injective mids) (hne : ∀ i, mids i ≠ "")
    (hmoves : Moves mids s s') : Faithful mids s' := by
  cases hmoves with
  | held hheld => exact h.held hheld
  | closed =>
    exact ⟨nofun, nofun, nofun, nofun, h.sent⟩
  | runs hc hj => exact h.runs hc _
  | created hc hj => exact h.created hc hj
  | @failed c j _ hc hj hheld _ =>
    have hover : Faithful mids { s with consumer := some (c.offerFailed j) } :=
      h.stages hc rfl rfl rfl (fun stage hstage => .inl (mem_of_mem_eraseIdx hstage))
        (fun o ho => .inl ho)
    exact hover.held hheld
  | @sent c j sdp offer state hc hj hoffer hstate =>
    have hmem := mem_of_getElem? hj
    refine h.stages hc rfl rfl rfl (fun stage hstage => ?_) (fun o ho => ?_)
    · obtain hold | rfl := mem_or_eq_of_mem_set hstage
      · exact .inl hold
      refine .inr ⟨rfl, fun sdp' hsdp' => ⟨_, hmem, ?_⟩⟩
      rw [hoffer] at hsdp'
      exact hsdp'
    obtain ho | rfl := mem_snoc.mp ho
    · exact .inl ho
    · rw [hoffer]
      exact .inr (h.describes hinj hne hc hmem _)
  | @answered c j offer accepted hc hj =>
    refine h.stages hc rfl rfl rfl (fun stage hstage => ?_) (fun o ho => .inl ho)
    obtain hold | rfl := mem_or_eq_of_mem_set hstage
    · exact .inl hold
    · exact .inr ⟨rfl, fun sdp hsdp => ⟨_, mem_of_getElem? hj, hsdp⟩⟩
  | @unparseable c j offer _ hc hj hheld _ =>
    have hover : Faithful mids { s with consumer := some { c with
        negotiations := c.negotiations.eraseIdx j } } :=
      h.stages hc rfl rfl rfl (fun stage hstage => .inl (mem_of_mem_eraseIdx hstage))
        (fun o ho => .inl ho)
    exact hover.held hheld
  | @applied c j offer accepted s₁ hc hj hs₁ =>
    obtain ⟨d, hd, htracks, hlines, -, hneg, hsent, -, -⟩ :=
      Session.remoteDescriptionSet_spec (s := { s with consumer := some (c.answerApplied j) }) rfl
    rw [← hs₁] at hd hsent
    refine h.applied hc (mem_of_getElem? hj) htracks hlines (fun stage hstage => ?_)
      (by rw [hd]; rfl) hsent
    obtain hneg | hneg := hneg
    · exact .inl (mem_of_mem_eraseIdx (hneg ▸ hstage))
    · rw [hneg, mem_append, mem_singleton] at hstage
      exact hstage.imp mem_of_mem_eraseIdx id

theorem without (id : String) : Faithful mids (s.without id) := by
  have haloft := Aloft.without s id
  have hold : ∀ c', (s.without id).consumer = some c' →
      ∃ c, s.consumer = some c ∧ c' = c.removeTrack id ∧ c'.negotiations = c.negotiations := by
    intro c' hc'
    obtain ⟨c, hc, hneg, -, -⟩ := haloft.consumer c' hc'
    obtain ⟨d, hd, rfl⟩ := map_eq_some_iff.mp hc'
    cases hd.symm.trans hc
    exact ⟨c, hc, rfl, hneg⟩
  refine ⟨fun c' hc' => ?_, fun c' hc' => ?_,
    fun c' hc' stage hstage sdp hmade id' t ht hlive => ?_,
    fun c' hc' sdp hsdp id' t ht hlive => ?_, h.sent⟩
  all_goals obtain ⟨c, hc, rfl, hneg⟩ := hold c' hc'
  · exact (h.placed c hc).removeTrack id
  · exact hneg ▸ h.numbered c hc
  · exact h.made c hc stage (hneg ▸ hstage) sdp hmade id' t (live_of_removeTrack ht hlive)
      hlive
  · exact h.named c hc sdp (hneg ▸ hsdp) id' t (live_of_removeTrack ht hlive) hlive

theorem joins {cap : String} {t : Ctx.Wanted}
    (hnone : ∀ c, s.consumer = some c → ∀ stage ∈ c.negotiations, stage.made = none)
    (hjoins : Joins s cap t s') : Faithful mids s' := by
  have haloft := Aloft.of_joins hjoins
  have hplaced : ∀ c', s'.consumer = some c' → c'.Placed := by
    intro c' hc'
    cases hjoins with
    | there hc ht => exact h.placed c' hc'
    | refused hc =>
      cases hc'
      exact (h.placed _ hc).seated (.of_eq rfl rfl)
    | failed hc hnew htakes =>
      cases hc'
      exact ((h.placed _ hc).takes htakes).1
    | joined hc hnew htakes =>
      cases hc'
      exact ((h.placed _ hc).takes htakes).2
  refine ⟨hplaced, fun c' hc' => ?_, fun c' hc' stage hstage sdp hmade => ?_,
    fun c' hc' sdp hsdp => ?_, haloft.sent ▸ h.sent⟩
  all_goals obtain ⟨c, hc, hneg, -, -⟩ := haloft.consumer c' hc'
  · exact hneg ▸ h.numbered c hc
  · rw [hnone c hc stage (hneg ▸ hstage)] at hmade
    cases hmade
  · have hmade := hnone c hc (.describing sdp) (hneg ▸ hsdp)
    cases hmade

theorem requestOffer : Faithful mids s.requestOffer := by
  obtain ⟨heq, -⟩ | ⟨c, hc, -, ⟨-, heq⟩ | ⟨-, heq⟩⟩ := s.requestOffer_cases
  · rw [heq]
    exact h
  · rw [heq]
    exact ⟨h.placed, h.numbered, h.made, h.named, h.sent⟩
  rw [heq]
  refine h.stages hc rfl rfl rfl (fun stage hstage => ?_) (fun o ho => .inl ho)
  obtain hold | rfl := mem_snoc.mp hstage
  · exact .inl hold
  · exact .inr ⟨rfl, fun sdp hsdp => absurd hsdp (some_ne_none sdp).symm⟩

end

theorem updateTracks {x : Ctx} {cap : String} {fullSet : List Ctx.Wanted}
    (h : Faithful mids x.session)
    (htimely : (∀ c, x.session.consumer = some c → ∀ stage ∈ c.negotiations, stage.made = none) ∨
      ∀ t ∈ fullSet, x.session.tracks.contains t.spec.trackId = true) :
    Faithful mids (x.updateTracks cap fullSet).session := by
  obtain ⟨hkept, hdropped⟩ := Ctx.dropTracks_keep (fun _ _ => Faithful.held)
    (fun id hid => (Ctx.mem_removed hid).2) (fun s id _ hs => hs.without id)
    (.refl x.session fullSet) h
  have hchanged : Faithful mids (x.changed cap fullSet).1.session := by
    refine (Ctx.addTracks_keeps (fun _ _ => Faithful.held)
      (fun s s' t ht hnew haloft hs hjoins => hs.joins (fun c hc stage hstage => ?_) hjoins)
      hkept hdropped).2
    obtain ⟨c₀, hc₀, hneg, -, -⟩ := haloft.consumer c hc
    obtain htimely | hall := htimely
    · exact htimely c₀ hc₀ stage (hneg ▸ hstage)
    · rw [hall t ht] at hnew
      exact Bool.noConfusion hnew
  obtain heq | ⟨-, ⟨-, -, heq⟩ | heq⟩ := x.updateTracks_cases cap fullSet
  · rw [heq]
    exact h
  · rw [heq]
    exact hchanged
  · rw [heq]
    exact hchanged.requestOffer

theorem attach (p : MediaPlane) (n : Sink) (built : Bool) (caps : List String)
    (pending : List (String × Ctx.Wanted)) (uplinks : Nat) :
    Faithful mids (Ctx.attach { session := {}, plane := p, nextSink := n }
      built caps pending uplinks).session := by
  refine Ctx.attach_keeps (P := Faithful mids) (fun _ _ => Faithful.held) built ?_
    (fun _ _ hs => hs) (fun s s' t _ hnone hs hjoins => hs.joins (fun c hc stage hstage => ?_) hjoins)
    fun s hs => requestOffer (hs.seated (fun c' hc' => ?_) (fun o ho => .inl ho))
  · refine ⟨fun c hc => ?_, fun c hc stage hstage => ?_, fun c hc stage hstage => ?_,
      fun c hc sdp hsdp => ?_, nofun⟩
    all_goals cases hc
    · exact .empty
    · cases hstage
    · cases hstage
    · cases hsdp
  · rw [hnone c hc] at hstage
    cases hstage
  obtain ⟨c, hc, rfl⟩ := map_eq_some_iff.mp hc'
  exact ⟨c, hc, .of_tracks_eq ⟨_, rfl⟩ rfl, fun stage hstage => .inl hstage,
    fun id t t' ht ht' => .inl (by rw [some.inj (ht.symm.trans ht')])⟩

end Faithful

/-- **An offer's manifest describes that offer**, in every session of every
run in which no track is added while an offer is made and not sent. -/
theorem manifest_describes_offer (mids : Nat → String) (hinj : Function.Injective mids)
    (hne : ∀ i, mids i ≠ "") (graceMs ringSize : Nat) (as : List Act) (w : World)
    (htimely : (agent mids graceMs ringSize).AllSteps (fun w a => a.timely w = true)
      (agent mids graceMs ringSize).init as)
    (hrun : (agent mids graceMs ringSize).run (agent mids graceMs ringSize).init as = some w) :
    ∀ s ∈ w.sessions, ∀ o ∈ s.sent, o.Describes := by
  have hfaithful : ∀ s ∈ w.sessions, Faithful mids s := by
    refine (agent mids graceMs ringSize).run_induction
      (P := fun w => ∀ s ∈ w.sessions, Faithful mids s) (fun w a w' h htime hstep => ?_)
      (fun s hs => absurd hs not_mem_nil) htimely hrun
    refine sessions_step hstep h (fun built caps pending uplinks _ => .attach ..)
      (fun s s' hs hmoves => hs.moves hinj hne hmoves) (fun k cap fullSet x ha hk hs => ?_)
    subst ha
    refine hs.updateTracks ?_
    simp only [Act.timely, hk, all_some, Bool.or_eq_true, List.all_eq_true] at htime
    refine htime.imp (fun hmade c hc stage hstage => ?_) fun hall => hall
    rw [hc, all_some, List.all_eq_true] at hmade
    exact isNone_iff_eq_none.mp (hmade stage hstage)
  exact fun s hs => (hfaithful s hs).sent

/-- A second camera is plugged in when the first offer is made and not sent. -/
def pluggedEarly : List Act :=
  [.attach true ["fjarr.camera"] [("fjarr.camera", camera "front")] 0,
    .offerRuns 0 0 true, .reply 0 0,
    .updateTracks 0 "fjarr.camera" [camera "front", camera "rear"], .reply 0 0]

theorem manifest_describes_offer_one_camera :
    ∃ w, (agent toString 10000 31).run (agent toString 10000 31).init
        (pluggedEarly.take 3 ++ [.reply 0 0]) = some w ∧
      ∃ s ∈ w.sessions, ∃ o ∈ s.sent, o.Describes := by
  have hrepr : ∀ n : Nat, toString n = n.repr := fun _ => rfl
  refine evaluated (fun w => (w.sessions[0]?).map (fun s : Session => s.sent.length)) (b := some 1)
    (by decide +kernel) fun w hrun hw => ?_
  obtain ⟨s, hs, hlength⟩ := map_eq_some_iff.mp hw
  obtain ⟨o, ho⟩ := exists_mem_of_length_pos (by omega : 0 < s.sent.length)
  have hmem := mem_of_getElem? hs
  refine ⟨s, hmem, o, ho, ?_⟩
  refine manifest_describes_offer toString (fun i j hij => ?_) (fun i hi => ?_) 10000 31 _ w
    (System.allSteps_of_forall _ fun a ha w => ?_) hrun s hmem o ho
  · exact Nat.repr_injective hij
  · exact absurd hi (by simp [hrepr])
  · fin_cases ha <;> rfl

/-- The manifest lists a camera with no mid, whose m-line is not in the SDP. -/
theorem manifest_ahead :
    ∃ w, (agent toString 10000 31).run (agent toString 10000 31).init pluggedEarly = some w ∧
      ∃ s ∈ w.sessions, ∃ o ∈ s.sent, o.tracks.map (fun e => (e.trackId, e.mid)) =
        [("front", "0"), ("rear", "")] ∧ o.sdp.length = 2 ∧ ¬ o.Describes := by
  refine evaluated (fun w => (w.sessions[0]?).map fun s : Session => s.sent.map fun o =>
      (o.tracks.map (fun e => (e.trackId, e.mid)), o.sdp.length))
    (b := some [([("front", "0"), ("rear", "")], 2)]) (by decide +kernel) fun w hrun hw => ?_
  obtain ⟨s, hs, hsent⟩ := map_eq_some_iff.mp hw
  obtain ⟨o, ho, hentry⟩ := List.mem_map.mp (hsent ▸ mem_singleton_self _)
  rw [Prod.mk.injEq] at hentry
  refine ⟨s, mem_of_getElem? hs, o, ho, hentry.1, hentry.2, fun h => ?_⟩
  have hrear : ("rear", "") ∈ o.tracks.map (fun e => (e.trackId, e.mid)) := by
    rw [hentry.1]
    simp
  obtain ⟨e, he, hpair⟩ := List.mem_map.mp hrear
  exact (h.sends e he).1 (Prod.mk.inj hpair).2

end Fjarr.Core
