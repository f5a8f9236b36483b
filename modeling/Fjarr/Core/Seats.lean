/-
Fjarr.Core.Seats — tracks and their m-lines.

Each record of the consumer's table sits on an m-line of its own; a live
one has a branch and an m-line that sends, a pooled one has neither
(`Placed`). A track that is added takes over a pooled m-line or gets a new
one (`Takes`), one that leaves gives its m-line to the pool, and everything
else a session does leaves the records where they are (`Seated`) and the
offer in flight as it is (`Aloft`), but for the replies themselves.
-/
import Fjarr.Core.Demand

namespace Fjarr.Core

open Lib Media List Option

/-! ## Records -/

namespace ConsumerTrack

/-- The record stays where it is. -/
structure Seated (t t' : ConsumerTrack) : Prop where
  trackId : t'.trackId = t.trackId
  kind : t'.kind = t.kind
  mline : t'.mline = t.mline
  pooled : t'.pooled = t.pooled
  sink : t'.sink = t.sink
  since : t'.since = t.since
  branch : t'.valve.isSome = t.valve.isSome
  gated : t.Gated → t'.Gated

variable {t t' : ConsumerTrack}

theorem Touched.seated (h : Touched t t') : Seated t t' := by
  refine ⟨?_, ?_, ?_, ?_, ?_, ?_, h.branch, h.gated⟩ <;> rw [h.same]

theorem Touched.negotiated (h : Touched t t') :
    t'.negotiated = t.negotiated := by rw [h.same]

theorem Touched.mid (h : Touched t t') : t'.mid = t.mid := by rw [h.same]

theorem seated_midOf (sdp : Sdp) (t : ConsumerTrack) : Seated t (Consumer.midOf sdp t) :=
  ⟨rfl, rfl, rfl, rfl, rfl, rfl, rfl, id⟩

theorem seated_settle (offered : List Nat) (accepted : List Bool) (t : ConsumerTrack) :
    Seated t (Consumer.settle offered accepted t) := by
  unfold Consumer.settle
  split
  · exact ⟨rfl, rfl, rfl, rfl, rfl, rfl, rfl, id⟩
  · refine ⟨rfl, rfl, rfl, rfl, rfl, rfl, ?_, fun _ => gated_applyValve _⟩
    simp [applyValve]

end ConsumerTrack

namespace Consumer

/-- The records stay where they are, and m-lines are only added. -/
structure Seated (c c' : Consumer) : Prop where
  lines : ∃ more, c'.lines = c.lines ++ more
  tracks : ∀ id : String, Option.Rel ConsumerTrack.Seated c.tracks[id]? c'.tracks[id]?

namespace Seated

variable {c c' : Consumer}

theorem of_touched (h : Touched c c') : Seated c c' := by
  refine ⟨⟨[], by rw [h.lines, append_nil]⟩, fun id => ?_⟩
  have hid := h.tracks id
  revert hid
  generalize c.tracks[id]? = o
  generalize c'.tracks[id]? = o'
  rintro (htouched | _)
  · exact .some htouched.seated
  · exact .none

theorem of_tracks_eq (hlines : ∃ more, c'.lines = c.lines ++ more)
    (htracks : c'.tracks = c.tracks) : Seated c c' := by
  refine ⟨hlines, fun id => ?_⟩
  rw [htracks]
  exact (of_touched (.refl c)).tracks id

theorem of_eq (hlines : c'.lines = c.lines) (htracks : c'.tracks = c.tracks) : Seated c c' :=
  of_tracks_eq ⟨[], by rw [hlines, append_nil]⟩ htracks

theorem of_map (hlines : c'.lines = c.lines) {f : ConsumerTrack → ConsumerTrack}
    (htracks : c'.tracks = c.tracks.map fun _ => f) (hf : ∀ t, ConsumerTrack.Seated t (f t)) :
    Seated c c' := by
  refine ⟨⟨[], by rw [hlines, append_nil]⟩, fun id => ?_⟩
  rw [htracks, Std.ExtTreeMap.getElem?_map]
  cases c.tracks[id]? with
  | none => exact .none
  | some t => exact .some (hf t)

variable (h : Seated c c')
include h

theorem some_of_some {id : String} {t' : ConsumerTrack}
    (ht' : c'.tracks[id]? = some t') :
    ∃ t, c.tracks[id]? = some t ∧ ConsumerTrack.Seated t t' :=
  Maps.rel_some_right (h.tracks id) ht'

theorem of_some {id : String} {t : ConsumerTrack}
    (ht : c.tracks[id]? = some t) :
    ∃ t', c'.tracks[id]? = some t' ∧ ConsumerTrack.Seated t t' :=
  Maps.rel_some_left (h.tracks id) ht

theorem length_le : c.lines.length ≤ c'.lines.length := by
  obtain ⟨more, hmore⟩ := h.lines
  rw [hmore, length_append]
  omega

theorem line {i : Nat} {l : Line} (hl : c.lines[i]? = some l) :
    c'.lines[i]? = some l := by
  obtain ⟨more, hmore⟩ := h.lines
  have hi : i < c.lines.length := (List.getElem?_eq_some_iff.mp hl).1
  rw [hmore, getElem?_append_left hi, hl]

end Seated

theorem seated_offerRuns (c : Consumer) (j : Nat) (mids : Nat → String) (ok : Bool) :
    Seated c (c.offerRuns j mids ok) := by
  refine .of_tracks_eq ?_ rfl
  unfold offerRuns
  dsimp only
  split
  · exact ⟨[], (append_nil _).symm⟩
  · exact ⟨_, rfl⟩

theorem seated_offerCreated (c : Consumer) (j : Nat) (sdp : Sdp) :
    Seated c (c.offerCreated j sdp) :=
  .of_map rfl rfl (ConsumerTrack.seated_midOf sdp)

theorem offerCreated_track {c : Consumer} {j : Nat} {sdp : Sdp} {id : String}
    {t' : ConsumerTrack} (h : (c.offerCreated j sdp).tracks[id]? = some t') :
    ∃ t, c.tracks[id]? = some t ∧ t' = midOf sdp t := by
  rw [offerCreated, Std.ExtTreeMap.getElem?_map] at h
  obtain ⟨t, ht, rfl⟩ := map_eq_some_iff.mp h
  exact ⟨t, ht, rfl⟩

theorem seated_settleAll (c : Consumer) (sdp : Sdp) (accepted : List Bool) :
    Seated c (c.settleAll sdp accepted) := by
  refine .of_map rfl rfl fun t => ?_
  have hsettle := ConsumerTrack.seated_settle c.offeredSendonly accepted t
  exact ⟨hsettle.trackId, hsettle.kind, hsettle.mline, hsettle.pooled, hsettle.sink, hsettle.since,
    hsettle.branch, hsettle.gated⟩

/-! ## Adding and removing -/

/-- The m-line a new track gets: a pooled one of its kind, or a new one. The
consumer is the one before the track is in the table. -/
inductive Takes (c : Consumer) (spec : TrackSpec) (cap : String) (sink : Sink) (since : Nat) :
    Consumer → ConsumerTrack → Prop where
  | pooled {pid : String} {t : ConsumerTrack} (hpid : c.tracks[pid]? = some t)
      (hpooled : t.pooled = true) (hkind : t.kind = spec.kind) :
      Takes c spec cap sink since
        { c with tracks := c.tracks.erase pid, lines := c.lines.set t.mline .sendonly }
        { t with
          trackId := spec.trackId, cap, pooled := false, enabled := false, negotiated := false
          rejected := false, since, valve := some true, sink := some sink }
  | fresh :
      Takes c spec cap sink since
        { c with nextPt := c.nextPt + 1, lines := c.lines ++ [.sendonly] }
        { trackId := spec.trackId, cap, kind := spec.kind, pt := c.nextPt, mline := c.lines.length
          since, valve := some true, sink := some sink }

/-- What taking an m-line does to the rest of the consumer. -/
structure Spares (c : Consumer) (spec : TrackSpec) (sink : Sink) (since : Nat) (c₁ : Consumer)
    (t₁ : ConsumerTrack) : Prop where
  old : ∀ (id : String) t, c₁.tracks[id]? = some t → c.tracks[id]? = some t
  live : ∀ (id : String) t, c.tracks[id]? = some t → t.pooled = false → c₁.tracks[id]? = some t
  negotiations : c₁.negotiations = c.negotiations
  offerInFlight : c₁.offerInFlight = c.offerInFlight
  offeredSendonly : c₁.offeredSendonly = c.offeredSendonly
  lines : c.lines.length ≤ c₁.lines.length
  track : t₁.trackId = spec.trackId ∧ t₁.pooled = false ∧ t₁.negotiated = false ∧ t₁.since = since ∧
    t₁.sink = some sink ∧ t₁.valve = some true

variable {c : Consumer} {id : String}

theorem Takes.spares {c₁ : Consumer} {spec : TrackSpec} {cap : String} {sink : Sink}
    {since : Nat} {t₁ : ConsumerTrack} (h : Takes c spec cap sink since c₁ t₁) :
    Spares c spec sink since c₁ t₁ := by
  cases h with
  | @pooled pid t hpid hpooled hkind =>
    refine ⟨fun id t' ht' => ?_, fun id t' ht' hlive => ?_, rfl, rfl, rfl,
      (length_set ..).ge, ⟨rfl, rfl, rfl, rfl, rfl, rfl⟩⟩
    · exact (Maps.of_get?_erase ht').2
    rw [Maps.get?_erase]
    refine ite_none_left_eq_some.mpr ⟨?_, ht'⟩
    rintro rfl
    rw [some.inj (ht'.symm.trans hpid), hpooled] at hlive
    exact Bool.noConfusion hlive
  | fresh =>
    refine ⟨fun _ _ ht' => ht', fun _ _ ht' _ => ht', rfl, rfl, rfl, ?_,
      ⟨rfl, rfl, rfl, rfl, rfl, rfl⟩⟩
    simp

theorem buildBranch_eq (t : ConsumerTrack) (gst : Gst) (sink : Sink) :
    (∃ e, t.buildBranch gst sink = .error e) ∨
      t.buildBranch gst sink = .ok { t with valve := some true, sink := some sink } := by
  cases gst with
  | ok | refusesPad => exact .inr rfl
  | cannotLinkBranch | cannotLinkPayloader => exact .inl ⟨_, rfl⟩

/-- What `add_track` does: the track is there, or webrtcbin has no pad for
it, or it takes an m-line, on which its branch is built or not. -/
theorem addTrack_cases (c : Consumer) (spec : TrackSpec) (cap : String) (gst : Gst) (sink : Sink)
    (since : Nat) :
    (∃ t, c.tracks[spec.trackId]? = some t ∧ c.addTrack spec cap gst sink since = (c, .ok t)) ∨
      c.tracks[spec.trackId]? = none ∧
        ((∃ e, c.addTrack spec cap gst sink since = ({ c with nextPt := c.nextPt + 1 }, .error e)) ∨
          ∃ c₁ t₁, Takes c spec cap sink since c₁ t₁ ∧
            ((∃ e, c.addTrack spec cap gst sink since = (c₁, .error e)) ∨
              c.addTrack spec cap gst sink since = (c₁.setTrack spec.trackId t₁, .ok t₁))) := by
  unfold addTrack
  split
  · rename_i t ht
    exact .inl ⟨t, ht, rfl⟩
  rename_i hnone
  refine .inr ⟨hnone, ?_⟩
  split
  · rename_i pid t hfind
    have hmem := mem_of_find?_eq_some hfind
    rw [Std.ExtTreeMap.mem_toList_iff_getElem?_eq_some] at hmem
    have hpool := find?_some hfind
    simp only [Bool.and_eq_true, decide_eq_true_eq] at hpool
    refine .inr ⟨_, _, .pooled hmem hpool.1 hpool.2, ?_⟩
    dsimp only
    obtain ⟨e, he⟩ | hok := buildBranch_eq { t with
      trackId := spec.trackId, cap, pooled := false, enabled := false, negotiated := false
      rejected := false, since } gst sink
    · rw [he]
      exact .inl ⟨e, rfl⟩
    · rw [hok]
      exact .inr rfl
  dsimp only
  split
  · exact .inl ⟨_, rfl⟩
  refine .inr ⟨_, _, .fresh, ?_⟩
  obtain ⟨e, he⟩ | hok := buildBranch_eq {
    trackId := spec.trackId, cap, kind := spec.kind, pt := c.nextPt, mline := c.lines.length
    since } gst sink
  · rw [he]
    exact .inl ⟨e, rfl⟩
  · rw [hok]
    exact .inr rfl

theorem removeTrack_none (h : c.tracks[id]? = none) :
    c.removeTrack id = c := by
  simp only [removeTrack, h]

theorem removeTrack_get? {t : ConsumerTrack}
    (ht : c.tracks[id]? = some t) (id' : String) :
    (c.removeTrack id).tracks[id']? =
      if id' = ConsumerTrack.poolId t.mline then
        some { t.teardownBranch with
          trackId := ConsumerTrack.poolId t.mline, enabled := false, pooled := true }
      else if id' = id then none else c.tracks[id']? := by
  simp only [removeTrack, ht]
  rw [Maps.get?_insert, Maps.get?_erase]

theorem live_of_removeTrack {id' : String} {t' : ConsumerTrack}
    (ht' : (c.removeTrack id).tracks[id']? = some t') (hlive : t'.pooled = false) :
    c.tracks[id']? = some t' := by
  cases ht : c.tracks[id]? with
  | none => rwa [removeTrack_none ht] at ht'
  | some t =>
    rw [removeTrack_get? ht] at ht'
    split at ht'
    · rw [← some.inj ht'] at hlive
      exact Bool.noConfusion hlive
    · exact (ite_none_left_eq_some.mp ht').2

/-! ## Where the records are -/

/-- **Records and m-lines.** -/
structure Placed (c : Consumer) : Prop where
  keyed : ∀ (id : String) t, c.tracks[id]? = some t → t.trackId = id
  distinct : ∀ (id id' : String) t t', c.tracks[id]? = some t → c.tracks[id']? = some t' →
    t.mline = t'.mline → id = id'
  inLines : ∀ (id : String) t, c.tracks[id]? = some t → t.mline < c.lines.length
  sends : ∀ (id : String) t, c.tracks[id]? = some t → t.pooled = false →
    c.lines[t.mline]? = some .sendonly
  live : ∀ (id : String) t, c.tracks[id]? = some t → t.pooled = false →
    t.valve.isSome = true ∧ t.sink.isSome = true
  pooled : ∀ (id : String) t, c.tracks[id]? = some t → t.pooled = true →
    t.valve = none ∧ t.sink = none
  gated : ∀ (id : String) t, c.tracks[id]? = some t → t.Gated

namespace Placed

variable {c c' : Consumer}

theorem empty : Placed {} := by
  have hnone : ∀ (id : String) t, ({} : Consumer).tracks[id]? ≠ some t := by
    intro id t h
    simp at h
  exact ⟨fun _ _ h => absurd h (hnone _ _), fun _ _ _ _ h => absurd h (hnone _ _),
    fun _ _ h => absurd h (hnone _ _), fun _ _ h => absurd h (hnone _ _),
    fun _ _ h => absurd h (hnone _ _), fun _ _ h => absurd h (hnone _ _),
    fun _ _ h => absurd h (hnone _ _)⟩

variable (h : Placed c)
include h

theorem seated (hs : Seated c c') : Placed c' := by
  refine ⟨fun id t' ht' => ?_, fun id id' t₁ t₂ h₁ h₂ hline => ?_, fun id t' ht' => ?_,
    fun id t' ht' hlive => ?_, fun id t' ht' hlive => ?_, fun id t' ht' hpool => ?_,
    fun id t' ht' => ?_⟩
  · obtain ⟨t, ht, hseat⟩ := hs.some_of_some ht'
    exact hseat.trackId.trans (h.keyed id t ht)
  · obtain ⟨s₁, hs₁, hseat₁⟩ := hs.some_of_some h₁
    obtain ⟨s₂, hs₂, hseat₂⟩ := hs.some_of_some h₂
    exact h.distinct id id' s₁ s₂ hs₁ hs₂ (hseat₁.mline ▸ hseat₂.mline ▸ hline)
  · obtain ⟨t, ht, hseat⟩ := hs.some_of_some ht'
    rw [hseat.mline]
    exact lt_of_lt_of_le (h.inLines id t ht) hs.length_le
  · obtain ⟨t, ht, hseat⟩ := hs.some_of_some ht'
    rw [hseat.mline]
    exact hs.line (h.sends id t ht (hseat.pooled ▸ hlive))
  · obtain ⟨t, ht, hseat⟩ := hs.some_of_some ht'
    rw [hseat.branch, hseat.sink]
    exact h.live id t ht (hseat.pooled ▸ hlive)
  · obtain ⟨t, ht, hseat⟩ := hs.some_of_some ht'
    obtain ⟨hvalve, hsink⟩ := h.pooled id t ht (hseat.pooled ▸ hpool)
    have hbranch := hseat.branch
    rw [hvalve] at hbranch
    exact ⟨by simpa using hbranch, hseat.sink.trans hsink⟩
  · obtain ⟨t, ht, hseat⟩ := hs.some_of_some ht'
    exact hseat.gated (h.gated id t ht)

theorem insert {id : String} {t : ConsumerTrack} (hid : t.trackId = id)
    (hfree : ∀ (id' : String) t', c.tracks[id']? = some t' → id' ≠ id → t'.mline ≠ t.mline)
    (hline : t.mline < c.lines.length)
    (hsends : t.pooled = false → c.lines[t.mline]? = some .sendonly)
    (hlive : t.pooled = false → t.valve.isSome = true ∧ t.sink.isSome = true)
    (hpooled : t.pooled = true → t.valve = none ∧ t.sink = none) (hgated : t.Gated) :
    Placed (c.setTrack id t) := by
  have hget : ∀ (id' : String) t', (c.setTrack id t).tracks[id']? = some t' →
      id' = id ∧ t' = t ∨ id' ≠ id ∧ c.tracks[id']? = some t' :=
    fun _ _ => Maps.of_get?_insert
  refine ⟨fun id' t' ht' => ?_, fun id₁ id₂ t₁ t₂ h₁ h₂ hsame => ?_, fun id' t' ht' => ?_,
    fun id' t' ht' => ?_, fun id' t' ht' => ?_, fun id' t' ht' => ?_, fun id' t' ht' => ?_⟩
  · obtain ⟨rfl, rfl⟩ | ⟨-, hold⟩ := hget id' t' ht'
    · exact hid
    · exact h.keyed id' t' hold
  · obtain ⟨rfl, rfl⟩ | ⟨hne₁, hold₁⟩ := hget id₁ t₁ h₁
    · obtain ⟨rfl, rfl⟩ | ⟨hne₂, hold₂⟩ := hget id₂ t₂ h₂
      · rfl
      · exact absurd hsame.symm (hfree id₂ t₂ hold₂ hne₂)
    obtain ⟨rfl, rfl⟩ | ⟨hne₂, hold₂⟩ := hget id₂ t₂ h₂
    · exact absurd hsame (hfree id₁ t₁ hold₁ hne₁)
    · exact h.distinct id₁ id₂ t₁ t₂ hold₁ hold₂ hsame
  · obtain ⟨rfl, rfl⟩ | ⟨-, hold⟩ := hget id' t' ht'
    · exact hline
    · exact h.inLines id' t' hold
  · obtain ⟨rfl, rfl⟩ | ⟨-, hold⟩ := hget id' t' ht'
    · exact hsends
    · exact h.sends id' t' hold
  · obtain ⟨rfl, rfl⟩ | ⟨-, hold⟩ := hget id' t' ht'
    · exact hlive
    · exact h.live id' t' hold
  · obtain ⟨rfl, rfl⟩ | ⟨-, hold⟩ := hget id' t' ht'
    · exact hpooled
    · exact h.pooled id' t' hold
  obtain ⟨rfl, rfl⟩ | ⟨-, hold⟩ := hget id' t' ht'
  · exact hgated
  · exact h.gated id' t' hold

theorem erase {id : String} {t : ConsumerTrack} (ht : c.tracks[id]? = some t)
    (line : Line) :
    Placed { c with tracks := c.tracks.erase id, lines := c.lines.set t.mline line } ∧
      ∀ (id' : String) t', (c.tracks.erase id)[id']? = some t' → t'.mline ≠ t.mline := by
  have hget : ∀ (id' : String) t', (c.tracks.erase id)[id']? = some t' →
      id' ≠ id ∧ c.tracks[id']? = some t' := fun _ _ => Maps.of_get?_erase
  have hfree : ∀ (id' : String) t', (c.tracks.erase id)[id']? = some t' → t'.mline ≠ t.mline := by
    intro id' t' ht' hsame
    obtain ⟨hne, hold⟩ := hget id' t' ht'
    exact hne (h.distinct id' id t' t hold ht hsame)
  refine ⟨⟨fun id' t' ht' => h.keyed id' t' (hget id' t' ht').2,
    fun id₁ id₂ t₁ t₂ h₁ h₂ => h.distinct id₁ id₂ t₁ t₂ (hget id₁ t₁ h₁).2 (hget id₂ t₂ h₂).2,
    fun id' t' ht' => ?_, fun id' t' ht' hlive => ?_,
    fun id' t' ht' => h.live id' t' (hget id' t' ht').2,
    fun id' t' ht' => h.pooled id' t' (hget id' t' ht').2,
    fun id' t' ht' => h.gated id' t' (hget id' t' ht').2⟩, hfree⟩
  · rw [length_set]
    exact h.inLines id' t' (hget id' t' ht').2
  · rw [getElem?_set_ne (hfree id' t' ht').symm]
    exact h.sends id' t' (hget id' t' ht').2 hlive

theorem addLines (more : List Line) (pt : Nat) :
    Placed { c with nextPt := pt, lines := c.lines ++ more } :=
  h.seated (.of_tracks_eq ⟨more, rfl⟩ rfl)

theorem takes {spec : TrackSpec} {cap : String} {sink : Sink} {since : Nat}
    {c₁ : Consumer} {t₁ : ConsumerTrack} (htakes : Takes c spec cap sink since c₁ t₁) :
    Placed c₁ ∧ Placed (c₁.setTrack spec.trackId t₁) := by
  have hgated : ∀ t : ConsumerTrack, t.valve = some true → t.enabled = false → t.Gated := by
    intro t hvalve henabled v hv
    rw [henabled, Bool.false_and, Bool.not_false]
    exact some.inj (hv.symm.trans hvalve)
  cases htakes with
  | @pooled pid t hpid hpooled hkind =>
    obtain ⟨hplaced, hfree⟩ := h.erase hpid .sendonly
    have hline := h.inLines pid t hpid
    refine ⟨hplaced, hplaced.insert rfl (fun id' t' ht' _ => hfree id' t' ht') ?_ (fun _ => ?_)
      (fun _ => ⟨rfl, rfl⟩) nofun (hgated _ rfl rfl)⟩
    · rw [length_set]
      exact hline
    · exact getElem?_set_self hline
  | fresh =>
    have hplaced := h.addLines [.sendonly] (c.nextPt + 1)
    refine ⟨hplaced, hplaced.insert rfl (fun id' t' ht' _ => ?_) ?_ (fun _ => ?_)
      (fun _ => ⟨rfl, rfl⟩) nofun (hgated _ rfl rfl)⟩
    · exact (h.inLines id' t' ht').ne
    · simp
    · simp

theorem removeTrack (id : String) : Placed (c.removeTrack id) := by
  unfold Consumer.removeTrack
  split
  · exact h
  rename_i t ht
  obtain ⟨hplaced, hfree⟩ := h.erase ht .inactive
  refine hplaced.insert rfl (fun id' t' ht' _ => hfree id' t' ht') ?_
    nofun nofun
    (fun _ => ⟨rfl, rfl⟩) nofun
  rw [length_set]
  exact h.inLines id t ht

end Placed

end Consumer

end Fjarr.Core
