/-
Fjarr.Media.Lane — the frame hub as one subscriber sees it.

A subscriber is a sink of an entry. Of the shared queue it sees its lane:
the fan-out frames of its entry and its own catch-up (`lane`). Of the
entry it is its own record (`FrameHub.sub?`). The theorems below say what
every operation of the hub does to these two, so that the invariants of
whole runs never look at the entry map or at the delivery loops again:
`Calm` for everything but delivery, and `deliver_sub` for delivery.
-/
import Fjarr.Media.FrameHub

namespace Fjarr.Media

open Fjarr.Lib (Frame)
open Fjarr.Lib.Stream List Option Fjarr.Media.Sub

/-! ## Lanes -/

/-- The queued frame is for the sink, as a subscriber of the entry. -/
def Work.isFor (w : Work) (key : HubKey) (sink : Sink) : Bool :=
  w.key = key && w.only.all (· = sink)

/-- The frames of a queue for one subscriber. -/
def lane (key : HubKey) (sink : Sink) (queue : List Work) : List Frame :=
  (queue.filter fun w => w.isFor key sink).map Work.frame

theorem lane_append (key : HubKey) (sink : Sink) (xs ys : List Work) :
    lane key sink (xs ++ ys) = lane key sink xs ++ lane key sink ys := by
  rw [lane, filter_append, map_append, lane, lane]

variable {key : HubKey} {sink : Sink} {w : Work}

theorem lane_cons_of_isFor (h : w.isFor key sink = true)
    (queue : List Work) : lane key sink (w :: queue) = w.frame :: lane key sink queue := by
  simp [lane, h]

theorem lane_cons_of_not_isFor
    (h : w.isFor key sink = false) (queue : List Work) :
    lane key sink (w :: queue) = lane key sink queue := by
  simp [lane, h]

theorem lane_eq_nil {works : List Work}
    (h : ∀ w ∈ works, w.isFor key sink = false) : lane key sink works = [] := by
  rw [lane, map_eq_nil_iff, filter_eq_nil_iff]
  intro w hw
  simp [h w hw]

theorem lane_suffix {xs ys : List Work} (h : xs <:+ ys) :
    lane key sink xs <:+ lane key sink ys :=
  (h.filter _).map _

theorem mem_lane {queue : List Work} {f : Frame}
    (h : f ∈ lane key sink queue) : ∃ w ∈ queue, w.isFor key sink = true ∧ w.frame = f := by
  obtain ⟨w, hw, rfl⟩ := List.mem_map.mp h
  obtain ⟨hq, hfor⟩ := mem_filter.mp hw
  exact ⟨w, hq, hfor, rfl⟩

theorem Work.isFor_key (h : w.isFor key sink = true) :
    w.key = key := by
  rw [isFor, Bool.and_eq_true, decide_eq_true_eq] at h
  exact h.1

theorem Work.isFor_of_only_none (h : w.only = none) (key : HubKey) (sink : Sink) :
    w.isFor key sink = decide (w.key = key) := by
  simp [isFor, h]

theorem mem_catchUp {ring : List RingItem}
    (h : w ∈ FrameHub.catchUp key sink ring) : w.key = key ∧ w.only = some sink := by
  cases ring with
  | nil => simp [FrameHub.catchUp] at h
  | cons item ring =>
    rw [FrameHub.catchUp] at h
    split at h
    · obtain ⟨r, -, rfl⟩ := List.mem_map.mp h
      exact ⟨rfl, rfl⟩
    · simp at h

theorem catchUp_isFor {ring : List RingItem}
    (h : w ∈ FrameHub.catchUp key sink ring) (key' : HubKey) (sink' : Sink) :
    w.isFor key' sink' = decide (key = key' ∧ sink = sink') := by
  obtain ⟨hk, ho⟩ := mem_catchUp h
  simp [Work.isFor, hk, ho]

theorem lane_catchUp (key : HubKey) (sink : Sink) (ring : List RingItem) :
    lane key sink (FrameHub.catchUp key sink ring) = ring.map RingItem.frame ∨
      FrameHub.catchUp key sink ring = [] := by
  cases ring with
  | nil => exact .inr rfl
  | cons item ring =>
    rw [FrameHub.catchUp]
    split
    · left
      simp [lane, List.filter_map, Work.isFor, Function.comp_def, Work.frame, RingItem.frame]
    · exact .inr rfl

/-! ## Subscribers through the operations -/

namespace FrameHub

theorem sub?_setEntry_self (h : FrameHub) (key : HubKey) (e : Entry) (sink : Sink) :
    (h.setEntry key e).sub? key sink = e.subs.find? (·.sink = sink) := by
  simp [sub?, setEntry]

variable {key : HubKey} {h : FrameHub} {sink : Sink} {e : Entry}

theorem sub?_setEntry_of_ne (h : FrameHub) {key' : HubKey} (hne : key' ≠ key) (e : Entry)
    (sink : Sink) : (h.setEntry key e).sub? key' sink = h.sub? key' sink := by
  simp [sub?, setEntry, hne]

theorem sub?_eq_entry (h : FrameHub) (key : HubKey) (sink : Sink) :
    h.sub? key sink = (h.entry key).subs.find? (·.sink = sink) := by
  rw [sub?, entry]
  cases h.entries key <;> rfl

theorem sub?_sink {s : Sub}
    (hs : h.sub? key sink = some s) : s.sink = sink := by
  rw [sub?_eq_entry] at hs
  simpa using find?_some hs

/-- No sink subscribes twice to one entry. -/
def Nodup (h : FrameHub) : Prop :=
  ∀ key e, h.entries key = some e → (e.subs.map Sub.sink).Nodup

theorem Nodup.entry (hn : h.Nodup) (key : HubKey) :
    ((h.entry key).subs.map Sub.sink).Nodup := by
  rw [FrameHub.entry]
  cases he : h.entries key with
  | none => exact nodup_nil
  | some e => exact hn key e he

theorem Nodup.setEntry (hn : h.Nodup) (key : HubKey)
    (he : (e.subs.map Sub.sink).Nodup) : (h.setEntry key e).Nodup := by
  intro key' e' h'
  by_cases hk : key' = key
  · subst hk
    simp only [FrameHub.setEntry, Function.update_self, some.injEq] at h'
    exact h' ▸ he
  · simp only [FrameHub.setEntry, Function.update_of_ne hk] at h'
    exact hn key' e' h'

/-- Everything but delivery leaves a living subscriber where it was, or
starts it anew behind the keyframe gate; it opens no gate. -/
def Calm (h h' : FrameHub) : Prop :=
  ∀ key sink sub', h'.expired sink = false → h'.sub? key sink = some sub' →
    (sub'.stats.waitingKeyframe = true ∧ sub'.lastSeq = 0) ∨
    ∃ sub, h.sub? key sink = some sub ∧ h.expired sink = false ∧ sub'.lastSeq = sub.lastSeq ∧
      (sub'.stats.waitingKeyframe = false → sub.stats.waitingKeyframe = false)

theorem Calm.of_sub?_eq {h' : FrameHub} (hexp : h'.expired = h.expired)
    (hsub : ∀ key sink, h'.sub? key sink = h.sub? key sink) : Calm h h' := by
  intro key sink sub' hlive hs
  rw [hsub] at hs
  rw [hexp] at hlive
  exact .inr ⟨sub', hs, hlive, rfl, id⟩

theorem push_sub? (h : FrameHub) (key : HubKey) (sample : Sample) (key' : HubKey) (sink : Sink) :
    (h.pushRegister key sample).1.sub? key' sink = h.sub? key' sink := by
  by_cases hk : key' = key
  · subst hk
    show (h.setEntry _ _).sub? _ _ = _
    rw [sub?_setEntry_self, sub?_eq_entry]
    split <;> rfl
  · exact sub?_setEntry_of_ne h hk _ sink

theorem pushRegister_nodup (hn : h.Nodup) (key : HubKey) (sample : Sample) :
    (h.pushRegister key sample).1.Nodup := by
  refine Nodup.setEntry hn key ?_
  split <;> exact hn.entry key

theorem find?_filter_expired (hlive : h.expired sink = false)
    (subs : List Sub) :
    (subs.filter fun s => !h.expired s.sink).find? (·.sink = sink) =
      subs.find? (·.sink = sink) := by
  rw [find?_filter]
  congr 1
  funext s
  by_cases hs : s.sink = sink <;> simp [hs, hlive]

theorem subscribe_sub? (h : FrameHub) (key : HubKey) {sink' : Sink} (key' : HubKey)
    (hlive : h.expired sink' = false) (hfree : h.sub? key sink = none) :
    (h.subscribeRegister key sink).1.sub? key' sink' =
      if key' = key ∧ sink' = sink then some { sink := sink } else h.sub? key' sink' := by
  by_cases hk : key' = key
  · subst hk
    simp only [subscribeRegister, sub?_setEntry_self, find?_append,
      find?_filter_expired hlive, ← sub?_eq_entry, true_and]
    by_cases hs : sink' = sink
    · subst hs
      simp [hfree]
    · simp [hs, Ne.symm hs]
  · rw [if_neg fun hc => hk hc.1]
    exact sub?_setEntry_of_ne h hk _ sink'

theorem subscribeRegister_nodup (hn : h.Nodup) (key : HubKey)
    (hfree : h.sub? key sink = none) : (h.subscribeRegister key sink).1.Nodup := by
  refine Nodup.setEntry hn key ?_
  rw [map_append, nodup_append]
  refine ⟨(hn.entry key).sublist (filter_sublist.map _), by simp, ?_⟩
  intro s hs s' hs' heq
  obtain ⟨sub, hsub, rfl⟩ := List.mem_map.mp hs
  rw [sub?_eq_entry, find?_eq_none] at hfree
  apply hfree sub (mem_of_mem_filter hsub)
  simpa [heq] using hs'

theorem subscribe_calm (h : FrameHub) (key : HubKey)
    (hfree : h.sub? key sink = none) : Calm h (h.subscribeRegister key sink).1 := by
  intro key' sink' sub' hlive hs
  rw [subscribe_sub? h key key' hlive hfree] at hs
  split at hs
  · rw [some.injEq] at hs
    subst hs
    exact .inl ⟨rfl, rfl⟩
  · exact .inr ⟨sub', hs, hlive, rfl, id⟩

theorem unsubscribe_calm (h : FrameHub) (key : HubKey) (sink : Sink) :
    Calm h (h.unsubscribe key sink) := by
  unfold unsubscribe
  cases he : h.entries key with
  | none => exact Calm.of_sub?_eq rfl fun _ _ => rfl
  | some e =>
    intro key' sink' sub' hlive hs
    refine .inr ⟨sub', ?_, hlive, rfl, id⟩
    by_cases hk : key' = key
    · subst hk
      rw [sub?_setEntry_self, find?_filter] at hs
      rw [sub?, he, bind_some]
      have hne : sink' ≠ sink := by
        rintro rfl
        obtain ⟨⟨-, hne⟩, heq⟩ : (h.expired sub'.sink = false ∧ ¬ sub'.sink = sink') ∧
            sub'.sink = sink' := by
          simpa using find?_some hs
        exact hne heq
      rw [← hs]
      congr 1
      funext s
      by_cases heq : s.sink = sink'
      · have hl : h.expired sink' = false := hlive
        simp [heq, hl, hne]
      · simp [heq]
    · rwa [sub?_setEntry_of_ne h hk] at hs

theorem unsubscribe_nodup (hn : h.Nodup) (key : HubKey) (sink : Sink) :
    (h.unsubscribe key sink).Nodup := by
  unfold unsubscribe
  cases he : h.entries key with
  | none => exact hn
  | some e =>
    exact hn.setEntry key ((hn key e he).sublist (filter_sublist.map _))

theorem map_wait_calm {e' : Entry} (he : h.entries key = some e)
    (p : Sub → Bool) (hsubs : e'.subs = e.subs.map fun s => if p s then s.wait else s) :
    Calm h (h.setEntry key e') := by
  intro key' sink sub' hlive hs
  by_cases hk : key' = key
  · subst hk
    rw [sub?_setEntry_self, hsubs, find?_map] at hs
    obtain ⟨sub, hsub, rfl⟩ := map_eq_some_iff.mp hs
    refine .inr ⟨sub, ?_, hlive, ?_, ?_⟩
    · rw [sub?, he, bind_some, ← hsub]
      congr 1
      funext s
      by_cases hp : p s = true <;> simp [hp, wait]
    · split <;> rfl
    split
    · simp [wait]
    · exact fun hw => hw
  · rw [sub?_setEntry_of_ne h hk] at hs
    exact .inr ⟨sub', hs, hlive, rfl, id⟩

theorem map_wait_nodup (hn : h.Nodup) {e' : Entry}
    (he : h.entries key = some e) (p : Sub → Bool)
    (hsubs : e'.subs = e.subs.map fun s => if p s then s.wait else s) :
    (h.setEntry key e').Nodup := by
  refine hn.setEntry key ?_
  have hsink : (e'.subs.map sink) = e.subs.map sink := by
    rw [hsubs, List.map_map]
    apply map_congr_left
    intro s _
    by_cases hp : p s = true <;> simp [hp, wait]
  rw [hsink]
  exact hn key e he

end FrameHub

/-! ## Delivery -/

namespace Sub

/-- The subscriber takes the frame: it is addressed, newer than the last
one taken, and passes the keyframe gate. -/
def takes (s : Sub) (w : Work) : Bool :=
  s.addressed w && decide (s.lastSeq < w.seq) && (!s.stats.waitingKeyframe || w.keyframe)

theorem offer_of_takes {s : Sub} {w : Work} (h : s.takes w = true) :
    ∃ sample, (s.offer false w).2 = some sample ∧ (s.offer false w).1.lastSeq = w.seq ∧
      (s.offer false w).1.stats.waitingKeyframe = false := by
  simp only [takes, Bool.and_eq_true, decide_eq_true_eq] at h
  obtain ⟨⟨ha, hl⟩, hgate⟩ := h
  have hgate' : (s.stats.waitingKeyframe && !w.keyframe) = false := by
    cases hw : s.stats.waitingKeyframe <;> simp_all
  unfold offer
  rw [if_neg (by simp), if_neg (by simp [ha]), if_neg (by omega), if_neg (by simp [hgate'])]
  refine ⟨_, rfl, rfl, ?_⟩
  split
  · unfold start
    dsimp only
    split <;> rfl
  · rename_i hw
    exact Bool.not_eq_true _ ▸ hw

theorem offer_of_not_takes {s : Sub} {w : Work} (h : s.takes w = false) :
    (s.offer false w).2 = none ∧ (s.offer false w).1.lastSeq = s.lastSeq ∧
      (s.offer false w).1.stats.waitingKeyframe = s.stats.waitingKeyframe := by
  unfold offer
  simp only [Bool.false_eq_true, if_false]
  split
  · exact ⟨rfl, rfl, rfl⟩
  split
  · exact ⟨rfl, rfl, rfl⟩
  split
  · exact ⟨rfl, rfl, rfl⟩
  rename_i ha hl hgate
  exfalso
  simp only [Bool.not_eq_true', Bool.not_eq_false] at ha
  simp only [takes, ha, Nat.not_le.mp hl, decide_true, Bool.true_and] at h
  cases hw : s.stats.waitingKeyframe <;> simp_all

@[simp] theorem offer_sink (s : Sub) (expired : Bool) (w : Work) :
    (s.offer expired w).1.sink = s.sink := by
  unfold offer
  split
  · rfl
  split
  · rfl
  split
  · rfl
  split
  · rfl
  split
  · unfold start
    dsimp only
    split <;> rfl
  · rfl

@[simp] theorem settle_sink (s : Sub) (ok : Bool) : (s.settle ok).sink = s.sink := by
  cases ok <;> rfl

@[simp] theorem settle_lastSeq (s : Sub) (ok : Bool) : (s.settle ok).lastSeq = s.lastSeq := by
  cases ok <;> rfl

end Sub

/-- The record of what one subscriber was handed. -/
def handedTo (key : HubKey) (sink : Sink) (log : List Handed) : List Handed :=
  log.filter fun e => e.key = key && e.sink = sink

theorem handedTo_append (key : HubKey) (sink : Sink) (xs ys : List Handed) :
    handedTo key sink (xs ++ ys) = handedTo key sink xs ++ handedTo key sink ys :=
  filter_append xs ys

namespace FrameHub

theorem find?_settleFirst (sink sink' : Sink) (ok : Bool) (subs : List Sub) :
    (settleFirst sink ok subs).find? (·.sink = sink') =
      if sink' = sink then (subs.find? (·.sink = sink')).map (·.settle ok)
      else subs.find? (·.sink = sink') := by
  induction subs with
  | nil => simp [settleFirst]
  | cons s subs ih =>
    rw [settleFirst]
    by_cases hs : s.sink = sink
    · rw [if_pos hs]
      by_cases hs' : sink' = sink
      · simp [hs, hs']
      · simp [hs, hs', Ne.symm hs']
    rw [if_neg hs]
    by_cases hs' : s.sink = sink'
    · have hne : sink' ≠ sink := hs' ▸ hs
      simp [hs', hne]
    · simp only [hs', decide_false, find?_cons]
      exact ih

theorem map_sink_settleFirst (sink : Sink) (ok : Bool) (subs : List Sub) :
    (settleFirst sink ok subs).map Sub.sink = subs.map Sub.sink := by
  induction subs with
  | nil => rfl
  | cons s subs ih =>
    rw [settleFirst]
    split
    · simp
    · rw [map_cons, ih, map_cons]

theorem map_sink_pushTargets (w : Work) (accepts : Sink → Nat → Bool) (i : Nat)
    (ts : List Target) (subs : List Sub) :
    (pushTargets w accepts i ts subs).1.map Sub.sink = subs.map Sub.sink := by
  induction ts generalizing i subs with
  | nil => rfl
  | cons t ts ih => exact (ih _ _).trans (map_sink_settleFirst _ _ _)

variable {sink : Sink} {subs : List Sub} {s : Sub} {h : FrameHub} {w : Work} {key : HubKey}

theorem pushTargets_of_not_target (w : Work) (accepts : Sink → Nat → Bool)
    (i : Nat) {ts : List Target} (h : ∀ t ∈ ts, t.sink ≠ sink) (subs : List Sub) :
    (pushTargets w accepts i ts subs).1.find? (·.sink = sink) = subs.find? (·.sink = sink) ∧
      handedTo w.key sink (pushTargets w accepts i ts subs).2 = [] := by
  induction ts generalizing i subs with
  | nil => exact ⟨rfl, rfl⟩
  | cons t ts ih =>
    have ht : t.sink ≠ sink := h t mem_cons_self
    obtain ⟨hsub, hlog⟩ := ih (i + 1) (fun t' ht' => h t' (mem_cons_of_mem _ ht'))
      (settleFirst t.sink (accepts t.sink i) subs)
    constructor
    · rw [pushTargets]
      rw [hsub, find?_settleFirst, if_neg (Ne.symm ht)]
    · rw [pushTargets, handedTo, filter_cons_of_neg (by simp [ht])]
      exact hlog

theorem pushTargets_of_target (w : Work) (accepts : Sink → Nat → Bool) (i : Nat)
    {ts : List Target} (hn : (ts.map Target.sink).Nodup) {t : Target} (ht : t ∈ ts)
    (subs : List Sub) :
    ∃ j, (pushTargets w accepts i ts subs).1.find? (·.sink = t.sink) =
        (subs.find? (·.sink = t.sink)).map (·.settle (accepts t.sink j)) ∧
      handedTo w.key t.sink (pushTargets w accepts i ts subs).2 =
        [⟨w.key, t.sink, w.frame, t.sample, accepts t.sink j⟩] := by
  induction ts generalizing i subs with
  | nil => cases ht
  | cons t' ts ih =>
    rw [map_cons, nodup_cons] at hn
    rcases mem_cons.mp ht with rfl | ht
    · have hrest : ∀ t' ∈ ts, t'.sink ≠ t.sink := by
        intro t' ht' heq
        exact hn.1 (heq ▸ List.mem_map_of_mem ht')
      obtain ⟨hsub, hlog⟩ := pushTargets_of_not_target w accepts (i + 1) hrest
        (settleFirst t.sink (accepts t.sink i) subs)
      refine ⟨i, ?_, ?_⟩
      · rw [pushTargets]
        rw [hsub, find?_settleFirst, if_pos rfl]
      · rw [pushTargets, handedTo, filter_cons_of_pos (by simp)]
        exact congrArg _ hlog
    have hne : t.sink ≠ t'.sink := fun heq => hn.1 (heq ▸ List.mem_map_of_mem ht)
    obtain ⟨j, hsub, hlog⟩ := ih (i + 1) hn.2 ht (settleFirst t'.sink (accepts t'.sink i) subs)
    refine ⟨j, ?_, ?_⟩
    · rw [pushTargets]
      rw [hsub, find?_settleFirst, if_neg hne]
    · rw [pushTargets, handedTo, filter_cons_of_neg (by simp [Ne.symm hne])]
      exact hlog

theorem find?_sink_of_mem (hn : (subs.map Sub.sink).Nodup)
    (hs : s ∈ subs) : subs.find? (·.sink = s.sink) = some s := by
  induction subs with
  | nil => cases hs
  | cons s' subs ih =>
    rw [map_cons, nodup_cons] at hn
    rcases mem_cons.mp hs with rfl | hs
    · simp
    have hne : s'.sink ≠ s.sink := fun heq => hn.1 (heq ▸ List.mem_map_of_mem hs)
    rw [find?_cons_of_neg (by simpa using hne)]
    exact ih hn.2 hs

theorem targets_nodup (h : FrameHub) (w : Work)
    (hn : (subs.map Sub.sink).Nodup) : ((h.targets w subs).map Target.sink).Nodup := by
  refine hn.sublist ?_
  induction subs with
  | nil => exact List.Sublist.slnil
  | cons s subs ih =>
    rw [map_cons, nodup_cons] at hn
    rw [targets, filterMap_cons]
    cases (s.offer (h.expired s.sink) w).2 with
    | none => exact (ih hn.2).cons _
    | some sample => exact (ih hn.2).cons_cons _

theorem find?_offered (h : FrameHub) (w : Work) (subs : List Sub) (sink : Sink) :
    (subs.map fun s => (s.offer (h.expired s.sink) w).1).find? (·.sink = sink) =
      (subs.find? (·.sink = sink)).map fun s => (s.offer (h.expired s.sink) w).1 := by
  rw [find?_map]
  simp

theorem deliver_expired (h : FrameHub) (w : Work) (accepts : Sink → Nat → Bool) :
    (h.deliver w accepts).1.expired = h.expired ∧ (h.deliver w accepts).1.queue = h.queue ∧
      (h.deliver w accepts).1.nextSeq = h.nextSeq ∧
      (h.deliver w accepts).1.ringSize = h.ringSize := by
  unfold deliver
  split <;> exact ⟨rfl, rfl, rfl, rfl⟩

theorem pushTargets_frame (w : Work) (accepts : Sink → Nat → Bool) (i : Nat) (ts : List Target)
    (subs : List Sub) :
    ∀ e ∈ (pushTargets w accepts i ts subs).2, e.key = w.key ∧ e.frame = w.frame := by
  induction ts generalizing i subs with
  | nil => simp [pushTargets]
  | cons t ts ih =>
    intro e he
    rw [pushTargets] at he
    rcases mem_cons.mp he with rfl | he
    · exact ⟨rfl, rfl⟩
    · exact ih _ _ e he

theorem deliver_frame (h : FrameHub) (w : Work) (accepts : Sink → Nat → Bool) :
    ∀ e ∈ (h.deliver w accepts).2, e.key = w.key ∧ e.frame = w.frame := by
  unfold deliver
  cases h.entries w.key with
  | none => simp
  | some e => exact pushTargets_frame w accepts 0 _ _

theorem deliver_nodup (hn : h.Nodup) (w : Work) (accepts : Sink → Nat → Bool) :
    (h.deliver w accepts).1.Nodup := by
  unfold deliver
  cases he : h.entries w.key with
  | none => exact hn
  | some e =>
    refine hn.setEntry w.key ?_
    have hsink : (e.subs.map fun s => (s.offer (h.expired s.sink) w).1).map sink =
        e.subs.map sink := by
      simp [Function.comp_def]
    rw [map_sink_pushTargets, hsink]
    exact hn w.key e he

theorem deliver_sub_of_ne (h : FrameHub) (accepts : Sink → Nat → Bool)
    (hk : key ≠ w.key) (sink : Sink) :
    (h.deliver w accepts).1.sub? key sink = h.sub? key sink ∧
      handedTo key sink (h.deliver w accepts).2 = [] := by
  constructor
  · unfold deliver
    cases h.entries w.key with
    | none => rfl
    | some e => exact sub?_setEntry_of_ne h hk _ sink
  rw [handedTo, filter_eq_nil_iff]
  intro e he
  have hkey := (h.deliver_frame w accepts e he).1
  simp [hkey, Ne.symm hk]

theorem offered_of_mem_targets
    (hn : (subs.map Sub.sink).Nodup) {t : Target} (ht : t ∈ h.targets w subs) :
    ∃ s, subs.find? (·.sink = t.sink) = some s ∧
      (s.offer (h.expired t.sink) w).2 = some t.sample := by
  obtain ⟨s, hs, hst⟩ := mem_filterMap.mp ht
  obtain ⟨sample, hsample, rfl⟩ := map_eq_some_iff.mp hst
  exact ⟨s, find?_sink_of_mem hn hs, hsample⟩

theorem sink_ne_of_mem_targets
    (hn : (subs.map Sub.sink).Nodup)
    (hnone : ∀ s, subs.find? (·.sink = sink) = some s → (s.offer (h.expired sink) w).2 = none) :
    ∀ t ∈ h.targets w subs, t.sink ≠ sink := by
  rintro t ht rfl
  obtain ⟨s, hs, hsample⟩ := offered_of_mem_targets hn ht
  rw [hnone s hs] at hsample
  cases hsample

/-- What a delivery does to a subscriber of its entry: the offer, and when
that hands it the frame, the sink's answer. -/
theorem deliver_sub (hn : h.Nodup) (w : Work) (accepts : Sink → Nat → Bool)
    (sink : Sink) :
    match h.sub? w.key sink with
    | none => (h.deliver w accepts).1.sub? w.key sink = none ∧
        handedTo w.key sink (h.deliver w accepts).2 = []
    | some s =>
      match s.offer (h.expired sink) w with
      | (s', none) => (h.deliver w accepts).1.sub? w.key sink = some s' ∧
          handedTo w.key sink (h.deliver w accepts).2 = []
      | (s', some sample) => ∃ j,
          (h.deliver w accepts).1.sub? w.key sink = some (s'.settle (accepts sink j)) ∧
          handedTo w.key sink (h.deliver w accepts).2 =
            [⟨w.key, sink, w.frame, sample, accepts sink j⟩] := by
  unfold deliver
  cases he : h.entries w.key with
  | none => simp [sub?, he, handedTo]
  | some e =>
    have hne := hn w.key e he
    have hsub : h.sub? w.key sink = e.subs.find? (·.sink = sink) := by
      rw [sub?, he, bind_some]
    simp only [sub?_setEntry_self]
    rw [hsub]
    cases hfind : e.subs.find? (·.sink = sink) with
    | none =>
      have hnot : ∀ t ∈ h.targets w e.subs, t.sink ≠ sink :=
        sink_ne_of_mem_targets hne fun s hs => by simp [hfind] at hs
      obtain ⟨h1, h2⟩ := pushTargets_of_not_target w accepts 0 hnot
        (e.subs.map fun s => (s.offer (h.expired s.sink) w).1)
      refine ⟨?_, h2⟩
      rw [h1, find?_offered, hfind]
      rfl
    | some s =>
      have hsink : s.sink = sink := by simpa using find?_some hfind
      cases hoffer : (s.offer (h.expired sink) w).2 with
      | none =>
        have hnot : ∀ t ∈ h.targets w e.subs, t.sink ≠ sink := by
          refine sink_ne_of_mem_targets hne fun s' hs' => ?_
          obtain rfl : s = s' := some.inj (hfind.symm.trans hs')
          exact hoffer
        obtain ⟨h1, h2⟩ := pushTargets_of_not_target w accepts 0 hnot
          (e.subs.map fun s => (s.offer (h.expired s.sink) w).1)
        dsimp only
        split
        · rename_i s' heq
          refine ⟨?_, h2⟩
          rw [h1, find?_offered, hfind, map_some, hsink, heq]
        rename_i s' sample heq
        rw [heq] at hoffer
        cases hoffer
      | some sample =>
        have hmem : ⟨sink, sample⟩ ∈ h.targets w e.subs := by
          refine mem_filterMap.mpr ⟨s, mem_of_find?_eq_some hfind, ?_⟩
          rw [hsink, hoffer]
          rfl
        obtain ⟨j, h1, h2⟩ := pushTargets_of_target w accepts 0 (h.targets_nodup w hne) hmem
          (e.subs.map fun s => (s.offer (h.expired s.sink) w).1)
        dsimp only
        split
        · rename_i s' heq
          rw [heq] at hoffer
          cases hoffer
        rename_i s' sample' heq
        obtain rfl : sample' = sample := by
          rw [heq] at hoffer
          exact some.inj hoffer
        refine ⟨j, ?_, h2⟩
        rw [h1, find?_offered, hfind, map_some, map_some, hsink, heq]

/-- A living subscriber either takes the delivered frame, and its sink's
answer sets the gate, or stays where it is. -/
theorem deliver_live (hn : h.Nodup) (accepts : Sink → Nat → Bool)
    (hlive : h.expired sink = false) (hs : h.sub? w.key sink = some s) :
    (s.takes w = true ∧ ∃ s' j e, (h.deliver w accepts).1.sub? w.key sink = some s' ∧
        s'.lastSeq = w.seq ∧ s'.stats.waitingKeyframe = !accepts sink j ∧
        handedTo w.key sink (h.deliver w accepts).2 = [e] ∧ e.frame = w.frame ∧
        e.accepted = accepts sink j) ∨
    (s.takes w = false ∧ ∃ s', (h.deliver w accepts).1.sub? w.key sink = some s' ∧
        s'.lastSeq = s.lastSeq ∧ s'.stats.waitingKeyframe = s.stats.waitingKeyframe ∧
        handedTo w.key sink (h.deliver w accepts).2 = []) := by
  have hd := deliver_sub hn w accepts sink
  rw [hs] at hd
  simp only [hlive] at hd
  cases ht : s.takes w with
  | true =>
    obtain ⟨sample, h2, hseq, hgate⟩ := offer_of_takes ht
    cases ho : s.offer false w with
    | mk s' out =>
      rw [ho] at hd h2 hseq hgate
      dsimp only at h2 hseq hgate
      subst h2
      obtain ⟨j, hsub, hlog⟩ := hd
      refine .inl ⟨rfl, _, j, _, hsub, ?_, ?_, hlog, rfl, rfl⟩
      · rw [settle_lastSeq, hseq]
      · cases accepts sink j <;> simp [settle, hgate]
  | false =>
    obtain ⟨h2, hseq, hgate⟩ := offer_of_not_takes ht
    cases ho : s.offer false w with
    | mk s' out =>
      rw [ho] at hd h2 hseq hgate
      subst h2
      exact .inr ⟨rfl, s', hd.1, hseq, hgate, hd.2⟩

/-- The subscriber is offered the frame and takes it. -/
def takesFrom (s : Sub) (key : HubKey) (w : Work) : Prop := w.key = key ∧ s.takes w = true

instance (s : Sub) (key : HubKey) (w : Work) : Decidable (takesFrom s key w) :=
  inferInstanceAs (Decidable (_ ∧ _))

/-- The position of a subscriber once it was offered the frame. -/
def positionAfter (s : Sub) (key : HubKey) (w : Work) : Nat :=
  if takesFrom s key w then w.seq else s.lastSeq

/-- What a delivery does to a subscriber: the frame is handed over and its
answer kept, or nothing happens. -/
def Offered (h : FrameHub) (w : Work) (accepts : Sink → Nat → Bool) (key : HubKey) (sink : Sink)
    (s s' : Sub) : Prop :=
  s'.lastSeq = positionAfter s key w ∧
    ((takesFrom s key w ∧ ∃ e j, handedTo key sink (h.deliver w accepts).2 = [e] ∧
        e.frame = w.frame ∧ e.accepted = accepts sink j ∧
        s'.stats.waitingKeyframe = !e.accepted) ∨
      (¬ takesFrom s key w ∧ handedTo key sink (h.deliver w accepts).2 = [] ∧
        s'.stats.waitingKeyframe = s.stats.waitingKeyframe))

theorem deliver_at (hn : h.Nodup) (w : Work) (accepts : Sink → Nat → Bool)
    (hlive : h.expired sink = false)
    (hs : h.sub? key sink = some s) :
    ∃ s', (h.deliver w accepts).1.sub? key sink = some s' ∧ Offered h w accepts key sink s s' := by
  by_cases hk : key = w.key
  · subst hk
    rcases deliver_live hn accepts hlive hs with
      ⟨ht, s', j, e, hs', hseq, hgate, hlog, hf, hacc⟩ | ⟨ht, s', hs', hseq, hgate, hlog⟩
    · have htake : takesFrom s w.key w := ⟨rfl, ht⟩
      refine ⟨s', hs', ?_, .inl ⟨htake, e, j, hlog, hf, hacc, ?_⟩⟩
      · rw [positionAfter, if_pos htake, hseq]
      · rw [hacc, hgate]
    have htake : ¬ takesFrom s w.key w := by
      rintro ⟨-, h⟩
      rw [ht] at h
      cases h
    refine ⟨s', hs', ?_, .inr ⟨htake, hlog, hgate⟩⟩
    rw [positionAfter, if_neg htake, hseq]
  have htake : ¬ takesFrom s key w := fun h => hk h.1.symm
  obtain ⟨hsub, hlog⟩ := h.deliver_sub_of_ne accepts hk sink
  refine ⟨s, hsub.trans hs, ?_, .inr ⟨htake, hlog, rfl⟩⟩
  rw [positionAfter, if_neg htake]

theorem deliver_of_expired (hn : h.Nodup) (w : Work) (accepts : Sink → Nat → Bool)
    (hexp : h.expired sink = true) :
    handedTo w.key sink (h.deliver w accepts).2 = [] := by
  have hd := deliver_sub hn w accepts sink
  cases hs : h.sub? w.key sink with
  | none =>
    rw [hs] at hd
    exact hd.2
  | some s =>
    rw [hs] at hd
    simp only [hexp, offer, if_true] at hd
    exact hd.2

theorem takesFrom_iff
    (hs : h.sub? key sink = some s) (w : Work) :
    takesFrom s key w ↔ w.isFor key sink = true ∧ s.lastSeq < w.seq ∧
      (s.stats.waitingKeyframe = false ∨ w.keyframe = true) := by
  rw [takesFrom, takes, addressed, sub?_sink hs, Work.isFor]
  simp only [Bool.and_eq_true, decide_eq_true_eq, Bool.or_eq_true, Bool.not_eq_true']
  tauto

section

variable (hn : h.Nodup) (w : Work) (accepts : Sink → Nat → Bool)
include hn

theorem sub?_of_deliver {s' : Sub}
    (hs : (h.deliver w accepts).1.sub? key sink = some s') : ∃ s, h.sub? key sink = some s := by
  by_cases hk : key = w.key
  · subst hk
    have hd := deliver_sub hn w accepts sink
    cases hs0 : h.sub? w.key sink with
    | none =>
      rw [hs0] at hd
      rw [hd.1] at hs
      cases hs
    | some s => exact ⟨s, rfl⟩
  · rw [(h.deliver_sub_of_ne accepts hk sink).1] at hs
    exact ⟨s', hs⟩

theorem deliver_before (hlive : h.expired sink = false) {s' : Sub}
    (hs' : (h.deliver w accepts).1.sub? key sink = some s') :
    ∃ s, h.sub? key sink = some s ∧ Offered h w accepts key sink s s' := by
  obtain ⟨s, hs⟩ := sub?_of_deliver hn w accepts hs'
  obtain ⟨s'', hs'', hat⟩ := deliver_at hn w accepts hlive hs
  obtain rfl : s' = s'' := some.inj (hs'.symm.trans hs'')
  exact ⟨s, hs, hat⟩

/-- What a delivery hands a sink of an entry: nothing, or the frame once,
to a living subscriber that takes it. -/
theorem deliver_handed (key : HubKey) (sink : Sink) :
    handedTo key sink (h.deliver w accepts).2 = [] ∨
      h.expired sink = false ∧ ∃ s, h.sub? key sink = some s ∧ takesFrom s key w ∧
        ∃ e, handedTo key sink (h.deliver w accepts).2 = [e] ∧ e.frame = w.frame := by
  by_cases hk : key = w.key
  · subst hk
    cases hexp : h.expired sink with
    | true => exact .inl (deliver_of_expired hn w accepts hexp)
    | false =>
      cases hs : h.sub? w.key sink with
      | none =>
        have hd := deliver_sub hn w accepts sink
        rw [hs] at hd
        exact .inl hd.2
      | some s =>
        obtain ⟨s', -, -, ⟨ht, e, j, hlog, hf, -⟩ | ⟨-, hlog, -⟩⟩ := deliver_at hn w accepts hexp hs
        · exact .inr ⟨rfl, s, rfl, ht, e, hlog, hf⟩
        · exact .inl hlog
  · exact .inl (h.deliver_sub_of_ne accepts hk sink).2

end

/-! ## Rings -/

/-- The frames in the ring of an entry. -/
def ringOf (h : FrameHub) (key : HubKey) : List Frame :=
  (h.entry key).ring.map RingItem.frame

theorem ringOf_setEntry (h : FrameHub) (key : HubKey) (e : Entry) (key' : HubKey) :
    (h.setEntry key e).ringOf key' =
      if key' = key then e.ring.map RingItem.frame else h.ringOf key' := by
  by_cases hk : key' = key
  · subst hk
    simp [ringOf, entry, setEntry]
  · simp [ringOf, entry, setEntry, hk]

theorem ringOf_setEntry_same {e e' : Entry}
    (he : h.entries key = some e) (hring : e'.ring = e.ring) (key' : HubKey) :
    (h.setEntry key e').ringOf key' = h.ringOf key' := by
  rw [ringOf_setEntry]
  split
  · rename_i hk
    subst hk
    rw [hring, ringOf, entry, he]
    rfl
  · rfl

theorem ringOf_deliver (h : FrameHub) (w : Work) (accepts : Sink → Nat → Bool) (key : HubKey) :
    (h.deliver w accepts).1.ringOf key = h.ringOf key := by
  unfold deliver
  cases he : h.entries w.key with
  | none => rfl
  | some e =>
    rw [ringOf_setEntry_same he]
    rfl

/-- The hub with its front popped and the overrun skipped, which the worker
delivers the front against. -/
def popped (h : FrameHub) (rest : List Work) : FrameHub := { h with queue := h.skip rest }

section Popped

variable (h : FrameHub) (rest : List Work)

theorem popped_nodup {h : FrameHub} (hn : h.Nodup) : (h.popped rest).Nodup := hn

theorem deliver_popped (front : Work) (accepts : Sink → Nat → Bool) :
    ((h.popped rest).deliver front accepts).1.expired = h.expired ∧
      ((h.popped rest).deliver front accepts).1.queue = h.skip rest ∧
      ((h.popped rest).deliver front accepts).1.nextSeq = h.nextSeq := by
  obtain ⟨hexp, hqueue, hnext, -⟩ := (h.popped rest).deliver_expired front accepts
  exact ⟨hexp, hqueue, hnext⟩

end Popped

theorem work_cases {accepts : Sink → Nat → Bool} {r : FrameHub × List Handed}
    (hr : h.work accepts = some r) :
    ∃ front rest, h.queue = front :: rest ∧ r = (h.popped rest).deliver front accepts := by
  unfold work at hr
  cases hq : h.queue with
  | nil =>
    rw [hq] at hr
    cases hr
  | cons front rest =>
    rw [hq, some.injEq] at hr
    exact ⟨front, rest, rfl, hr.symm⟩

section

variable (h : FrameHub) (key : HubKey)

theorem ringOf_pushRegister (sample : Sample) (key' : HubKey) :
    (h.pushRegister key sample).1.ringOf key' <:+
      if key' = key then h.ringOf key ++ [(h.pushRegister key sample).2.frame]
      else h.ringOf key' := by
  show (h.setEntry _ _).ringOf key' <:+ _
  rw [ringOf_setEntry]
  split
  · refine ((drop_suffix _ _).map _).trans ?_
    rw [map_append]
    refine (suffix_append_self_iff).mpr ?_
    split
    · exact nil_suffix
    · exact suffix_rfl
  · exact suffix_rfl

theorem ringOf_subscribeRegister (sink : Sink) (key' : HubKey) :
    (h.subscribeRegister key sink).1.ringOf key' = h.ringOf key' := by
  show (h.setEntry _ _).ringOf key' = _
  rw [ringOf_setEntry]
  split
  · rename_i hk
    subst hk
    rfl
  · rfl

theorem lane_push (sample : Sample) (key' : HubKey) (sink : Sink) :
    lane key' sink (h.push key sample).queue =
      lane key' sink h.queue ++
        if key' = key then [(h.pushRegister key sample).2.frame] else [] := by
  show lane key' sink (h.queue ++ [(h.pushRegister key sample).2]) = _
  generalize hx : (h.pushRegister key sample).2 = x
  have hkey : x.key = key := by subst hx; rfl
  have honly : x.only = none := by subst hx; rfl
  rw [lane_append]
  congr 1
  by_cases hk : key' = key
  · simp [lane, Work.isFor_of_only_none honly, hkey, hk]
  · simp [lane, Work.isFor_of_only_none honly, hkey, hk, Ne.symm hk]

theorem lane_subscribeRegister (sink : Sink) :
    lane key sink (h.subscribeRegister key sink).2 = h.ringOf key ∨
      (h.subscribeRegister key sink).2 = [] :=
  lane_catchUp key sink _

end

theorem lane_subscribeRegister_of_ne (h : FrameHub) {key' : HubKey} {sink' : Sink}
    (hne : ¬ (key' = key ∧ sink' = sink)) :
    lane key' sink' (h.subscribeRegister key sink).2 = [] := by
  refine lane_eq_nil fun x hx => ?_
  rw [catchUp_isFor hx]
  simpa using fun h1 h2 => hne ⟨h1.symm, h2.symm⟩

end FrameHub

end Fjarr.Media
