/-
Fjarr.Media.Overrun — the streams the frame hub's worker hands out.

Delivery is meant to keep every stream decodable: a frame that is not a
keyframe is handed to a sink only directly after its predecessor
(`Decodable`). The overrun skip in `thread_main` breaks this: it drops
queued frames of every entry by the keyframe flag of the front item alone,
and tells no subscriber (`overrun_breaks_stream`: one entry, a ring of
one; the skip empties the queue, and the next delta frame is handed on).

`overrun_decodable` is what holds in every run: while each skip leaves the
subscribers it takes frames from with a keyframe next (`SkipSpares`), and
no sink subscribes twice to one entry, every stream stays decodable.

Per subscriber the invariant has two parts: its lane is `Seamless`, which
no operation breaks, and an open gate is `Ready` for what comes next,
which only a skip can break.
-/
import Fjarr.Lib.Transition
import Fjarr.Media.Lane

namespace Fjarr.Media.Overrun

open Fjarr.Lib (Frame)
open Fjarr.Lib.Stream List FrameHub

/-! ## The system -/

/-- The hub, the frames pushed to each entry, and everything handed to
sinks so far. -/
structure World where
  hub : FrameHub
  pushed : HubKey → List Frame := fun _ => []
  log : List Handed := []

/-- The operations on the hub, each atomic. -/
inductive Act where
  | push (key : HubKey) (sample : Sample)
  | subscribe (key : HubKey) (sink : Sink)
  | unsubscribe (key : HubKey) (sink : Sink)
  | resync (key : HubKey) (sink : Sink)
  | clear (key : HubKey)
  | expire (sink : Sink)
  | work (accepts : Sink → Nat → Bool)

def step (w : World) : Act → Option World
  | .push key sample => some
      { w with
        hub := w.hub.push key sample
        pushed := Function.update w.pushed key
          (w.pushed key ++ [(w.hub.pushRegister key sample).2.frame]) }
  | .subscribe key sink => some { w with hub := w.hub.subscribe key sink }
  | .unsubscribe key sink => some { w with hub := w.hub.unsubscribe key sink }
  | .resync key sink => some { w with hub := w.hub.resync key sink }
  | .clear key => some { w with hub := w.hub.clear key }
  | .expire sink => some
      { w with hub := { w.hub with expired := Function.update w.hub.expired sink true } }
  | .work accepts => (w.hub.work accepts).map fun r => { w with hub := r.1, log := w.log ++ r.2 }

def system (ringSize : Nat) : Lib.System World Act where
  init := { hub := { ringSize } }
  step := step

/-- Every frame a sink was handed is a keyframe, or directly follows in
push order the frame it was handed before and accepted. -/
def Decodable (w : World) : Prop :=
  ∀ key sink before e after, handedTo key sink w.log = before ++ e :: after →
    e.frame.keyframe = false →
    ∃ p, before.getLast? = some p ∧ p.accepted = true ∧ [p.frame, e.frame] <:+: w.pushed key

/-! ## The condition -/

/-- The frames an overrun skip drops. -/
def skipped (h : FrameHub) (rest : List Work) : List Work :=
  if h.ringSize < rest.length then rest.takeWhile fun w => !w.keyframe else []

/-- The overrun skip behind `front` spares every open stream: where it
drops a frame some living subscriber still needed, the next frame left for
that subscriber is a keyframe. A subscriber that waits for a keyframe
before and after `front` needs none. -/
def SkipSpares (h : FrameHub) (front : Work) (rest : List Work) : Prop :=
  ∀ key sink s, h.expired sink = false → h.sub? key sink = some s →
    (s.stats.waitingKeyframe = true → FrameHub.takesFrom s key front) →
    ∀ x ∈ skipped h rest, x.isFor key sink = true →
      FrameHub.positionAfter s key front < x.seq →
      ∃ y, (lane key sink (h.skip rest)).find?
          (fun y => FrameHub.positionAfter s key front < y.seq) = some y ∧ y.keyframe = true

/-- What is asked of every step of a run. -/
def Fair (w : World) : Act → Prop
  | .subscribe key sink => w.hub.sub? key sink = none
  | .work _ => ∀ front rest, w.hub.queue = front :: rest → SkipSpares w.hub front rest
  | _ => True

theorem skipped_append_skip (h : FrameHub) (rest : List Work) :
    skipped h rest ++ h.skip rest = rest := by
  rw [skipped, skip]
  split
  · exact takeWhile_append_dropWhile
  · rfl

/-! ## The invariant -/

/-- An open gate at position `n`: the queue holds the stream's remainder,
or the reader next takes a keyframe. -/
def Ready (n : Nat) (stream queue : List Frame) : Prop :=
  Complete n stream queue ∨ ∃ f rest, taken n queue = f :: rest ∧ f.keyframe = true

theorem head?_taken (n : Nat) (queue : List Frame) :
    (taken n queue).head? = queue.find? fun f => n < f.seq := by
  induction queue with
  | nil => rfl
  | cons f queue ih =>
    rw [taken]
    by_cases hf : n < f.seq
    · simp [hf]
    · simpa [hf] using ih

variable {n : Nat} {stream queue : List Frame} {f : Frame} {w : World} {key : HubKey}
  {sink : Sink} {rest : List Work}

theorem Ready.pass
    (h : Ready n stream (f :: queue)) (hf : f.seq ≤ n) : Ready n stream queue := by
  have heq : taken n (f :: queue) = taken n queue := by rw [taken, if_neg (by omega)]
  rcases h with h | ⟨g, rest, h, hk⟩
  · exact .inl ((complete_cons_of_le hf).mp h)
  · exact .inr ⟨g, rest, heq ▸ h, hk⟩

theorem Ready.snoc {g : Frame} (h : Ready n stream queue)
    (hq : ∀ f ∈ queue, f.seq < g.seq) (hn : n < g.seq) :
    Ready n (stream ++ [g]) (queue ++ [g]) := by
  rcases h with h | ⟨f, rest, h, hk⟩
  · exact .inl (h.snoc hq hn)
  · refine .inr ⟨f, rest ++ [g], ?_, hk⟩
    rw [taken_snoc hq hn, h, cons_append]

/-- The delta frame an open gate takes next directly follows the last. -/
theorem Ready.front
    (h : Ready n stream (f :: queue)) (hf : n < f.seq) (hk : f.keyframe = false) :
    newer n stream = f :: taken f.seq queue := by
  rcases h with h | ⟨g, rest, h, hg⟩
  · exact h.front hf
  rw [taken, if_pos hf] at h
  obtain ⟨rfl, -⟩ := List.cons.inj h
  rw [hk] at hg
  cases hg

/-- A skip leaves an open gate ready when it drops nothing the reader
needs, or leaves it a keyframe next. -/
theorem Ready.skip {dropped kept : List Frame}
    (h : Ready n stream (dropped ++ kept))
    (hspare : ∀ f ∈ dropped, n < f.seq →
      ∃ g, kept.find? (fun g => n < g.seq) = some g ∧ g.keyframe = true) :
    Ready n stream kept := by
  by_cases hd : ∀ f ∈ dropped, f.seq ≤ n
  · rwa [Ready, Complete, taken_append_of_le hd] at h
  obtain ⟨f, hf, hn⟩ : ∃ f ∈ dropped, n < f.seq := by
    simpa using hd
  obtain ⟨g, hg, hk⟩ := hspare f hf hn
  rw [← head?_taken] at hg
  obtain ⟨rest, hrest⟩ := head?_eq_some_iff.mp hg
  exact .inr ⟨g, rest, hrest, hk⟩

structure Inv (w : World) : Prop where
  nodup : w.hub.Nodup
  started : 0 < w.hub.nextSeq
  increasing : ∀ key, Increasing (w.pushed key)
  bounded : ∀ key, ∀ f ∈ w.pushed key, 0 < f.seq ∧ f.seq < w.hub.nextSeq
  queued : ∀ x ∈ w.hub.queue, x.frame ∈ w.pushed x.key
  ring : ∀ key, w.hub.ringOf key <:+ w.pushed key
  position : ∀ key sink s, w.hub.expired sink = false → w.hub.sub? key sink = some s →
    s.lastSeq < w.hub.nextSeq
  seamless : ∀ key sink, Seamless 0 (w.pushed key) (lane key sink w.hub.queue)
  ready : ∀ key sink s, w.hub.expired sink = false → w.hub.sub? key sink = some s →
    s.stats.waitingKeyframe = false →
    Ready s.lastSeq (w.pushed key) (lane key sink w.hub.queue)
  handed : ∀ e ∈ w.log, e.frame ∈ w.pushed e.key
  last : ∀ key sink s, w.hub.expired sink = false → w.hub.sub? key sink = some s →
    s.stats.waitingKeyframe = false →
    ∃ e, (handedTo key sink w.log).getLast? = some e ∧ e.accepted = true ∧
      e.frame.seq = s.lastSeq
  decodable : Decodable w

theorem Inv.init (ringSize : Nat) : Inv (system ringSize).init where
  nodup := by intro key e h; cases h
  started := Nat.one_pos
  increasing := fun _ => List.Pairwise.nil
  bounded := by intro key f h; cases h
  queued := by intro x h; cases h
  ring := fun _ => nil_suffix
  position := by intro key sink s _ h; cases h
  seamless := fun _ _ => seamless_nil _ _
  ready := by intro key sink s _ h; cases h
  handed := by intro e h; cases h
  last := by intro key sink s _ h; cases h
  decodable := by
    intro key sink before e after h
    have := congrArg length h
    simp [handedTo, system] at this

theorem Inv.lane_pushed (hw : Inv w)
    (hf : f ∈ lane key sink w.hub.queue) : f ∈ w.pushed key := by
  obtain ⟨x, hx, hfor, rfl⟩ := mem_lane hf
  exact Work.isFor_key hfor ▸ hw.queued x hx

/-- A step that opens no gate, with every lane and position as before. -/
theorem Inv.calm (hw : Inv w) {h : FrameHub} (hcalm : FrameHub.Calm w.hub h)
    (hnodup : h.Nodup) (hqueue : h.queue = w.hub.queue) (hnext : h.nextSeq = w.hub.nextSeq)
    (hring : ∀ key, h.ringOf key <:+ w.hub.ringOf key) : Inv { w with hub := h } where
  nodup := hnodup
  started := hnext ▸ hw.started
  increasing := hw.increasing
  bounded := by rw [hnext]; exact hw.bounded
  queued := by rw [hqueue]; exact hw.queued
  ring := fun key => (hring key).trans (hw.ring key)
  position := by
    intro key sink s hlive hs
    rw [hnext]
    rcases hcalm key sink s hlive hs with ⟨-, h0⟩ | ⟨s0, hs0, hlive0, hseq, -⟩
    · rw [h0]
      exact hw.started
    · rw [hseq]
      exact hw.position key sink s0 hlive0 hs0
  seamless := by rw [hqueue]; exact hw.seamless
  ready := by
    intro key sink s hlive hs hopen
    rw [hqueue]
    rcases hcalm key sink s hlive hs with ⟨hwait, -⟩ | ⟨s0, hs0, hlive0, hseq, hgate⟩
    · rw [hwait] at hopen
      cases hopen
    · rw [hseq]
      exact hw.ready key sink s0 hlive0 hs0 (hgate hopen)
  handed := hw.handed
  last := by
    intro key sink s hlive hs hopen
    rcases hcalm key sink s hlive hs with ⟨hwait, -⟩ | ⟨s0, hs0, hlive0, hseq, hgate⟩
    · rw [hwait] at hopen
      cases hopen
    · rw [hseq]
      exact hw.last key sink s0 hlive0 hs0 (hgate hopen)
  decodable := hw.decodable

/-! ## One step -/

section

variable (hw : Inv w)
include hw

theorem unsubscribe_inv (key : HubKey) (sink : Sink) :
    Inv { w with hub := w.hub.unsubscribe key sink } := by
  have hcalm := w.hub.unsubscribe_calm key sink
  have hnodup := unsubscribe_nodup hw.nodup key sink
  revert hcalm hnodup
  unfold unsubscribe
  cases he : w.hub.entries key with
  | none => exact fun _ _ => hw
  | some e =>
    intro hcalm hnodup
    refine hw.calm hcalm hnodup rfl rfl fun key' => ?_
    rw [ringOf_setEntry_same he]
    rfl

theorem resync_inv (key : HubKey) (sink : Sink) :
    Inv { w with hub := w.hub.resync key sink } := by
  unfold resync
  cases he : w.hub.entries key with
  | none => exact hw
  | some e =>
    refine hw.calm (map_wait_calm he _ rfl) (map_wait_nodup hw.nodup he _ rfl)
      rfl rfl fun key' => ?_
    rw [ringOf_setEntry_same he]
    rfl

theorem clear_inv (key : HubKey) :
    Inv { w with hub := w.hub.clear key } := by
  unfold clear
  cases he : w.hub.entries key with
  | none => exact hw
  | some e =>
    have hsubs : e.subs.map Sub.wait = e.subs.map fun s => if true then s.wait else s := by simp
    refine hw.calm (map_wait_calm he (fun _ => true) hsubs)
      (map_wait_nodup hw.nodup he (fun _ => true) hsubs) rfl rfl fun key' => ?_
    rw [ringOf_setEntry]
    split
    · exact nil_suffix
    · exact suffix_rfl

theorem expire_inv (sink : Sink) :
    Inv { w with hub := { w.hub with expired := Function.update w.hub.expired sink true } } := by
  refine hw.calm ?_ hw.nodup rfl rfl fun _ => suffix_rfl
  intro key sink' s hlive hs
  refine .inr ⟨s, hs, ?_, rfl, id⟩
  by_cases hk : sink' = sink
  · simp [hk] at hlive
  · simpa [hk] using hlive

theorem Inv.le_ring_last
    (hf : (w.hub.ringOf key).getLast? = some f) : ∀ g ∈ w.pushed key, g.seq ≤ f.seq := by
  intro g hg
  have hinc := hw.increasing key
  obtain ⟨before, hsplit⟩ := hw.ring key
  obtain ⟨init, hinit⟩ := getLast?_eq_some_iff.mp hf
  rw [← hsplit, hinit, ← append_assoc] at hg hinc
  rcases Lib.mem_snoc.mp hg with hg | rfl
  · exact Nat.le_of_lt ((pairwise_append.mp hinc).2.2 g hg f (by simp))
  · rfl

theorem Inv.seamless_ring (key : HubKey) (sink : Sink) :
    Seamless 0 (w.pushed key) (w.hub.ringOf key ++ lane key sink w.hub.queue) := by
  obtain ⟨before, hsplit⟩ := hw.ring key
  have hpushed : w.pushed key = before ++ w.hub.ringOf key ++ [] := by simp [hsplit]
  have hinc := hw.increasing key
  have hseam := hw.seamless key sink
  rw [hpushed] at hinc hseam ⊢
  refine seamless_catchUp hinc hseam fun f hf _ => ?_
  rw [← hpushed, Complete, newer_eq_nil (hw.le_ring_last hf)]
  exact taken_eq_nil fun g hg => hw.le_ring_last hf g (hw.lane_pushed hg)

theorem subscribe_inv
    (hfree : w.hub.sub? key sink = none) : Inv { w with hub := w.hub.subscribe key sink } := by
  have hreg : Inv { w with hub := (w.hub.subscribeRegister key sink).1 } := by
    refine hw.calm (w.hub.subscribe_calm key hfree)
      (subscribeRegister_nodup hw.nodup key hfree) rfl rfl fun key' => ?_
    rw [ringOf_subscribeRegister]
  have hqueue : (w.hub.subscribe key sink).queue =
      (w.hub.subscribeRegister key sink).2 ++ w.hub.queue := rfl
  have hcatch := w.hub.lane_subscribeRegister key sink
  refine { hreg with queued := ?_, seamless := ?_, ready := ?_ }
  · intro x hx
    rcases mem_append.mp hx with hx | hx
    · have hfor : x.isFor key sink = true := by rw [catchUp_isFor hx]; simp
      have hmem : x.frame ∈ lane key sink (w.hub.subscribeRegister key sink).2 :=
        mem_map_of_mem (mem_filter.mpr ⟨hx, hfor⟩)
      rcases hcatch with heq | heq
      · rw [heq] at hmem
        rw [Work.isFor_key hfor]
        exact (hw.ring key).subset hmem
      · rw [heq] at hx
        cases hx
    · exact hw.queued x hx
  · intro key' sink'
    rw [hqueue, lane_append]
    by_cases hk : key' = key ∧ sink' = sink
    · obtain ⟨rfl, rfl⟩ := hk
      rcases hcatch with heq | heq
      · rw [heq]
        exact hw.seamless_ring key' sink'
      · rw [heq]
        exact hw.seamless key' sink'
    · rw [w.hub.lane_subscribeRegister_of_ne hk]
      exact hw.seamless key' sink'
  intro key' sink' s hlive hs hopen
  have hne : ¬ (key' = key ∧ sink' = sink) := by
    rintro ⟨rfl, rfl⟩
    have hnew : (w.hub.subscribeRegister key' sink').1.sub? key' sink' = some s := hs
    rw [w.hub.subscribe_sub? key' key' hlive hfree, if_pos ⟨rfl, rfl⟩,
      Option.some.injEq] at hnew
    rw [← hnew] at hopen
    cases hopen
  rw [hqueue, lane_append, w.hub.lane_subscribeRegister_of_ne hne]
  exact hreg.ready key' sink' s hlive hs hopen

theorem push_inv (key : HubKey) (sample : Sample) :
    Inv { w with
      hub := w.hub.push key sample
      pushed := Function.update w.pushed key
        (w.pushed key ++ [(w.hub.pushRegister key sample).2.frame]) } := by
  generalize hf : (w.hub.pushRegister key sample).2 = x
  have hseq : x.frame.seq = w.hub.nextSeq := by subst hf; rfl
  have hkey : x.key = key := by subst hf; rfl
  have honly : x.only = none := by subst hf; rfl
  have hqueue : (w.hub.push key sample).queue = w.hub.queue ++ [x] := by
    rw [← hf]
    rfl
  have hsub : ∀ key' sink, (w.hub.push key sample).sub? key' sink = w.hub.sub? key' sink :=
    fun key' sink => w.hub.push_sub? key sample key' sink
  have hlane := w.hub.lane_push key sample
  rw [hf] at hlane
  have hpushed := fun key' => update_snoc w.pushed key key' x.frame
  have hnew : ∀ key', ∀ f ∈ w.pushed key', f.seq < x.frame.seq := by
    intro key' f hf
    rw [hseq]
    exact (hw.bounded key' f hf).2
  have hlnew : ∀ key' sink, ∀ f ∈ lane key' sink w.hub.queue, f.seq < x.frame.seq :=
    fun key' sink f hf => hnew key' f (hw.lane_pushed hf)
  have hmono : ∀ key' f, f ∈ w.pushed key' →
      f ∈ w.pushed key' ++ if key' = key then [x.frame] else [] :=
    fun key' f hf => mem_append_left _ hf
  have hnext : (w.hub.push key sample).nextSeq = w.hub.nextSeq + 1 := rfl
  refine
    { nodup := pushRegister_nodup hw.nodup key sample
      started := Nat.succ_pos _
      increasing := fun key' => ?_
      bounded := fun key' f hf => ?_
      queued := fun y hy => ?_
      ring := fun key' => ?_
      position := fun key' sink s hlive hs => ?_
      seamless := fun key' sink => ?_
      ready := fun key' sink s hlive hs hopen => ?_
      handed := fun e he => ?_
      last := fun key' sink s hlive hs hopen =>
        hw.last key' sink s hlive (hsub key' sink ▸ hs) hopen
      decodable := fun key' sink before e after hlog hk => ?_ }
  · dsimp only
    rw [hpushed]
    refine pairwise_append.mpr ⟨hw.increasing key', ?_, fun f hf g hg => ?_⟩
    · split <;> simp
    split at hg
    · rw [mem_singleton.mp hg]
      exact hnew key' f hf
    · cases hg
  · dsimp only at hf ⊢
    rw [hpushed] at hf
    rw [hnext]
    rcases mem_append.mp hf with hf | hf
    · have := hw.bounded key' f hf
      omega
    split at hf
    · rw [mem_singleton.mp hf, hseq]
      have := hw.started
      omega
    · cases hf
  · dsimp only at hy ⊢
    rw [hqueue] at hy
    rw [hpushed]
    rcases Lib.mem_snoc.mp hy with hy | rfl
    · exact hmono _ _ (hw.queued y hy)
    · rw [if_pos hkey]
      exact mem_append_right _ mem_cons_self
  · dsimp only
    rw [hpushed]
    refine (w.hub.ringOf_pushRegister key sample key').trans ?_
    split
    · rename_i hk
      subst hk
      rw [hf]
      exact suffix_append_self_iff.mpr (hw.ring key')
    · rw [append_nil]
      exact hw.ring key'
  · have := hw.position key' sink s hlive (hsub key' sink ▸ hs)
    show s.lastSeq < w.hub.nextSeq + 1
    omega
  · dsimp only
    rw [hpushed, hlane]
    split
    · exact (hw.seamless key' sink).snoc (hnew key') (hlnew key' sink)
    · rw [append_nil, append_nil]
      exact hw.seamless key' sink
  · have hs' : w.hub.sub? key' sink = some s := hsub key' sink ▸ hs
    dsimp only
    rw [hpushed, hlane]
    split
    · refine (hw.ready key' sink s hlive hs' hopen).snoc (hlnew key' sink) ?_
      rw [hseq]
      exact hw.position key' sink s hlive hs'
    · rw [append_nil, append_nil]
      exact hw.ready key' sink s hlive hs' hopen
  · dsimp only
    rw [hpushed]
    exact hmono _ _ (hw.handed e he)
  obtain ⟨p, hp, hacc, hinf⟩ := hw.decodable key' sink before e after hlog hk
  refine ⟨p, hp, hacc, ?_⟩
  dsimp only
  rw [hpushed]
  exact hinf.trans (prefix_append _ _).isInfix

variable {front : Work}

/-- Offered the front, an open gate is ready for the rest of the queue. -/
theorem Inv.ready_rest (hq : w.hub.queue = front :: rest) {s : Sub}
    (hlive : w.hub.expired sink = false) (hs : w.hub.sub? key sink = some s)
    (hopen : s.stats.waitingKeyframe = true → FrameHub.takesFrom s key front) :
    Ready (FrameHub.positionAfter s key front) (w.pushed key) (lane key sink rest) := by
  have hseam := hw.seamless key sink
  rw [hq] at hseam
  by_cases ht : takesFrom s key front
  · obtain ⟨hfor, -, -⟩ := (takesFrom_iff hs front).mp ht
    have hpos : 0 < front.frame.seq := by
      refine (hw.bounded front.key _ (hw.queued front ?_)).1
      rw [hq]
      exact mem_cons_self
    rw [lane_cons_of_isFor hfor, seamless_cons] at hseam
    rw [positionAfter, if_pos ht]
    exact .inl (hseam.1 hpos)
  have hgate : s.stats.waitingKeyframe = false := by
    by_contra hwait
    rw [Bool.not_eq_false] at hwait
    exact ht (hopen hwait)
  have hready := hw.ready key sink s hlive hs hgate
  rw [positionAfter, if_neg ht]
  rw [hq] at hready
  cases hfor : front.isFor key sink with
  | false => rwa [lane_cons_of_not_isFor hfor] at hready
  | true =>
    rw [lane_cons_of_isFor hfor] at hready
    refine hready.pass ?_
    by_contra hlt
    exact ht ((takesFrom_iff hs front).mpr ⟨hfor, Nat.not_le.mp hlt, .inl hgate⟩)

/-- A delta frame that is taken directly follows the last one handed. -/
theorem Inv.follows (hq : w.hub.queue = front :: rest) {s : Sub}
    (hlive : w.hub.expired sink = false) (hs : w.hub.sub? key sink = some s)
    (ht : FrameHub.takesFrom s key front) (hk : front.frame.keyframe = false) :
    ∃ p, (handedTo key sink w.log).getLast? = some p ∧ p.accepted = true ∧
      [p.frame, front.frame] <:+: w.pushed key := by
  obtain ⟨hfor, hlt, hgate⟩ := (takesFrom_iff hs front).mp ht
  have hopen : s.stats.waitingKeyframe = false := by
    rcases hgate with hopen | hkey
    · exact hopen
    · exact absurd hkey (by simpa [Work.frame] using hk)
  obtain ⟨p, hp, hacc, hseq⟩ := hw.last key sink s hlive hs hopen
  have hready := hw.ready key sink s hlive hs hopen
  rw [hq, lane_cons_of_isFor hfor, ← hseq] at hready
  rw [← hseq] at hlt
  have hmem : p ∈ handedTo key sink w.log := mem_of_getLast? hp
  obtain ⟨hlog, hpk⟩ := mem_filter.mp hmem
  simp only [Bool.and_eq_true, decide_eq_true_eq] at hpk
  have hpushed : p.frame ∈ w.pushed key := hpk.1 ▸ hw.handed p hlog
  exact ⟨p, hp, hacc, infix_of_newer (hw.increasing key) hpushed (hready.front hlt hk)⟩

theorem Inv.last_deliver (front : Work) (rest : List Work) (accepts : Sink → Nat → Bool) {s' : Sub}
    (hlive : w.hub.expired sink = false)
    (hs' : ((w.hub.popped rest).deliver front accepts).1.sub? key sink = some s')
    (hopen : s'.stats.waitingKeyframe = false) :
    ∃ e, (handedTo key sink
        (w.log ++ ((w.hub.popped rest).deliver front accepts).2)).getLast? = some e ∧
      e.accepted = true ∧ e.frame.seq = s'.lastSeq := by
  obtain ⟨s, hs, hseq, hcase⟩ :=
    deliver_before (popped_nodup rest hw.nodup) front accepts hlive hs'
  rw [handedTo_append]
  rcases hcase with ⟨ht, e, j, hlog, hf, -, hgate⟩ | ⟨ht, hlog, hgate⟩
  · refine ⟨e, by rw [hlog, getLast?_concat], ?_, ?_⟩
    · rw [hopen] at hgate
      simpa using hgate.symm
    · rw [hseq, positionAfter, if_pos ht, hf]
      rfl
  · rw [hlog, append_nil, hseq, positionAfter, if_neg ht]
    exact hw.last key sink s hlive hs (hgate ▸ hopen)

theorem Inv.decodable_deliver
    (hq : w.hub.queue = front :: rest) (accepts : Sink → Nat → Bool) :
    Decodable { w with log := w.log ++ ((w.hub.popped rest).deliver front accepts).2 } := by
  intro key sink before e after hlog hk
  rw [handedTo_append] at hlog
  rcases deliver_handed (popped_nodup rest hw.nodup) front accepts key sink with
    hnil | ⟨hlive, s, hs, ht, e', hlog', hf⟩
  · rw [hnil, append_nil] at hlog
    exact hw.decodable key sink before e after hlog hk
  rw [hlog'] at hlog
  -- the record ends with the frame just handed
  rcases eq_nil_or_concat after with rfl | ⟨after', e'', rfl⟩
  · obtain ⟨rfl, heq⟩ := append_inj' hlog (by simp)
    obtain rfl : e' = e := by simpa using heq
    rw [hf] at hk ⊢
    exact hw.follows hq hlive hs ht hk
  rw [concat_eq_append, ← cons_append, ← append_assoc] at hlog
  obtain ⟨hlog, -⟩ := append_inj' hlog (by simp)
  exact hw.decodable key sink before e after' hlog hk

/-- Where the skip is fair, a gate that is open after a delivery is ready
for what is left in the queue. -/
theorem Inv.ready_deliver
    (hq : w.hub.queue = front :: rest) (hspare : SkipSpares w.hub front rest)
    (accepts : Sink → Nat → Bool) {s' : Sub}
    (hlive : w.hub.expired sink = false)
    (hs' : ((w.hub.popped rest).deliver front accepts).1.sub? key sink = some s')
    (hopen : s'.stats.waitingKeyframe = false) :
    Ready s'.lastSeq (w.pushed key) (lane key sink (w.hub.skip rest)) := by
  obtain ⟨s, hs, hseq, hcase⟩ :=
    deliver_before (popped_nodup rest hw.nodup) front accepts hlive hs'
  have hgate : s.stats.waitingKeyframe = true → takesFrom s key front := by
    intro hwait
    rcases hcase with ⟨ht, -⟩ | ⟨-, -, hsame⟩
    · exact ht
    · rw [hopen, hwait] at hsame
      cases hsame
  have hrest := hw.ready_rest hq hlive hs hgate
  rw [← skipped_append_skip w.hub rest, lane_append] at hrest
  rw [hseq]
  refine hrest.skip fun f hf hlt => ?_
  obtain ⟨x, hx, hfor, rfl⟩ := mem_lane hf
  exact hspare key sink s hlive hs hgate x hx hfor hlt

theorem work_inv {accepts : Sink → Nat → Bool}
    {r : FrameHub × List Handed} (h : w.hub.work accepts = some r)
    (hfair : Fair w (.work accepts)) :
    Inv { w with hub := r.1, log := w.log ++ r.2 } := by
  obtain ⟨front, rest, hq, rfl⟩ := work_cases h
  obtain ⟨hexp, hqueue, hnext⟩ := w.hub.deliver_popped rest front accepts
  have hn := popped_nodup rest hw.nodup
  have hsuffix : w.hub.skip rest <:+ w.hub.queue := by
    rw [hq]
    exact ⟨front :: skipped w.hub rest, by rw [cons_append, skipped_append_skip]⟩
  have hfront : front.frame ∈ w.pushed front.key := hw.queued front (by rw [hq]; simp)
  refine
    { nodup := deliver_nodup hn front accepts
      started := by rw [hnext]; exact hw.started
      increasing := hw.increasing
      bounded := by rw [hnext]; exact hw.bounded
      queued := fun x hx => hw.queued x (hsuffix.subset (hqueue ▸ hx))
      ring := fun key => ?_
      position := fun key sink s' hlive hs' => ?_
      seamless := fun key sink => ?_
      ready := fun key sink s' hlive hs' hopen => ?_
      handed := fun e he => ?_
      last := fun key sink s' hlive hs' hopen =>
        hw.last_deliver front rest accepts (hexp ▸ hlive) hs' hopen
      decodable := hw.decodable_deliver hq accepts }
  · rw [ringOf_deliver]
    exact hw.ring key
  · rw [hexp] at hlive
    obtain ⟨s, hs, hseq, -⟩ := deliver_before hn front accepts hlive hs'
    rw [hnext, hseq, positionAfter]
    split
    · exact (hw.bounded _ _ hfront).2
    · exact hw.position key sink s hlive hs
  · rw [hqueue]
    exact (hw.seamless key sink).suffix (lane_suffix hsuffix)
  · rw [hqueue]
    exact hw.ready_deliver hq (hfair front rest hq) accepts (hexp ▸ hlive) hs' hopen
  rcases mem_append.mp he with he | he
  · exact hw.handed e he
  obtain ⟨hkey, hf⟩ := (w.hub.popped rest).deliver_frame front accepts e he
  rw [hkey, hf]
  exact hfront

theorem step_inv {w' : World} {a : Act} (hfair : Fair w a) (h : step w a = some w') : Inv w' := by
  cases a with
  | push key sample =>
    cases h
    exact push_inv hw key sample
  | subscribe key sink =>
    cases h
    exact subscribe_inv hw hfair
  | unsubscribe key sink =>
    cases h
    exact unsubscribe_inv hw key sink
  | resync key sink =>
    cases h
    exact resync_inv hw key sink
  | clear key =>
    cases h
    exact clear_inv hw key
  | expire sink =>
    cases h
    exact expire_inv hw sink
  | work accepts =>
    obtain ⟨r, hr, rfl⟩ := Option.map_eq_some_iff.mp h
    exact work_inv hw hr hfair

end

/-! ## Whole runs -/

/-- **Decodable streams.** In every run in which no sink subscribes twice
to an entry and every overrun skip spares the open streams, every frame
handed to a sink is a keyframe or directly follows the frame it was handed
before and accepted. -/
theorem overrun_decodable {ringSize : Nat} {acts : List Act} {w : World}
    (hfair : (system ringSize).AllSteps Fair (system ringSize).init acts)
    (hrun : (system ringSize).run (system ringSize).init acts = some w) : Decodable w :=
  ((system ringSize).run_induction (fun _ _ _ hw hq h => step_inv hw hq h) (Inv.init ringSize)
    hfair hrun).decodable

/-- A backlog of at most one ring is never skipped. -/
theorem skipSpares_of_le {h : FrameHub} {front : Work}
    (hle : rest.length ≤ h.ringSize) : SkipSpares h front rest := by
  intro key sink s _ _ _ x hx
  rw [skipped, if_neg (by omega)] at hx
  cases hx

/-- A sink that accepts everything takes one frame from the queue. -/
def workAll : Act := .work fun _ _ => true

/-- An overrun that skips to a keyframe: frame 3 is dropped, and frame 4,
a keyframe, is next. -/
def sparedActs : List Act :=
  [.subscribe camera 0, .push camera keySample, workAll, .push camera deltaSample,
    .push camera deltaSample, .push camera keySample, workAll, workAll]

theorem sparedActs_fair :
    (system 1).AllSteps Fair (system 1).init sparedActs := by
  refine ⟨rfl, fun _ h => ?_⟩
  cases h
  refine ⟨trivial, fun _ h => ?_⟩
  cases h
  refine ⟨fun front rest hq => ?_, fun _ h => ?_⟩
  · obtain ⟨-, rfl⟩ := List.cons.inj hq
    exact skipSpares_of_le (by decide)
  cases h
  refine ⟨trivial, fun _ h => ?_⟩
  cases h
  refine ⟨trivial, fun _ h => ?_⟩
  cases h
  refine ⟨trivial, fun _ h => ?_⟩
  cases h
  refine ⟨fun front rest hq => ?_, fun _ h => ?_⟩
  · obtain ⟨rfl, rfl⟩ := List.cons.inj hq
    intro key sink s _ _ _ x hx hfor hlt
    obtain rfl : x = ⟨camera, deltaSample, false, 3, none⟩ := mem_singleton.mp hx
    obtain rfl : camera = key := Work.isFor_key hfor
    refine ⟨⟨4, true⟩, ?_, rfl⟩
    generalize positionAfter s camera _ = n at hlt ⊢
    have hn : n < 4 := Nat.lt_of_lt_of_le hlt (by decide)
    change [(⟨4, true⟩ : Frame)].find? (fun y => n < y.seq) = some ⟨4, true⟩
    simp [hn]
  cases h
  refine ⟨fun front rest hq => ?_, fun _ _ => trivial⟩
  obtain ⟨-, rfl⟩ := List.cons.inj hq
  exact skipSpares_of_le (by decide)

theorem overrun_decodable_spared :
    ∃ w, (system 1).run (system 1).init sparedActs = some w ∧
      w.log.map (·.frame.seq) = [1, 2, 4] ∧ Decodable w :=
  ⟨_, rfl, by decide +kernel, overrun_decodable sparedActs_fair rfl⟩

/-- An overrun that skips everything: frames 3 and 4 are dropped, and
frame 5 needs them. -/
def brokenActs : List Act :=
  [.subscribe camera 0, .push camera keySample, workAll, .push camera deltaSample,
    .push camera deltaSample, .push camera deltaSample, workAll, .push camera deltaSample, workAll]

/-- **The skip breaks a stream.** Five frames of one entry, a ring of one,
one sink that accepts everything: it is handed the frames 1, 2 and 5, and
5 is no keyframe. -/
theorem overrun_breaks_stream :
    ∃ w, (system 1).run (system 1).init brokenActs = some w ∧
      (handedTo camera 0 w.log).map (·.frame) = [⟨1, true⟩, ⟨2, false⟩, ⟨5, false⟩] ∧
      w.pushed camera = [⟨1, true⟩, ⟨2, false⟩, ⟨3, false⟩, ⟨4, false⟩, ⟨5, false⟩] ∧
      ¬ Decodable w := by
  refine ⟨_, rfl, by decide +kernel, by decide +kernel, fun h => ?_⟩
  obtain ⟨p, hp, -, hinf⟩ := h camera 0
    [⟨camera, 0, ⟨1, true⟩, keySample, true⟩, ⟨camera, 0, ⟨2, false⟩, deltaSample, true⟩]
    ⟨camera, 0, ⟨5, false⟩, deltaSample, true⟩ [] (by decide +kernel) rfl
  cases hp
  revert hinf
  decide +kernel

end Fjarr.Media.Overrun
