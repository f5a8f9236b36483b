/-
Fjarr.Media.LateJoiner — what a sink that joins a running stream is handed,
over every interleaving of the hub's critical sections.

`push` and `subscribe` each give up `mutex_` before they take
`queue_mutex_`. A joiner is therefore visible to the worker before its
catch-up is in the queue, and frames pushed after the ring snapshot can
reach it first: behind the closed gate they are dropped, and the catch-up
that follows does not hold them (`late_joiner_loses_frame`).

`late_joiner_loses_nothing` is what holds in every run: when each catch-up
goes in where it continues what the joiner has (`Continues`), the joiner is
handed a gapless run of its entry's frames from a keyframe on, and every
later frame of the entry is still on its way.

The proof runs a small abstract machine beside the hub (`Joiner`): the
entry's stream, the frames on their way, where the joiner stands, and what
it was handed. Every critical section is one of its moves.
-/
import Fjarr.Lib.Transition
import Fjarr.Media.Lane

namespace Fjarr.Media.LateJoiner

open Fjarr.Lib (Frame)
open Fjarr.Lib.Stream List Option Function FrameHub

/-! ## The joiner, abstractly -/

/-- Not subscribed, subscribed and not handed anything, or handed frames
up to a number. -/
inductive Stand where
  | absent
  | waiting
  | reached (n : Nat)
  deriving DecidableEq, Repr

/-- The frames a joiner at this stand may still be handed are newer. -/
def Stand.position : Stand → Nat
  | .reached n => n
  | _ => 0

/-- What was delivered is a run of the stream from a keyframe on, and what
is newer than `n` is all that is missing behind it. -/
def Segment (stream : List Frame) (n : Nat) (delivered : List Frame) : Prop :=
  ∃ first rest, delivered = first :: rest ∧ first.keyframe = true ∧
    stream.filter (fun f => first.seq ≤ f.seq) = delivered ++ newer n stream

/-- Nothing was delivered before the gate opened; from then on the queue
holds the remainder of the stream. -/
def Gate (stream queue delivered : List Frame) : Stand → Prop
  | .reached n => Complete n stream queue ∧ Segment stream n delivered ∧ ∃ f ∈ stream, f.seq = n
  | _ => delivered = []

/-- A joiner of a stream, the frames on their way to it, where it stands
and what was delivered to it. -/
structure Joiner (stream queue : List Frame) (stand : Stand) (delivered : List Frame) : Prop where
  increasing : Increasing stream
  positive : ∀ f ∈ stream, 0 < f.seq
  queued : ∀ f ∈ queue, f ∈ stream
  seamless : Seamless stand.position stream queue
  gate : Gate stream queue delivered stand

variable {stream : List Frame} {n : Nat}

theorem Segment.snoc {delivered : List Frame} {g : Frame}
    (h : Segment stream n delivered) (hn : n < g.seq) (hs : ∀ f ∈ stream, f.seq < g.seq) :
    Segment (stream ++ [g]) n delivered := by
  obtain ⟨first, rest, rfl, hk, heq⟩ := h
  have hfirst : first ∈ stream :=
    mem_of_mem_filter (heq ▸ mem_append_left _ mem_cons_self)
  have hle : first.seq ≤ g.seq := Nat.le_of_lt (hs first hfirst)
  refine ⟨first, rest, rfl, hk, ?_⟩
  rw [filter_append, heq, newer_append, append_assoc]
  simp [newer, hn, hle]

theorem Segment.take {delivered : List Frame} {f : Frame}
    (h : Segment stream n delivered) (hnext : newer n stream = f :: newer f.seq stream) :
    Segment stream f.seq (delivered ++ [f]) := by
  obtain ⟨first, rest, rfl, hk, heq⟩ := h
  refine ⟨first, rest ++ [f], rfl, hk, ?_⟩
  rw [heq, hnext, append_assoc]
  rfl

theorem Segment.start (hs : Increasing stream) {f : Frame}
    (hf : f ∈ stream) (hk : f.keyframe = true) : Segment stream f.seq [f] := by
  refine ⟨f, [], rfl, hk, ?_⟩
  obtain ⟨before, behind, rfl⟩ := append_of_mem hf
  obtain ⟨-, hbehind, hcross⟩ := pairwise_append.mp hs
  have hb : before.filter (fun g => f.seq ≤ g.seq) = [] := by
    refine filter_eq_nil_iff.mpr fun g hg => ?_
    have := hcross g hg f mem_cons_self
    simpa using this
  have ha : behind.filter (fun g => f.seq ≤ g.seq) = behind := by
    refine filter_eq_self.mpr fun g hg => ?_
    have := rel_of_pairwise_cons hbehind hg
    simpa using Nat.le_of_lt this
  rw [newer_split hs, filter_append, hb, nil_append]
  simp [ha]

namespace Joiner

variable {stream queue : List Frame} {stand : Stand}

variable {delivered : List Frame}

theorem position_lt
    (h : Joiner stream queue stand delivered) {g : Frame} (hg : 0 < g.seq)
    (hs : ∀ f ∈ stream, f.seq < g.seq) : stand.position < g.seq := by
  cases stand with
  | absent => exact hg
  | waiting => exact hg
  | reached n =>
    obtain ⟨f, hf, rfl⟩ := h.gate.2.2
    exact hs f hf

theorem push
    (h : Joiner stream queue stand delivered) {g : Frame} (hg : 0 < g.seq)
    (hs : ∀ f ∈ stream, f.seq < g.seq) :
    Joiner (stream ++ [g]) (queue ++ [g]) stand delivered where
  increasing := by
    refine pairwise_append.mpr ⟨h.increasing, by simp, fun f hf g' hg' => ?_⟩
    rw [mem_singleton.mp hg']
    exact hs f hf
  positive := by
    intro f hf
    rcases Lib.mem_snoc.mp hf with hf | rfl
    · exact h.positive f hf
    · exact hg
  queued := by
    intro f hf
    rcases mem_append.mp hf with hf | hf
    · exact mem_append_left _ (h.queued f hf)
    · exact mem_append_right _ hf
  seamless := h.seamless.snoc hs fun f hf => hs f (h.queued f hf)
  gate := by
    have hpos := h.position_lt hg hs
    have hgate := h.gate
    cases stand with
    | absent => exact hgate
    | waiting => exact hgate
    | reached n =>
      obtain ⟨hc, hseg, f, hf, hfn⟩ := hgate
      exact ⟨hc.snoc (fun f hf => hs f (h.queued f hf)) hpos, hseg.snoc hpos hs, f,
        mem_append_left _ hf, hfn⟩

theorem subscribe
    (h : Joiner stream queue .absent delivered) : Joiner stream queue .waiting delivered :=
  ⟨h.increasing, h.positive, h.queued, h.seamless, h.gate⟩

/-- The front frame passes the joiner by: it is not subscribed, the frame
is old, or the gate is closed for it. -/
theorem pass {f : Frame}
    (h : Joiner stream (f :: queue) stand delivered)
    (hf : ∀ n, stand = .reached n → f.seq ≤ n) : Joiner stream queue stand delivered where
  increasing := h.increasing
  positive := h.positive
  queued := fun g hg => h.queued g (mem_cons_of_mem _ hg)
  seamless := (seamless_cons.mp h.seamless).2
  gate := by
    have hgate := h.gate
    cases stand with
    | absent => exact hgate
    | waiting => exact hgate
    | reached n => exact ⟨(complete_cons_of_le (hf n rfl)).mp hgate.1, hgate.2⟩

/-- The front frame is handed over and accepted. -/
theorem take {f : Frame}
    (h : Joiner stream (f :: queue) stand delivered) (habsent : stand ≠ .absent)
    (hk : stand = .waiting → f.keyframe = true) (hlt : stand.position < f.seq) :
    Joiner stream queue (.reached f.seq) (delivered ++ [f]) where
  increasing := h.increasing
  positive := h.positive
  queued := fun g hg => h.queued g (mem_cons_of_mem _ hg)
  seamless := (seamless_cons.mp h.seamless).2.mono (Nat.le_of_lt hlt)
  gate := by
    have hf : f ∈ stream := h.queued f mem_cons_self
    refine ⟨(seamless_cons.mp h.seamless).1 hlt, ?_, f, hf, rfl⟩
    have hgate := h.gate
    cases stand with
    | absent => exact absurd rfl habsent
    | waiting =>
      have hnil : delivered = [] := hgate
      rw [hnil]
      exact Segment.start h.increasing hf (hk rfl)
    | reached n =>
      have hnext := hgate.1.front hlt
      rw [newer_cons h.increasing hnext] at hnext
      exact hgate.2.1.take hnext

/-- The catch-up goes in front of frames that are an end of the stream.
Behind the closed gate nothing pushed since the snapshot may be missing;
past it the catch-up has to continue what was delivered. -/
theorem insert {before run behind : List Frame}
    (h : Joiner stream queue stand delivered) (hend : queue <:+ stream)
    (hsplit : stream = before ++ run ++ behind)
    (hwait : stand = .waiting → ∀ last, run.getLast? = some last →
      ∀ f ∈ stream, last.seq < f.seq → f ∈ queue)
    (hreach : ∀ n, stand = .reached n → ∀ f, run.find? (fun f => n < f.seq) = some f →
      stream.find? (fun f => n < f.seq) = some f)
    (habsent : stand ≠ .absent) : Joiner stream (run ++ queue) stand delivered := by
  have hlast : ∀ f, run.getLast? = some f → stand.position < f.seq →
      Complete f.seq stream queue := by
    intro f hf hlt
    cases stand with
    | absent => exact absurd rfl habsent
    | waiting => exact complete_of_suffix h.increasing hend (hwait rfl f hf)
    | reached n => exact h.gate.1.mono (h.increasing.of_suffix hend) (Nat.le_of_lt hlt)
  have hseam : Seamless stand.position stream (run ++ queue) := by
    have hinc := h.increasing
    have hq := h.seamless
    rw [hsplit] at hinc hq hlast ⊢
    exact seamless_catchUp hinc hq hlast
  refine ⟨h.increasing, h.positive, ?_, hseam, ?_⟩
  · intro f hf
    rcases mem_append.mp hf with hf | hf
    · rw [hsplit]
      exact mem_append_left _ (mem_append_right _ hf)
    · exact h.queued f hf
  have hgate := h.gate
  cases stand with
  | absent => exact hgate
  | waiting => exact hgate
  | reached n => exact ⟨Complete.catchUp h.increasing hseam hgate.1 (hreach n rfl), hgate.2⟩

end Joiner

/-! ## The critical sections, interleaved -/

/-- The hub; per entry the push between its two critical sections (one
producer each); the subscription between its two (one subscribing
thread); the frames pushed, and everything handed to sinks so far. -/
structure World where
  hub : FrameHub
  pushing : HubKey → Option Work := fun _ => none
  joining : Option (HubKey × Sink × List Work) := none
  pushed : HubKey → List Frame := fun _ => []
  log : List Handed := []

inductive Act where
  | pushRegister (key : HubKey) (sample : Sample)
  | pushEnqueue (key : HubKey)
  | subscribeRegister (key : HubKey) (sink : Sink)
  | subscribeInsert
  | work (accepts : Sink → Nat → Bool)

def step (w : World) : Act → Option World
  | .pushRegister key sample =>
    match w.pushing key with
    | some _ => none
    | none =>
      let r := w.hub.pushRegister key sample
      some { w with
        hub := r.1
        pushing := Function.update w.pushing key (some r.2)
        pushed := Function.update w.pushed key (w.pushed key ++ [r.2.frame]) }
  | .pushEnqueue key =>
    (w.pushing key).map fun x =>
      { w with hub := w.hub.pushEnqueue x, pushing := Function.update w.pushing key none }
  | .subscribeRegister key sink =>
    -- the thread is free, and the sink is new to the entry
    if w.joining = none ∧ w.hub.sub? key sink = none then
      let r := w.hub.subscribeRegister key sink
      some { w with hub := r.1, joining := if r.2 = [] then none else some (key, sink, r.2) }
    else none
  | .subscribeInsert =>
    w.joining.map fun j => { w with hub := w.hub.subscribeInsert j.2.2, joining := none }
  | .work accepts => (w.hub.work accepts).map fun r => { w with hub := r.1, log := w.log ++ r.2 }

def system (ringSize : Nat) : Lib.System World Act where
  init := { hub := { ringSize } }
  step := step

/-- The frames delivered to a subscriber. -/
def delivered (w : World) (key : HubKey) (sink : Sink) : List Frame :=
  (handedTo key sink w.log).map Handed.frame

/-- The frames a subscriber has in the queue, and the one being pushed. -/
def onTheWay (w : World) (key : HubKey) (sink : Sink) : List Frame :=
  lane key sink w.hub.queue ++ (w.pushing key).toList.map Work.frame

/-- The delivered frames are increasing and start with a keyframe, and
they are all frames of the entry from that one on but those still on
their way. -/
def LosesNothing (w : World) (key : HubKey) (sink : Sink) : Prop :=
  Increasing (delivered w key sink) ∧
  ∀ first rest, delivered w key sink = first :: rest → first.keyframe = true ∧
    ∃ missing, (w.pushed key).filter (fun f => first.seq ≤ f.seq) =
        delivered w key sink ++ missing ∧
      ∀ f ∈ missing, f ∈ onTheWay w key sink

/-- The backlog behind the front is never longer than the ring. -/
def ShortBacklog (w : World) : Act → Prop
  | .work _ => w.hub.queue.tail.length ≤ w.hub.ringSize
  | _ => True

/-- The sink accepts everything. -/
def Accepting (sink : Sink) : Act → Prop
  | .work accepts => ∀ i, accepts sink i = true
  | _ => True

/-- What is asked of the insertion of the sink's catch-up. While the gate
is closed, every frame pushed since the snapshot is still on its way; once
it has opened, the first frame the catch-up has for the sink is the next
of the entry. -/
def CatchUpContinues (key : HubKey) (sink : Sink) (w : World) :
    Option (HubKey × Sink × List Work) → Option Sub → Prop
  | some (key', sink', works), some s => key' = key ∧ sink' = sink →
    if s.stats.waitingKeyframe then
      ∀ last ∈ (lane key sink works).getLast?,
        ∀ f ∈ w.pushed key, last.seq < f.seq → f ∈ onTheWay w key sink
    else
      ∀ f ∈ (lane key sink works).find? (fun f => s.lastSeq < f.seq),
        (w.pushed key).find? (fun f => s.lastSeq < f.seq) = some f
  | _, _ => True

def Continues (key : HubKey) (sink : Sink) (w : World) : Act → Prop
  | .subscribeInsert => CatchUpContinues key sink w w.joining (w.hub.sub? key sink)
  | _ => True

instance (w : World) : ∀ a, Decidable (ShortBacklog w a)
  | .work _ => inferInstanceAs (Decidable (_ ≤ _))
  | .pushRegister _ _ | .pushEnqueue _ | .subscribeRegister _ _ | .subscribeInsert => isTrue trivial

instance (key : HubKey) (sink : Sink) (w : World) :
    ∀ j s, Decidable (CatchUpContinues key sink w j s)
  | some (_, _, _), some _ => inferInstanceAs (Decidable (_ → _))
  | some _, none | none, _ => isTrue trivial

instance (key : HubKey) (sink : Sink) (w : World) : ∀ a, Decidable (Continues key sink w a)
  | .subscribeInsert => inferInstanceAs (Decidable (CatchUpContinues _ _ _ _ _))
  | .pushRegister _ _ | .pushEnqueue _ | .subscribeRegister _ _ | .work _ => isTrue trivial

/-! ## The hub simulates the joiner -/

/-- Where a subscriber record stands. -/
def standOf : Option Sub → Stand
  | none => .absent
  | some s => if s.stats.waitingKeyframe then .waiting else .reached s.lastSeq

theorem standOf_waiting_iff {s : Sub} :
    standOf (some s) = .waiting ↔ s.stats.waitingKeyframe = true := by
  rw [standOf]
  split <;> simp_all

theorem standOf_reached_iff {s : Sub} :
    standOf (some s) = .reached n ↔ s.stats.waitingKeyframe = false ∧ s.lastSeq = n := by
  rw [standOf]
  split <;> simp_all

theorem standOf_some_ne_absent (s : Sub) : standOf (some s) ≠ .absent := by
  rw [standOf]
  split <;> simp

/-- The bookkeeping that ties the hub to the abstract joiner. -/
structure Inv (key : HubKey) (sink : Sink) (w : World) : Prop where
  nodup : w.hub.Nodup
  live : ∀ s, w.hub.expired s = false
  started : 0 < w.hub.nextSeq
  bounded : ∀ f ∈ w.pushed key, f.seq < w.hub.nextSeq
  ring : w.hub.ringOf key <:+ w.pushed key
  pushing : ∀ key' x, w.pushing key' = some x → x.key = key' ∧ x.only = none
  joining : ∀ key' sink' works, w.joining = some (key', sink', works) →
    ∀ x ∈ works, x.key = key' ∧ x.only = some sink'
  fresh : ∀ s, w.hub.sub? key sink = some s → s.stats.waitingKeyframe = true → s.lastSeq = 0
  /-- Before its catch-up is in, the sink's lane is an end of the stream. -/
  ahead : (w.hub.sub? key sink = none ∨ ∃ works, w.joining = some (key, sink, works)) →
    onTheWay w key sink <:+ w.pushed key
  snapshot : ∀ works, w.joining = some (key, sink, works) → w.hub.sub? key sink ≠ none ∧
    ∃ before behind, w.pushed key = before ++ lane key sink works ++ behind
  joiner : Joiner (w.pushed key) (onTheWay w key sink) (standOf (w.hub.sub? key sink))
    (delivered w key sink)

section Steps

variable {key : HubKey} {sink : Sink} {w : World}

theorem Inv.init (key : HubKey) (sink : Sink) (ringSize : Nat) :
    Inv key sink (system ringSize).init where
  nodup := by intro key e h; cases h
  live := fun _ => rfl
  started := Nat.one_pos
  bounded := by intro f h; cases h
  ring := nil_suffix
  pushing := by intro key' x h; cases h
  joining := by intro key' sink' works h; cases h
  fresh := by intro s h; cases h
  ahead := fun _ => nil_suffix
  snapshot := by intro works h; cases h
  joiner := ⟨List.Pairwise.nil, by simp [system], by simp [system, onTheWay, lane],
    seamless_nil _ _, rfl⟩

variable {key' : HubKey} {w' : World} {h : FrameHub} {front : Work} {accepts : Sink → Nat → Bool}

theorem onTheWay_pushRegister (hp : w.pushing key' = none) (sample : Sample)
    (key : HubKey) (sink : Sink) :
    onTheWay { w with
      hub := (w.hub.pushRegister key' sample).1
      pushing := Function.update w.pushing key' (some (w.hub.pushRegister key' sample).2)
      pushed := Function.update w.pushed key'
        (w.pushed key' ++ [(w.hub.pushRegister key' sample).2.frame]) } key sink =
      onTheWay w key sink ++
        if key = key' then [(w.hub.pushRegister key' sample).2.frame] else [] := by
  by_cases hk : key = key'
  · subst hk
    simp only [onTheWay, update_self, hp, toList_none, map_nil,
      append_nil, toList_some, map_cons, if_true]
    rfl
  · simp only [onTheWay, update_of_ne hk, if_neg hk, append_nil]
    rfl

theorem pushRegister_inv (hw : Inv key sink w) {sample : Sample}
    (h : step w (.pushRegister key' sample) = some w') : Inv key sink w' := by
  rw [step] at h
  cases hp : w.pushing key' with
  | some x => simp [hp] at h
  | none =>
    simp only [hp, some.injEq] at h
    subst h
    generalize hx : (w.hub.pushRegister key' sample).2 = x
    have hseq : x.frame.seq = w.hub.nextSeq := by subst hx; rfl
    have hxk : x.key = key' ∧ x.only = none := by subst hx; exact ⟨rfl, rfl⟩
    have hnew : ∀ f ∈ w.pushed key, f.seq < x.frame.seq := hseq ▸ hw.bounded
    have hsub : (w.hub.pushRegister key' sample).1.sub? key sink = w.hub.sub? key sink :=
      w.hub.push_sub? key' sample key sink
    have hring := w.hub.ringOf_pushRegister key' sample key
    have hpushed := update_snoc w.pushed key' key x.frame
    have hway := onTheWay_pushRegister hp sample key sink
    rw [hx] at hway
    generalize hnew' : (if key = key' then [x.frame] else []) = new at hpushed hway
    have hcase : new = [] ∧ key ≠ key' ∨ new = [x.frame] ∧ key = key' := by
      rw [← hnew']
      split
      · rename_i hk
        exact .inr ⟨rfl, hk⟩
      · rename_i hk
        exact .inl ⟨rfl, hk⟩
    refine
      { nodup := pushRegister_nodup hw.nodup key' sample
        live := hw.live
        started := Nat.succ_pos _
        bounded := fun f hf => ?_
        ring := ?_
        pushing := fun key'' y hy => ?_
        joining := hw.joining
        fresh := fun s hs => hw.fresh s (hsub ▸ hs)
        ahead := fun hcond => ?_
        snapshot := fun works hj => ?_
        joiner := ?_ }
    · dsimp only at hf
      rw [hpushed] at hf
      show f.seq < w.hub.nextSeq + 1
      rcases mem_append.mp hf with hf | hf
      · have := hw.bounded f hf
        omega
      rcases hcase with ⟨rfl, -⟩ | ⟨rfl, -⟩
      · cases hf
      · rw [mem_singleton.mp hf, hseq]
        omega
    · dsimp only
      rw [hpushed]
      refine hring.trans ?_
      rcases hcase with ⟨rfl, hk⟩ | ⟨rfl, hk⟩
      · rw [if_neg hk, append_nil]
        exact hw.ring
      · rw [if_pos hk, hx, ← hk]
        exact suffix_append_self_iff.mpr hw.ring
    · dsimp only at hy
      by_cases hk : key'' = key'
      · subst hk
        rw [update_self, some.injEq] at hy
        exact hy ▸ hxk
      · rw [update_of_ne hk] at hy
        exact hw.pushing key'' y hy
    · dsimp only at hcond ⊢
      rw [hsub] at hcond
      rw [hpushed, hway]
      exact suffix_append_self_iff.mpr (hw.ahead hcond)
    · obtain ⟨hs, before, behind, heq⟩ := hw.snapshot works hj
      refine ⟨by rwa [hsub], before, behind ++ new, ?_⟩
      dsimp only
      rw [hpushed, heq]
      simp only [append_assoc]
    dsimp only
    rw [hsub, hpushed, hway]
    rcases hcase with ⟨rfl, -⟩ | ⟨rfl, -⟩
    · rw [append_nil, append_nil]
      exact hw.joiner
    · exact hw.joiner.push (hseq ▸ hw.started) hnew

theorem pushEnqueue_inv (hw : Inv key sink w)
    (h : step w (.pushEnqueue key') = some w') : Inv key sink w' := by
  obtain ⟨x, hx, rfl⟩ := map_eq_some_iff.mp h
  obtain ⟨hxk, hxo⟩ := hw.pushing key' x hx
  have hway : onTheWay { w with
      hub := w.hub.pushEnqueue x
      pushing := Function.update w.pushing key' none } key sink = onTheWay w key sink := by
    simp only [onTheWay, pushEnqueue, lane_append, append_assoc]
    congr 1
    by_cases hk : key = key'
    · subst hk
      have hfor : x.isFor key sink = true := by
        simp [Work.isFor_of_only_none hxo, hxk]
      simp [hx, lane, hfor]
    have hfor : x.isFor key sink = false := by
      rw [Work.isFor_of_only_none hxo, hxk]
      simpa using Ne.symm hk
    simp [lane, hfor, hk]
  exact
    { hw with
      pushing := by
        intro key'' y hy
        dsimp only at hy
        by_cases hk : key'' = key'
        · subst hk
          simp at hy
        · rw [update_of_ne hk] at hy
          exact hw.pushing key'' y hy
      ahead := fun hcond => hway ▸ hw.ahead hcond
      joiner := hway ▸ hw.joiner }

theorem subscribeRegister_inv (hw : Inv key sink w) {sink' : Sink}
    (h : step w (.subscribeRegister key' sink') = some w') : Inv key sink w' := by
  rw [step] at h
  split at h
  · rename_i hguard
    obtain ⟨hidle, hfree⟩ := hguard
    cases h
    have hsub := subscribe_sub? w.hub key' key (hw.live sink) hfree
    have hring := w.hub.ringOf_subscribeRegister key' sink' key
    have hmember : ∀ works, (if (w.hub.subscribeRegister key' sink').2 = [] then none
        else some (key', sink', (w.hub.subscribeRegister key' sink').2)) =
          some (key, sink, works) →
        (key = key' ∧ sink = sink') ∧ works = (w.hub.subscribeRegister key' sink').2 := by
      intro works hj
      split at hj
      · cases hj
      · simp only [some.injEq, Prod.mk.injEq] at hj
        exact ⟨⟨hj.1.symm, hj.2.1.symm⟩, hj.2.2.symm⟩
    refine
      { nodup := subscribeRegister_nodup hw.nodup key' hfree
        live := hw.live
        started := hw.started
        bounded := hw.bounded
        ring := by rw [hring]; exact hw.ring
        pushing := hw.pushing
        joining := fun key'' sink'' works hj => ?_
        fresh := fun s hs hwait => ?_
        ahead := fun hcond => ?_
        snapshot := fun works hj => ?_
        joiner := ?_ }
    · split at hj
      · cases hj
      simp only [some.injEq, Prod.mk.injEq] at hj
      obtain ⟨rfl, rfl, rfl⟩ := hj
      exact fun x hx => mem_catchUp hx
    · rw [hsub] at hs
      split at hs
      · rw [← some.inj hs]
      · exact hw.fresh s hs hwait
    · refine hw.ahead (.inl ?_)
      rcases hcond with hnone | ⟨works, hj⟩
      · rw [hsub] at hnone
        split at hnone
        · cases hnone
        · exact hnone
      · obtain ⟨⟨rfl, rfl⟩, -⟩ := hmember works hj
        exact hfree
    · obtain ⟨⟨rfl, rfl⟩, rfl⟩ := hmember works hj
      refine ⟨by rw [hsub, if_pos ⟨rfl, rfl⟩]; simp, ?_⟩
      rcases w.hub.lane_subscribeRegister key sink with heq | heq
      · obtain ⟨before, hsplit⟩ := hw.ring
        exact ⟨before, [], by rw [heq, append_nil, hsplit]⟩
      · rw [heq]
        exact ⟨w.pushed key, [], by simp [lane]⟩
    have hj := hw.joiner
    by_cases hk : key = key' ∧ sink = sink'
    · rw [if_pos hk] at hsub
      obtain ⟨rfl, rfl⟩ := hk
      rw [hsub]
      rw [hfree] at hj
      exact hj.subscribe
    rw [if_neg hk] at hsub
    rw [hsub]
    exact hj
  · cases h

theorem subscribeInsert_inv (hw : Inv key sink w)
    (hcont : Continues key sink w .subscribeInsert)
    (h : step w .subscribeInsert = some w') : Inv key sink w' := by
  obtain ⟨⟨key', sink', works⟩, hj, rfl⟩ := map_eq_some_iff.mp h
  have hworks := hw.joining key' sink' works hj
  have hway : onTheWay { w with hub := w.hub.subscribeInsert works, joining := none } key sink =
      lane key sink works ++ onTheWay w key sink := by
    simp only [onTheWay, subscribeInsert, lane_append, append_assoc]
  by_cases hk : key' = key ∧ sink' = sink
  · obtain ⟨rfl, rfl⟩ := hk
    obtain ⟨hs, before, behind, hsplit⟩ := hw.snapshot works hj
    obtain ⟨s, hs⟩ := ne_none_iff_exists'.mp hs
    rw [Continues, hj, hs] at hcont
    have hcont := hcont ⟨rfl, rfl⟩
    have hjoin := hw.joiner
    rw [hs] at hjoin
    refine
      { hw with
        joining := by intro key'' sink'' works' h; cases h
        ahead := fun hcond => ?_
        snapshot := by intro works' h; cases h
        joiner := ?_ }
    · exfalso
      rcases hcond with hnone | ⟨works', hj'⟩
      · rw [show w.hub.sub? key' sink' = none from hnone] at hs
        cases hs
      · cases hj'
    rw [hway]
    show Joiner _ _ (standOf (w.hub.sub? key' sink')) _
    rw [hs]
    refine hjoin.insert (hw.ahead (.inr ⟨works, hj⟩)) hsplit ?_ ?_ ?_
    · intro hstand
      rw [if_pos (standOf_waiting_iff.mp hstand)] at hcont
      exact hcont
    · intro n hstand
      obtain ⟨hopen, rfl⟩ := standOf_reached_iff.mp hstand
      rw [hopen, if_neg (by simp)] at hcont
      exact hcont
    · exact standOf_some_ne_absent s
  -- somebody else's catch-up
  have hnil : lane key sink works = [] := by
    refine lane_eq_nil fun x hx => ?_
    obtain ⟨hxk, hxo⟩ := hworks x hx
    simpa [Work.isFor, hxk, hxo] using hk
  rw [hnil, nil_append] at hway
  refine
    { hw with
      joining := by intro key'' sink'' works' h; cases h
      ahead := fun hcond => ?_
      snapshot := by intro works' h; cases h
      joiner := hway ▸ hw.joiner }
  rw [hway]
  rcases hcond with hnone | ⟨works', hj'⟩
  · exact hw.ahead (.inl hnone)
  · cases hj'

theorem deliver_fresh (hn : h.Nodup) (hlive : h.expired sink = false)
    (haccept : ∀ i, accepts sink i = true)
    (hfresh : ∀ s, h.sub? key sink = some s → s.stats.waitingKeyframe = true → s.lastSeq = 0) :
    ∀ s', (h.deliver front accepts).1.sub? key sink = some s' →
      s'.stats.waitingKeyframe = true → s'.lastSeq = 0 := by
  intro s' hs' hwait
  obtain ⟨s, hs, hseq, hcase⟩ := deliver_before hn front accepts hlive hs'
  rcases hcase with ⟨-, e, j, -, -, hacc, hgate⟩ | ⟨ht, -, hgate⟩
  · rw [hwait, hacc, haccept j] at hgate
    cases hgate
  · rw [hseq, positionAfter, if_neg ht]
    exact hfresh s hs (hgate ▸ hwait)

theorem deliver_joiner (hn : h.Nodup) (hlive : h.expired sink = false)
    (haccept : ∀ i, accepts sink i = true)
    {stream more before : List Frame}
    (hjoin : Joiner stream ((if front.isFor key sink then [front.frame] else []) ++ more)
      (standOf (h.sub? key sink)) before) :
    Joiner stream more (standOf ((h.deliver front accepts).1.sub? key sink))
      (before ++ (handedTo key sink (h.deliver front accepts).2).map Handed.frame) := by
  -- a front that is not for the sink is not on its way
  have hpass : (front.isFor key sink = true →
      ∀ n, standOf (h.sub? key sink) = .reached n → front.seq ≤ n) →
      Joiner stream more (standOf (h.sub? key sink)) before := by
    intro hold
    cases hfor : front.isFor key sink with
    | false => simpa [hfor] using hjoin
    | true =>
      simp only [hfor, if_true, singleton_append] at hjoin
      exact hjoin.pass (hold hfor)
  cases hs : h.sub? key sink with
  | none =>
    have hnone : (h.deliver front accepts).1.sub? key sink = none := by
      by_contra hsome
      obtain ⟨s', hs'⟩ := ne_none_iff_exists'.mp hsome
      obtain ⟨s, hs0⟩ := sub?_of_deliver hn front accepts hs'
      rw [hs] at hs0
      cases hs0
    have hlog : handedTo key sink (h.deliver front accepts).2 = [] := by
      rcases deliver_handed hn front accepts key sink with hnil | ⟨-, s, hs', -⟩
      · exact hnil
      · rw [hs] at hs'
        cases hs'
    rw [hnone, hlog, map_nil, append_nil, ← hs]
    refine hpass fun _ n hstand => ?_
    rw [hs] at hstand
    cases hstand
  | some s =>
    obtain ⟨s', hs', hseq, hcase⟩ := deliver_at hn front accepts hlive hs
    have hiff := takesFrom_iff hs front
    rw [hs']
    rcases hcase with ⟨ht, e, j, hlog, hf, hacc, hgate⟩ | ⟨ht, hlog, hgate⟩
    · -- handed over, and accepted
      obtain ⟨hfor, hlt, hkey⟩ := hiff.mp ht
      rw [hacc, haccept j, Bool.not_true] at hgate
      have hstand : standOf (some s') = .reached front.frame.seq := by
        rw [standOf_reached_iff, hseq, positionAfter, if_pos ht]
        exact ⟨hgate, rfl⟩
      simp only [hfor, if_true, singleton_append, hs] at hjoin
      rw [hlog, map_singleton, hf, hstand]
      refine hjoin.take (standOf_some_ne_absent s) ?_ ?_
      · intro hwait
        rw [standOf_waiting_iff.mp hwait] at hkey
        simpa [Work.frame] using hkey
      rw [standOf]
      split
      · exact Nat.lt_of_le_of_lt (Nat.zero_le _) hlt
      · exact hlt
    -- passed by
    have hsame : standOf (some s') = standOf (h.sub? key sink) := by
      rw [hs, standOf, standOf, hgate, hseq, positionAfter, if_neg ht]
    rw [hsame, hlog, map_nil, append_nil]
    refine hpass fun hfor n hstand => ?_
    rw [hs] at hstand
    obtain ⟨hopen, rfl⟩ := standOf_reached_iff.mp hstand
    by_contra hlt
    exact ht (hiff.mpr ⟨hfor, Nat.not_le.mp hlt, .inl hopen⟩)

theorem sub?_deliver_ne_none (key : HubKey) (hn : h.Nodup) (hlive : h.expired sink = false)
    (front : Work) (accepts : Sink → Nat → Bool) :
    (h.deliver front accepts).1.sub? key sink ≠ none ↔ h.sub? key sink ≠ none := by
  simp only [ne_none_iff_exists']
  constructor
  · rintro ⟨s', hs'⟩
    exact sub?_of_deliver hn front accepts hs'
  rintro ⟨s, hs⟩
  obtain ⟨s', hs', -⟩ := deliver_at hn front accepts hlive hs
  exact ⟨s', hs'⟩

theorem onTheWay_pop (key : HubKey) (sink : Sink) {rest : List Work}
    (hq : w.hub.queue = front :: rest) (hqueue : h.queue = rest) (log : List Handed) :
    onTheWay w key sink = (if front.isFor key sink then [front.frame] else []) ++
      onTheWay { w with hub := h, log := log } key sink := by
  simp only [onTheWay, hqueue, hq]
  rw [← append_assoc]
  congr 1
  cases hfor : front.isFor key sink with
  | true => exact lane_cons_of_isFor hfor rest
  | false => exact lane_cons_of_not_isFor hfor rest

/-- One iteration of the worker, with no overrun and an accepting sink. -/
theorem work_inv (hw : Inv key sink w)
    (hshort : ShortBacklog w (.work accepts)) (haccept : Accepting sink (.work accepts))
    (h : step w (.work accepts) = some w') : Inv key sink w' := by
  obtain ⟨r, hr, rfl⟩ := map_eq_some_iff.mp h
  obtain ⟨front, rest, hq, rfl⟩ := work_cases hr
  obtain ⟨hexp, hqueue, hnext⟩ := w.hub.deliver_popped rest front accepts
  have hskip : w.hub.skip rest = rest := by
    rw [ShortBacklog, hq, tail_cons] at hshort
    rw [skip, if_neg (by omega)]
  rw [hskip] at hqueue
  have hn := popped_nodup rest hw.nodup
  have hlive : (w.hub.popped rest).expired sink = false := hw.live sink
  have hkept := sub?_deliver_ne_none key hn hlive front accepts
  have hway := onTheWay_pop key sink hq hqueue
    (w.log ++ ((w.hub.popped rest).deliver front accepts).2)
  have hjoin := hw.joiner
  rw [hway] at hjoin
  refine
    { nodup := deliver_nodup hn front accepts
      live := fun s => by rw [hexp]; exact hw.live s
      started := by rw [hnext]; exact hw.started
      bounded := by rw [hnext]; exact hw.bounded
      ring := by rw [ringOf_deliver]; exact hw.ring
      pushing := hw.pushing
      joining := hw.joining
      fresh := deliver_fresh hn hlive haccept hw.fresh
      ahead := fun hcond => ?_
      snapshot := fun works hj => ?_
      joiner := ?_ }
  · have hold : w.hub.sub? key sink = none ∨ ∃ works, w.joining = some (key, sink, works) := by
      rcases hcond with hnone | hj
      · exact .inl (not_not.mp fun hsome => hkept.mpr hsome hnone)
      · exact .inr hj
    refine List.IsSuffix.trans ?_ (hw.ahead hold)
    rw [hway]
    exact suffix_append _ _
  · obtain ⟨hs, hsplit⟩ := hw.snapshot works hj
    exact ⟨hkept.mpr hs, hsplit⟩
  rw [show delivered _ key sink = delivered w key sink ++ _ by
    rw [delivered, delivered, handedTo_append, map_append]]
  exact deliver_joiner hn hlive haccept hjoin

theorem step_inv (hw : Inv key sink w) {a : Act} (hshort : ShortBacklog w a)
    (haccept : Accepting sink a) (hcont : Continues key sink w a) (h : step w a = some w') :
    Inv key sink w' := by
  cases a with
  | pushRegister key' sample => exact pushRegister_inv hw h
  | pushEnqueue key' => exact pushEnqueue_inv hw h
  | subscribeRegister key' sink' => exact subscribeRegister_inv hw h
  | subscribeInsert => exact subscribeInsert_inv hw hcont h
  | work accepts => exact work_inv hw hshort haccept h

end Steps

/-! ## Whole runs -/

theorem taken_subset {queue : List Frame} : ∀ f ∈ taken n queue, f ∈ queue := by
  induction queue generalizing n with
  | nil => simp [taken]
  | cons g queue ih =>
    intro f hf
    rw [taken] at hf
    split at hf
    · rcases mem_cons.mp hf with rfl | hf
      · exact mem_cons_self
      · exact mem_cons_of_mem _ (ih f hf)
    · exact mem_cons_of_mem _ (ih f hf)

/-- What the abstract joiner knows: no frame after the first is lost. -/
theorem Inv.losesNothing {key : HubKey} {sink : Sink} {w : World} (hw : Inv key sink w) :
    LosesNothing w key sink := by
  have hgate := hw.joiner.gate
  cases hstand : standOf (w.hub.sub? key sink) with
  | absent =>
    rw [hstand] at hgate
    rw [LosesNothing, show delivered w key sink = [] from hgate]
    exact ⟨List.Pairwise.nil, by simp⟩
  | waiting =>
    rw [hstand] at hgate
    rw [LosesNothing, show delivered w key sink = [] from hgate]
    exact ⟨List.Pairwise.nil, by simp⟩
  | reached n =>
    rw [hstand] at hgate
    obtain ⟨hcomplete, ⟨first, rest, hdel, hk, heq⟩, -⟩ := hgate
    constructor
    · have hinc : Increasing (delivered w key sink ++ newer n (w.pushed key)) :=
        heq ▸ List.Pairwise.filter _ hw.joiner.increasing
      exact (pairwise_append.mp hinc).1
    intro first' rest' hdel'
    obtain ⟨rfl, rfl⟩ := List.cons.inj (hdel.symm.trans hdel')
    refine ⟨hk, newer n (w.pushed key), heq, fun f hf => ?_⟩
    rw [← hcomplete] at hf
    exact taken_subset f hf

/-- **A late joiner loses and repeats nothing.** In every interleaving of
the critical sections with a backlog of at most one ring and a sink that
accepts everything, if its catch-up continues what it has when it goes in,
then the frames delivered to it are increasing, start with a keyframe, and
are all frames of the entry from that keyframe on, up to those still on
their way. -/
theorem late_joiner_loses_nothing {ringSize : Nat} {key : HubKey} {sink : Sink}
    {acts : List Act} {w : World}
    (hshort : (system ringSize).AllSteps ShortBacklog (system ringSize).init acts)
    (haccept : ∀ a ∈ acts, Accepting sink a)
    (hcont : (system ringSize).AllSteps (Continues key sink) (system ringSize).init acts)
    (hrun : (system ringSize).run (system ringSize).init acts = some w) :
    LosesNothing w key sink := by
  have haccept' : (system ringSize).AllSteps (fun _ a => Accepting sink a)
      (system ringSize).init acts :=
    (system ringSize).allSteps_of_forall fun a ha _ => haccept a ha
  refine Inv.losesNothing ((system ringSize).run_induction ?_ (Inv.init key sink ringSize)
    ((hshort.and haccept').and hcont) hrun)
  rintro v a v' hv ⟨⟨h1, h2⟩, h3⟩ h
  exact step_inv hv h1 h2 h3 h

/-- The worker, with sinks that accept everything. -/
def workAll : Act := .work fun _ _ => true

/-- A frame pushed and worked off. -/
def pushWork (sample : Sample) : List Act :=
  [.pushRegister camera sample, .pushEnqueue camera, workAll]

/-- Frames 1 and 2 have been worked off when the sink joins; frame 3 is
pushed before its catch-up goes in, and stays queued behind it. -/
def joinedActs : List Act :=
  pushWork keySample ++ pushWork deltaSample ++
    [.subscribeRegister camera 0, .pushRegister camera deltaSample, .pushEnqueue camera,
      .subscribeInsert, workAll, workAll, workAll]

/-- The joiner is handed the frames 1, 2 and 3. -/
theorem late_joiner_loses_nothing_joined :
    ∃ w, (system 4).run (system 4).init joinedActs = some w ∧
      delivered w camera 0 = [⟨1, true⟩, ⟨2, false⟩, ⟨3, false⟩] ∧ LosesNothing w camera 0 := by
  have hshort : (system 4).AllSteps ShortBacklog (system 4).init joinedActs := by decide +kernel
  have hcont : (system 4).AllSteps (Continues camera 0) (system 4).init joinedActs := by
    decide +kernel
  have haccept : ∀ a ∈ joinedActs, Accepting 0 a := by
    simp [joinedActs, pushWork, workAll, Accepting]
  exact ⟨_, rfl, by decide +kernel, late_joiner_loses_nothing hshort haccept hcont rfl⟩

/-- The same, with the worker taking frame 3 before the catch-up goes in. -/
def lostActs : List Act :=
  pushWork keySample ++ pushWork deltaSample ++
    (.subscribeRegister camera 0 :: pushWork deltaSample) ++
    [.subscribeInsert, workAll, workAll] ++ pushWork deltaSample

/-- **A late joiner can lose a frame.** The joiner waits for a keyframe
while frame 3 passes it by, and is then handed 1 and 2 from its catch-up
and 4 from the queue. -/
theorem late_joiner_loses_frame :
    (system 4).AllSteps ShortBacklog (system 4).init lostActs ∧
    (∀ a ∈ lostActs, Accepting 0 a) ∧
    ∃ w, (system 4).run (system 4).init lostActs = some w ∧
      delivered w camera 0 = [⟨1, true⟩, ⟨2, false⟩, ⟨4, false⟩] ∧
      w.pushed camera = [⟨1, true⟩, ⟨2, false⟩, ⟨3, false⟩, ⟨4, false⟩] ∧
      ¬ LosesNothing w camera 0 := by
  refine ⟨by decide +kernel, by simp [lostActs, pushWork, workAll, Accepting], _, rfl,
    by decide +kernel, by decide +kernel, fun h => ?_⟩
  obtain ⟨-, missing, heq, -⟩ := h.2 ⟨1, true⟩ [⟨2, false⟩, ⟨4, false⟩] (by decide +kernel)
  have hlist : [⟨1, true⟩, ⟨2, false⟩, ⟨3, false⟩, ⟨4, false⟩] =
      [⟨1, true⟩, ⟨2, false⟩, (⟨4, false⟩ : Frame)] ++ missing := heq
  simp at hlist

end Fjarr.Media.LateJoiner
