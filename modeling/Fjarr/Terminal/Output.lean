/-
Fjarr.Terminal.Output — when a terminal loses output.

While a pty is up, what was read from its master is what was sent on the
bulk channel followed by what waits in its queue (`Queued`), whatever the
channel takes or refuses. A takedown drops the queue, also the one at end
of file. So the output of a shell that ended by itself is complete exactly
when nothing was waiting as its end was read (`output_complete_iff`), and
a channel that refuses one message right before the end loses it
(`end_of_file_drops_output`).
-/
import Fjarr.Terminal.Reaping

namespace Fjarr.Terminal

open Lib List Option World

/-! ## What a shell wrote, and what was sent of it -/

/-- What one event adds to what was read from a master. -/
def Event.output (fd : Fd) : Event → Bytes
  | .read f bytes => if f = fd then bytes else []
  | _ => []

/-- What one event adds to what was sent of a master's output. -/
def Event.transmitted (fd : Fd) : Event → Bytes
  | .sent f bytes => if f = fd then bytes else []
  | _ => []

/-- Everything the shell behind a master wrote, as it was read. -/
def outputOf (log : List Event) (fd : Fd) : Bytes := log.flatMap (Event.output fd)

/-- Everything sent of it on the bulk channel. -/
def sentOf (log : List Event) (fd : Fd) : Bytes := log.flatMap (Event.transmitted fd)

@[simp] theorem outputOf_append (xs ys : List Event) (fd : Fd) :
    outputOf (xs ++ ys) fd = outputOf xs fd ++ outputOf ys fd := flatMap_append

@[simp] theorem sentOf_append (xs ys : List Event) (fd : Fd) :
    sentOf (xs ++ ys) fd = sentOf xs fd ++ sentOf ys fd := flatMap_append

/-- The event is about the output of this master. -/
def Event.Carries (fd : Fd) : Event → Prop
  | .read f _ | .sent f _ => f = fd
  | _ => False

/-- Events that carry nothing of a master's output change neither. -/
theorem record_of_not_carries (log : List Event) {es : List Event} {fd : Fd}
    (h : ∀ e ∈ es, ¬ e.Carries fd) :
    outputOf (log ++ es) fd = outputOf log fd ∧ sentOf (log ++ es) fd = sentOf log fd := by
  have hout : outputOf es fd = [] := by
    refine flatMap_eq_nil_iff.mpr fun e he => ?_
    have hc := h e he
    cases e <;> first | rfl | exact if_neg hc
  have hsent : sentOf es fd = [] := by
    refine flatMap_eq_nil_iff.mpr fun e he => ?_
    have hc := h e he
    cases e <;> first | rfl | exact if_neg hc
  rw [outputOf_append, sentOf_append, hout, hsent, append_nil, append_nil]
  exact ⟨rfl, rfl⟩

theorem record_map_read (fd : Fd) (bs : List Bytes) :
    outputOf (bs.map (.read fd)) fd = bs.flatten ∧ sentOf (bs.map (.read fd)) fd = [] := by
  simp [outputOf, sentOf, flatMap_map, Event.output, Event.transmitted, flatMap_id']

theorem record_map_sent (fd : Fd) (bs : List Bytes) :
    outputOf (bs.map (.sent fd)) fd = [] ∧ sentOf (bs.map (.sent fd)) fd = bs.flatten := by
  simp [outputOf, sentOf, flatMap_map, Event.output, Event.transmitted, flatMap_id']

/-! ## The queue -/

theorem World.pumpLoop_append (accepts : Nat → Bool) (k : Nat) (pending : List Bytes) :
    (pumpLoop accepts k pending).1 ++ (pumpLoop accepts k pending).2 = pending := by
  induction pending generalizing k with
  | nil => rfl
  | cons front rest ih =>
    rw [pumpLoop]
    split
    · rw [cons_append, ih]
    · rfl

/-- Every pty's output is sent or waiting, and a master that was never
opened has none. -/
structure Queued (w : World) : Prop where
  waiting : ∀ (id : String) (p : Pty), w.ptys[id]? = some p →
    outputOf w.log p.fd = sentOf w.log p.fd ++ p.pending.flatten ∧ ∀ b ∈ p.pending, b ≠ []
  silent : ∀ fd, w.fds fd = .unused → outputOf w.log fd = [] ∧ sentOf w.log fd = []

/-- What a callback does to output: it keeps the queues' account, it
carries nothing of a closed master, and it opens none again. -/
structure Flow (w w' : World) : Prop where
  queued : Queued w → Queued w'
  carried : ∃ es, w'.log = w.log ++ es ∧ ∀ e ∈ es, ∀ fd, e.Carries fd → w.fds fd ≠ .closed
  closed : ∀ fd, w.fds fd = .closed → w'.fds fd = .closed

namespace Flow

variable {w w' w'' : World} {id : String}

theorem refl (w : World) : Flow w w := ⟨id, ⟨[], by simp⟩, fun _ h => h⟩

theorem trans (h : Flow w w') (h' : Flow w' w'') : Flow w w'' := by
  obtain ⟨es, hlog, hes⟩ := h.carried
  obtain ⟨es', hlog', hes'⟩ := h'.carried
  refine ⟨fun hq => h'.queued (h.queued hq), ⟨es ++ es', ?_, ?_⟩,
    fun fd hfd => h'.closed fd (h.closed fd hfd)⟩
  · rw [hlog', hlog, append_assoc]
  intro e he fd hc
  rcases mem_append.mp he with he | he
  · exact hes e he fd hc
  · exact fun hfd => hes' e he fd hc (h.closed fd hfd)

theorem record (h : Flow w w') {fd : Fd} (hfd : w.fds fd = .closed) :
    outputOf w'.log fd = outputOf w.log fd ∧ sentOf w'.log fd = sentOf w.log fd := by
  obtain ⟨es, hlog, hes⟩ := h.carried
  rw [hlog]
  exact record_of_not_carries w.log fun e he hc => hes e he fd hc hfd

/-- A callback whose events carry output of masters without a pty
afterwards. The ptys it leaves are old ones with their queues as they
were, or new ones on a new master. -/
theorem quiet (es : List Event)
    (hes : ∀ e ∈ es, ∀ fd, e.Carries fd → w.fds fd = .opened ∧
      ∀ (id : String) (p : Pty), w'.ptys[id]? = some p → p.fd ≠ fd)
    (hlog : w'.log = w.log ++ es) (hunused : ∀ fd, w'.fds fd = .unused → w.fds fd = .unused)
    (hclosed : ∀ fd, w.fds fd = .closed → w'.fds fd = .closed)
    (hptys : ∀ (id : String) (p : Pty), w'.ptys[id]? = some p →
      w.ptys[id]? = some p ∨ p.pending = [] ∧ w.fds p.fd = .unused) : Flow w w' := by
  refine ⟨fun hq => ⟨fun id p hp => ?_, fun fd hfd => ?_⟩, ⟨es, hlog, fun e he fd hc hfd => ?_⟩,
    hclosed⟩
  · obtain ⟨hout, hsent⟩ := record_of_not_carries w.log fun e he hc =>
      (hes e he p.fd hc).2 id p hp rfl
    rw [hlog, hout, hsent]
    rcases hptys id p hp with hold | ⟨hempty, hnew⟩
    · exact hq.waiting id p hold
    · rw [(hq.silent p.fd hnew).1, (hq.silent p.fd hnew).2, hempty]
      exact ⟨rfl, by simp⟩
  · have hold := hunused fd hfd
    have hnone : ∀ e ∈ es, ¬ e.Carries fd := by
      intro e he hc
      rw [(hes e he fd hc).1] at hold
      cases hold
    obtain ⟨hout, hsent⟩ := record_of_not_carries w.log hnone
    rw [hlog, hout, hsent]
    exact hq.silent fd hold
  · rw [(hes e he fd hc).1] at hfd
    cases hfd

theorem unchanged (es : List Event) (hes : ∀ e ∈ es, ∀ fd, ¬ e.Carries fd)
    (hlog : w'.log = w.log ++ es) (hfds : w'.fds = w.fds) (hptys : w'.ptys = w.ptys) :
    Flow w w' := by
  refine quiet es (fun e he fd hc => absurd hc (hes e he fd)) hlog ?_ ?_ ?_
  · intro fd hfd
    rwa [hfds] at hfd
  · intro fd hfd
    rwa [hfds]
  intro id p hp
  rw [hptys] at hp
  exact .inl hp

theorem emit (w : World) {e : Event} (he : ∀ fd, ¬ e.Carries fd) : Flow w (w.emit e) :=
  unchanged [e] (fun _ hf => mem_singleton.mp hf ▸ he) rfl rfl rfl

/-- A takedown drops the pty's queue, with what was read right before it. -/
theorem takenDown (hinv : Inv w) {p : Pty} (hp : w.ptys[id]? = some p) {pid : Pid}
    (before : List Bytes) {es : List Event} (hes : Takedown pid p.fd es) :
    Flow w (World.takenDown { w with log := w.log ++ before.map (.read p.fd) } id pid p.fd es) := by
  obtain ⟨mine, hmine, -, hopen, -⟩ := hinv.held id p hp
  have hfds : ∀ f, Function.update w.fds p.fd .closed f = if f = p.fd then .closed else w.fds f :=
    Function.update_apply w.fds p.fd .closed
  have hptys : ∀ id' p', (w.ptys.erase id)[id']? = some p' → id' ≠ id ∧ w.ptys[id']? = some p' :=
    fun _ _ => Maps.of_get?_erase
  refine quiet (before.map (Event.read p.fd) ++ es) ?_ (append_assoc ..) ?_ ?_ ?_
  · intro e he f hc
    rcases mem_append.mp he with he | he
    · obtain ⟨b, -, rfl⟩ := List.mem_map.mp he
      obtain rfl : p.fd = f := hc
      refine ⟨hopen, fun id' p' hp' => ?_⟩
      obtain ⟨hne, hp'⟩ := hptys id' p' hp'
      obtain ⟨pid', hpid', -⟩ := hinv.held id' p' hp'
      exact (hinv.disjoint hp hmine hp' hpid' hne).2
    · rcases hes.only e he with rfl | rfl | ⟨s, rfl⟩ | ⟨i, x, rfl⟩ <;> cases hc
  · intro f hf
    have hf : Function.update w.fds p.fd .closed f = .unused := hf
    rw [hfds] at hf
    split at hf
    · cases hf
    · exact hf
  · intro f hf
    show Function.update w.fds p.fd .closed f = .closed
    rw [hfds]
    split
    · rfl
    · exact hf
  · intro id' p' hp'
    exact .inl (hptys id' p' hp').2

/-- **Pumping** moves output from the queue to the channel. `new` is what
was just read and queued, if anything. -/
theorem pump (hinv : Inv w) {p q : Pty} (hp : w.ptys[id]? = some p) (hfd : q.fd = p.fd)
    (new : List Bytes) (hnew : ∀ b ∈ new, b ≠ []) (hq : q.pending = p.pending ++ new)
    (accepts : Nat → Bool) :
    Flow w (World.pump { w with log := w.log ++ new.map (.read p.fd) } id q accepts) := by
  obtain ⟨pid, hpid, -, hopen, -⟩ := hinv.held id p hp
  have hsplit := pumpLoop_append accepts 0 q.pending
  obtain ⟨taken, left, hloop⟩ : ∃ taken left, pumpLoop accepts 0 q.pending = (taken, left) :=
    ⟨_, _, rfl⟩
  rw [hloop, hq] at hsplit
  simp only [World.pump, hloop, hfd]
  -- what is read and sent here is this master's only
  have hmine : ∀ e ∈ new.map (Event.read p.fd) ++ taken.map (Event.sent p.fd), ∀ fd,
      e.Carries fd → p.fd = fd := by
    intro e he fd hc
    rcases mem_append.mp he with he | he
    · obtain ⟨b, -, rfl⟩ := List.mem_map.mp he
      exact hc
    · obtain ⟨b, -, rfl⟩ := List.mem_map.mp he
      exact hc
  have hothers : ∀ fd, p.fd ≠ fd →
      outputOf (w.log ++ new.map (.read p.fd) ++ taken.map (.sent p.fd)) fd = outputOf w.log fd ∧
      sentOf (w.log ++ new.map (.read p.fd) ++ taken.map (.sent p.fd)) fd = sentOf w.log fd := by
    intro fd hdiff
    rw [append_assoc]
    exact record_of_not_carries w.log fun e he hc => hdiff (hmine e he fd hc)
  refine ⟨fun h => ⟨fun id' p' hp' => ?_, fun fd hunused => ?_⟩,
    ⟨_, append_assoc .., fun e he fd hc hclosed => ?_⟩, fun _ hc => hc⟩
  · dsimp only at hp' ⊢
    obtain ⟨-, rfl⟩ | ⟨hdiff, hp'⟩ := Maps.of_get?_insert hp'
    · obtain ⟨haccount, hne⟩ := h.waiting id p hp
      dsimp only
      refine ⟨?_, fun b hb => ?_⟩
      · simp only [outputOf_append, sentOf_append, (record_map_read p.fd new).1,
          (record_map_read p.fd new).2, (record_map_sent p.fd taken).1,
          (record_map_sent p.fd taken).2, append_nil, nil_append, haccount,
          append_assoc]
        rw [← flatten_append, ← flatten_append, hsplit]
      · have hmem : b ∈ p.pending ++ new := hsplit ▸ mem_append_right taken hb
        exact (mem_append.mp hmem).elim (hne b) (hnew b)
    obtain ⟨pid', hpid', -⟩ := hinv.held id' p' hp'
    have hfd' := (hinv.disjoint hp hpid hp' hpid' hdiff).2
    rw [(hothers p'.fd hfd'.symm).1, (hothers p'.fd hfd'.symm).2]
    exact h.waiting id' p' hp'
  · have hdiff : p.fd ≠ fd := by
      rintro rfl
      rw [show w.fds p.fd = .unused from hunused] at hopen
      cases hopen
    dsimp only
    rw [(hothers fd hdiff).1, (hothers fd hdiff).2]
    exact h.silent fd hunused
  · rw [← hmine e he fd hc, hopen] at hclosed
    cases hclosed

theorem closePty (hinv : Inv w) (id : String) (notify : Bool) (dies : Nat → Option Status) :
    Flow w (w.closePty id notify dies) := by
  cases hp : w.ptys[id]? with
  | none =>
    rw [World.closePty, hp]
    exact refl w
  | some p =>
    obtain ⟨pid, hpid, halive, -⟩ := hinv.held id p hp
    obtain ⟨es, hes, heq⟩ := closePty_takedown hp hpid halive notify dies
    rw [heq]
    simpa using takenDown hinv hp [] hes

theorem readable (hinv : Inv w) {r : World.Read} (hr : r.fits = true) (accepts : Nat → Bool)
    (dies : Nat → Option Status) : Flow w (w.readable id r accepts dies) := by
  rw [World.readable]
  cases hp : w.ptys[id]? with
  | none => exact refl w
  | some p =>
    obtain ⟨pid, hpid, halive, -⟩ := hinv.held id p hp
    cases r with
    | data bytes =>
      have hne : bytes ≠ [] := by
        simp only [World.Read.fits, Bool.and_eq_true, decide_eq_true_eq] at hr
        exact hr.1
      dsimp only
      split
      · -- the queue is full: what was just read goes down with the pty
        obtain ⟨es, hes, heq⟩ := closePty_takedown (w := w.emit (.read p.fd bytes)) hp hpid
          halive true dies
        rw [heq]
        exact takenDown hinv hp [bytes] hes
      exact pump (q := { p with
        pending := p.pending ++ [bytes]
        pendingBytes := p.pendingBytes + bytes.length }) hinv hp rfl [bytes]
        (by simpa using hne) rfl accepts
    | again => exact refl w
    | ended =>
      obtain ⟨es, hes, heq⟩ := shellEnded_takedown hp hpid halive dies
      dsimp only
      rw [heq]
      simpa using takenDown hinv hp [] hes

theorem drain (hinv : Inv w) (id : String) (accepts : Nat → Bool) :
    Flow w (w.drain id accepts) := by
  rw [World.drain]
  cases hp : w.ptys[id]? with
  | none => exact refl w
  | some p =>
    simpa using pump (q := { p with drainArmed := false }) hinv hp rfl [] (by simp) (by simp) accepts

theorem openPty (w : World) (c : Config) (id : String) (cols rows : UInt16) {forked : Forked}
    (hfresh : forked.fresh w = true) : Flow w (w.openPty c id cols rows forked) := by
  unfold World.openPty
  split
  · exact emit w fun _ hc => hc
  split
  · exact emit w fun _ hc => hc
  cases forked with
  | failed error => exact emit w fun _ hc => hc
  | child pid fd =>
    simp only [Forked.fresh, Bool.and_eq_true, decide_eq_true_eq] at hfresh
    have hfds : ∀ f, Function.update w.fds fd .opened f = if f = fd then .opened else w.fds f :=
      Function.update_apply w.fds fd .opened
    refine quiet [.fork id pid fd,
      .winsize fd (if cols = 0 then 80 else cols) (if rows = 0 then 24 else rows),
      .reply id .ok] ?_ rfl ?_ ?_ ?_
    · intro e he f hc
      simp only [mem_cons, not_mem_nil, or_false] at he
      rcases he with rfl | rfl | rfl <;> cases hc
    · intro f hf
      dsimp only at hf
      rw [hfds] at hf
      split at hf
      · cases hf
      · exact hf
    · intro f hf
      dsimp only
      rw [hfds, if_neg]
      · exact hf
      rintro rfl
      rw [hfresh.2] at hf
      cases hf
    intro id' p' hp'
    dsimp only at hp'
    obtain ⟨-, rfl⟩ | ⟨-, hp'⟩ := Maps.of_get?_insert hp'
    · exact .inr ⟨rfl, hfresh.2⟩
    · exact .inl hp'

theorem onMessage (hinv : Inv w) (c : Config) {r : Request} (hfresh : r.fresh w = true) :
    Flow w (w.onMessage c id r) := by
  cases r with
  | «open» cols rows forked => exact openPty w c id cols rows hfresh
  | resize cols rows =>
    simp only [World.onMessage, resize]
    split
    · exact emit w fun _ hc => hc
    rename_i p hp
    refine unchanged [.winsize p.fd cols rows, .reply id .ok] ?_ rfl rfl rfl
    intro e he fd hc
    simp only [mem_cons, not_mem_nil, or_false] at he
    rcases he with rfl | rfl <;> cases hc
  | close dies => exact (closePty hinv id false dies).trans (emit _ fun _ hc => hc)
  | other type => exact emit w fun _ hc => hc

theorem closeAll (hinv : Inv w) (dies : String → Nat → Option Status) (ids : List String) :
    Flow w (w.closeAll dies ids) := by
  induction ids generalizing w with
  | nil => exact refl w
  | cons id ids ih =>
    exact (closePty hinv id false (dies id)).trans (ih (hinv.closePty id false (dies id)))

end Flow

theorem step_flow (c : Config) {w w' : World} {a : Act} (hinv : Inv w)
    (hstep : step c w a = some w') : Flow w w' := by
  cases a with
  | attach id =>
    cases hstep
    exact Flow.unchanged [] (by simp) (by simp) rfl rfl
  | request id r =>
    simp only [step, ite_none_right_eq_some, Bool.and_eq_true, some.injEq] at hstep
    obtain ⟨⟨-, hfresh⟩, rfl⟩ := hstep
    exact Flow.onMessage hinv c hfresh
  | binary id bytes writes =>
    obtain ⟨-, rfl⟩ := guarded.mp hstep
    rw [onBinary]
    split
    · exact Flow.refl w
    · exact Flow.emit w fun _ hc => hc
  | readable id r accepts dies =>
    simp only [step, ite_none_right_eq_some, Bool.and_eq_true, some.injEq] at hstep
    obtain ⟨⟨-, hr⟩, rfl⟩ := hstep
    exact Flow.readable hinv hr accepts dies
  | drain id accepts =>
    obtain ⟨-, rfl⟩ := guarded.mp hstep
    exact Flow.drain hinv id accepts
  | releaseAllInput id dies =>
    cases hstep
    exact Flow.closePty hinv id false dies
  | detach id dies =>
    obtain ⟨-, rfl⟩ := guarded.mp hstep
    exact (Flow.closePty hinv id false dies).trans
      (Flow.unchanged [] (by simp) (by simp [sessionDetached]) rfl rfl)
  | shutdown dies =>
    cases hstep
    exact (Flow.closeAll hinv dies w.ptys.keys).trans
      (Flow.unchanged [] (by simp) (by simp [shutdown]) rfl rfl)
  | childExits pid status =>
    obtain ⟨hrun, rfl⟩ := guarded.mp hstep
    rw [exits, if_pos hrun]
    exact Flow.unchanged [] (by simp) (by simp) rfl rfl

theorem reachable_queued {c : Config} {w : World} (hw : (system c).Reachable w) : Queued w := by
  refine (system c).reachable_induction ?_ (fun s a s' hs hq hstep => ?_) hw
  · exact ⟨fun id p hp => by simp [system] at hp, fun _ _ => ⟨rfl, rfl⟩⟩
  · exact (step_flow c (reachable_inv hs) hstep).queued hq

/-- What follows a reachable state adds nothing to a closed master's record. -/
theorem run_flow {c : Config} {w w' : World} (hw : (system c).Reachable w) {as : List Act}
    (hrun : (system c).run w as = some w') : Flow w w' := by
  have hboth : (system c).Reachable w' ∧ Flow w w' := by
    refine (system c).run_induction (P := fun v => (system c).Reachable v ∧ Flow w v)
      (Q := fun _ _ => True) ?_ ⟨hw, Flow.refl w⟩ ((system c).allSteps_true w as) hrun
    rintro v a v' ⟨hv, hflow⟩ - hstep
    exact ⟨hv.step hstep, hflow.trans (step_flow c (reachable_inv hv) hstep)⟩
  exact hboth.2

/-! ## The result -/

/-- **When a shell's output is complete.** A shell runs behind a pty of a
reachable state, and its end is read. Whatever happens from then on, its
output is what was sent followed by what waited in the queue at that
moment; so everything it wrote was sent exactly when nothing waited. -/
theorem output_complete_iff {c : Config} {w : World} (hw : (system c).Reachable w) {id : String}
    {p : Pty} (hp : w.ptys[id]? = some p) {accepts : Nat → Bool} {dies : Nat → Option Status}
    {w' : World} (hend : (system c).step w (.readable id .ended accepts dies) = some w') {as : List Act}
    {w'' : World} (hrun : (system c).run w' as = some w'') :
    outputOf w''.log p.fd = sentOf w''.log p.fd ++ p.pending.flatten ∧
      (sentOf w''.log p.fd = outputOf w''.log p.fd ↔ p.pending = []) := by
  obtain ⟨haccount, hne⟩ := (reachable_queued hw).waiting id p hp
  have heq : w' = w.shellEnded id p dies := by
    simp only [system, step, ite_none_right_eq_some, some.injEq, readable,
      hp] at hend
    exact hend.2.symm
  obtain ⟨pid, hpid, halive, -⟩ := (reachable_inv hw).held id p hp
  obtain ⟨es, hes, htaken⟩ := shellEnded_takedown hp hpid halive dies
  rw [htaken] at heq
  have hclosed : w'.fds p.fd = .closed := by
    rw [heq]
    exact Function.update_self ..
  -- neither the takedown nor anything after it carries output of this master
  obtain ⟨hout, hsent⟩ := (run_flow (hw.step hend) hrun).record hclosed
  obtain ⟨hout', hsent'⟩ : outputOf w'.log p.fd = outputOf w.log p.fd ∧
      sentOf w'.log p.fd = sentOf w.log p.fd := by
    rw [heq]
    refine record_of_not_carries w.log fun e he hc => ?_
    rcases hes.only e he with rfl | rfl | ⟨s, rfl⟩ | ⟨i, x, rfl⟩ <;> cases hc
  rw [hout, hsent, hout', hsent']
  refine ⟨haccount, ?_⟩
  rw [haccount, self_eq_append_right, flatten_eq_nil_iff]
  constructor
  · intro hall
    by_contra hpending
    obtain ⟨b, hb⟩ := exists_mem_of_ne_nil _ hpending
    exact hne b hb (hall b hb)
  intro hpending b hb
  rw [hpending] at hb
  cases hb

/-- One shell that writes a line and ends; `taken` says whether the bulk
channel takes the line when it is read. -/
def oneLine (taken : Bool) : List Act :=
  [.attach "s", .request "s" (.open 80 24 (.child 7 3)),
    .readable "s" (.data [104, 105]) (fun _ => taken) fun _ => none, .childExits 7 (.exited 0)]

theorem output_complete_iff_taken :
    ∃ w w' p, (system bashConfig).run {} (oneLine true) = some w ∧ w.ptys["s"]? = some p ∧
      p.pending = [] ∧
      (system bashConfig).step w (.readable "s" .ended (fun _ => true) fun _ => none) = some w' ∧
      sentOf w'.log p.fd = outputOf w'.log p.fd ∧ outputOf w'.log p.fd = [104, 105] := by
  obtain ⟨w, hrun, hw⟩ : ∃ w, (system bashConfig).run {} (oneLine true) = some w ∧
      w.ptys["s"]? = some { pid := some 7, fd := 3 } := by
    rw [← map_eq_some_iff]
    decide +kernel
  obtain ⟨w', hend, hw'⟩ : ∃ w', (system bashConfig).run {} (oneLine true ++
      [.readable "s" .ended (fun _ => true) fun _ => none]) = some w' ∧
      outputOf w'.log 3 = [104, 105] := by
    rw [← map_eq_some_iff]
    decide +kernel
  rw [System.run_append, hrun, bind_some, System.run_cons_eq_some] at hend
  obtain ⟨v, hstep, hv⟩ := hend
  obtain rfl := some.inj hv
  have hrest : (system bashConfig).run v [] = some v := rfl
  exact ⟨w, v, _, hrun, hw, rfl, hstep,
    (output_complete_iff ⟨_, hrun⟩ hw hstep hrest).2.mpr rfl, hw'⟩

/-- **End of file drops what waits.** The channel refuses the shell's only
line, the shell ends, and the session is told so: the line is never sent,
even if the channel drains right after. -/
theorem end_of_file_drops_output :
    ∃ w, (system bashConfig).run {} (oneLine false ++
        [.readable "s" .ended (fun _ => true) (fun _ => none), .drain "s" fun _ => true]) = some w ∧
      outputOf w.log 3 = [104, 105] ∧ sentOf w.log 3 = [] ∧
      Event.exit "s" (.code 0) ∈ w.log ∧ w.ptys["s"]? = none := by
  refine evaluated
    (fun w => (outputOf w.log 3, sentOf w.log 3, decide (Event.exit "s" (.code 0) ∈ w.log),
      w.ptys["s"]?))
    (b := ([104, 105], [], true, none)) (by decide +kernel) fun w hrun hw => ?_
  simp only [Prod.mk.injEq, decide_eq_true_eq] at hw
  exact hw

end Fjarr.Terminal
