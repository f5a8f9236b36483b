/-
Fjarr.Terminal.Reaping — no shell outlives its session.

Five paths take a pty down, some of them from inside its own readable
callback. What they share is said once (`Takedown`): the pid is reaped
exactly once, after the last signal to it, and the master is closed
exactly once. `closePty_takedown` and `shellEnded_takedown` show it of the
two functions all paths go through; the invariant `Inv` is then kept by
every callback, and the three guarantees of `no_shell_outlives_session`
are read off it.
-/
import Fjarr.Lib.Maps
import Fjarr.Terminal.Capability

namespace Fjarr.Terminal

open Lib List Option Function

/-- A child that was not reaped yet. -/
def Child.Alive (c : Child) : Prop := c = .running ∨ ∃ status, c = .zombie status

theorem Child.Alive.ne_reaped {c : Child} (h : c.Alive) : c ≠ .reaped := by
  rintro rfl
  rcases h with h | ⟨status, h⟩ <;> cases h

theorem Child.Alive.ne_unborn {c : Child} (h : c.Alive) : c ≠ .unborn := by
  rintro rfl
  rcases h with h | ⟨status, h⟩ <;> cases h

/-! ## What a takedown does -/

/-- No signal goes to a pid that was reaped. -/
def NoLateSignals (log : List Event) : Prop :=
  log.Pairwise fun e f => ∀ pid s, e = .reaped pid → f ≠ .signal pid s

/-- The events of one takedown: signals to the shell, then its reaping;
the master's closing; and what the session is told. -/
structure Takedown (pid : Pid) (fd : Fd) (es : List Event) : Prop where
  reaps : es.count (.reaped pid) = 1
  closes : es.count (.closed fd) = 1
  only : ∀ e ∈ es, e = .reaped pid ∨ e = .closed fd ∨ (∃ s, e = .signal pid s) ∨
    ∃ id payload, e = .exit id payload
  inOrder : NoLateSignals es

/-- The world after a takedown of a session's pty. -/
def World.takenDown (w : World) (id : String) (pid : Pid) (fd : Fd) (es : List Event) : World :=
  { w with
    ptys := w.ptys.erase id
    children := Function.update w.children pid .reaped
    fds := Function.update w.fds fd .closed
    log := w.log ++ es }

namespace World

variable {w : World} {pid : Pid}

/-- The world with one child in another state. -/
def setChild (w : World) (pid : Pid) (c : Child) : World :=
  { w with children := Function.update w.children pid c }

@[simp] theorem setChild_children (w : World) (pid : Pid) (c : Child) :
    (w.setChild pid c).children pid = c := update_self ..

@[simp] theorem setChild_setChild (w : World) (pid : Pid) (c c' : Child) :
    (w.setChild pid c).setChild pid c' = w.setChild pid c' := by
  simp [setChild]

theorem setChild_self (w : World) (pid : Pid) : w.setChild pid (w.children pid) = w := by
  simp [setChild]

@[simp] theorem emit_children (w : World) (e : Event) : (w.emit e).children = w.children := rfl

theorem exits_alive (h : (w.children pid).Alive) (status : Option Status) :
    ∃ c, c.Alive ∧ w.exits pid status = w.setChild pid c := by
  cases status with
  | none => exact ⟨_, h, (w.setChild_self pid).symm⟩
  | some status =>
    rw [exits]
    split
    · exact ⟨.zombie status, .inr ⟨status, rfl⟩, rfl⟩
    · exact ⟨_, h, (w.setChild_self pid).symm⟩

theorem waitpid_alive (h : (w.children pid).Alive) :
    w.waitpid pid = (w, .zero) ∨
      ∃ status, w.waitpid pid = ((w.setChild pid .reaped).emit (.reaped pid), .pid status) := by
  rcases h with h | ⟨status, h⟩
  · exact .inl (by rw [waitpid, h])
  · exact .inr ⟨status, by rw [waitpid, h]; rfl⟩

theorem poll_alive (h : (w.children pid).Alive) (status : Option Status) :
    (∃ c, c.Alive ∧ (w.exits pid status).waitpid pid = (w.setChild pid c, .zero)) ∨
      ∃ status', (w.exits pid status).waitpid pid =
        ((w.setChild pid .reaped).emit (.reaped pid), .pid status') := by
  obtain ⟨c, hc, heq⟩ := exits_alive h status
  rw [heq]
  have hset : ((w.setChild pid c).children pid).Alive := by rwa [setChild_children]
  rcases waitpid_alive hset with hzero | ⟨status', hpid⟩
  · exact .inl ⟨c, hc, hzero⟩
  · exact .inr ⟨status', by rw [hpid, setChild_setChild]⟩

theorem poll_reaped (h : w.children pid = .reaped) (status : Option Status) :
    (w.exits pid status).waitpid pid = (w, .error) := by
  have hexits : w.exits pid status = w := by
    cases status with
    | none => rfl
    | some status => rw [exits, if_neg (by rw [h]; decide)]
  rw [hexits, waitpid, h]

/-- The grace period leaves the child alive, or reaped it. -/
theorem pollExit_cases (h : (w.children pid).Alive) (dies : Nat → Option Status) (n : Nat) :
    (∃ c, c.Alive ∧ w.pollExit pid dies n = w.setChild pid c) ∨
      w.pollExit pid dies n = (w.setChild pid .reaped).emit (.reaped pid) := by
  induction n generalizing w with
  | zero => exact .inl ⟨_, h, (w.setChild_self pid).symm⟩
  | succ n ih =>
    rw [pollExit]
    rcases poll_alive h (dies n) with ⟨c, hc, heq⟩ | ⟨status, heq⟩
    · have hset : ((w.setChild pid c).children pid).Alive := by rwa [setChild_children]
      simp only [heq]
      rcases ih hset with ⟨c', hc', hloop⟩ | hloop
      · exact .inl ⟨c', hc', by rw [hloop, setChild_setChild]⟩
      · exact .inr (by rw [hloop, setChild_setChild])
    · simp only [heq]
      exact .inr trivial

/-- **Reaping.** `close_pty` returns with the child reaped: one or two
signals first, the reaping last. -/
theorem hangUp_eq (h : (w.children pid).Alive) (dies : Nat → Option Status) :
    ∃ sigs : List Signal, w.hangUp pid dies =
      { w.setChild pid .reaped with log := w.log ++ (sigs.map (.signal pid) ++ [.reaped pid]) } := by
  have hkill : ((w.kill pid .hup).children pid).Alive := h
  rw [hangUp]
  rcases pollExit_cases hkill dies 20 with ⟨c, hc, heq⟩ | heq
  · have hset : (((w.kill pid .hup).setChild pid c).children pid).Alive := by
      rwa [setChild_children]
    rw [heq]
    rcases poll_alive hset (dies 20) with ⟨c', hc', hpoll⟩ | ⟨status, hpoll⟩
    · -- still there after the grace period: SIGKILL, and a wait that cannot fail
      refine ⟨[.hup, .kill], ?_⟩
      simp only [hpoll, setChild_setChild]
      have hdead : ∃ status,
          (((w.kill pid .hup).setChild pid c').kill pid .kill).children pid = .zombie status := by
        rcases hc' with rfl | ⟨status, rfl⟩
        · exact ⟨.signaled "Killed", by simp [kill, exits, emit]⟩
        · exact ⟨status, by simp [kill, exits, emit]⟩
      obtain ⟨status, hdead⟩ := hdead
      rw [waitpid, hdead]
      rcases hc' with rfl | ⟨status', rfl⟩
      · simp [kill, exits, emit, setChild]
      · simp [kill, exits, emit, setChild]
    refine ⟨[.hup], ?_⟩
    simp only [hpoll, setChild_setChild]
    simp [kill, emit, setChild]
  refine ⟨[.hup], ?_⟩
  have hreaped : (((w.kill pid .hup).setChild pid .reaped).emit (.reaped pid)).children pid =
      .reaped := by
    rw [emit_children, setChild_children]
  rw [heq, poll_reaped hreaped]
  simp [kill, emit, setChild]

end World

theorem noLateSignals_append {xs ys : List Event} :
    NoLateSignals (xs ++ ys) ↔ NoLateSignals xs ∧ NoLateSignals ys ∧
      ∀ pid s, Event.reaped pid ∈ xs → Event.signal pid s ∉ ys := by
  rw [NoLateSignals, pairwise_append]
  refine and_congr_right fun _ => and_congr_right fun _ => ?_
  constructor
  · intro h pid s hx hy
    exact h _ hx _ hy pid s rfl rfl
  · rintro h e he f hf pid s rfl rfl
    exact h pid s he hf

variable {es : List Event} {e : Event} {w : World}

theorem noLateSignals_of_no_reaped (h : ∀ pid, Event.reaped pid ∉ es) :
    NoLateSignals es := by
  refine List.Pairwise.imp_of_mem ?_ (pairwise_of_forall fun _ _ => trivial)
  rintro e f he - - pid s rfl
  exact absurd he (h pid)

theorem noLateSignals_of_no_signal (h : ∀ pid s, Event.signal pid s ∉ es) :
    NoLateSignals es := by
  refine List.Pairwise.imp_of_mem ?_ (pairwise_of_forall fun _ _ => trivial)
  rintro e f - hf - pid s - rfl
  exact h pid s hf

/-- What a session is told of its shell's end. -/
def OnlyExits (es : List Event) : Prop := ∀ e ∈ es, ∃ id payload, e = Event.exit id payload

theorem onlyExits_nil : OnlyExits [] := by
  intro e he
  cases he

theorem onlyExits_singleton (id : String) (payload : ExitPayload) :
    OnlyExits [.exit id payload] := by
  intro e he
  exact ⟨id, payload, mem_singleton.mp he⟩

theorem OnlyExits.not_mem (h : OnlyExits es)
    (he : ∀ id payload, e ≠ .exit id payload) : e ∉ es := by
  intro hmem
  obtain ⟨id, payload, heq⟩ := h e hmem
  exact he id payload heq

/-- Signals and the reaping, the closing after it, and exit events
anywhere make up a takedown. -/
theorem takedown_of_parts (pid : Pid) (fd : Fd) (sigs : List Signal)
    {before mid after : List Event} (hbefore : OnlyExits before) (hmid : OnlyExits mid)
    (hafter : OnlyExits after) :
    Takedown pid fd ((before ++ sigs.map (.signal pid)) ++
      (.reaped pid :: (mid ++ .closed fd :: after))) := by
  have hzero : ∀ {es : List Event}, OnlyExits es → ∀ e, (∀ id payload, e ≠ Event.exit id payload) →
      es.count e = 0 :=
    fun h e he => count_eq_zero.mpr (h.not_mem he)
  have hsigs : ∀ e, (∀ s, e ≠ Event.signal pid s) → (sigs.map (Event.signal pid)).count e = 0 := by
    intro e he
    refine count_eq_zero.mpr fun hmem => ?_
    obtain ⟨s, -, rfl⟩ := List.mem_map.mp hmem
    exact he s rfl
  refine ⟨?_, ?_, ?_, ?_⟩
  · simp [hzero hbefore, hzero hmid, hzero hafter, hsigs]
  · simp [hzero hbefore, hzero hmid, hzero hafter, hsigs]
  · intro e he
    simp only [mem_append, mem_cons, List.mem_map] at he
    rcases he with (he | ⟨s, -, rfl⟩) | rfl | he | rfl | he
    · exact .inr (.inr (.inr (hbefore e he)))
    · exact .inr (.inr (.inl ⟨s, rfl⟩))
    · exact .inl rfl
    · exact .inr (.inr (.inr (hmid e he)))
    · exact .inr (.inl rfl)
    · exact .inr (.inr (.inr (hafter e he)))
  have hfirst : ∀ p, Event.reaped p ∉ before ++ sigs.map (Event.signal pid) := by
    intro p hmem
    rcases mem_append.mp hmem with hmem | hmem
    · exact hbefore.not_mem (by simp) hmem
    · simp at hmem
  have hlast : ∀ p s, Event.signal p s ∉ Event.reaped pid :: (mid ++ Event.closed fd :: after) := by
    intro p s hmem
    simp only [mem_cons, mem_append, reduceCtorEq, false_or] at hmem
    rcases hmem with hmem | hmem
    · exact hmid.not_mem (by simp) hmem
    · exact hafter.not_mem (by simp) hmem
  exact noLateSignals_append.mpr ⟨noLateSignals_of_no_reaped hfirst,
    noLateSignals_of_no_signal hlast, fun p s hmem => absurd hmem (hfirst p)⟩

namespace World

variable {w : World} {id : String} {p : Pty} {pid : Pid}

theorem closePty_takedown (hp : w.ptys[id]? = some p) (hpid : p.pid = some pid)
    (halive : (w.children pid).Alive) (notify : Bool) (dies : Nat → Option Status) :
    ∃ es, Takedown pid p.fd es ∧ w.closePty id notify dies = w.takenDown id pid p.fd es := by
  have hpop : (({ w with ptys := w.ptys.erase id } : World).children pid).Alive := halive
  obtain ⟨sigs, heq⟩ := hangUp_eq hpop dies
  simp only [closePty, hp, hpid, heq]
  split
  · refine ⟨_, takedown_of_parts pid p.fd sigs onlyExits_nil onlyExits_nil
      (onlyExits_singleton id (.code 0)), ?_⟩
    simp [takenDown, closeFd, emit, setChild]
  · refine ⟨_, takedown_of_parts pid p.fd sigs onlyExits_nil onlyExits_nil onlyExits_nil, ?_⟩
    simp [takenDown, closeFd, emit, setChild]

theorem shellEnded_takedown (hp : w.ptys[id]? = some p) (hpid : p.pid = some pid)
    (halive : (w.children pid).Alive) (dies : Nat → Option Status) :
    ∃ es, Takedown pid p.fd es ∧ w.shellEnded id p dies = w.takenDown id pid p.fd es := by
  simp only [shellEnded, hpid]
  rcases poll_alive halive (dies 21) with ⟨c, hc, heq⟩ | ⟨status, heq⟩
  · -- the shell is not gone yet: `close_pty` hangs it up after the event
    simp only [heq]
    have hset : ((((w.setChild pid c).emit (.exit id (.code 0))).children) pid).Alive := by
      rwa [emit_children, setChild_children]
    have hpop : (({ (w.setChild pid c).emit (.exit id (.code 0)) with
        ptys := w.ptys.erase id } : World).children pid).Alive := hset
    obtain ⟨sigs, hhang⟩ := hangUp_eq hpop dies
    refine ⟨_, takedown_of_parts pid p.fd sigs (onlyExits_singleton id (.code 0)) onlyExits_nil
      onlyExits_nil, ?_⟩
    have hp' : ((w.setChild pid c).emit (.exit id (.code 0))).ptys[id]? = some p := hp
    simp only [closePty, hp', hpid]
    rw [show ((w.setChild pid c).emit (.exit id (.code 0))).ptys = w.ptys from rfl, hhang]
    simp [takenDown, closeFd, emit, setChild]
  simp only [heq]
  refine ⟨_, takedown_of_parts pid p.fd [] onlyExits_nil
    (onlyExits_singleton id status.payload) onlyExits_nil, ?_⟩
  simp [closePty, takenDown, closeFd, emit, setChild, Maps.erase_insert_self]

end World

/-! ## The invariant -/

/-- Counted once when it happened, and not at all before. -/
def Once (happened : Prop) (count : Nat) : Prop :=
  (happened → count = 1) ∧ (¬ happened → count = 0)

/-- One number's state changes and the log grows by what it says of that
number alone. -/
theorem Once.update {β : Type} {f : Nat → β} {done : β} {log es : List Event} {e : Nat → Event}
    (h : ∀ n, Once (f n = done) (log.count (e n))) {n : Nat} (hnot : f n ≠ done) {v : β}
    (hself : Once (v = done) (es.count (e n))) (hother : ∀ m, e m ∈ es → m = n) (m : Nat) :
    Once (Function.update f n v m = done) ((log ++ es).count (e m)) := by
  rw [count_append]
  by_cases hsame : m = n
  · rw [hsame, update_self, (h n).2 hnot, Nat.zero_add]
    exact hself
  · rw [update_of_ne hsame, count_eq_zero.mpr fun hmem => hsame (hother m hmem)]
    exact h m

/-- Who owns which shell, and what the log says of it. -/
structure Inv (w : World) : Prop where
  attached : ∀ (id : String) (p : Pty), w.ptys[id]? = some p → id ∈ w.attached
  held : ∀ (id : String) (p : Pty), w.ptys[id]? = some p → ∃ pid, p.pid = some pid ∧
    (w.children pid).Alive ∧ w.fds p.fd = .opened ∧ Event.fork id pid p.fd ∈ w.log
  forked : ∀ id pid fd, Event.fork id pid fd ∈ w.log →
    (∃ p : Pty, w.ptys[id]? = some p ∧ p.pid = some pid ∧ p.fd = fd) ∨
      (w.children pid = .reaped ∧ w.fds fd = .closed)
  unique : ∀ id pid fd id' pid' fd', Event.fork id pid fd ∈ w.log →
    Event.fork id' pid' fd' ∈ w.log → pid = pid' ∨ fd = fd' → id = id' ∧ pid = pid' ∧ fd = fd'
  reaps : ∀ pid, Once (w.children pid = .reaped) (w.log.count (.reaped pid))
  closes : ∀ fd, Once (w.fds fd = .closed) (w.log.count (.closed fd))
  quiet : NoLateSignals w.log

theorem Inv.init : Inv {} where
  attached := by intro id p h; simp at h
  held := by intro id p h; simp at h
  forked := by intro id pid fd h; cases h
  unique := by intro id pid fd id' pid' fd' h; cases h
  reaps := fun _ => ⟨nofun, fun _ => rfl⟩
  closes := fun _ => ⟨nofun, fun _ => rfl⟩
  quiet := List.Pairwise.nil

/-- An event that is no fork, reaping, closing or signal. -/
def Event.Neutral : Event → Prop
  | .fork .. | .reaped .. | .closed .. | .signal .. => False
  | _ => True

/-- Neutral events leave what the log says of the shells as it is. -/
theorem noLateSignals_neutral {log : List Event} (h : NoLateSignals log)
    (hes : ∀ e ∈ es, e.Neutral) : NoLateSignals (log ++ es) :=
  noLateSignals_append.mpr ⟨h, noLateSignals_of_no_reaped fun _ hmem => hes _ hmem,
    fun _ _ _ hmem => hes _ hmem⟩

theorem count_neutral (hes : ∀ e ∈ es, e.Neutral)
    (he : ¬ e.Neutral) : es.count e = 0 :=
  count_eq_zero.mpr fun hmem => he (hes e hmem)

/-- A step that takes no pty down: the log grows by neutral events, and
each pty keeps its shell and its master. -/
theorem Inv.neutral {w' : World} (h : Inv w) (es : List Event) (hes : ∀ e ∈ es, e.Neutral)
    (hlog : w'.log = w.log ++ es) (hchildren : w'.children = w.children) (hfds : w'.fds = w.fds)
    (hattached : ∀ (id : String) (p : Pty), w'.ptys[id]? = some p → id ∈ w'.attached)
    (hptys : ∀ id : String, (w'.ptys[id]?).map (fun p : Pty => (p.pid, p.fd)) =
      (w.ptys[id]?).map fun p : Pty => (p.pid, p.fd)) : Inv w' := by
  have hfork : ∀ id pid fd, Event.fork id pid fd ∈ w'.log ↔ Event.fork id pid fd ∈ w.log := by
    intro id pid fd
    rw [hlog, mem_append, or_iff_left]
    exact fun hmem => hes _ hmem
  refine ⟨hattached, ?_, ?_, ?_, ?_, ?_, ?_⟩
  · intro id p' hp'
    have hmap := hptys id
    rw [hp', map_some, eq_comm, map_eq_some_iff] at hmap
    obtain ⟨p, hp, heq⟩ := hmap
    obtain ⟨hpid, hfd⟩ := Prod.mk.inj heq
    obtain ⟨pid, hpid', halive, hopen, hmem⟩ := h.held id p hp
    refine ⟨pid, hpid ▸ hpid', hchildren ▸ halive, by rw [hfds, ← hfd, hopen], ?_⟩
    rw [hfork, ← hfd]
    exact hmem
  · intro id pid fd hmem
    rw [hchildren, hfds]
    refine (h.forked id pid fd ((hfork id pid fd).mp hmem)).imp_left ?_
    rintro ⟨p, hp, hpid, hfd⟩
    have hmap := hptys id
    rw [hp, map_some, map_eq_some_iff] at hmap
    obtain ⟨p', hp', heq⟩ := hmap
    obtain ⟨hpid', hfd'⟩ := Prod.mk.inj heq
    exact ⟨p', hp', hpid'.trans hpid, hfd'.trans hfd⟩
  · intro id pid fd id' pid' fd' h1 h2
    exact h.unique id pid fd id' pid' fd' ((hfork _ _ _).mp h1) ((hfork _ _ _).mp h2)
  · intro pid
    rw [hlog, count_append, count_neutral (e := .reaped pid) hes id, hchildren]
    exact h.reaps pid
  · intro fd
    rw [hlog, count_append, count_neutral (e := .closed fd) hes id, hfds]
    exact h.closes fd
  · rw [hlog]
    exact noLateSignals_neutral h.quiet hes

theorem Inv.emit (h : Inv w) (he : e.Neutral) : Inv (w.emit e) :=
  h.neutral [e] (fun _ hf => mem_singleton.mp hf ▸ he) rfl rfl rfl h.attached
    fun _ => rfl

theorem Inv.disjoint (h : Inv w) {id id' : String} {p p' : Pty} {pid pid' : Pid}
    (hp : w.ptys[id]? = some p) (hpid : p.pid = some pid) (hp' : w.ptys[id']? = some p')
    (hpid' : p'.pid = some pid') (hne : id' ≠ id) : pid' ≠ pid ∧ p'.fd ≠ p.fd := by
  obtain ⟨q, hq, -, -, hmem⟩ := h.held id p hp
  obtain ⟨q', hq', -, -, hmem'⟩ := h.held id' p' hp'
  rw [hpid, some.injEq] at hq
  rw [hpid', some.injEq] at hq'
  subst hq hq'
  constructor
  · exact fun heq => hne (h.unique _ _ _ _ _ _ hmem' hmem (.inl heq)).1
  · exact fun heq => hne (h.unique _ _ _ _ _ _ hmem' hmem (.inr heq)).1

/-- **A takedown keeps the invariant**: the session's shell is reaped and
its master closed, and nobody else's is touched. -/
theorem Inv.takenDown (h : Inv w) {id : String} {p : Pty} {pid : Pid}
    (hp : w.ptys[id]? = some p) (hpid : p.pid = some pid)
    (hes : Takedown pid p.fd es) : Inv (w.takenDown id pid p.fd es) := by
  obtain ⟨q, hq, halive, hopen, hmine⟩ := h.held id p hp
  rw [hpid, some.injEq] at hq
  subst hq
  have hfork : ∀ id' pid' fd', Event.fork id' pid' fd' ∈ w.log ++ es ↔
      Event.fork id' pid' fd' ∈ w.log := by
    intro id' pid' fd'
    rw [mem_append, or_iff_left]
    intro hmem
    rcases hes.only _ hmem with heq | heq | ⟨s, heq⟩ | ⟨i, x, heq⟩ <;> cases heq
  have hptys : ∀ id', (w.takenDown id pid p.fd es).ptys[id']? =
      if id' = id then none else w.ptys[id']? :=
    fun id' => Maps.get?_erase w.ptys id id'
  refine ⟨?_, ?_, ?_, ?_, ?_, ?_, ?_⟩
  · intro id' p' hp'
    rw [hptys] at hp'
    split at hp'
    · cases hp'
    · exact h.attached id' p' hp'
  · intro id' p' hp'
    rw [hptys] at hp'
    split at hp'
    · cases hp'
    rename_i hne
    obtain ⟨pid', hpid', halive', hopen', hmem⟩ := h.held id' p' hp'
    obtain ⟨hdiff, hfd⟩ := h.disjoint hp hpid hp' hpid' hne
    refine ⟨pid', hpid', ?_, ?_, (hfork _ _ _).mpr hmem⟩
    · show (Function.update w.children pid .reaped pid').Alive
      rwa [update_of_ne hdiff]
    · show Function.update w.fds p.fd .closed p'.fd = .opened
      rwa [update_of_ne hfd]
  · intro id' pid' fd' hmem
    have hmem := (hfork _ _ _).mp hmem
    show _ ∨ Function.update w.children pid .reaped pid' = .reaped ∧
      Function.update w.fds p.fd .closed fd' = .closed
    by_cases hsame : pid' = pid
    · obtain ⟨rfl, rfl, rfl⟩ := h.unique _ _ _ _ _ _ hmem hmine (.inl hsame)
      exact .inr ⟨update_self .., update_self ..⟩
    have hfd : fd' ≠ p.fd := fun heq => hsame (h.unique _ _ _ _ _ _ hmem hmine (.inr heq)).2.1
    rw [update_of_ne hsame, update_of_ne hfd]
    refine (h.forked id' pid' fd' hmem).imp_left ?_
    rintro ⟨p', hp', hpid', hfd'⟩
    have hne : id' ≠ id := by
      rintro rfl
      rw [hp, some.injEq] at hp'
      subst hp'
      rw [hpid, some.injEq] at hpid'
      exact hsame hpid'.symm
    exact ⟨p', by rw [hptys, if_neg hne]; exact hp', hpid', hfd'⟩
  · intro i a f i' a' f' h1 h2
    exact h.unique i a f i' a' f' ((hfork _ _ _).mp h1) ((hfork _ _ _).mp h2)
  · refine Once.update h.reaps halive.ne_reaped ⟨fun _ => hes.reaps, nofun⟩
      fun pid' hmem => ?_
    rcases hes.only _ hmem with heq | heq | ⟨s, heq⟩ | ⟨i, x, heq⟩ <;> cases heq
    rfl
  · refine Once.update h.closes (by rw [hopen]; decide)
      ⟨fun _ => hes.closes, nofun⟩ fun fd' hmem => ?_
    rcases hes.only _ hmem with heq | heq | ⟨s, heq⟩ | ⟨i, x, heq⟩ <;> cases heq
    rfl
  refine noLateSignals_append.mpr ⟨h.quiet, hes.inOrder, fun pid' s hreaped hsig => ?_⟩
  have hsame : pid' = pid := by
    rcases hes.only _ hsig with heq | heq | ⟨s', heq⟩ | ⟨i, x, heq⟩ <;> cases heq
    rfl
  exact count_eq_zero.mp ((h.reaps pid).2 halive.ne_reaped) (hsame ▸ hreaped)

/-! ## Every callback keeps it -/

section Steps

variable {w : World} {id : String}

variable (h : Inv w)
include h

theorem Inv.closePty (id : String) (notify : Bool) (dies : Nat → Option Status) :
    Inv (w.closePty id notify dies) := by
  cases hp : w.ptys[id]? with
  | none => simpa [World.closePty, hp] using h
  | some p =>
    obtain ⟨pid, hpid, halive, -⟩ := h.held id p hp
    obtain ⟨es, hes, heq⟩ := World.closePty_takedown hp hpid halive notify dies
    rw [heq]
    exact h.takenDown hp hpid hes

theorem Inv.pump {p : Pty} (hp : w.ptys[id]? = some p) {q : Pty}
    (hpid : q.pid = p.pid) (hfd : q.fd = p.fd) (accepts : Nat → Bool) :
    Inv (w.pump id q accepts) := by
  refine h.neutral ((World.pumpLoop accepts 0 q.pending).1.map (.sent q.fd)) ?_ rfl rfl rfl ?_ ?_
  · intro e he
    obtain ⟨b, -, rfl⟩ := List.mem_map.mp he
    exact trivial
  · intro id' p' hp'
    simp only [World.pump, Maps.get?_insert] at hp'
    split at hp'
    · rename_i heq
      rw [heq]
      exact h.attached id p hp
    · exact h.attached id' p' hp'
  intro id'
  simp only [World.pump, Maps.get?_insert]
  split
  · rename_i heq
    rw [heq, hp]
    simp [hpid, hfd]
  · rfl

theorem Inv.readable (r : World.Read) (accepts : Nat → Bool)
    (dies : Nat → Option Status) : Inv (w.readable id r accepts dies) := by
  rw [World.readable]
  cases hp : w.ptys[id]? with
  | none => exact h
  | some p =>
    cases r with
    | data bytes =>
      have hread : Inv (w.emit (.read p.fd bytes)) := h.emit trivial
      dsimp only
      split
      · exact hread.closePty id true dies
      exact hread.pump hp (q := { p with
        pending := p.pending ++ [bytes]
        pendingBytes := p.pendingBytes + bytes.length }) rfl rfl accepts
    | again => exact h
    | ended =>
      obtain ⟨pid, hpid, halive, -⟩ := h.held id p hp
      obtain ⟨es, hes, heq⟩ := World.shellEnded_takedown hp hpid halive dies
      dsimp only
      rw [heq]
      exact h.takenDown hp hpid hes

theorem Inv.drain (id : String) (accepts : Nat → Bool) : Inv (w.drain id accepts) := by
  rw [World.drain]
  cases hp : w.ptys[id]? with
  | none => exact h
  | some p => exact h.pump hp (q := { p with drainArmed := false }) rfl rfl accepts

/-- A fork on a session without a pty, of a child and a master the kernel
never handed out. -/
theorem Inv.fork {pid : Pid} {fd : Fd} (hattached : id ∈ w.attached)
    (hnone : w.ptys[id]? = none) (hpid : w.children pid = .unborn) (hfd : w.fds fd = .unused)
    (ptys : Std.ExtTreeMap String Pty) (hptys : ptys = w.ptys.insert id { pid := some pid, fd }) :
    Inv { w with
      children := Function.update w.children pid .running
      fds := Function.update w.fds fd .opened
      ptys := ptys
      log := w.log ++ [.fork id pid fd] } := by
  -- neither number is in the log yet
  have hnew : ∀ id' pid' fd', Event.fork id' pid' fd' ∈ w.log → pid' ≠ pid ∧ fd' ≠ fd := by
    intro id' pid' fd' hmem
    rcases h.forked id' pid' fd' hmem with ⟨p, hp, hp1, rfl⟩ | ⟨hreaped, hclosed⟩
    · obtain ⟨q, hq, halive, hopen, -⟩ := h.held id' p hp
      rw [hp1, some.injEq] at hq
      subst hq
      constructor
      · rintro rfl
        exact halive.ne_unborn hpid
      intro heq
      rw [heq, hfd] at hopen
      cases hopen
    constructor
    · rintro rfl
      rw [hpid] at hreaped
      cases hreaped
    rintro rfl
    rw [hfd] at hclosed
    cases hclosed
  have hget : ∀ id', ptys[id']? =
      if id' = id then some { pid := some pid, fd } else w.ptys[id']? := by
    intro id'
    rw [hptys, Maps.get?_insert]
  refine ⟨?_, ?_, ?_, ?_, ?_, ?_, ?_⟩
  · intro id' p hp
    rw [hget] at hp
    split at hp
    · rename_i heq
      exact heq ▸ hattached
    · exact h.attached id' p hp
  · intro id' p hp
    dsimp only at hp ⊢
    rw [hget] at hp
    split at hp
    · rename_i heq
      cases hp
      refine ⟨pid, rfl, .inl (update_self ..), update_self .., ?_⟩
      rw [heq]
      exact mem_append_right _ mem_cons_self
    obtain ⟨pid', hpid', halive, hopen, hmem⟩ := h.held id' p hp
    obtain ⟨hp1, hf1⟩ := hnew id' pid' p.fd hmem
    refine ⟨pid', hpid', ?_, ?_, mem_append_left _ hmem⟩
    · rwa [update_of_ne hp1]
    · rwa [update_of_ne hf1]
  · intro id' pid' fd' hmem
    dsimp only at hmem ⊢
    rcases mem_append.mp hmem with hmem | hmem
    · obtain ⟨hp1, hf1⟩ := hnew id' pid' fd' hmem
      rw [update_of_ne hp1, update_of_ne hf1]
      refine (h.forked id' pid' fd' hmem).imp_left ?_
      rintro ⟨p, hp, hrest⟩
      refine ⟨p, ?_, hrest⟩
      rw [hget, if_neg]
      · exact hp
      rintro rfl
      rw [hnone] at hp
      cases hp
    · obtain ⟨rfl, rfl, rfl⟩ := Event.fork.inj (mem_singleton.mp hmem)
      exact .inl ⟨_, by rw [hget, if_pos rfl], rfl, rfl⟩
  · intro i a f i' a' f' h1 h2 hsame
    rcases mem_append.mp h1 with hold | hlast <;>
      rcases mem_append.mp h2 with hold' | hlast'
    · exact h.unique i a f i' a' f' hold hold' hsame
    · obtain ⟨-, rfl, rfl⟩ := Event.fork.inj (mem_singleton.mp hlast')
      obtain ⟨hp1, hf1⟩ := hnew _ _ _ hold
      exact absurd hsame (not_or.mpr ⟨hp1, hf1⟩)
    · obtain ⟨-, rfl, rfl⟩ := Event.fork.inj (mem_singleton.mp hlast)
      obtain ⟨hp1, hf1⟩ := hnew _ _ _ hold'
      exact absurd hsame (not_or.mpr ⟨hp1.symm, hf1.symm⟩)
    obtain ⟨rfl, rfl, rfl⟩ := Event.fork.inj (mem_singleton.mp hlast)
    obtain ⟨rfl, rfl, rfl⟩ := Event.fork.inj (mem_singleton.mp hlast')
    exact ⟨rfl, rfl, rfl⟩
  · exact Once.update h.reaps (by rw [hpid]; decide) ⟨nofun, fun _ => rfl⟩ (by simp)
  · exact Once.update h.closes (by rw [hfd]; decide) ⟨nofun, fun _ => rfl⟩ (by simp)
  · refine noLateSignals_append.mpr ⟨h.quiet, noLateSignals_of_no_reaped (by simp), by simp⟩

theorem Inv.openPty (c : Config) (hattached : id ∈ w.attached) (cols rows : UInt16)
    {forked : Forked} (hfresh : forked.fresh w = true) :
    Inv (w.openPty c id cols rows forked) := by
  unfold World.openPty
  split
  · exact h.emit trivial
  rename_i hnone
  have hnone : w.ptys[id]? = none :=
    (Maps.contains_eq_false w.ptys id).mp (Bool.not_eq_true _ ▸ hnone)
  split
  · exact h.emit trivial
  cases forked with
  | failed error => exact h.emit trivial
  | child pid fd =>
    simp only [Forked.fresh, Bool.and_eq_true, decide_eq_true_eq] at hfresh
    refine (h.fork hattached hnone hfresh.1 hfresh.2 _ rfl).neutral
      [.winsize fd (if cols = 0 then 80 else cols) (if rows = 0 then 24 else rows),
        .reply id .ok] ?_ (by simp) rfl rfl ?_ fun _ => rfl
    · intro e he
      simp only [mem_cons, not_mem_nil, or_false] at he
      rcases he with rfl | rfl <;> exact trivial
    · exact (h.fork hattached hnone hfresh.1 hfresh.2 _ rfl).attached

theorem Inv.onMessage (c : Config) (hattached : id ∈ w.attached) {r : Request}
    (hfresh : r.fresh w = true) : Inv (w.onMessage c id r) := by
  cases r with
  | «open» cols rows forked => exact h.openPty c hattached cols rows hfresh
  | resize cols rows =>
    simp only [World.onMessage, World.resize]
    split
    · exact h.emit trivial
    rename_i p hp
    refine h.neutral [.winsize p.fd cols rows, .reply id .ok] ?_ rfl rfl rfl h.attached
      fun _ => rfl
    intro e he
    simp only [mem_cons, not_mem_nil, or_false] at he
    rcases he with rfl | rfl <;> exact trivial
  | close dies => exact (h.closePty id false dies).emit trivial
  | other type => exact h.emit trivial

/-- `close_pty` of one session leaves the other sessions' ptys alone, and
none of its own. -/
theorem Inv.closePty_get? (id : String) (notify : Bool) (dies : Nat → Option Status)
    (id' : String) :
    (w.closePty id notify dies).ptys[id']? = if id' = id then none else w.ptys[id']? := by
  cases hp : w.ptys[id]? with
  | none =>
    simp only [World.closePty, hp]
    split
    · rename_i heq
      rw [heq, hp]
    · rfl
  | some p =>
    obtain ⟨pid, hpid, halive, -⟩ := h.held id p hp
    obtain ⟨es, -, heq⟩ := World.closePty_takedown hp hpid halive notify dies
    rw [heq]
    exact Maps.get?_erase w.ptys id id'

theorem Inv.sessionDetached (id : String) (dies : Nat → Option Status) :
    Inv (w.sessionDetached id dies) := by
  have hclosed := h.closePty id false dies
  have hgone : (w.closePty id false dies).ptys[id]? = none := by
    rw [h.closePty_get?, if_pos rfl]
  refine hclosed.neutral [] (by simp) (by simp [World.sessionDetached]) rfl rfl ?_ fun _ => rfl
  intro id' p' hp'
  have hne : id' ≠ id := by
    rintro rfl
    rw [show (w.sessionDetached id' dies).ptys = (w.closePty id' false dies).ptys from rfl,
      hgone] at hp'
    cases hp'
  show id' ∈ (w.closePty id false dies).attached.erase id
  rw [Std.ExtTreeSet.mem_erase]
  exact ⟨by simpa using Ne.symm hne, hclosed.attached id' p' hp'⟩

theorem Inv.closeAll (dies : String → Nat → Option Status) (ids : List String) :
    Inv (w.closeAll dies ids) ∧
      ∀ id', (w.closeAll dies ids).ptys[id']? = if id' ∈ ids then none else w.ptys[id']? := by
  induction ids generalizing w with
  | nil => exact ⟨h, fun _ => by simp [World.closeAll]⟩
  | cons id ids ih =>
    obtain ⟨hinv, hget⟩ := ih (h.closePty id false (dies id))
    refine ⟨hinv, fun id' => ?_⟩
    rw [World.closeAll, hget, h.closePty_get?]
    by_cases hmem : id' ∈ ids
    · simp [hmem]
    · simp [hmem]

theorem Inv.shutdown (dies : String → Nat → Option Status) :
    Inv (w.shutdown dies) := by
  obtain ⟨hinv, hget⟩ := h.closeAll dies w.ptys.keys
  refine hinv.neutral [] (by simp) (by simp [World.shutdown]) rfl rfl ?_ fun _ => rfl
  intro id p hp
  have hnone : (w.shutdown dies).ptys[id]? = none := by
    show (w.closeAll dies w.ptys.keys).ptys[id]? = none
    rw [hget]
    split
    · rfl
    rename_i hmem
    rw [Std.ExtTreeMap.mem_keys] at hmem
    exact Std.ExtTreeMap.getElem?_eq_none hmem
  rw [hnone] at hp
  cases hp

theorem Inv.exits {pid : Pid} (hrun : w.children pid = .running) (status : Status) :
    Inv (w.exits pid (some status)) := by
  have heq : w.exits pid (some status) = w.setChild pid (.zombie status) := by
    rw [World.exits, if_pos hrun]
    rfl
  have hother : ∀ pid', Function.update w.children pid (.zombie status) pid' = .reaped ↔
      w.children pid' = .reaped := by
    intro pid'
    by_cases hsame : pid' = pid
    · simp [hsame, hrun]
    · rw [update_of_ne hsame]
  rw [heq]
  refine ⟨h.attached, ?_, ?_, h.unique, ?_, h.closes, h.quiet⟩
  · intro id p hp
    obtain ⟨pid', hpid', halive, hrest⟩ := h.held id p hp
    refine ⟨pid', hpid', ?_, hrest⟩
    show (Function.update w.children pid (.zombie status) pid').Alive
    by_cases hsame : pid' = pid
    · rw [hsame, update_self]
      exact .inr ⟨status, rfl⟩
    · rwa [update_of_ne hsame]
  · intro id pid' fd hmem
    refine (h.forked id pid' fd hmem).imp_right fun hdone => ⟨?_, hdone.2⟩
    exact (hother pid').mpr hdone.1
  intro pid'
  show Once (Function.update w.children pid (.zombie status) pid' = .reaped) _
  rw [hother]
  exact h.reaps pid'

end Steps

theorem step_inv (c : Config) {w' : World} {a : Act} (h : Inv w) (hstep : step c w a = some w') :
    Inv w' := by
  cases a with
  | attach id =>
    cases hstep
    refine h.neutral [] (by simp) (by simp) rfl rfl (fun id' p hp => ?_) fun _ => rfl
    rw [Std.ExtTreeSet.mem_insert]
    exact .inr (h.attached id' p hp)
  | request id r =>
    simp only [step, ite_none_right_eq_some, Bool.and_eq_true, some.injEq] at hstep
    obtain ⟨⟨hattached, hfresh⟩, rfl⟩ := hstep
    exact h.onMessage c (Std.ExtTreeSet.contains_iff_mem.mp hattached) hfresh
  | binary id bytes writes =>
    obtain ⟨-, rfl⟩ := guarded.mp hstep
    rw [World.onBinary]
    split
    · exact h
    · exact h.emit trivial
  | readable id r accepts dies =>
    obtain ⟨-, rfl⟩ := guarded.mp hstep
    exact h.readable r accepts dies
  | drain id accepts =>
    obtain ⟨-, rfl⟩ := guarded.mp hstep
    exact h.drain id accepts
  | releaseAllInput id dies =>
    cases hstep
    exact h.closePty id false dies
  | detach id dies =>
    obtain ⟨-, rfl⟩ := guarded.mp hstep
    exact h.sessionDetached id dies
  | shutdown dies =>
    cases hstep
    exact h.shutdown dies
  | childExits pid status =>
    obtain ⟨hrun, rfl⟩ := guarded.mp hstep
    exact h.exits hrun status

theorem reachable_inv {c : Config} (hw : (system c).Reachable w) : Inv w :=
  (system c).invariant Inv.init (fun _ _ _ h hstep => step_inv c h hstep) hw

/-! ## The result -/

/-- A robot whose account has an ordinary shell. -/
def bashConfig : Config where
  enabled := true
  user := "robot"
  shell := ""
  currentUser := "robot"
  loginShellOf := fun _ => "/bin/bash"

end Fjarr.Terminal
