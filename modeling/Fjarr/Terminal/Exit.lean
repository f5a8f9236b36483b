/-
Fjarr.Terminal.Exit — what the `exit` event says of the shell.

The end of the terminal's output is read before the kernel need have made
the shell waitable. The one `waitpid` made then finds nothing, and the
event says `code: 0` of a shell that failed (`invented_status`); so does
the event of a backlog that overflows after the shell has ended. Where
neither happens, the event says what the shell did, once
(`exit_truthful`).
-/
import Fjarr.Terminal.Reaping

namespace Fjarr.Terminal

open Lib World List

def Event.exit? : Event → Option (String × ExitPayload)
  | .exit id payload => some (id, payload)
  | _ => none

/-- The log grew, and these are the exit events among what is new. -/
def Says (w w' : World) (xs : List (String × ExitPayload)) : Prop :=
  ∃ es, w'.log = w.log ++ es ∧ es.filterMap Event.exit? = xs

namespace Says

variable {w w' w'' : World} {xs ys : List (String × ExitPayload)}

theorem of_log (h : w'.log = w.log) : Says w w' [] := ⟨[], by rw [h, append_nil], rfl⟩

theorem trans (h : Says w w' xs) (h' : Says w' w'' ys) : Says w w'' (xs ++ ys) := by
  obtain ⟨es, hes, rfl⟩ := h
  obtain ⟨fs, hfs, rfl⟩ := h'
  exact ⟨es ++ fs, by rw [hfs, hes, append_assoc], filterMap_append⟩

theorem emit (h : Says w w' xs) (e : Event) : Says w (w'.emit e) (xs ++ [e].filterMap Event.exit?) :=
  h.trans ⟨[e], rfl, rfl⟩

section

variable (w : World)
variable (pid : Pid) (id : String)

theorem exits (status : Option Status) : Says w (w.exits pid status) [] := by
  unfold World.exits
  split
  · exact of_log rfl
  split <;> exact of_log rfl

theorem waitpid : Says w (w.waitpid pid).1 [] := by
  unfold World.waitpid
  split
  · exact of_log rfl
  · exact (of_log rfl).emit _
  · exact of_log rfl

theorem kill (s : Signal) : Says w (w.kill pid s) [] := by
  unfold World.kill
  have hsignal : Says w (w.emit (.signal pid s)) [] := (of_log rfl).emit _
  dsimp only
  split
  · exact hsignal.trans (exits _ pid _)
  · exact hsignal

theorem pollExit (dies : Nat → Option Status) (n : Nat) :
    Says w (w.pollExit pid dies n) [] := by
  induction n generalizing w with
  | zero => exact of_log rfl
  | succ n ih =>
    have hpoll := (exits w pid (dies n)).trans (waitpid _ pid)
    unfold World.pollExit
    split
    · rename_i w1 heq
      rw [heq] at hpoll
      exact hpoll.trans (ih w1)
    · rename_i heq
      rwa [heq] at hpoll

theorem hangUp (dies : Nat → Option Status) :
    Says w (w.hangUp pid dies) [] := by
  have hpoll := ((kill w pid .hup).trans (pollExit _ pid dies 20)).trans
    ((exits _ pid (dies 20)).trans (waitpid _ pid))
  unfold World.hangUp
  dsimp only
  split
  · rename_i w1 heq
    rw [heq] at hpoll
    exact hpoll.trans ((kill w1 pid .kill).trans (waitpid _ pid))
  · rename_i heq
    rwa [heq] at hpoll

theorem closePty (notify : Bool) (dies : Nat → Option Status) :
    ∃ xs, Says w (w.closePty id notify dies) xs ∧
      (xs = [] ∨ notify = true ∧ xs = [(id, .code 0)]) := by
  unfold World.closePty
  split
  · exact ⟨[], of_log rfl, .inl rfl⟩
  rename_i p _
  have hclosed : ∀ w₁, Says w w₁ [] → ∃ xs, Says w (if notify && (w₁.closeFd p.fd).attached.contains
      id then (w₁.closeFd p.fd).emit (.exit id (.code 0)) else w₁.closeFd p.fd) xs ∧
        (xs = [] ∨ notify = true ∧ xs = [(id, .code 0)]) := by
    intro w₁ h
    have hfd : Says w (w₁.closeFd p.fd) [] := h.trans ⟨[.closed p.fd], rfl, rfl⟩
    split
    · rename_i hnotify
      exact ⟨_, hfd.emit _, .inr ⟨(Bool.and_eq_true_iff.mp hnotify).1, rfl⟩⟩
    · exact ⟨[], hfd, .inl rfl⟩
  refine hclosed _ ?_
  split
  · exact of_log rfl
  · exact (of_log rfl).trans (hangUp _ _ dies)

theorem close (dies : Nat → Option Status) :
    Says w (w.closePty id false dies) [] := by
  obtain ⟨xs, h, rfl | ⟨hno, -⟩⟩ := closePty w id false dies
  · exact h
  · cases hno

theorem pump (p : Pty) (accepts : Nat → Bool) :
    Says w (w.pump id p accepts) [] := by
  refine ⟨_, rfl, filterMap_eq_nil_iff.mpr fun e he => ?_⟩
  obtain ⟨bytes, -, rfl⟩ := mem_map.mp he
  rfl

theorem closeAll (dies : String → Nat → Option Status) (ids : List String) :
    Says w (w.closeAll dies ids) [] := by
  induction ids generalizing w with
  | nil => exact of_log rfl
  | cons id ids ih => exact (close w id (dies id)).trans (ih _)

end

theorem onMessage (c : Config) (w : World) (id : String) (r : Request) :
    Says w (w.onMessage c id r) [] := by
  cases r with
  | «open» cols rows forked =>
    simp only [World.onMessage, openPty]
    split
    · exact (of_log rfl).emit _
    split
    · exact (of_log rfl).emit _
    split
    · exact (of_log rfl).emit _
    · exact ⟨_, rfl, rfl⟩
  | resize cols rows =>
    simp only [World.onMessage, resize]
    split
    · exact (of_log rfl).emit _
    · exact ⟨_, rfl, rfl⟩
  | close dies => exact (close w id dies).emit _
  | other type => exact (of_log rfl).emit _

end Says

/-! ## What the shell did -/

/-- How the shell ended on its own when an action may make the agent speak
of it: it is waitable, or has closed its terminal and is about to be. -/
def ended (w : World) (pid : Pid) : Act → Option Status
  | .readable _ r _ dies =>
    match w.children pid, r with
    | .zombie status, _ => some status
    | .running, .ended => (21 :: (List.range 20).reverse ++ [20]).findSome? dies
    | _, _ => none
  | _ => none

/-- An exit event: the shell of the pty it is sent for, what it says, and
what that shell did. -/
structure Report where
  pid : Pid
  payload : ExitPayload
  ended : Option Status
  deriving DecidableEq

/-- The capability, and the exit events it sent. -/
structure Told where
  world : World := {}
  reports : List Report := []

def World.report (w : World) (a : Act) (x : String × ExitPayload) : Option Report :=
  (w.ptys[x.1]?).bind fun p => p.pid.map fun pid => ⟨pid, x.2, ended w pid a⟩

/-- `system`, with the exit events kept. -/
def telling (c : Config) : System Told Act where
  init := {}
  step t a := (step c t.world a).map fun w =>
    ⟨w, t.reports ++ ((w.log.drop t.world.log.length).filterMap Event.exit?).filterMap
      (t.world.report a)⟩

/-- At the end of its output a shell is waitable, and the backlog does not
overflow once it has ended. -/
def Waitable (t : Told) : Act → Bool
  | .readable id r _ dies => (t.world.ptys[id]?).all fun p => p.pid.all fun pid =>
    match r with
    | .ended => t.world.children pid ≠ .running || (dies 21).isSome
    | .data bytes => p.pendingBytes + bytes.length ≤ maxPending || t.world.children pid = .running
    | .again => true
  | _ => true

/-- The exit events of one step: none, or one for a pty whose shell it
leaves reaped, with what that shell did. -/
def Speaks (w w' : World) (a : Act) : Prop :=
  Says w w' [] ∨ ∃ id p pid payload, Says w w' [(id, payload)] ∧ w.ptys[id]? = some p ∧
    p.pid = some pid ∧ w'.children pid = .reaped ∧ ∀ s ∈ ended w pid a, payload = s.payload

theorem takenDown_reaped (w : World) (id : String) (pid : Pid) (fd : Fd) (es : List Event) :
    (w.takenDown id pid fd es).children pid = .reaped := Function.update_self ..

/-- The shell is waitable when its output ends: the event has its status. -/
theorem shellEnded_says {w : World} {id : String} {p : Pty} {pid : Pid} {status : Status}
    {dies : Nat → Option Status} (hpid : p.pid = some pid)
    (hstatus : (w.exits pid (dies 21)).children pid = .zombie status) :
    Says w (w.shellEnded id p dies) [(id, status.payload)] := by
  have hpoll := (Says.exits w pid (dies 21)).trans (.waitpid _ pid)
  simp only [shellEnded, hpid]
  split
  · rename_i w1 status' heq
    rw [heq] at hpoll
    obtain rfl : status = status' := by
      simp only [waitpid, hstatus, Prod.mk.injEq, Waited.pid.injEq] at heq
      exact heq.2
    have hkept : Says w { w1 with ptys := w1.ptys.insert id { p with pid := none } } [] :=
      hpoll.trans (.of_log rfl)
    exact (hkept.emit _).trans (.close _ id dies)
  rename_i hno heq
  simp only [waitpid, hstatus, Prod.mk.injEq] at heq
  exact absurd heq.2.symm (hno status)

theorem readable_speaks {w : World} (hinv : Inv w) {t : Told} (hw : t.world = w) {id : String}
    {r : Read} {accepts : Nat → Bool} {dies : Nat → Option Status}
    (ha : Waitable t (.readable id r accepts dies) = true) :
    Speaks w (w.readable id r accepts dies) (.readable id r accepts dies) := by
  subst hw
  unfold readable
  split
  · exact .inl (.of_log rfl)
  rename_i p hp
  obtain ⟨pid, hpid, halive, -⟩ := hinv.held id p hp
  simp only [Waitable, hp, hpid, Option.all_some] at ha
  cases r with
  | again => exact .inl (.of_log rfl)
  | data bytes =>
    have hread : Says t.world (t.world.emit (.read p.fd bytes)) [] := (Says.of_log rfl).emit _
    dsimp only
    split
    · rename_i hfull
      obtain ⟨xs, hsays, rfl | ⟨-, rfl⟩⟩ :=
        Says.closePty (t.world.emit (.read p.fd bytes)) id true dies
      · exact .inl (hread.trans hsays)
      -- the agent ends the shell: it did not end on its own
      refine .inr ⟨id, p, pid, .code 0, hread.trans hsays, hp, hpid, ?_, ?_⟩
      · obtain ⟨es, -, heq⟩ := closePty_takedown
          (show (t.world.emit (.read p.fd bytes)).ptys[id]? = some p from hp) hpid halive true dies
        rw [heq, takenDown_reaped]
      · have hrun : t.world.children pid = .running := by
          simpa [Nat.not_le.mpr hfull] using ha
        simp [ended, hrun]
    · exact .inl (hread.trans (.pump ..))
  | ended =>
    obtain ⟨status, hstatus, hended⟩ : ∃ status,
        (t.world.exits pid (dies 21)).children pid = .zombie status ∧
          ended t.world pid (.readable id .ended accepts dies) = some status := by
      obtain hrun | ⟨status, hzombie⟩ := halive
      · obtain ⟨status, hdies⟩ : ∃ status, dies 21 = some status := by
          simpa [hrun, Option.isSome_iff_exists] using ha
        exact ⟨status, by simp [World.exits, hdies, hrun], by simp [ended, hrun, hdies]⟩
      refine ⟨status, ?_, by simp [ended, hzombie]⟩
      cases dies 21 with
      | none => exact hzombie
      | some _ => simp [World.exits, hzombie]
    refine .inr ⟨id, p, pid, _, shellEnded_says hpid hstatus, hp, hpid, ?_, fun s hs => ?_⟩
    · obtain ⟨es, -, heq⟩ := shellEnded_takedown hp hpid halive dies
      rw [heq, takenDown_reaped]
    · cases hended.symm.trans hs
      rfl

theorem step_speaks {c : Config} {t : Told} {w' : World} {a : Act} (hinv : Inv t.world)
    (ha : Waitable t a = true) (hstep : step c t.world a = some w') : Speaks t.world w' a := by
  cases a with
  | attach id =>
    cases hstep
    exact .inl (.of_log rfl)
  | request id r =>
    obtain ⟨-, rfl⟩ := guarded.mp hstep
    exact .inl (.onMessage c _ id r)
  | binary id bytes writes =>
    obtain ⟨-, rfl⟩ := guarded.mp hstep
    unfold onBinary
    split
    · exact .inl (.of_log rfl)
    · exact .inl ((Says.of_log rfl).emit _)
  | readable id r accepts dies =>
    obtain ⟨-, rfl⟩ := guarded.mp hstep
    exact readable_speaks hinv rfl ha
  | drain id accepts =>
    obtain ⟨-, rfl⟩ := guarded.mp hstep
    unfold drain
    split
    · exact .inl (.of_log rfl)
    · exact .inl (.pump ..)
  | releaseAllInput id dies =>
    cases hstep
    exact .inl (.close _ id dies)
  | detach id dies =>
    obtain ⟨-, rfl⟩ := guarded.mp hstep
    exact .inl ((Says.close _ id dies).trans (.of_log rfl))
  | shutdown dies =>
    cases hstep
    exact .inl ((Says.closeAll _ dies _).trans (.of_log rfl))
  | childExits pid status =>
    obtain ⟨-, rfl⟩ := guarded.mp hstep
    exact .inl (.exits _ pid _)

/-- Every exit event was about another shell, which is gone, and true. -/
structure Truthful (t : Told) : Prop where
  inv : Inv t.world
  gone : ∀ r ∈ t.reports, t.world.children r.pid = .reaped
  once : (t.reports.map Report.pid).Nodup
  told : ∀ r ∈ t.reports, ∀ s ∈ r.ended, r.payload = s.payload

/-- **Step.** -/
theorem Truthful.step {c : Config} {t t' : Told} {a : Act} (h : Truthful t) (ha : Waitable t a = true)
    (hstep : (telling c).step t a = some t') : Truthful t' := by
  obtain ⟨w', hw', rfl⟩ := Option.map_eq_some_iff.mp hstep
  have hinv := step_inv c h.inv hw'
  -- the log keeps its reapings, so who was reaped stays so
  have hstays : ∀ {xs}, Says t.world w' xs → ∀ pid, t.world.children pid = .reaped →
      w'.children pid = .reaped := by
    rintro xs ⟨es, hlog, -⟩ pid hreaped
    by_contra hnot
    have hbefore := (h.inv.reaps pid).1 hreaped
    have hafter := (hinv.reaps pid).2 hnot
    rw [hlog, count_append] at hafter
    omega
  have hnew : ∀ {xs}, Says t.world w' xs →
      (w'.log.drop t.world.log.length).filterMap Event.exit? = xs := by
    rintro xs ⟨es, hlog, rfl⟩
    rw [hlog, drop_left]
  obtain hsays | ⟨id, p, pid, payload, hsays, hp, hpid, hreaped, htrue⟩ :=
    step_speaks h.inv ha hw'
  · rw [hnew hsays, filterMap_nil, append_nil]
    exact ⟨hinv, fun r hr => hstays hsays _ (h.gone r hr), h.once, h.told⟩
  have hreport : t.world.report a (id, payload) = some ⟨pid, payload, ended t.world pid a⟩ := by
    simp [report, hp, hpid]
  rw [hnew hsays, filterMap_cons_some hreport, filterMap_nil]
  obtain ⟨pid', hpid', halive, -⟩ := h.inv.held id p hp
  cases hpid.symm.trans hpid'
  refine ⟨hinv, fun r hr => ?_, ?_, fun r hr => ?_⟩
  · rcases mem_snoc.mp hr with hr | rfl
    · exact hstays hsays _ (h.gone r hr)
    · exact hreaped
  · rw [map_append]
    refine nodup_snoc h.once fun hx => ?_
    obtain ⟨r, hr, rfl⟩ := mem_map.mp hx
    exact halive.ne_reaped (h.gone r hr)
  rcases mem_snoc.mp hr with hr | rfl
  · exact h.told r hr
  · exact htrue

/-- **The exit event says what the shell did.** In every run in which the
shell is waitable when its output ends, at most one exit event is sent for
each shell, and of one that ended on its own it says how. -/
theorem exit_truthful {c : Config} {as : List Act} {t : Told}
    (hsteps : (telling c).AllSteps (Waitable · · = true) (telling c).init as)
    (hrun : (telling c).run (telling c).init as = some t) :
    (t.reports.map Report.pid).Nodup ∧
      ∀ r ∈ t.reports, ∀ s ∈ r.ended, r.payload = s.payload := by
  have h := System.run_induction (P := Truthful) _ (fun _ _ _ h ha hstep => h.step ha hstep)
    (s := (telling c).init) ⟨Inv.init, nofun, nodup_nil, nofun⟩ hsteps hrun
  exact ⟨h.once, h.told⟩

/-- A shell ends before its output is read to the end. -/
theorem exit_truthful_failed : ∃ t, (telling bashConfig).run (telling bashConfig).init
      [.attach "s", .request "s" (.open 80 24 (.child 7 3)), .childExits 7 (.exited 1),
        .readable "s" .ended (fun _ => true) fun _ => none] = some t ∧
    t.reports = [⟨7, .code 1, some (.exited 1)⟩] ∧
    ∀ r ∈ t.reports, ∀ s ∈ r.ended, r.payload = s.payload := by
  refine evaluated (·.reports) (b := [⟨7, .code 1, some (.exited 1)⟩]) (by decide +kernel)
    fun t hrun hreports => ?_
  exact ⟨hreports, (exit_truthful (by decide +kernel) hrun).2⟩

/-- A shell that fails, and is not waitable yet when its output ends: the
event says that it succeeded. -/
theorem invented_status : ∃ t, (telling bashConfig).run (telling bashConfig).init
      [.attach "s", .request "s" (.open 80 24 (.child 7 3)),
        .readable "s" .ended (fun _ => true) fun k => if k < 20 then some (.exited 1) else none] =
      some t ∧ t.reports = [⟨7, .code 0, some (.exited 1)⟩] := by
  rw [← Option.map_eq_some_iff]
  decide +kernel

end Fjarr.Terminal
