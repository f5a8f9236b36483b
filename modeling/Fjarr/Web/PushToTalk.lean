/-
Fjarr.Web.PushToTalk — `usePushToTalk`
(`web/packages/react/src/media.ts`) over `Session.buildAudioUplink`
(`web/packages/core/src/session.ts`).

A start asks for the microphone, then has the session send its track, and
then holds the microphone. A stop may come at any time; it bumps
`generation`, and a start whose generation is stale undoes itself when it
finds out. What reaches the sender goes through `senderChain`, one
`replaceTrack` at a time: with a track it asks the robot (`talk-start`)
and attaches the track when that is granted, without one it detaches and
sends `talk-stop`.

So after a stop no microphone stays open, whatever was under way
(`stop_wins`). But the undo of a stale start is queued at the end of the
chain, which may be behind the track of a newer start: the newer start
talks, and is then silenced (`silenced`). And the request for a
`talk-start` gives up after ten seconds: a robot that grants it later
is not told to stop. If a microphone is
granted only while no earlier start waits for the sender (`Unhurried`),
talking means being sent; if no `talk-start` is granted late (`Prompt`),
the robot was told to stop.

A run is a start that was not turned away at once. When the head of the
chain is done, the run that waits for it goes on before anything else
happens, so the two are one step. `live` are the runs whose microphone
track was obtained and not stopped; `log` is what the robot was told, in
the order of the control channel.
Left out are the error texts, the talk level and a session that
reconnects.
-/
import Fjarr.Lib.Transition

namespace Fjarr.Web

open Lib List

/-! ## The hook -/

/-- A call of `start` that got as far as asking for the microphone, and
the generation it was made in. -/
structure Run where
  id : Nat
  gen : Nat
  deriving DecidableEq, Repr

/-- A `replaceTrack` in the chain: the run whose track it is, `none` for
`null`; `granted` once its `talk-start` is. -/
structure Replace where
  run : Option Run
  granted : Bool := false
  deriving DecidableEq, Repr

inductive Talk where
  /-- A granted `talk-start`. -/
  | start (r : Run)
  | stop
  deriving DecidableEq, Repr

inductive Call where
  | start | stop
  deriving DecidableEq, Repr

/-- The robot's answer to a `talk-start`. A late grant finds the request
given up. -/
inductive Answer where
  | granted | refused | grantedLate
  deriving DecidableEq, Repr

structure Hook where
  /-- The offer has an uplink transceiver. -/
  uplink : Bool := true
  generation : Nat := 0
  mic : Option Run := none
  pending : Option Run := none
  talking : Bool := false
  runs : Nat := 0
  /-- The runs that wait for `getUserMedia`. -/
  asking : List Run := []
  senderChain : List Replace := []
  sender : Option Run := none
  uplinkActive : Bool := false
  live : List Run := []
  log : List Talk := []
  lastCall : Option Call := none

namespace Hook

/-- `replace`. -/
def replace (h : Hook) (r : Option Run) : Hook :=
  { h with senderChain := h.senderChain ++ [{ run := r }] }

/-- Every track of the run's stream is stopped. -/
def release (h : Hook) (r : Run) : Hook := { h with live := h.live.filter (· ≠ r) }

/-- `stop`, which unmounting calls too. -/
def stop (h : Hook) : Hook :=
  { h.replace none with
    generation := h.generation + 1
    pending := none
    live := h.live.filter fun r => h.mic ≠ some r
    mic := none
    talking := false
    lastCall := some .stop }

/-- `start`, up to its first wait. -/
def start (h : Hook) : Hook :=
  let h := { h with lastCall := some .start }
  if h.mic.isSome ∨ h.pending.isSome then h
  else
    { h with
      runs := h.runs + 1
      asking := h.asking ++ [⟨h.runs, h.generation⟩]
      pending := some ⟨h.runs, h.generation⟩ }

/-- The `finally` of a run. -/
def settle (h : Hook) (r : Run) : Hook :=
  { h with pending := if h.pending = some r then none else h.pending }

/-- Stopped, or a newer start won. -/
def stale (h : Hook) (r : Run) : Bool := r.gen ≠ h.generation || h.mic.isSome

/-- A run goes on when `getUserMedia` is settled: granted with an audio
track, or not. -/
def microphone (h : Hook) (r : Run) (granted : Bool) : Hook :=
  let h := { h with asking := h.asking.filter (· ≠ r) }
  if !granted then h.settle r
  else if h.stale r then h.settle r
  else { h with live := h.live ++ [r] }.replace (some r)

/-- A run goes on when its `replace` is done. -/
def resume (h : Hook) (r : Run) (ok : Bool) : Hook :=
  if h.stale r then ((h.replace none).release r).settle r
  else if !ok then (h.release r).settle r
  else { h with mic := some r, talking := true }.settle r

/-- The head of the chain is done. -/
def done (h : Hook) (ok : Bool) : Hook :=
  match h.senderChain with
  | [] => h
  | op :: rest =>
    let h := { h with senderChain := rest }
    match op.run with
    | none => h
    | some r => h.resume r ok

/-- The robot grants the run's `talk-start`. -/
def grant (h : Hook) (r : Run) : Hook := { h with log := h.log ++ [.start r] }

/-- The head's `talk-start` is answered, or its request times out. -/
def talkStart (h : Hook) (answer : Answer) : Option Hook :=
  match h.senderChain with
  | ⟨some r, false⟩ :: rest =>
    if !h.uplink then none
    else
      match answer with
      | .granted => some { h.grant r with senderChain := ⟨some r, true⟩ :: rest }
      | .refused => some (h.done false)
      | .grantedLate => some ((h.grant r).done false)
  | _ => none

/-- The sender has the run's track. -/
def attach (h : Hook) (r : Run) : Hook := { h with sender := some r, uplinkActive := true }

/-- The sender has no track; `talk-stop` if the uplink was active. -/
def detach (h : Hook) : Hook :=
  { h with
    sender := none
    uplinkActive := false
    log := if h.uplinkActive then h.log ++ [Talk.stop] else h.log }

/-- The sender's own `replaceTrack` resolves. -/
def attached (h : Hook) : Option Hook :=
  match h.senderChain with
  | ⟨some r, true⟩ :: _ => if !h.uplink then none else some ((h.attach r).done true)
  | ⟨none, _⟩ :: _ => if !h.uplink then none else some (h.detach.done true)
  | _ => none

/-- There is no uplink to replace the track of. -/
def absent (h : Hook) : Option Hook :=
  if h.uplink ∨ h.senderChain = [] then none else some (h.done false)

end Hook

/-! ## Runs -/

inductive TalkAct where
  | start
  | stop
  | microphone (r : Run) (granted : Bool)
  | talkStart (answer : Answer)
  | attached
  | absent
  deriving DecidableEq, Repr

def pushToTalk (uplink : Bool) : System Hook TalkAct where
  init := { uplink }
  step := fun h a =>
    match a with
    | .start => some h.start
    | .stop => some h.stop
    | .microphone r granted => if r ∈ h.asking then some (h.microphone r granted) else none
    | .talkStart answer => h.talkStart answer
    | .attached => h.attached
    | .absent => h.absent

/-! ## What is to hold -/

namespace Hook

/-- The runs that wait for the sender. -/
def replacing (h : Hook) : List Run := h.senderChain.filterMap Replace.run

def underway (h : Hook) : List Run := h.asking ++ h.replacing

/-- Nothing is under way. -/
def Settled (h : Hook) : Prop := h.asking = [] ∧ h.senderChain = []

end Hook

/-- Every granted `talk-start` is followed by a `talk-stop`. -/
def Stopped (log : List Talk) : Prop :=
  ∀ before r after, log = before ++ .start r :: after → .stop ∈ after

/-- The microphone of a start that is not stale is granted only while no
other start waits for the sender. -/
def Unhurried (h : Hook) : TalkAct → Prop
  | .microphone r true => r.gen = h.generation → h.replacing = []
  | _ => True

instance (h : Hook) (a : TalkAct) : Decidable (Unhurried h a) := by
  unfold Unhurried
  split <;> infer_instance

/-- No `talk-start` is granted after its request was given up. -/
def Prompt (_ : Hook) (a : TalkAct) : Prop := a ≠ .talkStart .grantedLate

/-! ## What a step does -/

/-- One step, by what it finds at the head of the chain. -/
inductive Move (h : Hook) : TalkAct → Hook → Prop
  | start : Move h .start h.start
  | stop : Move h .stop h.stop
  | microphone {r : Run} {granted : Bool} (hr : r ∈ h.asking) :
      Move h (.microphone r granted) (h.microphone r granted)
  | grant {r : Run} {rest : List Replace} (huplink : h.uplink = true)
      (hchain : h.senderChain = ⟨some r, false⟩ :: rest) :
      Move h (.talkStart .granted) { h.grant r with senderChain := ⟨some r, true⟩ :: rest }
  | refuse {r : Run} {rest : List Replace} (huplink : h.uplink = true)
      (hchain : h.senderChain = ⟨some r, false⟩ :: rest) :
      Move h (.talkStart .refused) (h.done false)
  | grantLate {r : Run} {rest : List Replace} (huplink : h.uplink = true)
      (hchain : h.senderChain = ⟨some r, false⟩ :: rest) :
      Move h (.talkStart .grantedLate) ((h.grant r).done false)
  | attach {r : Run} {rest : List Replace} (huplink : h.uplink = true)
      (hchain : h.senderChain = ⟨some r, true⟩ :: rest) :
      Move h .attached ((h.attach r).done true)
  | detach {granted : Bool} {rest : List Replace} (huplink : h.uplink = true)
      (hchain : h.senderChain = ⟨none, granted⟩ :: rest) :
      Move h .attached (h.detach.done true)
  | absent {op : Replace} {rest : List Replace} (huplink : h.uplink = false)
      (hchain : h.senderChain = op :: rest) : Move h .absent (h.done false)

variable {h : Hook}

open Hook

theorem move_of_step {uplink : Bool} {h' : Hook} {a : TalkAct}
    (hstep : (pushToTalk uplink).step h a = some h') : Move h a h' := by
  cases a with
  | start =>
    cases hstep
    exact .start
  | stop =>
    cases hstep
    exact .stop
  | microphone r granted =>
    obtain ⟨hr, rfl⟩ := guarded.mp hstep
    exact .microphone hr
  | talkStart answer =>
    simp only [pushToTalk, talkStart] at hstep
    split at hstep
    · rename_i r rest hchain
      obtain ⟨huplink, heq⟩ := Option.ite_none_left_eq_some.mp hstep
      have huplink : h.uplink = true := by simpa using huplink
      cases answer with
      | granted =>
        cases heq
        exact .grant huplink hchain
      | refused =>
        cases heq
        exact .refuse huplink hchain
      | grantedLate =>
        cases heq
        exact .grantLate huplink hchain
    · cases hstep
  | attached =>
    simp only [pushToTalk, attached] at hstep
    split at hstep
    · rename_i r rest hchain
      obtain ⟨huplink, rfl⟩ := guarded_not.mp hstep
      exact .attach (by simpa using huplink) hchain
    · rename_i granted rest hchain
      obtain ⟨huplink, rfl⟩ := guarded_not.mp hstep
      exact .detach (by simpa using huplink) hchain
    · cases hstep
  | absent =>
    obtain ⟨hnot, rfl⟩ := guarded_not.mp hstep
    rw [not_or] at hnot
    obtain ⟨op, rest, hchain⟩ := exists_cons_of_ne_nil hnot.2
    exact .absent (by simpa using hnot.1) hchain

/-- What the head of the chain leaves behind: nothing, the undo of a
stale run, a refused run, or one that holds its microphone. -/
theorem done_cases {op : Replace} {rest : List Replace}
    (hchain : h.senderChain = op :: rest) (ok : Bool) :
    (op.run = none ∧ h.done ok = { h with senderChain := rest }) ∨
      ∃ r, op.run = some r ∧
        (h.stale r = true ∧
            h.done ok = ((Hook.replace { h with senderChain := rest } none).release r).settle r ∨
          h.stale r = false ∧ ok = false ∧
            h.done ok = (Hook.release { h with senderChain := rest } r).settle r ∨
          h.stale r = false ∧ ok = true ∧
            h.done ok =
              Hook.settle { h with senderChain := rest, mic := some r, talking := true } r) := by
  have hdone : h.done ok = match op.run with
      | none => { h with senderChain := rest }
      | some r => resume { h with senderChain := rest } r ok := by
    unfold done
    rw [hchain]
  rw [hdone]
  cases hrun : op.run with
  | none => exact .inl ⟨rfl, rfl⟩
  | some r =>
    refine .inr ⟨r, rfl, ?_⟩
    have hsame : stale { h with senderChain := rest } r = h.stale r := rfl
    dsimp only
    rw [resume, hsame]
    cases h.stale r <;> cases ok <;> simp

/-! ## Runs under way -/

/-- What holds of the runs under way, the microphone and the last call,
whatever the sender does. -/
structure Tidy (h : Hook) : Prop where
  gens : ∀ r ∈ h.underway, r.gen ≤ h.generation
  ids : ∀ r ∈ h.underway, r.id < h.runs
  nodup : h.underway.Nodup
  pending : ∀ r ∈ h.underway, r.gen = h.generation → h.pending = some r
  mic : h.mic.isSome = true → ∀ r ∈ h.underway, r.gen ≠ h.generation
  held : ∀ r, h.mic = some r → r.gen = h.generation
  live : ∀ r ∈ h.live, h.mic = some r ∨ r ∈ h.replacing
  sent : ∀ r ∈ h.replacing, r ∈ h.live
  stopped : h.lastCall = some .stop → h.mic = none ∧ ∀ r ∈ h.underway, r.gen ≠ h.generation

theorem fresh_of_not_stale {r : Run} (hfresh : ¬ h.stale r = true) :
    r.gen = h.generation ∧ h.mic = none := by
  rw [stale, Bool.or_eq_true, not_or] at hfresh
  exact ⟨by simpa using hfresh.1, by simpa using hfresh.2⟩

namespace Tidy

variable {h h' : Hook} {r : Run}

theorem same (hh : Tidy h) (hasking : h'.asking = h.asking) (hreplacing : h'.replacing = h.replacing)
    (hgeneration : h'.generation = h.generation) (hruns : h'.runs = h.runs) (hmic : h'.mic = h.mic)
    (hpending : h'.pending = h.pending) (hlive : h'.live = h.live)
    (hcall : h'.lastCall = h.lastCall) : Tidy h' := by
  have hunderway : h'.underway = h.underway := by
    rw [underway, underway, hasking, hreplacing]
  refine ⟨?_, ?_, ?_, ?_, ?_, ?_, ?_, ?_, ?_⟩
  · rw [hunderway, hgeneration]
    exact hh.gens
  · rw [hunderway, hruns]
    exact hh.ids
  · rw [hunderway]
    exact hh.nodup
  · rw [hunderway, hgeneration, hpending]
    exact hh.pending
  · rw [hunderway, hgeneration, hmic]
    exact hh.mic
  · rw [hmic, hgeneration]
    exact hh.held
  · rw [hlive, hmic, hreplacing]
    exact hh.live
  · rw [hlive, hreplacing]
    exact hh.sent
  · rw [hcall, hmic, hunderway, hgeneration]
    exact hh.stopped

theorem settle (hh : Tidy h) (hsub : ∀ x ∈ h'.underway, x ∈ h.underway ∧ x ≠ r)
    (hnodup : h'.underway.Nodup) (hgeneration : h'.generation = h.generation)
    (hruns : h'.runs = h.runs) (hmic : h'.mic = h.mic)
    (hpending : h'.pending = if h.pending = some r then none else h.pending)
    (hlive : ∀ x ∈ h'.live, h'.mic = some x ∨ x ∈ h'.replacing)
    (hsent : ∀ x ∈ h'.replacing, x ∈ h'.live) (hcall : h'.lastCall = h.lastCall) : Tidy h' where
  gens := fun x hx => hgeneration ▸ hh.gens x (hsub x hx).1
  ids := fun x hx => hruns ▸ hh.ids x (hsub x hx).1
  nodup := hnodup
  pending := by
    intro x hx hgen
    obtain ⟨hmem, hne⟩ := hsub x hx
    have hpend := hh.pending x hmem (hgeneration ▸ hgen)
    rw [hpending, hpend, if_neg fun heq => hne (Option.some.inj heq)]
  mic := fun hsome x hx => hgeneration ▸ hh.mic (hmic ▸ hsome) x (hsub x hx).1
  held := fun x hx => hgeneration ▸ hh.held x (hmic ▸ hx)
  live := hlive
  sent := hsent
  stopped := by
    intro hstop
    obtain ⟨hnone, hold⟩ := hh.stopped (hcall ▸ hstop)
    exact ⟨hmic ▸ hnone, fun x hx => hgeneration ▸ hold x (hsub x hx).1⟩

theorem start (hh : Tidy h) : Tidy h.start := by
  have hcalled : Tidy { h with lastCall := some .start } :=
    { hh with stopped := fun hstop => (nomatch hstop) }
  unfold Hook.start
  dsimp only
  split
  · exact hcalled
  rename_i hfree
  obtain ⟨hmic, hpending⟩ := not_or.mp hfree
  have hpending : h.pending = none := by simpa using hpending
  -- nobody else is of this generation
  have hold : ∀ x ∈ h.underway, x.gen ≠ h.generation := by
    intro x hx hgen
    have hpend := hh.pending x hx hgen
    rw [hpending] at hpend
    cases hpend
  have hmem : ∀ x, x ∈ (h.asking ++ [⟨h.runs, h.generation⟩]) ++ h.replacing →
      x = ⟨h.runs, h.generation⟩ ∨ x ∈ h.underway := by
    intro x hx
    simp only [mem_append, mem_singleton] at hx
    rcases hx with (hx | hx) | hx
    · exact .inr (mem_append_left _ hx)
    · exact .inl hx
    · exact .inr (mem_append_right _ hx)
  refine ⟨fun x hx => ?_, fun x hx => ?_, ?_, fun x hx hgen => ?_, fun hsome => ?_, hh.held, hh.live,
    hh.sent, fun hstop => (nomatch hstop)⟩
  · rcases hmem x hx with rfl | hx
    · exact le_refl _
    · exact hh.gens x hx
  · rcases hmem x hx with rfl | hx
    · exact Nat.lt_succ_self _
    · exact Nat.lt_succ_of_lt (hh.ids x hx)
  · show ((h.asking ++ [(⟨h.runs, h.generation⟩ : Run)]) ++ h.replacing).Nodup
    rw [append_assoc, singleton_append, nodup_middle, nodup_cons]
    exact ⟨fun hx => absurd (hh.ids _ hx) (Nat.lt_irrefl _), hh.nodup⟩
  · rcases hmem x hx with rfl | hx
    · rfl
    · exact absurd hgen (hold x hx)
  · exact absurd hsome hmic

theorem replacing_replace_none (h : Hook) : (h.replace none).replacing = h.replacing := by
  unfold Hook.replace replacing
  rw [filterMap_append]
  exact append_nil _

theorem stop (hh : Tidy h) : Tidy h.stop := by
  have hunderway : h.stop.underway = h.underway := by
    unfold underway
    exact congrArg (h.asking ++ ·) (replacing_replace_none h)
  -- whatever is under way is of an older generation now
  have hold : ∀ x ∈ h.stop.underway, x.gen < h.stop.generation := by
    rw [hunderway]
    exact fun x hx => Nat.lt_succ_of_le (hh.gens x hx)
  refine ⟨fun x hx => (hold x hx).le, fun x hx => hh.ids x (hunderway ▸ hx), hunderway ▸ hh.nodup,
    fun x hx hgen => absurd hgen (hold x hx).ne, fun hsome => (nomatch hsome),
    fun x hx => (nomatch hx), fun x hx => ?_, fun x hx => ?_,
    fun _ => ⟨rfl, fun x hx => (hold x hx).ne⟩⟩
  · obtain ⟨hx, hmic⟩ := mem_filter.mp hx
    refine .inr ?_
    show x ∈ (h.replace none).replacing
    rw [replacing_replace_none]
    exact (hh.live x hx).resolve_left (by simpa using hmic)
  have hx : x ∈ (h.replace none).replacing := hx
  rw [replacing_replace_none] at hx
  refine mem_filter.mpr ⟨hh.sent x hx, decide_eq_true fun hmic => ?_⟩
  exact hh.mic (by rw [hmic]; rfl) x (mem_append_right _ hx) (hh.held x hmic)

theorem microphone (hh : Tidy h) (hr : r ∈ h.asking) (granted : Bool) :
    Tidy (h.microphone r granted) := by
  have hsub : ∀ x ∈ (h.asking.filter (· ≠ r)) ++ h.replacing, x ∈ h.underway ∧ x ≠ r := by
    intro x hx
    rcases mem_append.mp hx with hx | hx
    · obtain ⟨hx, hne⟩ := mem_filter.mp hx
      exact ⟨mem_append_left _ hx, of_decide_eq_true hne⟩
    · refine ⟨mem_append_right _ hx, fun heq => ?_⟩
      exact (nodup_append.mp hh.nodup).2.2 r hr x hx heq.symm
  have hnodup : ((h.asking.filter (· ≠ r)) ++ h.replacing).Nodup :=
    hh.nodup.sublist (List.Sublist.append_right filter_sublist _)
  have hends : Tidy (Hook.settle { h with asking := h.asking.filter (· ≠ r) } r) :=
    hh.settle hsub hnodup rfl rfl rfl rfl hh.live hh.sent rfl
  unfold Hook.microphone
  dsimp only
  split
  · exact hends
  split
  · exact hends
  -- the run goes from the microphone to the sender
  have hreplacing : (Hook.replace { h with asking := h.asking.filter (· ≠ r), live := h.live ++ [r] }
      (some r)).replacing = h.replacing ++ [r] := by
    unfold Hook.replace replacing
    rw [filterMap_append]
    rfl
  have hmem : ∀ x, x ∈ (h.asking.filter (· ≠ r)) ++ (h.replacing ++ [r]) → x ∈ h.underway := by
    intro x hx
    rw [← append_assoc] at hx
    rcases mem_snoc.mp hx with hx | rfl
    · exact (hsub x hx).1
    · exact mem_append_left _ hr
  have hunderway : (Hook.replace { h with asking := h.asking.filter (· ≠ r), live := h.live ++ [r] }
      (some r)).underway = (h.asking.filter (· ≠ r)) ++ (h.replacing ++ [r]) := by
    rw [underway, hreplacing]
    rfl
  refine ⟨fun x hx => hh.gens x (hmem x (hunderway ▸ hx)),
    fun x hx => hh.ids x (hmem x (hunderway ▸ hx)), ?_,
    fun x hx => hh.pending x (hmem x (hunderway ▸ hx)),
    fun hsome x hx => hh.mic hsome x (hmem x (hunderway ▸ hx)), hh.held, ?_, ?_,
    fun hstop => ⟨(hh.stopped hstop).1, fun x hx => (hh.stopped hstop).2 x (hmem x (hunderway ▸ hx))⟩⟩
  · rw [hunderway, ← append_assoc]
    exact nodup_snoc hnodup fun hr => (hsub r hr).2 rfl
  · intro x hx
    rw [hreplacing]
    rcases mem_append.mp hx with hx | hx
    · exact (hh.live x hx).imp id (mem_append_left _)
    · exact .inr (mem_append_right _ hx)
  intro x hx
  rw [hreplacing] at hx
  exact (mem_append.mp hx).elim (fun hx => mem_append_left _ (hh.sent x hx))
    (mem_append_right _)

theorem replacing_cons {op : Replace} {rest : List Replace} (hchain : h.senderChain = op :: rest)
    (hrun : op.run = some r) : h.replacing = r :: Hook.replacing { h with senderChain := rest } := by
  unfold replacing
  rw [hchain, filterMap_cons_some hrun]

/-- The run whose `replace` is done goes on. -/
theorem resume {op : Replace} {rest : List Replace} (hh : Tidy h)
    (hchain : h.senderChain = op :: rest) (hrun : op.run = some r) (ok : Bool) :
    Tidy (Hook.resume { h with senderChain := rest } r ok) := by
  have hhead := replacing_cons hchain hrun
  generalize hpopped : { h with senderChain := rest } = popped at hhead ⊢
  have hnodup : (r :: popped.underway).Nodup := by
    have hnodup := hh.nodup
    rw [underway, hhead, nodup_middle] at hnodup
    subst hpopped
    exact hnodup
  obtain ⟨hnot, hnodup⟩ := nodup_cons.mp hnodup
  have hsub : ∀ x ∈ popped.underway, x ∈ h.underway ∧ x ≠ r := by
    intro x hx
    refine ⟨?_, fun heq => hnot (heq ▸ hx)⟩
    rw [underway, hhead]
    subst hpopped
    exact (mem_append.mp hx).elim (mem_append_left _)
      fun hx => mem_append_right _ (mem_cons_of_mem _ hx)
  have hreleased : ∀ x ∈ popped.live.filter (· ≠ r), popped.mic = some x ∨ x ∈ popped.replacing := by
    intro x hx
    obtain ⟨hx, hne⟩ := mem_filter.mp hx
    have hlive := hh.live x (by subst hpopped; exact hx)
    rw [hhead] at hlive
    subst hpopped
    exact hlive.imp id fun hx => (mem_cons.mp hx).resolve_left (of_decide_eq_true hne)
  have hsent : ∀ x ∈ popped.replacing, x ∈ popped.live := by
    intro x hx
    have hlive := hh.sent x (by rw [hhead]; exact mem_cons_of_mem _ hx)
    subst hpopped
    exact hlive
  have hkept : ∀ x ∈ popped.replacing, x ∈ popped.live.filter (· ≠ r) := by
    intro x hx
    exact mem_filter.mpr ⟨hsent x hx, decide_eq_true (hsub x (mem_append_right _ hx)).2⟩
  unfold Hook.resume
  split
  · -- stale: its undo is queued
    have hreplacing := replacing_replace_none popped
    have hunder : (((popped.replace none).release r).settle r).underway = popped.underway :=
      congrArg (popped.asking ++ ·) hreplacing
    have hsame : (((popped.replace none).release r).settle r).replacing = popped.replacing :=
      hreplacing
    refine hh.settle (hunder ▸ hsub) (hunder ▸ hnodup) ?_ ?_ ?_ ?_ (hsame ▸ hreleased)
      (hsame ▸ hkept) ?_ <;> (subst hpopped; rfl)
  rename_i hfresh
  split
  · have hsub : ∀ x ∈ ((popped.release r).settle r).underway, x ∈ h.underway ∧ x ≠ r := hsub
    refine hh.settle hsub hnodup ?_ ?_ ?_ ?_ hreleased hkept ?_ <;> (subst hpopped; rfl)
  subst hpopped
  obtain ⟨hgen, hnone⟩ := fresh_of_not_stale hfresh
  have hr : r ∈ h.underway := by
    rw [underway, hhead]
    exact mem_append_right _ mem_cons_self
  -- no other run is of this generation
  have hold : ∀ x ∈ underway { h with senderChain := rest }, x.gen ≠ h.generation := by
    intro x hx heq
    obtain ⟨hx, hne⟩ := hsub x hx
    have hpending := (hh.pending x hx heq).symm.trans (hh.pending r hr hgen)
    exact hne (Option.some.inj hpending)
  refine ⟨fun x hx => hh.gens x (hsub x hx).1, fun x hx => hh.ids x (hsub x hx).1, hnodup,
    fun x hx heq => absurd heq (hold x hx), fun _ => hold,
    fun x hx => Option.some.inj hx ▸ hgen, fun x hx => ?_, hsent,
    fun hstop => absurd hgen ((hh.stopped hstop).2 r hr)⟩
  rcases hh.live x hx with hmic | hx
  · exact absurd (hmic.symm.trans hnone) (by simp)
  rw [hhead] at hx
  rcases mem_cons.mp hx with rfl | hx
  · exact .inl rfl
  · exact .inr hx

theorem done (hh : Tidy h) (ok : Bool) : Tidy (h.done ok) := by
  unfold Hook.done
  split
  · exact hh
  rename_i op rest hchain
  split
  · rename_i hrun
    refine hh.same rfl ?_ rfl rfl rfl rfl rfl rfl
    unfold replacing
    rw [hchain, filterMap_cons_none hrun]
  · rename_i r hrun
    exact hh.resume hchain hrun ok

theorem move {a : TalkAct} (hh : Tidy h) (hmove : Move h a h') : Tidy h' := by
  cases hmove with
  | start => exact hh.start
  | stop => exact hh.stop
  | microphone hr => exact hh.microphone hr _
  | grant huplink hchain =>
    refine hh.same rfl ?_ rfl rfl rfl rfl rfl rfl
    unfold replacing
    rw [hchain]
    rfl
  | refuse huplink hchain => exact hh.done false
  | @grantLate r _ huplink hchain =>
    have hgranted : Tidy (h.grant r) := hh.same rfl rfl rfl rfl rfl rfl rfl rfl
    exact hgranted.done false
  | @attach r _ huplink hchain =>
    have hattached : Tidy (h.attach r) := hh.same rfl rfl rfl rfl rfl rfl rfl rfl
    exact hattached.done true
  | detach huplink hchain =>
    have hdetached : Tidy h.detach := hh.same rfl rfl rfl rfl rfl rfl rfl rfl
    exact hdetached.done true
  | absent huplink hchain => exact hh.done false

end Tidy

/-! ## The sender -/

/-- Only the head can have been granted, and then nothing was told since. -/
structure Wired (h : Hook) : Prop where
  waiting : ∀ op ∈ h.senderChain.tail, op.granted = false
  granted : ∀ op r, h.senderChain.head? = some op → op.run = some r → op.granted = true →
    h.log.getLast? = some (.start r)
  absent : h.uplink = false → h.sender = none ∧ h.uplinkActive = false ∧ h.log = []

/-- `talk-stop` follows whatever was granted, or the uplink is active, or
it is about to be: the head was just granted. -/
def Told (h : Hook) : Prop :=
  Stopped h.log ∨ h.uplinkActive = true ∨
    ∃ op r, h.senderChain.head? = some op ∧ op.run = some r ∧ op.granted = true

/-- After a stop: a detach comes last, or the sender is silent already. -/
def Closing (h : Hook) : Prop :=
  h.lastCall = some .stop →
    (∀ op, h.senderChain.getLast? = some op → op.run = none) ∧
      (h.senderChain = [] → h.sender = none ∧ h.uplinkActive = false)

theorem stopped_nil : Stopped [] := by
  intro before r after heq
  simp at heq

theorem stopped_concat_stop (log : List Talk) : Stopped (log ++ [.stop]) := by
  intro before r after heq
  rcases eq_nil_or_concat after with rfl | ⟨after, t, rfl⟩
  · obtain ⟨-, hlast⟩ := append_inj' heq rfl
    cases hlast
  rw [concat_eq_append] at heq ⊢
  have hlast := congrArg getLast? heq
  rw [← cons_append, ← append_assoc, getLast?_concat, getLast?_concat] at hlast
  cases hlast
  exact mem_snoc.mpr (.inr rfl)

/-- A done head changes the chain only, as far as the sender goes. -/
theorem done_sender {op : Replace} {rest : List Replace}
    (hchain : h.senderChain = op :: rest) (ok : Bool) :
    (h.done ok).lastCall = h.lastCall ∧ (h.done ok).log = h.log ∧
      (h.done ok).uplinkActive = h.uplinkActive ∧ (h.done ok).sender = h.sender ∧
      (h.done ok).uplink = h.uplink ∧
      ((h.done ok).senderChain = rest ∨ (h.done ok).senderChain = rest ++ [{ run := none }]) := by
  rcases done_cases hchain ok with ⟨-, heq⟩ | ⟨r, -, ⟨-, heq⟩ | ⟨-, -, heq⟩ | ⟨-, -, heq⟩⟩
  · rw [heq]
    exact ⟨rfl, rfl, rfl, rfl, rfl, .inl rfl⟩
  · rw [heq]
    exact ⟨rfl, rfl, rfl, rfl, rfl, .inr rfl⟩
  · rw [heq]
    exact ⟨rfl, rfl, rfl, rfl, rfl, .inl rfl⟩
  · rw [heq]
    exact ⟨rfl, rfl, rfl, rfl, rfl, .inl rfl⟩

namespace Wired

variable {h h' : Hook}

theorem same (hh : Wired h) (hchain : h'.senderChain = h.senderChain) (hlog : h'.log = h.log)
    (hactive : h'.uplinkActive = h.uplinkActive) (hsender : h'.sender = h.sender)
    (huplink : h'.uplink = h.uplink) : Wired h' := by
  refine ⟨?_, ?_, ?_⟩
  · rw [hchain]
    exact hh.waiting
  · rw [hchain, hlog]
    exact hh.granted
  · rw [huplink, hsender, hactive, hlog]
    exact hh.absent

theorem replace (hh : Wired h) (r : Option Run) : Wired (h.replace r) := by
  cases hchain : h.senderChain with
  | nil =>
    have hchain' : (h.replace r).senderChain = [{ run := r }] := by
      rw [Hook.replace, hchain]
      rfl
    refine ⟨?_, ?_, hh.absent⟩
    · rw [hchain']
      exact fun op hop => (nomatch hop)
    · rw [hchain']
      intro op r' hop _ hgranted
      cases hop
      cases hgranted
  | cons op rest =>
    have hchain' : (h.replace r).senderChain = op :: (rest ++ [{ run := r }]) := by
      rw [Hook.replace, hchain]
      rfl
    refine ⟨?_, ?_, hh.absent⟩
    · rw [hchain']
      intro o ho
      rcases mem_snoc.mp ho with ho | rfl
      · exact hh.waiting o (by rw [hchain]; exact ho)
      · rfl
    · rw [hchain', head?_cons, ← head?_cons (l := rest), ← hchain]
      exact hh.granted

theorem done {op : Replace} {rest : List Replace} (hchain : h.senderChain = op :: rest)
    (hwaiting : ∀ o ∈ rest, o.granted = false)
    (habsent : h.uplink = false → h.sender = none ∧ h.uplinkActive = false ∧ h.log = [])
    (ok : Bool) : Wired (h.done ok) := by
  obtain ⟨-, hlog, huplinkActive, hsender, huplink, hrest⟩ := done_sender hchain ok
  have hnot : ∀ o ∈ (h.done ok).senderChain, o.granted = false := by
    intro o ho
    rcases hrest with heq | heq
    · exact hwaiting o (heq ▸ ho)
    rw [heq] at ho
    rcases mem_snoc.mp ho with ho | rfl
    · exact hwaiting o ho
    · rfl
  refine ⟨fun o ho => hnot o (mem_of_mem_tail ho), fun o r ho _ hgranted => ?_, ?_⟩
  · rw [hnot o (mem_of_head? ho)] at hgranted
    cases hgranted
  · rw [huplink, hsender, huplinkActive, hlog]
    exact habsent

theorem move {a : TalkAct} (hh : Wired h) (hmove : Move h a h') : Wired h' := by
  have htail : ∀ {op : Replace} {rest : List Replace}, h.senderChain = op :: rest →
      ∀ o ∈ rest, o.granted = false := by
    intro op rest hchain o ho
    exact hh.waiting o (by rw [hchain]; exact ho)
  cases hmove with
  | start =>
    unfold start
    dsimp only
    split <;> exact hh.same rfl rfl rfl rfl rfl
  | stop => exact (hh.replace none).same rfl rfl rfl rfl rfl
  | @microphone r granted hr =>
    unfold microphone
    dsimp only
    split
    · exact hh.same rfl rfl rfl rfl rfl
    split
    · exact hh.same rfl rfl rfl rfl rfl
    · exact (hh.replace (some r)).same rfl rfl rfl rfl rfl
  | @grant r rest huplink hchain =>
    refine ⟨htail hchain, ?_, fun hnot => ?_⟩
    · intro op r' hop hrun _
      cases hop
      cases hrun
      exact getLast?_concat
    · exact absurd (huplink.symm.trans hnot) (by decide)
  | refuse huplink hchain => exact done hchain (htail hchain) hh.absent false
  | @grantLate r rest huplink hchain =>
    refine done (h := h.grant r) hchain (htail hchain) (fun hnot => ?_) false
    exact absurd (huplink.symm.trans hnot) (by decide)
  | @attach r rest huplink hchain =>
    refine done (h := h.attach r) hchain (htail hchain) (fun hnot => ?_) true
    exact absurd (huplink.symm.trans hnot) (by decide)
  | detach huplink hchain =>
    refine done (h := h.detach) hchain (htail hchain) (fun hnot => ?_) true
    exact absurd (huplink.symm.trans hnot) (by decide)
  | absent huplink hchain => exact done hchain (htail hchain) hh.absent false

end Wired

/-! ## What the robot was told -/

namespace Told

variable {h h' : Hook}

theorem grows (hh : Told h) {more : List Replace} (hchain : h'.senderChain = h.senderChain ++ more)
    (hlog : h'.log = h.log) (hactive : h'.uplinkActive = h.uplinkActive) : Told h' := by
  rw [Told, hlog, hactive]
  refine hh.imp id (Or.imp id ?_)
  rintro ⟨op, r, hop, hgranted⟩
  exact ⟨op, r, by rw [hchain, head?_append, hop]; rfl, hgranted⟩

theorem done {op : Replace} {rest : List Replace} (hchain : h.senderChain = op :: rest)
    (h' : Stopped h.log ∨ h.uplinkActive = true) (ok : Bool) : Told (h.done ok) := by
  obtain ⟨-, hlog, hactive, -⟩ := done_sender hchain ok
  rw [Told, hlog, hactive]
  exact h'.imp id .inl

/-- What was told while the head has not been granted. -/
theorem waits {op : Replace} {rest : List Replace} (hh : Told h)
    (hchain : h.senderChain = op :: rest) (hop : op.run = none ∨ op.granted = false) :
    Stopped h.log ∨ h.uplinkActive = true := by
  refine hh.imp id (Or.resolve_right · ?_)
  rintro ⟨op', r, hhead, hrun, hgranted⟩
  rw [hchain] at hhead
  cases hhead
  rcases hop with hnone | hnot
  · rw [hnone] at hrun
    cases hrun
  · rw [hnot] at hgranted
    cases hgranted

theorem move {a : TalkAct} (hh : Told h) (hwired : Wired h) (hprompt : Prompt h a)
    (hmove : Move h a h') : Told h' := by
  cases hmove with
  | start =>
    unfold start
    dsimp only
    split <;> exact hh
  | stop => exact hh.grows rfl rfl rfl
  | @microphone r granted hr =>
    unfold microphone
    dsimp only
    split
    · exact hh
    split
    · exact hh
    · exact hh.grows rfl rfl rfl
  | @grant r rest huplink hchain => exact .inr (.inr ⟨_, r, rfl, rfl, rfl⟩)
  | refuse huplink hchain => exact done hchain (hh.waits hchain (.inr rfl)) false
  | grantLate huplink hchain => exact absurd rfl hprompt
  | @attach r rest huplink hchain => exact done (h := h.attach r) hchain (.inr rfl) true
  | detach huplink hchain =>
    refine done (h := h.detach) hchain (.inl ?_) true
    unfold detach
    split
    · exact stopped_concat_stop _
    · rename_i hactive
      exact (hh.waits hchain (.inl rfl)).resolve_right hactive
  | absent huplink hchain =>
    refine done hchain (.inl ?_) false
    rw [(hwired.absent huplink).2.2]
    exact stopped_nil

end Told

/-! ## After a stop -/

namespace Closing

variable {h h' : Hook}

variable {rest : List Replace}

theorem queued (hchain : h.senderChain = rest ++ [{ run := none }]) :
    Closing h := by
  intro _
  refine ⟨fun op hop => ?_, fun hnil => ?_⟩
  · rw [hchain, getLast?_concat] at hop
    rw [← Option.some.inj hop]
  · rw [hchain] at hnil
    simp at hnil

/-- After a stop every run is stale, so one that is done queues its undo. -/
theorem done_run {op : Replace} {r : Run} (htidy : Tidy h)
    (hchain : h.senderChain = op :: rest) (hrun : op.run = some r) (ok : Bool) :
    Closing (h.done ok) := by
  intro hstop
  have hstopped : h.lastCall = some .stop := (done_sender hchain ok).1.symm.trans hstop
  have hr : r ∈ h.underway := by
    rw [underway, Tidy.replacing_cons hchain hrun]
    exact mem_append_right _ mem_cons_self
  have hstale : h.stale r = true := by
    rw [stale, decide_eq_true ((htidy.stopped hstopped).2 r hr), Bool.true_or]
  rcases done_cases hchain ok with ⟨hnone, -⟩ | ⟨r', hrun', ⟨-, heq⟩ | ⟨hnot, -⟩ | ⟨hnot, -⟩⟩
  · rw [hrun] at hnone
    cases hnone
  · have hqueued : (h.done ok).senderChain = rest ++ [{ run := none }] := by
      rw [heq]
      rfl
    exact queued hqueued hstop
  all_goals
    cases hrun'.symm.trans hrun
    rw [hstale] at hnot
    cases hnot

/-- A detach that is done leaves the last one last. -/
theorem done_none {op : Replace}
    (hlast : h.lastCall = some .stop → ∀ op, h.senderChain.getLast? = some op → op.run = none)
    (hchain : h.senderChain = op :: rest) (hrun : op.run = none)
    (hsilent : h.sender = none ∧ h.uplinkActive = false) (ok : Bool) : Closing (h.done ok) := by
  have heq : h.done ok = { h with senderChain := rest } := by
    rcases done_cases hchain ok with ⟨-, heq⟩ | ⟨r, hsome, -⟩
    · exact heq
    · rw [hrun] at hsome
      cases hsome
  rw [heq]
  intro hstop
  refine ⟨fun o ho => hlast hstop o ?_, fun _ => hsilent⟩
  have ho : rest.getLast? = some o := ho
  rw [hchain, getLast?_cons, ho]
  rfl

theorem move {a : TalkAct} (hh : Closing h) (htidy : Tidy h) (hwired : Wired h)
    (hmove : Move h a h') : Closing h' := by
  cases hmove with
  | start =>
    intro hstop
    unfold start at hstop
    dsimp only at hstop
    split at hstop <;> cases hstop
  | stop => exact queued rfl
  | @microphone r granted hr =>
    unfold microphone
    dsimp only
    split
    · exact hh
    split
    · exact hh
    rename_i hfresh
    intro hstop
    obtain ⟨hgen, -⟩ := fresh_of_not_stale hfresh
    exact absurd hgen ((htidy.stopped hstop).2 r (mem_append_left _ hr))
  | @grant r rest huplink hchain =>
    intro hstop
    refine ⟨fun op hop => ?_, fun hnil => (nomatch hnil)⟩
    have hlast := (hh hstop).1
    rw [hchain] at hlast
    cases rest with
    | nil => exact absurd (hlast ⟨some r, false⟩ rfl) (by simp)
    | cons o rest =>
      refine hlast op ?_
      rw [← hop]
      rfl
  | refuse huplink hchain => exact done_run htidy hchain rfl false
  | @grantLate r rest huplink hchain =>
    have hgranted : Tidy (h.grant r) := htidy.same rfl rfl rfl rfl rfl rfl rfl rfl
    exact done_run hgranted hchain rfl false
  | @attach r rest huplink hchain =>
    have hattached : Tidy (h.attach r) := htidy.same rfl rfl rfl rfl rfl rfl rfl rfl
    exact done_run hattached hchain rfl true
  | detach huplink hchain =>
    exact done_none (h := h.detach) (fun hstop => (hh hstop).1) hchain rfl ⟨rfl, rfl⟩ true
  | @absent op rest huplink hchain =>
    cases hrun : op.run with
    | some r => exact done_run htidy hchain hrun false
    | none =>
      obtain ⟨hsender, hactive, -⟩ := hwired.absent huplink
      exact done_none (fun hstop => (hh hstop).1) hchain hrun ⟨hsender, hactive⟩ false

end Closing

/-! ## Talking -/

/-- Under the condition: a start that is not stale is the only one that
waits for the sender and comes last; and while the hook talks, the sender
has its track and nothing is queued. -/
structure Heard (h : Hook) : Prop where
  alone : ∀ r ∈ h.replacing, r.gen = h.generation →
    h.replacing = [r] ∧ ∃ op, h.senderChain.getLast? = some op ∧ op.run = some r
  talking : h.talking = true → ∃ r, h.mic = some r ∧ r ∈ h.live ∧ h.sender = some r ∧
    h.log.getLast? = some (.start r) ∧ h.senderChain = []

namespace Heard

variable {h h' : Hook}

variable {op : Replace} {rest : List Replace} {r : Run}

section

variable (hh : Heard h) (hchain : h.senderChain = op :: rest)
include hh hchain

theorem silent : h.talking = false := by
  cases htalking : h.talking with
  | false => rfl
  | true =>
    obtain ⟨-, -, -, -, -, hnil⟩ := hh.talking htalking
    rw [hchain] at hnil
    cases hnil

/-- No start that is not stale waits behind another one. -/
theorem stale_behind {x : Run} (hrun : op.run = some r)
    (hx : x ∈ Hook.replacing { h with senderChain := rest }) : x.gen ≠ h.generation := by
  intro hgen
  have hcons := Tidy.replacing_cons hchain hrun
  obtain ⟨honly, -⟩ := hh.alone x (by rw [hcons]; exact mem_cons_of_mem _ hx) hgen
  rw [hcons] at honly
  obtain ⟨-, hnil⟩ := List.cons.inj honly
  rw [hnil] at hx
  cases hx

/-- Where the head is done and nobody talks after it. -/
theorem done_quiet (ok : Bool)
    (hquiet : ∀ r, op.run = some r → h.stale r = false → ok = false) : Heard (h.done ok) := by
  have hsilent := hh.silent hchain
  rcases done_cases hchain ok with ⟨hrun, heq⟩ | ⟨r, hrun, ⟨hstale, heq⟩ | ⟨-, -, heq⟩ | ⟨hnot, hok, -⟩⟩
  · rw [heq]
    have hreplacing : replacing { h with senderChain := rest } = h.replacing := by
      unfold replacing
      rw [hchain, filterMap_cons_none hrun]
    refine ⟨fun x hx hgen => ?_, fun htalking => ?_⟩
    · rw [hreplacing] at hx ⊢
      obtain ⟨honly, o, ho, hor⟩ := hh.alone x hx hgen
      refine ⟨honly, o, ?_, hor⟩
      rw [hchain, getLast?_cons] at ho
      cases hlast : rest.getLast? with
      | none =>
        rw [hlast] at ho
        cases ho
        have hsome : op.run = some x := hor
        rw [hrun] at hsome
        cases hsome
      | some o' =>
        rw [hlast] at ho
        exact ho
    · exact absurd (hsilent.symm.trans htalking) (by decide)
  · rw [heq]
    refine ⟨fun x hx hgen => ?_, fun htalking => ?_⟩
    · have hx : x ∈ (Hook.replace { h with senderChain := rest } none).replacing := hx
      rw [Tidy.replacing_replace_none] at hx
      exact absurd hgen (hh.stale_behind hchain hrun hx)
    · exact absurd (hsilent.symm.trans htalking) (by decide)
  · rw [heq]
    refine ⟨fun x hx hgen => ?_, fun htalking => ?_⟩
    · exact absurd hgen (hh.stale_behind hchain hrun hx)
    · exact absurd (hsilent.symm.trans htalking) (by decide)
  have hfalse := hquiet r hrun hnot
  rw [hok] at hfalse
  cases hfalse

end

/-- The track of a start that is not stale is attached: it is the last
in the chain, so nothing takes it away. -/
theorem attach (hh : Heard h) (htidy : Tidy h) (hwired : Wired h)
    (hchain : h.senderChain = ⟨some r, true⟩ :: rest) : Heard ((h.attach r).done true) := by
  have hattached : Heard (h.attach r) := by
    refine ⟨hh.alone, fun htalking => ?_⟩
    exact absurd ((hh.silent hchain).symm.trans htalking) (by decide)
  cases hstale : h.stale r with
  | true =>
    refine hattached.done_quiet hchain true fun r' hrun hfresh => ?_
    cases hrun
    exact absurd (hstale.symm.trans hfresh) (by decide)
  | false =>
    have hgen := (fresh_of_not_stale (by rw [hstale]; decide)).1
    have hcons := Tidy.replacing_cons hchain (r := r) rfl
    have hr : r ∈ h.replacing := by
      rw [hcons]
      exact mem_cons_self
    obtain ⟨honly, o, ho, hor⟩ := hh.alone r hr hgen
    rw [hcons] at honly
    obtain ⟨-, hnil⟩ := List.cons.inj honly
    obtain rfl : rest = [] := by
      cases hlast : rest.getLast? with
      | none => exact getLast?_eq_none_iff.mp hlast
      | some o' =>
        rw [hchain, getLast?_cons, hlast] at ho
        cases ho
        have hin : r ∈ replacing { h with senderChain := rest } :=
          mem_filterMap.mpr ⟨_, mem_of_getLast? hlast, hor⟩
        rw [hnil] at hin
        cases hin
    have hdone : (h.attach r).done true =
        settle { h.attach r with senderChain := [], mic := some r, talking := true } r := by
      have hstale : (h.attach r).stale r = false := hstale
      rcases done_cases (h := h.attach r) hchain true with ⟨hnone, -⟩ |
        ⟨r', hrun, ⟨hnot, -⟩ | ⟨-, hok, -⟩ | ⟨-, -, heq⟩⟩
      · cases hnone
      · cases hrun
        rw [hstale] at hnot
        cases hnot
      · cases hok
      · cases hrun
        exact heq
    rw [hdone]
    refine ⟨fun x hx => (nomatch hx), fun _ => ⟨r, rfl, htidy.sent r hr, rfl, ?_, rfl⟩⟩
    exact hwired.granted ⟨some r, true⟩ r (by rw [hchain]; rfl) rfl rfl

theorem microphone {granted : Bool} (hh : Heard h)
    (hunhurried : Unhurried h (.microphone r granted)) : Heard (h.microphone r granted) := by
  unfold Hook.microphone
  dsimp only
  split
  · exact ⟨hh.alone, hh.talking⟩
  rename_i hgranted
  obtain rfl : granted = true := by simpa using hgranted
  split
  · exact ⟨hh.alone, hh.talking⟩
  rename_i hfresh
  obtain ⟨hgen, hnone⟩ := fresh_of_not_stale hfresh
  have hempty : h.replacing = [] := hunhurried hgen
  have hreplacing : (Hook.replace { h with asking := h.asking.filter (· ≠ r), live := h.live ++ [r] }
      (some r)).replacing = [r] := by
    unfold Hook.replace replacing
    rw [filterMap_append]
    show h.replacing ++ [r] = [r]
    rw [hempty]
    rfl
  refine ⟨fun x hx _ => ?_, fun htalking => ?_⟩
  · rw [hreplacing] at hx ⊢
    obtain rfl := mem_singleton.mp hx
    exact ⟨rfl, _, getLast?_concat, rfl⟩
  obtain ⟨r', hmic, -⟩ := hh.talking htalking
  have hnone : h.mic = none := hnone
  rw [hnone] at hmic
  cases hmic

theorem move {a : TalkAct} (hh : Heard h) (htidy : Tidy h) (hwired : Wired h)
    (hunhurried : Unhurried h a) (hmove : Move h a h') : Heard h' := by
  cases hmove with
  | start =>
    unfold start
    dsimp only
    split <;> exact ⟨hh.alone, hh.talking⟩
  | stop =>
    refine ⟨fun x hx hgen => ?_, fun htalking => (nomatch htalking)⟩
    have hx : x ∈ (h.replace none).replacing := hx
    rw [Tidy.replacing_replace_none] at hx
    exact absurd hgen (Nat.lt_succ_of_le (htidy.gens x (mem_append_right _ hx))).ne
  | microphone => exact hh.microphone hunhurried
  | @grant r rest huplink hchain =>
    refine ⟨fun x hx hgen => ?_, fun htalking => ?_⟩
    · have hreplacing : (Replace.mk (some r) true :: rest).filterMap (·.run) = h.replacing := by
        rw [replacing, hchain]
        rfl
      unfold replacing at hx ⊢
      rw [hreplacing] at hx ⊢
      obtain ⟨honly, o, ho, hor⟩ := hh.alone x hx hgen
      refine ⟨honly, ?_⟩
      rw [hchain, getLast?_cons] at ho
      rw [getLast?_cons]
      cases hlast : rest.getLast? with
      | none =>
        rw [hlast] at ho
        cases ho
        exact ⟨_, rfl, hor⟩
      | some o' =>
        rw [hlast] at ho
        exact ⟨o, ho, hor⟩
    · exact absurd ((hh.silent hchain).symm.trans htalking) (by decide)
  | refuse huplink hchain => exact hh.done_quiet hchain false fun _ _ _ => rfl
  | @grantLate r rest huplink hchain =>
    have hgranted : Heard (h.grant r) := by
      refine ⟨hh.alone, fun htalking => ?_⟩
      exact absurd ((hh.silent hchain).symm.trans htalking) (by decide)
    exact hgranted.done_quiet hchain false fun _ _ _ => rfl
  | attach huplink hchain => exact hh.attach htidy hwired hchain
  | detach huplink hchain =>
    have hdetached : Heard h.detach := by
      refine ⟨hh.alone, fun htalking => ?_⟩
      exact absurd ((hh.silent hchain).symm.trans htalking) (by decide)
    exact hdetached.done_quiet hchain true fun _ hrun => (nomatch hrun)
  | absent huplink hchain => exact hh.done_quiet hchain false fun _ _ _ => rfl

end Heard

/-! ## Results -/

theorem tidy_init (uplink : Bool) : Tidy { uplink } where
  gens := fun _ hr => (nomatch hr)
  ids := fun _ hr => (nomatch hr)
  nodup := nodup_nil
  pending := fun _ hr => (nomatch hr)
  mic := fun hsome => (nomatch hsome)
  held := fun _ hr => (nomatch hr)
  live := fun _ hr => (nomatch hr)
  sent := fun _ hr => (nomatch hr)
  stopped := fun hstop => (nomatch hstop)

theorem wired_init (uplink : Bool) : Wired { uplink } where
  waiting := fun _ hop => (nomatch hop)
  granted := fun _ _ hop => (nomatch hop)
  absent := fun _ => ⟨rfl, rfl, rfl⟩

/-- What holds in every state. -/
theorem tidy_of_run {uplink : Bool} {as : List TalkAct}
    (hrun : (pushToTalk uplink).run { uplink } as = some h) : Tidy h ∧ Wired h ∧ Closing h := by
  refine (pushToTalk uplink).invariant (P := fun h => Tidy h ∧ Wired h ∧ Closing h)
    ⟨tidy_init uplink, wired_init uplink, fun hstop => (nomatch hstop)⟩ ?_ ⟨as, hrun⟩
  rintro h a h' ⟨htidy, hwired, hclosing⟩ hstep
  have hmove := move_of_step hstep
  exact ⟨htidy.move hmove, hwired.move hmove, hclosing.move htidy hwired hmove⟩

/-- **Stop wins, and talking means being sent.** When nothing is under
way any more and the last call was a stop, every microphone is off and the
sender has no track, in every run; every granted `talk-start` was followed
by a `talk-stop`, in every run in which none is granted late; and when the
hook talks, the sender has the live track of its microphone and no
`talk-stop` followed its `talk-start`, in every run in which microphones
are granted unhurried. -/
theorem stop_wins {uplink : Bool} {as : List TalkAct} {h : Hook}
    (hrun : (pushToTalk uplink).run { uplink } as = some h) (hsettled : h.Settled) :
    (h.lastCall = some .stop → h.live = [] ∧ h.sender = none ∧
        ((pushToTalk uplink).AllSteps Prompt { uplink } as → Stopped h.log)) ∧
      ((pushToTalk uplink).AllSteps Unhurried { uplink } as → h.talking = true →
        ∃ r, h.mic = some r ∧ r ∈ h.live ∧ h.sender = some r ∧
          ∃ before after, h.log = before ++ .start r :: after ∧ .stop ∉ after) := by
  obtain ⟨htidy, hwired, hclosing⟩ := tidy_of_run hrun
  obtain ⟨hasking, hchain⟩ := hsettled
  constructor
  · intro hstop
    obtain ⟨hsender, hactive⟩ := (hclosing hstop).2 hchain
    refine ⟨eq_nil_iff_forall_not_mem.mpr fun r hr => ?_, hsender, fun hprompt => ?_⟩
    · rcases htidy.live r hr with hmic | hr
      · rw [(htidy.stopped hstop).1] at hmic
        cases hmic
      · rw [replacing, hchain] at hr
        cases hr
    have htold : Wired h ∧ Told h := by
      refine (pushToTalk uplink).run_induction (P := fun h => Wired h ∧ Told h) ?_
        ⟨wired_init uplink, .inl stopped_nil⟩ hprompt hrun
      rintro h a h' ⟨hwired, htold⟩ hprompt hstep
      have hmove := move_of_step hstep
      exact ⟨hwired.move hmove, htold.move hwired hprompt hmove⟩
    refine htold.2.resolve_right ?_
    rintro (heq | ⟨op, r, hop, -⟩)
    · rw [hactive] at heq
      cases heq
    · rw [hchain] at hop
      cases hop
  intro hunhurried htalking
  have hheard : Tidy h ∧ Wired h ∧ Heard h := by
    refine (pushToTalk uplink).run_induction (P := fun h => Tidy h ∧ Wired h ∧ Heard h) ?_
      ⟨tidy_init uplink, wired_init uplink, fun r hr => (nomatch hr), fun ht => (nomatch ht)⟩
      hunhurried hrun
    rintro h a h' ⟨htidy, hwired, hheard⟩ hunhurried hstep
    have hmove := move_of_step hstep
    exact ⟨htidy.move hmove, hwired.move hmove, hheard.move htidy hwired hunhurried hmove⟩
  obtain ⟨r, hmic, hlive, hsender, hlast, -⟩ := hheard.2.2.talking htalking
  obtain ⟨before, hlog⟩ := getLast?_eq_some_iff.mp hlast
  exact ⟨r, hmic, hlive, hsender, before, [], hlog, not_mem_nil⟩

/-- Pressed, released and pressed again, each time after the last settled. -/
theorem stop_wins_pressed_twice :
    let as := [.start, .microphone ⟨0, 0⟩ true, .talkStart .granted, .attached, .stop, .attached,
      .start, .microphone ⟨1, 1⟩ true, .talkStart .granted, .attached]
    ∃ h, (pushToTalk true).run { uplink := true } as = some h ∧ h.talking = true ∧
      ∃ r, h.mic = some r ∧ r ∈ h.live ∧ h.sender = some r := by
  intro as
  refine evaluated (fun h => (h.asking, h.senderChain, h.talking)) (b := ([], [], true))
    (by decide +kernel) fun h hrun hstate => ?_
  obtain ⟨hasking, hrest⟩ := Prod.mk.inj hstate
  obtain ⟨hchain, htalking⟩ := Prod.mk.inj hrest
  have hunhurried : (pushToTalk true).AllSteps Unhurried { uplink := true } as := by
    decide +kernel
  obtain ⟨r, hmic, hlive, hsender, -⟩ :=
    (stop_wins hrun ⟨hasking, hchain⟩).2 hunhurried htalking
  exact ⟨htalking, r, hmic, hlive, hsender⟩

/-- A `talk-start` that is granted late, and a stop: the robot plays on. -/
example : ((pushToTalk true).run { uplink := true } [.start, .microphone ⟨0, 0⟩ true,
    .talkStart .grantedLate, .stop, .attached]).map (fun h => (h.senderChain, h.log)) =
      some ([], [.start ⟨0, 0⟩]) := by
  decide +kernel

/-- Released and pressed again while the first `talk-start` is under way:
the undo of the first start comes behind the track of the second, which
reports that it talks and is not sent. -/
theorem silenced :
    ∃ h, (pushToTalk true).run { uplink := true } [.start, .microphone ⟨0, 0⟩ true, .stop, .start,
        .microphone ⟨1, 1⟩ true, .talkStart .granted, .attached, .attached, .talkStart .granted, .attached,
        .attached] = some h ∧
      h.Settled ∧ h.talking = true ∧ h.mic = some ⟨1, 1⟩ ∧ h.sender = none ∧
      h.log = [.start ⟨0, 0⟩, .stop, .start ⟨1, 1⟩, .stop] := by
  refine evaluated (fun h => ((h.asking, h.senderChain), (h.talking, h.mic), h.sender, h.log))
    (b := (([], []), (true, some ⟨1, 1⟩), none, [.start ⟨0, 0⟩, .stop, .start ⟨1, 1⟩, .stop]))
    (by decide +kernel) fun h hrun hstate => ?_
  simp only [Prod.mk.injEq] at hstate
  obtain ⟨⟨hasking, hchain⟩, ⟨htalking, hmic⟩, hsender, hlog⟩ := hstate
  exact ⟨⟨hasking, hchain⟩, htalking, hmic, hsender, hlog⟩

end Fjarr.Web
