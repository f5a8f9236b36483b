/-
Fjarr.Connect.Shell — the terminal of `fjarr-connect shell`
(`signaling/crates/fjarr-connect`): `Established::request` with
`await_result`, and `pump` with the loop that draws the shell's last words.

One queue holds the terminal channel's messages and the control channel's
envelopes, in the order in which they arrived. Three loops read it. The
first waits for the result of `open` and only counts the terminal's bytes;
the second draws them until `exit`; the third goes on drawing until nothing
came for 150 ms, or one second after the `exit`.

The robot sends its result before the first output, on another channel, and
so either may arrive first. Output that overtakes the result is not drawn
(`overtaken_output_lost`). Nor is output that comes soon after an envelope,
where the envelope itself came when the third loop had given up. Nothing else
is lost (`shell_complete`).

Times are milliseconds. An event is read when it has arrived and the loop is
there; `clock` is when. `establish` has read the queue before the request is
sent, and dropped the terminal's bytes as `await_result` does; the robot has
no shell until that request, so it is left out. So are candidates, a
connection that closes, resizes and signals.
-/
import Fjarr.Lib.Bytes

namespace Fjarr.Connect

open Lib List

/-! ## The queue -/

inductive Envelope where
  /-- The result of `open`: whether it is `ok`. -/
  | result (ok : Bool)
  /-- The terminal's `exit` event. -/
  | exit
  | other
  deriving DecidableEq, Repr

inductive Event where
  | terminal (bytes : Bytes)
  | control (env : Envelope)
  deriving DecidableEq, Repr

/-- Events, each with the time it arrived at. -/
abbrev Queue := List (Nat × Event)

def Event.bytes : Event → Bytes
  | .terminal bytes => bytes
  | .control _ => []

/-- What the terminal's messages hold, in order. -/
def output (q : Queue) : Bytes := q.flatMap (·.2.bytes)

/-- When the last of these events is read, by a loop that began at `now`. -/
def clock (now : Nat) (q : Queue) : Nat := q.foldl (fun now e => max now e.1) now

/-! ## The loops -/

/-- `await_result`, as `request` uses it: whether the result is `ok`, the
bytes that came before it, and what is left of the queue. -/
def awaitResult (deadline : Nat) : (now : Nat) → (early : Nat) → Queue → Option (Bool × Nat × Queue)
  | _, _, [] => none
  | now, early, (t, e) :: rest =>
    if deadline ≤ now ∨ deadline < t then none
    else
      match e with
      | .control (.result ok) => some (ok, early, rest)
      | .control _ => awaitResult deadline (max now t) early rest
      | .terminal bytes => awaitResult deadline (max now t) (early + bytes.length) rest

/-- A `timeout_at` that hands over an event that arrived at `t`; one that is
there already it hands over even if the time has passed. -/
def listening (cap now t : Nat) : Bool := t ≤ now || t ≤ min (now + 150) cap

/-- The loop after `exit`. -/
def drain (cap : Nat) : (now : Nat) → Queue → Bytes
  | _, [] => []
  | now, (t, e) :: rest =>
    if listening cap now t then e.bytes ++ drain cap (max now t) rest else []

/-- The bytes `pump` writes. -/
def pump : (now : Nat) → Queue → Bytes
  | _, [] => []
  | now, (t, .terminal bytes) :: rest => bytes ++ pump (max now t) rest
  | now, (t, .control .exit) :: rest => drain (max now t + 1000) (max now t) rest
  | now, (t, .control _) :: rest => pump (max now t) rest

/-- `attach`: what it writes to standard output, if the shell opens. The
request is sent at `request`, and the terminal is set up by `start`. -/
def attach (request start : Nat) (q : Queue) : Option Bytes :=
  match awaitResult (request + 10000) request 0 q with
  | some (true, _, rest) => some (pump start rest)
  | _ => none

/-! ## What is drawn -/

/-- When `exit` arrived, when it is read, and what comes after it. -/
def afterExit : (now : Nat) → Queue → Option (Nat × Nat × Queue)
  | _, [] => none
  | now, (t, .control .exit) :: rest => some (t, max now t, rest)
  | now, (t, _) :: rest => afterExit (max now t) rest

/-- Each terminal message arrives within 150 ms of the event before it, and
within one second of `exit`. -/
def Spaced (exit : Nat) : (before : Nat) → Queue → Prop
  | _, [] => True
  | before, (t, e) :: rest =>
    (∀ bytes, e = .terminal bytes → t ≤ before + 150 ∧ t ≤ exit + 1000) ∧ Spaced exit t rest

/-- No output follows an envelope that comes when `drain` has given up. -/
def Heard (read : Nat) (tail : Queue) : Prop :=
  ∀ pre t env post, tail = pre ++ (t, .control env) :: post →
    listening (read + 1000) (clock read pre) t = false → output post = []

section

variable {deadline now early t read exit cap : Nat} {before after pre post q : Queue}

@[simp] theorem output_cons (e : Nat × Event) (q : Queue) :
    output (e :: q) = e.2.bytes ++ output q := rfl

@[simp] theorem output_append (p q : Queue) : output (p ++ q) = output p ++ output q :=
  flatMap_append

theorem awaitResult_append {ok : Bool}
    (hbefore : ∀ e ∈ before, (∀ ok, e.2 ≠ .control (.result ok)) ∧ e.1 ≤ t)
    (hnow : now < deadline) (ht : t < deadline) :
    awaitResult deadline now early (before ++ (t, .control (.result ok)) :: after) =
      some (ok, early + (output before).length, after) := by
  induction before generalizing now early with
  | nil => simp [awaitResult, output, hnow.not_ge, ht.le.not_gt]
  | cons e before ih =>
    obtain ⟨t', e⟩ := e
    obtain ⟨hresult, hle⟩ := hbefore _ mem_cons_self
    have hrest := fun e he => hbefore e (mem_cons_of_mem _ he)
    have hopen : ¬ (deadline ≤ now ∨ deadline < t') := by
      simp only at hle
      omega
    have hnow' : max now t' < deadline := by
      simp only at hle
      omega
    rw [cons_append]
    cases e with
    | terminal bytes =>
      rw [awaitResult, if_neg hopen, ih hrest hnow', output_cons, Event.bytes, length_append,
        Nat.add_assoc]
    | control env =>
      cases env with
      | result ok => exact absurd rfl (hresult ok)
      | exit => simp [awaitResult, hopen, ih hrest hnow', Event.bytes]
      | other => simp [awaitResult, hopen, ih hrest hnow', Event.bytes]

/-- The last loop draws everything exactly where no bytes follow an event it
did not wait for. -/
theorem drain_eq_output (cap now : Nat) (q : Queue) :
    drain cap now q = output q ↔
      ∀ pre e post, q = pre ++ e :: post → listening cap (clock now pre) e.1 = false →
        output (e :: post) = [] := by
  induction q generalizing now with
  | nil => simp [drain, output]
  | cons e q ih =>
    rw [drain]
    cases hlisten : listening cap now e.1 with
    | true =>
      simp only [if_true, output_cons]
      rw [append_cancel_left_eq, ih]
      constructor
      · intro h pre e' post heq hgone
        cases pre with
        | nil =>
          obtain ⟨rfl, rfl⟩ := List.cons.inj heq
          exact absurd (hlisten.symm.trans hgone) (by simp)
        | cons p pre =>
          obtain ⟨rfl, rfl⟩ := List.cons.inj heq
          exact h pre e' post rfl hgone
      · intro h pre e' post heq hgone
        exact h (e :: pre) e' post (by rw [heq]; rfl) hgone
    | false =>
      simp only [Bool.false_eq_true, if_false]
      constructor
      · intro h pre e' post heq hgone
        rw [heq, output_append] at h
        exact (append_eq_nil_iff.mp h.symm).2
      · intro h
        exact (h [] e q rfl hlisten).symm

theorem length_drain_le (cap now : Nat) (q : Queue) :
    (drain cap now q).length ≤ (output q).length := by
  induction q generalizing now with
  | nil => simp [drain]
  | cons e q ih =>
    rw [drain]
    split
    · simpa using ih _
    · simp

theorem length_pump_le (now : Nat) (q : Queue) : (pump now q).length ≤ (output q).length := by
  induction q generalizing now with
  | nil => simp [pump]
  | cons e q ih =>
    obtain ⟨t, e⟩ := e
    cases e with
    | terminal bytes => simpa [pump, Event.bytes] using ih _
    | control env =>
      cases env with
      | exit => simpa [pump, Event.bytes] using length_drain_le _ _ q
      | result ok => simpa [pump, Event.bytes] using ih _
      | other => simpa [pump, Event.bytes] using ih _

/-- What `pump` draws, but for what the last loop loses. -/
theorem pump_eq_output (now : Nat) (q : Queue) :
    pump now q = output q ↔
      ∀ exit read tail, afterExit now q = some (exit, read, tail) →
        drain (read + 1000) read tail = output tail := by
  induction q generalizing now with
  | nil => simp [pump, afterExit, output]
  | cons e q ih =>
    obtain ⟨t, e⟩ := e
    cases e with
    | terminal bytes => simp [pump, afterExit, Event.bytes, ih]
    | control env =>
      cases env with
      | exit => simp [pump, afterExit, Event.bytes]
      | result ok => simp [pump, afterExit, Event.bytes, ih]
      | other => simp [pump, afterExit, Event.bytes, ih]

theorem exit_le_read {tail : Queue} (h : afterExit now q = some (exit, read, tail)) :
    exit ≤ read := by
  induction q generalizing now with
  | nil => exact absurd h (by simp [afterExit])
  | cons e q ih =>
    obtain ⟨t, e⟩ := e
    cases e with
    | terminal bytes => exact ih h
    | control env =>
      cases env with
      | exit =>
        obtain ⟨rfl, rfl, -⟩ : t = exit ∧ max now t = read ∧ q = tail := by
          simpa [afterExit] using h
        exact le_max_right _ _
      | result ok => exact ih h
      | other => exact ih h

/-- The last loop waits for a terminal message that is spaced as it
should be. -/
theorem Spaced.waited {before : Nat} {bytes : Bytes}
    (h : Spaced exit before (pre ++ (t, .terminal bytes) :: post)) (hbefore : before ≤ now)
    (hcap : exit + 1000 ≤ cap) : listening cap (clock now pre) t = true := by
  induction pre generalizing before now with
  | nil =>
    obtain ⟨hgap, hend⟩ := h.1 bytes rfl
    have hwaited : t ≤ min (now + 150) cap := by omega
    simp [listening, clock, hwaited]
  | cons e pre ih => exact ih h.2 (le_max_right now e.1)

theorem drain_eq_output_iff_heard {tail : Queue} (h : Spaced exit exit tail)
    (hread : exit ≤ read) :
    drain (read + 1000) read tail = output tail ↔ Heard read tail := by
  rw [drain_eq_output]
  constructor
  · intro hall pre t env post heq hgone
    exact hall pre (t, .control env) post heq hgone
  intro hheard pre e post heq hgone
  obtain ⟨t, e⟩ := e
  subst heq
  cases e with
  | terminal bytes =>
    exact absurd ((h.waited hread (by omega)).symm.trans hgone) (by simp)
  | control env => exact hheard pre t env post rfl hgone

end

/-- For every queue in which the result of `open` comes in time, and the
terminal's messages after `exit` come as promised: everything the terminal's
messages hold is written, in order, exactly where none came before the
result, and none follows an envelope that came when the last loop had given
up. -/
theorem shell_complete (request start t : Nat) (before after : Queue)
    (hbefore : ∀ e ∈ before, ∀ ok, e.2 ≠ .control (.result ok))
    (horder : (before ++ (t, .control (.result true)) :: after).Pairwise fun a b => a.1 ≤ b.1)
    (htime : t < request + 10000)
    (hspaced : ∀ exit read tail, afterExit start after = some (exit, read, tail) →
      Spaced exit exit tail) :
    attach request start (before ++ (t, .control (.result true)) :: after) =
        some (output (before ++ (t, .control (.result true)) :: after)) ↔
      output before = [] ∧ ∀ exit read tail, afterExit start after = some (exit, read, tail) →
        Heard read tail := by
  have hle : ∀ e ∈ before, (∀ ok, e.2 ≠ .control (.result ok)) ∧ e.1 ≤ t := fun e he =>
    ⟨hbefore e he, (pairwise_append.mp horder).2.2 e he _ mem_cons_self⟩
  have hattach : attach request start (before ++ (t, .control (.result true)) :: after) =
      some (pump start after) := by
    rw [attach, awaitResult_append hle (by omega) htime]
  rw [hattach, Option.some.injEq, output_append, output_cons, Event.bytes, nil_append]
  constructor
  · intro h
    have hnone : output before = [] := by
      have hlen := length_pump_le start after
      rw [h, length_append] at hlen
      exact eq_nil_of_length_eq_zero (by omega)
    rw [hnone, nil_append, pump_eq_output] at h
    refine ⟨hnone, fun exit read tail hexit => ?_⟩
    exact (drain_eq_output_iff_heard (hspaced _ _ _ hexit) (exit_le_read hexit)).mp
      (h _ _ _ hexit)
  rintro ⟨hnone, hheard⟩
  rw [hnone, nil_append, pump_eq_output]
  intro exit read tail hexit
  exact (drain_eq_output_iff_heard (hspaced _ _ _ hexit) (exit_le_read hexit)).mpr
    (hheard _ _ _ hexit)

/-- The last words come after the `exit`. -/
theorem shell_complete_logout :
    let after : Queue := [(30, .terminal [36]), (900, .control .exit), (910, .terminal [98, 121])]
    attach 0 25 ((20, .control (.result true)) :: after) = some [36, 98, 121] := by
  have hexit : ∀ exit read tail,
      afterExit 25 [(30, .terminal [36]), (900, .control .exit), (910, .terminal [98, 121])] =
        some (exit, read, tail) → exit = 900 ∧ tail = [(910, .terminal [98, 121])] := by
    intro exit read tail h
    obtain ⟨rfl, -, rfl⟩ : 900 = exit ∧ 900 = read ∧ [(910, Event.terminal [98, 121])] = tail := by
      simpa [afterExit] using h
    exact ⟨rfl, rfl⟩
  refine (shell_complete 0 25 20 [] _ (by simp) (by decide) (by decide) ?_).mpr ⟨rfl, ?_⟩
  · intro exit read tail h
    obtain ⟨rfl, rfl⟩ := hexit _ _ _ h
    exact ⟨by simp, trivial⟩
  intro exit read tail h pre t env post heq
  obtain ⟨-, rfl⟩ := hexit _ _ _ h
  exact absurd heq (by cases pre <;> simp)

/-- The prompt overtakes the result, and is not drawn. -/
theorem overtaken_output_lost :
    attach 0 25 [(19, .terminal [36]), (20, .control (.result true))] = some [] ∧
      output [(19, .terminal [36]), (20, .control (.result true))] = [36] :=
  ⟨rfl, rfl⟩

end Fjarr.Connect
