/-
Fjarr.Web.Publisher — `PublisherSlot` (`web/packages/core/src/channels.ts`):
the newest-wins slot that publishers of one (cap, type, key) share.

A value goes out at once when the rate timer is not running, and else waits
in the slot for the timer, newest wins. With a deadman the last value is
sent again whenever nothing was sent for its interval, while anyone holds
the slot. `release` of the last holder stops both timers and forgets both
values; `release` of another forgets nothing.

So the slot may re-send what a holder that left had published, as long as
another one stays, and a re-send starts no rate timer, so a publish right
after it goes out at once (`sent_after_release`). Where neither happens
(`Clean`), and the deadman's interval is no shorter than the minimum
interval, letting go is final and transmissions keep their distance
(`letting_go_stops`).

Times are of any ordered group. A timer fires when it is due or later, the
one that is due first before the other; when both are due at once the rate
timer was set first. A published value carries its holder, which the code
does not record. `log` is every call of `transmit`, whether it throws,
drops or sends. An `undefined` payload, which the deadman would not re-send,
is left out.
-/
import Fjarr.Lib.Transition

namespace Fjarr.Web.Publisher

open Lib List Option

/-! ## The slot -/

structure Options (T : Type) where
  /-- `1000 / maxHz`, a whole number of milliseconds: `setTimeout` truncates. -/
  minInterval : T
  /-- `deadman.intervalMs`. -/
  deadman : Option T := none

/-- A published payload, and the handle it was published through. -/
structure Value (P : Type) where
  payload : P
  holder : Nat
  deriving DecidableEq, Repr

structure Transmission (P T : Type) where
  value : Value P
  time : T
  deriving DecidableEq, Repr

structure Slot (P T : Type) where
  pendingValue : Option (Value P) := none
  last : Option (Value P) := none
  /-- `none` for `-Infinity`. -/
  lastSentAt : Option T := none
  /-- When the timer is due. -/
  rateTimer : Option T := none
  deadmanTimer : Option T := none
  holders : Nat := 0
  /-- The handles given out so far. -/
  handles : Nat := 0
  released : List Nat := []
  now : T
  log : List (Transmission P T) := []

section Code

variable {P T : Type} [Add T]

namespace Slot

variable (o : Options T) (s : Slot P T)

/-- `armDeadman`. -/
def armDeadman : Slot P T :=
  match o.deadman with
  | none => s
  | some interval => if s.holders = 0 then s else { s with deadmanTimer := some (s.now + interval) }

theorem armDeadman_released :
    (s.armDeadman o).released = s.released := by
  unfold armDeadman
  split
  · rfl
  · split <;> rfl

theorem armDeadman_log : (s.armDeadman o).log = s.log := by
  unfold armDeadman
  split
  · rfl
  · split <;> rfl

/-- `emit`. A `transmit` that throws leaves `last` as it is. -/
def emit (v : Value P) (throws : Bool) : Slot P T :=
  armDeadman o { s with
    lastSentAt := some s.now
    log := s.log ++ [{ value := v, time := s.now }]
    last := if throws then s.last else some v }

theorem emit_eq {s : Slot P T} (v : Value P) (hheld : 0 < s.holders)
    (throws : Bool) :
    s.emit o v throws = { s with
      lastSentAt := some s.now
      log := s.log ++ [{ value := v, time := s.now }]
      last := if throws then s.last else some v
      deadmanTimer := (o.deadman.map (s.now + ·)).or s.deadmanTimer } := by
  unfold emit armDeadman
  cases o.deadman with
  | none => rfl
  | some interval => exact if_neg hheld.ne'

/-- `publish`. -/
def publish (v : Value P) (throws : Bool) : Slot P T :=
  match s.rateTimer with
  | some _ => { s with pendingValue := some v }
  | none => emit o { s with rateTimer := some (s.now + o.minInterval) } v throws

/-- `tick`, the rate timer's callback. -/
def tick (throws : Bool) : Slot P T :=
  match s.pendingValue with
  | none => { s with rateTimer := none }
  | some v =>
    emit o { s with pendingValue := none, rateTimer := some (s.now + o.minInterval) } v throws

/-- The deadman timer's callback. -/
def deadmanFires (throws : Bool) : Slot P T :=
  let s := { s with deadmanTimer := none }
  match s.last with
  | none => s
  | some v => if 0 < s.holders then emit o s v throws else s

/-- `stop`. -/
def stop : Slot P T :=
  { s with rateTimer := none, deadmanTimer := none, pendingValue := none, last := none }

/-- `acquire`. -/
def acquire : Slot P T :=
  { s with holders := s.holders + 1, handles := s.handles + 1 }

/-- A handle's `release`. -/
def release (h : Nat) : Slot P T :=
  if h ∈ s.released then s
  else
    let s := { s with released := h :: s.released, holders := s.holders - 1 }
    if s.holders = 0 then s.stop else s

end Slot

inductive Act (P : Type) where
  | acquire
  | publish (h : Nat) (payload : P) (throws : Bool)
  | release (h : Nat)
  | tick (throws : Bool)
  | deadman (throws : Bool)

/-- An action, and when it happens. -/
structure Event (P T : Type) where
  time : T
  act : Act P

variable [LE T] [DecidableLE T] [LT T] [DecidableLT T]

/-- One event. Time does not go back, a handle is one that was given out,
and a timer's callback is the next that is due. -/
def step (o : Options T) (s : Slot P T) (e : Event P T) : Option (Slot P T) :=
  if ¬ s.now ≤ e.time then none
  else
    let s := { s with now := e.time }
    match e.act with
    | .acquire => some s.acquire
    | .publish h payload throws =>
      if ¬ h < s.handles then none
      else if h ∈ s.released then some s
      else some (s.publish o { payload, holder := h } throws)
    | .release h => if ¬ h < s.handles then none else some (s.release h)
    | .tick throws =>
      match s.rateTimer with
      | none => none
      | some due =>
        if due ≤ e.time ∧ (∀ d ∈ s.deadmanTimer, due ≤ d) then some (s.tick o throws) else none
    | .deadman throws =>
      match s.deadmanTimer with
      | none => none
      | some due =>
        if due ≤ e.time ∧ (∀ r ∈ s.rateTimer, due < r) then some (s.deadmanFires o throws) else none

/-- A slot, from the time it is made. -/
def slot (o : Options T) (start : T) : System (Slot P T) (Event P T) where
  init := { now := start }
  step := step o

end Code

section Log

variable {P T : Type}

/-- What a step adds to the log was published by a holder that is still
there, and nobody comes back. -/
structure Sends (s s' : Slot P T) : Prop where
  released : ∀ h ∈ s.released, h ∈ s'.released
  log : ∃ more, s'.log = s.log ++ more ∧ ∀ a ∈ more, a.value.holder ∉ s.released

namespace Sends

variable {s s' s'' : Slot P T}

theorem of_log_eq (hreleased : ∀ h ∈ s.released, h ∈ s'.released) (hlog : s'.log = s.log) :
    Sends s s' :=
  ⟨hreleased, [], by rw [hlog, append_nil], nofun⟩

theorem trans (h : Sends s s') (h' : Sends s' s'') : Sends s s'' := by
  obtain ⟨more, hmore, hfrom⟩ := h.log
  obtain ⟨more', hmore', hfrom'⟩ := h'.log
  refine ⟨fun n hn => h'.released n (h.released n hn), more ++ more', ?_, fun a ha hout => ?_⟩
  · rw [hmore', hmore, append_assoc]
  obtain ha | ha := mem_append.mp ha
  · exact hfrom a ha hout
  · exact hfrom' a ha (h.released _ hout)

/-- A value of a holder that is there is sent, after changes that are
neither to the log nor to who is there. -/
theorem emit [Add T] {o : Options T} {v : Value P} (hreleased : s'.released = s.released)
    (hlog : s'.log = s.log) (hv : v.holder ∉ s.released) (throws : Bool) :
    Sends s (s'.emit o v throws) := by
  refine ⟨fun n hn => ?_, [{ value := v, time := s'.now }], ?_, fun a ha => ?_⟩
  · rw [Slot.emit, Slot.armDeadman_released]
    exact hreleased ▸ hn
  · rw [Slot.emit, Slot.armDeadman_log, ← hlog]
  · rw [mem_singleton.mp ha]
    exact hv

end Sends

end Log

variable {P T : Type} [AddCommGroup T] [LinearOrder T]

/-! ## What has to be avoided -/

/-- A holder that leaves others behind is not the one whose value waits, or,
with a deadman, was sent last; and a publish that finds no rate timer
running comes no sooner than the minimum interval after the last
transmission. -/
def Clean (o : Options T) (s : Slot P T) (e : Event P T) : Prop :=
  match e.act with
  | .release h => h ∈ s.released ∨ s.holders ≤ 1 ∨
      (∀ v ∈ s.pendingValue, v.holder ≠ h) ∧
        (o.deadman.isSome = true → ∀ v ∈ s.last, v.holder ≠ h)
  | .publish h _ _ => h ∈ s.released ∨ s.rateTimer.isSome = true ∨
      ∀ t ∈ s.lastSentAt, t + o.minInterval ≤ e.time
  | .acquire | .tick _ | .deadman _ => True

instance (o : Options T) (s : Slot P T) : (e : Event P T) → Decidable (Clean o s e)
  | ⟨_, .release h⟩ => inferInstanceAs (Decidable (h ∈ s.released ∨ s.holders ≤ 1 ∨
      (∀ v ∈ s.pendingValue, v.holder ≠ h) ∧
        (o.deadman.isSome = true → ∀ v ∈ s.last, v.holder ≠ h)))
  | ⟨time, .publish h _ _⟩ => inferInstanceAs (Decidable (h ∈ s.released ∨
      s.rateTimer.isSome = true ∨ ∀ t ∈ s.lastSentAt, t + o.minInterval ≤ time))
  | ⟨_, .acquire⟩ | ⟨_, .tick _⟩ | ⟨_, .deadman _⟩ => isTrue trivial

/-- Any two transmissions are the minimum interval apart. -/
def Spaced (o : Options T) (log : List (Transmission P T)) : Prop :=
  log.Pairwise fun a b => a.time + o.minInterval ≤ b.time

/-! ## The invariant -/

/-- Handles, timers and values of a slot, and what it has sent. -/
structure Kept (o : Options T) (s : Slot P T) : Prop where
  handles : s.holders + s.released.length = s.handles
  nodup : s.released.Nodup
  given : ∀ h ∈ s.released, h < s.handles
  rate : ∀ due ∈ s.rateTimer, ∃ t, s.lastSentAt = some t ∧ due = t + o.minInterval
  deadman : ∀ due ∈ s.deadmanTimer, ∃ t interval, s.lastSentAt = some t ∧
    o.deadman = some interval ∧ due = t + interval
  unheld : s.holders = 0 → s.rateTimer = none ∧ s.deadmanTimer = none ∧
    s.pendingValue = none ∧ s.last = none
  pending : ∀ v ∈ s.pendingValue, v.holder ∉ s.released
  last : o.deadman.isSome = true → ∀ v ∈ s.last, v.holder ∉ s.released
  clock : ∀ t ∈ s.lastSentAt, t ≤ s.now
  past : ∀ a ∈ s.log, ∃ t, s.lastSentAt = some t ∧ a.time ≤ t
  spaced : Spaced o s.log

namespace Kept

variable {o : Options T} {s s' : Slot P T}

theorem init (o : Options T) (start : T) : Kept o ({ now := start } : Slot P T) where
  handles := rfl
  nodup := nodup_nil
  given := nofun
  rate := nofun
  deadman := nofun
  unheld := fun _ => ⟨rfl, rfl, rfl, rfl⟩
  pending := nofun
  last := nofun
  clock := nofun
  past := nofun
  spaced := .nil

theorem held (h : Kept o s) {n : Nat} (hn : n < s.handles) (hout : n ∉ s.released) :
    0 < s.holders := by
  by_contra hzero
  have hlength : s.released.length = s.handles := by
    have := h.handles
    omega
  have hperm : s.released.Perm (range s.handles) :=
    (subperm_of_subset h.nodup fun m hm => mem_range.mpr (h.given m hm)).perm_of_length_le
      (by rw [length_range, hlength])
  exact hout (hperm.mem_iff.mpr (mem_range.mpr hn))

theorem wait (h : Kept o s) {t : T} (ht : s.now ≤ t) : Kept o { s with now := t } :=
  ⟨h.handles, h.nodup, h.given, h.rate, h.deadman, h.unheld, h.pending, h.last,
    fun t' ht' => (h.clock t' ht').trans ht, h.past, h.spaced⟩

theorem no_deadman (h : Kept o s) (hnone : o.deadman = none) : s.deadmanTimer = none := by
  cases hdeadman : s.deadmanTimer with
  | none => rfl
  | some due =>
    obtain ⟨t, interval, -, hinterval, -⟩ := h.deadman due hdeadman
    cases hnone.symm.trans hinterval

theorem acquire (h : Kept o s) : Kept o s.acquire := by
  refine ⟨?_, h.nodup, fun n hn => (h.given n hn).trans (Nat.lt_succ_self _), h.rate, h.deadman,
    nofun, h.pending, h.last, h.clock, h.past, h.spaced⟩
  have hcount := h.handles
  simp only [Slot.acquire]
  omega

/-- Who leaves others behind has no value in the slot that could be sent. -/
theorem release {n : Nat} (h : Kept o s) (hn : n < s.handles)
    (hclean : n ∈ s.released ∨ s.holders ≤ 1 ∨ (∀ v ∈ s.pendingValue, v.holder ≠ n) ∧
      (o.deadman.isSome = true → ∀ v ∈ s.last, v.holder ≠ n)) : Kept o (s.release n) := by
  unfold Slot.release
  split
  · exact h
  rename_i hout
  have hheld := h.held hn hout
  have hcount : s.holders - 1 + (n :: s.released).length = s.handles := by
    have hhandles := h.handles
    rw [length_cons]
    omega
  have hnodup : (n :: s.released).Nodup := nodup_cons.mpr ⟨hout, h.nodup⟩
  have hgiven : ∀ m ∈ n :: s.released, m < s.handles := by
    intro m hm
    obtain rfl | hm := mem_cons.mp hm
    · exact hn
    · exact h.given m hm
  dsimp only
  split
  · exact ⟨hcount, hnodup, hgiven, fun _ hd => absurd hd (by simp [Slot.stop]),
      fun _ hd => absurd hd (by simp [Slot.stop]), fun _ => ⟨rfl, rfl, rfl, rfl⟩,
      fun _ hv => absurd hv (by simp [Slot.stop]), fun _ _ hv => absurd hv (by simp [Slot.stop]),
      h.clock, h.past, h.spaced⟩
  rename_i hothers
  obtain ⟨hpending, hlast⟩ := (hclean.resolve_left hout).resolve_left (by omega)
  refine ⟨hcount, hnodup, hgiven, h.rate, h.deadman, fun hzero => absurd hzero hothers,
    fun v hv => ?_, fun hdeadman v hv => ?_, h.clock, h.past, h.spaced⟩
  · rw [mem_cons, not_or]
    exact ⟨hpending v hv, h.pending v hv⟩
  · rw [mem_cons, not_or]
    exact ⟨hlast hdeadman v hv, h.last hdeadman v hv⟩

variable [IsOrderedAddMonoid T]

variable (h : Kept o s)
include h

theorem emit {r d : Option T} {p : Option (Value P)} {v : Value P}
    (hheld : 0 < s.holders) (hv : v.holder ∉ s.released)
    (hgap : ∀ t ∈ s.lastSentAt, t + o.minInterval ≤ s.now)
    (hr : ∀ due ∈ r, due = s.now + o.minInterval) (hp : ∀ u ∈ p, u.holder ∉ s.released)
    (hd : o.deadman = none → d = none) (throws : Bool) :
    Kept o (Slot.emit o { s with rateTimer := r, pendingValue := p, deadmanTimer := d }
      v throws) := by
  rw [Slot.emit_eq (s := { s with rateTimer := r, pendingValue := p, deadmanTimer := d }) o v hheld]
  refine ⟨h.handles, h.nodup, h.given, fun due hdue => ⟨s.now, rfl, hr due hdue⟩,
    fun due hdue => ?_, fun hzero => absurd hzero hheld.ne', hp, fun hdeadman u hu => ?_,
    fun t ht => (some.inj ht).ge, fun a ha => ⟨s.now, rfl, ?_⟩, ?_⟩
  · cases hinterval : o.deadman with
    | none =>
      rw [hinterval, hd hinterval] at hdue
      exact absurd hdue (by simp)
    | some interval =>
      rw [hinterval] at hdue
      cases hdue
      exact ⟨s.now, interval, rfl, rfl, rfl⟩
  · cases throws with
    | true => exact h.last hdeadman u hu
    | false =>
      cases hu
      exact hv
  · obtain ha | rfl := mem_snoc.mp ha
    · obtain ⟨t, ht, hle⟩ := h.past a ha
      exact hle.trans (h.clock t ht)
    · rfl
  refine pairwise_append.mpr ⟨h.spaced, pairwise_singleton _ _, fun a ha b hb => ?_⟩
  obtain ⟨t, ht, hle⟩ := h.past a ha
  rw [mem_singleton.mp hb]
  exact (add_le_add_left hle _).trans (hgap t ht)

theorem publish {v : Value P} (hheld : 0 < s.holders) (hv : v.holder ∉ s.released)
    (hgap : s.rateTimer.isSome = true ∨ ∀ t ∈ s.lastSentAt, t + o.minInterval ≤ s.now)
    (throws : Bool) : Kept o (s.publish o v throws) := by
  unfold Slot.publish
  split
  · refine ⟨h.handles, h.nodup, h.given, h.rate, h.deadman, fun hzero => absurd hzero hheld.ne',
      fun u hu => ?_, h.last, h.clock, h.past, h.spaced⟩
    exact some.inj hu ▸ hv
  rename_i hrate
  have hgap' := hgap.resolve_left (by simp [hrate])
  exact h.emit hheld hv hgap' (fun due hdue => (some.inj hdue).symm) h.pending
    h.no_deadman throws

/-- While the rate timer runs nothing else is sent, so what waited comes late
enough. -/
theorem tick {due : T} (hdue : s.rateTimer = some due) (hlate : due ≤ s.now)
    (throws : Bool) : Kept o (s.tick o throws) := by
  have hheld : 0 < s.holders := by
    by_contra hzero
    have hnone := (h.unheld (by omega)).1
    cases hnone.symm.trans hdue
  unfold Slot.tick
  split
  · exact ⟨h.handles, h.nodup, h.given, fun _ hd => absurd hd (by simp), h.deadman,
      fun hzero => absurd hzero hheld.ne', h.pending, h.last, h.clock, h.past, h.spaced⟩
  rename_i v hpending
  refine h.emit hheld (h.pending v hpending) (fun t ht => ?_)
    (fun due hd => (some.inj hd).symm) (fun u hu => absurd hu (by simp)) h.no_deadman
    throws
  obtain ⟨t', ht', rfl⟩ := h.rate due hdue
  rw [some.inj (ht.symm.trans ht')]
  exact hlate

/-- The deadman comes a whole interval after the last transmission, when the
rate timer no longer runs. -/
theorem deadmanFires {due : T} (hslow : ∀ i ∈ o.deadman, o.minInterval ≤ i)
    (hdue : s.deadmanTimer = some due) (hlate : due ≤ s.now) (hfirst : ∀ r ∈ s.rateTimer, due < r)
    (throws : Bool) : Kept o (s.deadmanFires o throws) := by
  obtain ⟨t, interval, ht, hinterval, rfl⟩ := h.deadman due hdue
  have hle : t + o.minInterval ≤ t + interval := add_le_add_right (hslow interval hinterval) t
  have hrate : s.rateTimer = none := by
    cases hr : s.rateTimer with
    | none => rfl
    | some r =>
      obtain ⟨t', ht', rfl⟩ := h.rate r hr
      cases ht'.symm.trans ht
      exact absurd (hfirst _ hr) (not_lt.mpr hle)
  have hcleared : Kept o { s with deadmanTimer := none } :=
    ⟨h.handles, h.nodup, h.given, h.rate, fun _ hd => absurd hd (by simp),
      fun hzero => ⟨(h.unheld hzero).1, rfl, (h.unheld hzero).2.2⟩, h.pending, h.last, h.clock,
      h.past, h.spaced⟩
  unfold Slot.deadmanFires
  dsimp only
  split
  · exact hcleared
  rename_i v hv
  split
  · rename_i hheld
    refine h.emit hheld (h.last (by rw [hinterval]; rfl) v hv) (fun t' ht' => ?_)
      (fun due hd => absurd hd (by simp [hrate])) h.pending (fun _ => rfl) throws
    rw [some.inj (ht'.symm.trans ht)]
    exact hle.trans hlate
  · exact hcleared

theorem step {e : Event P T} (hslow : ∀ i ∈ o.deadman, o.minInterval ≤ i)
    (hclean : Clean o s e) (hstep : Publisher.step o s e = some s') : Kept o s' := by
  unfold Publisher.step at hstep
  obtain ⟨htime, hstep⟩ := ite_none_left_eq_some.mp hstep
  have hnow := h.wait (not_not.mp htime)
  obtain ⟨time, act⟩ := e
  cases act with
  | acquire =>
    cases hstep
    exact hnow.acquire
  | publish n payload throws =>
    obtain ⟨hn, hstep⟩ := ite_none_left_eq_some.mp hstep
    split at hstep
    · cases hstep
      exact hnow
    rename_i hout
    cases hstep
    exact hnow.publish (hnow.held (not_not.mp hn) hout) hout (hclean.resolve_left hout) throws
  | release n =>
    obtain ⟨hn, rfl⟩ := guarded_not.mp hstep
    exact hnow.release (not_not.mp hn) hclean
  | tick throws =>
    dsimp only at hstep
    split at hstep
    · cases hstep.symm
    rename_i due hdue
    obtain ⟨⟨hlate, -⟩, rfl⟩ := guarded.mp hstep
    exact hnow.tick hdue hlate throws
  | deadman throws =>
    dsimp only at hstep
    split at hstep
    · cases hstep.symm
    rename_i due hdue
    obtain ⟨⟨hlate, hfirst⟩, rfl⟩ := guarded.mp hstep
    exact hnow.deadmanFires hslow hdue hlate hfirst throws

end Kept

/-! ## Letting go -/

theorem Sends.step {e : Event P T} {o : Options T} {s s' : Slot P T} (h : Kept o s)
    (hstep : Publisher.step o s e = some s') : Sends s s' := by
  unfold Publisher.step at hstep
  obtain ⟨-, hstep⟩ := ite_none_left_eq_some.mp hstep
  have hnow : Sends s { s with now := e.time } := .of_log_eq (fun _ hn => hn) rfl
  refine hnow.trans ?_
  obtain ⟨time, act⟩ := e
  cases act with
  | acquire =>
    cases hstep
    exact .of_log_eq (fun _ hn => hn) rfl
  | publish n payload throws =>
    obtain ⟨-, hstep⟩ := ite_none_left_eq_some.mp hstep
    split at hstep
    · cases hstep
      exact .of_log_eq (fun _ hn => hn) rfl
    rename_i hout
    cases hstep
    unfold Slot.publish
    split
    · exact .of_log_eq (fun _ hn => hn) rfl
    refine .emit ?_ ?_ ?_ throws
    · rfl
    · rfl
    · exact hout
  | release n =>
    obtain ⟨-, rfl⟩ := guarded_not.mp hstep
    unfold Slot.release
    split
    · exact .of_log_eq (fun _ hn => hn) rfl
    · dsimp only
      split <;> exact .of_log_eq (fun _ hn => mem_cons_of_mem _ hn) rfl
  | tick throws =>
    dsimp only at hstep
    split at hstep
    · cases hstep.symm
    obtain ⟨-, rfl⟩ := guarded.mp hstep
    unfold Slot.tick
    split
    · exact .of_log_eq (fun _ hn => hn) rfl
    rename_i v hv
    refine .emit ?_ ?_ ?_ throws
    · rfl
    · rfl
    · exact h.pending v hv
  | deadman throws =>
    dsimp only at hstep
    split at hstep
    · cases hstep.symm
    rename_i due hdue
    obtain ⟨-, interval, -, hinterval, -⟩ := h.deadman due hdue
    obtain ⟨-, rfl⟩ := guarded.mp hstep
    unfold Slot.deadmanFires
    dsimp only
    split
    · exact .of_log_eq (fun _ hn => hn) rfl
    rename_i v hv
    split
    · refine .emit ?_ ?_ ?_ throws
      · rfl
      · rfl
      · exact h.last (by rw [hinterval]; rfl) v hv
    · exact .of_log_eq (fun _ hn => hn) rfl

variable [IsOrderedAddMonoid T]

/-- **Letting go stops the stream.** In a run whose events are all clean,
with a deadman no faster than the rate cap: nothing a holder published is
transmitted after it released, and any two transmissions are the minimum
interval apart. -/
theorem letting_go_stops (o : Options T) (hslow : ∀ i ∈ o.deadman, o.minInterval ≤ i) (start : T)
    (before after : List (Event P T)) (s s' : Slot P T)
    (hbefore : (slot o start).AllSteps (Clean o) (slot o start).init before)
    (hs : (slot o start).run (slot o start).init before = some s)
    (hafter : (slot o start).AllSteps (Clean o) s after)
    (hs' : (slot o start).run s after = some s') :
    (∀ h ∈ s.released, ∃ more, s'.log = s.log ++ more ∧ ∀ a ∈ more, a.value.holder ≠ h) ∧
      Spaced o s'.log := by
  have hkept : Kept o s := (slot o start).run_induction
    (fun s e s' h hclean hstep => h.step hslow hclean hstep) (.init o start) hbefore hs
  obtain ⟨hkept', hsends⟩ : Kept o s' ∧ Sends s s' := by
    refine (slot o start).run_induction (P := fun u => Kept o u ∧ Sends s u)
      (fun u e u' h hclean hstep => ⟨h.1.step hslow hclean hstep, h.2.trans (.step h.1 hstep)⟩)
      ⟨hkept, .of_log_eq (fun _ hn => hn) rfl⟩ hafter hs'
  refine ⟨fun h hh => ?_, hkept'.spaced⟩
  obtain ⟨more, hmore, hfrom⟩ := hsends.log
  exact ⟨more, hmore, fun a ha heq => hfrom a ha (heq ▸ hh)⟩

/-- A stick and a screen share a slot: 50 values a second, a deadman of
100 ms. -/
def drive : Options Int := { minInterval := 20, deadman := some 100 }

/-- The stick publishes, the screen after it, and the stick lets go. -/
def lettingGo : List (Event String Int) :=
  [⟨0, .acquire⟩, ⟨0, .acquire⟩, ⟨0, .publish 0 "forward" false⟩, ⟨5, .publish 1 "left" false⟩,
    ⟨20, .tick false⟩, ⟨30, .release 0⟩]

/-- The deadman then re-sends what the screen published. -/
theorem letting_go_stops_shared :
    ∃ s s' : Slot String Int, (slot drive 0).run (slot drive 0).init lettingGo = some s ∧
      0 ∈ s.released ∧
      (slot drive 0).run s [⟨40, .tick false⟩, ⟨120, .deadman false⟩] = some s' ∧
      s'.log = s.log ++ [⟨⟨"left", 1⟩, 120⟩] ∧
      (∃ more, s'.log = s.log ++ more ∧ ∀ a ∈ more, a.value.holder ≠ 0) ∧
      Spaced drive s'.log := by
  refine ⟨_, _, rfl, by decide, rfl, rfl, ?_⟩
  have hresult := letting_go_stops drive (by decide) 0 lettingGo
    [⟨40, .tick false⟩, ⟨120, .deadman false⟩] _ _ (by decide +kernel) rfl (by decide +kernel) rfl
  exact ⟨hresult.1 0 (by decide), hresult.2⟩

/-- The stick lets go while the screen holds the slot: "forward" is sent
100 ms later all the same, and a value the screen publishes 1 ms after that
goes out at once. -/
theorem sent_after_release :
    ∃ s s' : Slot String Int,
      (slot drive 0).run (slot drive 0).init
        [⟨0, .acquire⟩, ⟨0, .acquire⟩, ⟨0, .publish 0 "forward" false⟩, ⟨10, .release 0⟩] = some s ∧
      0 ∈ s.released ∧
      (slot drive 0).run s
        [⟨20, .tick false⟩, ⟨100, .deadman false⟩, ⟨101, .publish 1 "left" false⟩] = some s' ∧
      s'.log = s.log ++ [⟨⟨"forward", 0⟩, 100⟩, ⟨⟨"left", 1⟩, 101⟩] ∧ ¬ Spaced drive s'.log := by
  refine ⟨_, _, rfl, by decide, rfl, rfl, fun hspaced => ?_⟩
  have hgap := (pairwise_cons.mp (pairwise_cons.mp hspaced).2).1 _
    (mem_singleton_self _)
  exact absurd hgap (by decide)

end Fjarr.Web.Publisher
