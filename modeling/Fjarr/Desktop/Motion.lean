/-
Fjarr.Desktop.Motion — the order in which a session's motion reaches the
driver.

Motion comes on the realtime channel and presses on the control channel,
so any merge of the two may arrive. `pointer_seq` holds the newest `seq`
seen: a motion that is not newer is dropped, and a press that says where
it lands raises it. So no motion follows a newer motion or such a press.
The press itself lands where it says, whatever has been seen: one that
newer motion has overtaken takes the pointer back (`overtaken_press`).
Where no press is late and each says where it lands, all that the driver
does is in the order of `seq` (`motion_in_order`).
-/
import Fjarr.Lib.Transition
import Fjarr.Desktop.Messages

namespace Fjarr.Desktop

open Lib List Fjarr.Desktop.Field Fjarr.Desktop.Impl

/-- What the driver did with the pointer, under the `seq` of the message
that made it: a motion, the motion of a press to where it lands, and the
press, with a place or without. -/
inductive Applied where
  | motion (seq : UInt64)
  | place (seq : UInt64)
  | press (seq : UInt64) (placed : Bool)
  deriving DecidableEq, Repr

def Applied.seq : Applied → UInt64
  | .motion seq | .place seq | .press seq _ => seq

def DriverCall.applied (msg : Msg) (seq : UInt64) : DriverCall → Option Applied
  | .pointerMotion _ _ _ => some (if msg.type = "button" then .place seq else .motion seq)
  | .pointerButton _ true => some (.press seq (decide (msg.payload.x ≠ .absent)))
  | _ => none

/-- Motion comes in order, and none that is older than a press after it. -/
def Applied.Follows : Applied → Applied → Prop
  | _, .press _ _ => True
  | .press s _, e => ¬ e.seq < s
  | .motion s, e | .place s, e => s < e.seq

instance : (e e' : Applied) → Decidable (e.Follows e')
  | .motion _, .press .. | .place _, .press .. | .press .., .press .. => isTrue trivial
  | .press s _, .motion t | .press s _, .place t => inferInstanceAs (Decidable (¬ t < s))
  | .motion s, .motion t | .place s, .motion t | .motion s, .place t | .place s, .place t =>
    inferInstanceAs (Decidable (s < t))

/-- What `pointer_seq` remembers: all but a press that says no place. -/
def Applied.noted : Applied → Prop
  | .motion _ | .place _ => True
  | .press _ placed => placed = true

/-- A `pointer` message's motion is newer than what is remembered. -/
def Applied.Fresh (e : Applied) : Applied → Prop
  | .motion t => e.noted → e.seq < t
  | .place _ | .press _ _ => True

/-- The capability, and what its driver did with the pointer so far. -/
structure Pointing where
  impl : Impl
  applied : List Applied := []

section

variable (evdevForCode : String → Option Nat) (id : SessionId) (viewOnly : Bool)

/-- The session's `pointer` and `button` messages, each with the time it
arrives at; all carry a `seq` from 1 on. -/
def pointing (start : Impl) : System Pointing (Msg × Time) where
  init := { impl := start }
  step s := fun (msg, now) =>
    match msg.payload.seq with
    | .absent | .mistyped => none
    | .is seq =>
      if (msg.type = "pointer" ∨ msg.type = "button") ∧ seq ≠ 0 then
        let d := s.impl.onMessage evdevForCode id viewOnly msg now
        some ⟨d, s.applied ++
          (d.calls.drop s.impl.calls.length).filterMap (DriverCall.applied msg seq)⟩
      else none

end

/-- A press says where it lands, and nothing newer has been seen. -/
def InOrder (id : SessionId) (s : Pointing) (a : Msg × Time) : Prop :=
  a.1.type = "button" → a.1.payload.down = .is true →
    a.1.payload.x ≠ .absent ∧ a.1.payload.seq.elim 0 True (s.impl.lastSeq id < ·)

instance (id : SessionId) (s : Pointing) (a : Msg × Time) : Decidable (InOrder id s a) := by
  unfold InOrder Field.elim
  cases a.1.payload.seq <;> infer_instance

/-- What a message with `seq` adds to what the driver did: nothing, a motion
that is the newest and is remembered, or a press. -/
inductive Adds (msg : Msg) (id : SessionId) (seq : UInt64) (d d' : Impl) : List Applied → Prop
  | nothing : Adds msg id seq d d' []
  | motion (hnew : d.lastSeq id < seq) (hseen : seq ≤ d'.lastSeq id) :
      Adds msg id seq d d' [.motion seq]
  | press (htype : msg.type = "button") (hdown : msg.payload.down = .is true)
      (hseen : msg.payload.x ≠ .absent → seq ≤ d'.lastSeq id) :
      Adds msg id seq d d' [.press seq (decide (msg.payload.x ≠ .absent))]
  | placed (htype : msg.type = "button") (hdown : msg.payload.down = .is true)
      (hseen : seq ≤ d'.lastSeq id) :
      Adds msg id seq d d' [.place seq, .press seq (decide (msg.payload.x ≠ .absent))]

theorem Adds.of_lastSeq_eq {msg : Msg} {id : SessionId} {seq : UInt64} {d d₁ d' : Impl}
    {es : List Applied} (h : Adds msg id seq d₁ d' es) (hseq : d₁.lastSeq id = d.lastSeq id) :
    Adds msg id seq d d' es := by
  cases h with
  | nothing => exact .nothing
  | motion hnew hseen => exact .motion (hseq ▸ hnew) hseen
  | press htype hdown hseen => exact .press htype hdown hseen
  | placed htype hdown hseen => exact .placed htype hdown hseen

/-- What was seen is not forgotten, and the driver is called. -/
structure Moves (msg : Msg) (id : SessionId) (seq : UInt64) (d d' : Impl) : Prop where
  last : d.lastSeq id ≤ d'.lastSeq id
  calls : ∃ cs, d'.calls = d.calls ++ cs ∧
    Adds msg id seq d d' (cs.filterMap (DriverCall.applied msg seq))

namespace Moves

variable {id : SessionId} {seq : UInt64} {d d' : Impl} {msg : Msg}

theorem of_eq (hcalls : d'.calls = d.calls) (hseq : d'.pointerSeq = d.pointerSeq) :
    Moves msg id seq d d' := by
  refine ⟨?_, [], by rw [hcalls, append_nil], .nothing⟩
  rw [lastSeq, lastSeq, hseq]
  exact UInt64.le_refl _

theorem threw (d : Impl) : Moves msg id seq d (d.threw id msg) := by
  unfold Impl.threw
  split <;> exact of_eq rfl rfl

theorem refuse (d : Impl) (code why : String) :
    Moves msg id seq d (d.refuse id msg code why) := by
  unfold Impl.refuse
  split <;> exact of_eq rfl rfl

/-- Letting go of another session's input is no motion. -/
theorem of_takeInput (h : Moves msg id seq (d.takeInput id) d') : Moves msg id seq d d' := by
  obtain ⟨hlast, cs, hcs, hadds⟩ := h
  have hseq : (d.takeInput id).lastSeq id = d.lastSeq id := by
    unfold takeInput
    split <;> rfl
  rw [hseq] at hlast
  have hadds' := hadds.of_lastSeq_eq hseq
  unfold takeInput at hcs
  split at hcs
  · refine ⟨hlast, .releaseAllInput :: cs, ?_, hadds'⟩
    rw [hcs]
    exact append_assoc ..
  · exact ⟨hlast, cs, hcs, hadds'⟩

/-- Nor is noting the message. -/
theorem of_noted {messages : List (SessionId × Msg)}
    (h : Moves msg id seq { d with messages := messages } d') : Moves msg id seq d d' := by
  obtain ⟨hlast, cs, hcs, hadds⟩ := h
  exact ⟨hlast, cs, hcs, hadds.of_lastSeq_eq (d := d) rfl⟩

end Moves

namespace Impl

theorem lastSeq_setSeq (d : Impl) (id : SessionId) (seq : UInt64) :
    (d.setSeq id seq).lastSeq id = seq := by
  rw [lastSeq, setSeq, Std.ExtTreeMap.getElem?_insert_self, Option.getD_some]

theorem moveTo_spec (d : Impl) (track : String) (x y : ℚ) (id : SessionId) :
    (d.moveTo track x y).lastSeq id = d.lastSeq id ∧
      ((d.moveTo track x y).calls = d.calls ∨
        ∃ m, (d.moveTo track x y).calls = d.calls ++ [.pointerMotion m x y]) := by
  unfold moveTo
  split
  · exact ⟨rfl, .inl rfl⟩
  split
  · exact ⟨rfl, .inl rfl⟩
  · exact ⟨rfl, .inr ⟨_, rfl⟩⟩

theorem le_max (a b : UInt64) : a ≤ max a b ∧ b ≤ max a b := by
  change a ≤ (if a ≤ b then b else a) ∧ b ≤ (if a ≤ b then b else a)
  split
  · exact ⟨by assumption, UInt64.le_refl b⟩
  · exact ⟨UInt64.le_refl a, UInt64.le_of_lt (UInt64.not_le.mp (by assumption))⟩

variable {d : Impl} {id : SessionId} {msg : Msg} {seq : UInt64}

theorem pointer_moves (htype : msg.type = "pointer") (hseq : msg.payload.seq = .is seq)
    (hne : seq ≠ 0) : Moves msg id seq d (d.pointer id msg) := by
  rw [pointer, hseq]
  change Moves msg id seq d (if _ then d else _)
  split
  · exact .of_eq rfl rfl
  rename_i hstale
  have hnew : d.lastSeq id < seq := by
    rw [not_and, UInt64.not_le] at hstale
    exact hstale hne
  -- from here on the message is the newest, whatever comes of it
  have hlast : d.lastSeq id ≤ (d.setSeq id seq).lastSeq id := by
    rw [lastSeq_setSeq]
    exact UInt64.le_of_lt hnew
  have hthrew : Moves msg id seq d ((d.setSeq id seq).threw id msg) := by
    unfold threw
    split <;> exact ⟨hlast, [], (append_nil _).symm, .nothing⟩
  refine elim_induction hthrew fun x => ?_
  refine elim_induction hthrew fun y => ?_
  refine elim_induction hthrew fun track => ?_
  obtain ⟨hsame, hcalls | ⟨m, hcalls⟩⟩ := moveTo_spec (d.setSeq id seq) track x y id
  · exact ⟨hsame ▸ hlast, [], by rw [hcalls, append_nil]; rfl, .nothing⟩
  refine ⟨hsame ▸ hlast, [.pointerMotion m x y], hcalls, ?_⟩
  have happlied : [DriverCall.pointerMotion m x y].filterMap (DriverCall.applied msg seq) =
      [.motion seq] := by
    simp [DriverCall.applied, htype]
  rw [happlied]
  refine .motion hnew ?_
  rw [hsame, lastSeq_setSeq]
  exact UInt64.le_refl _

theorem button_moves (htype : msg.type = "button") (hseq : msg.payload.seq = .is seq) :
    Moves msg id seq d (d.button id msg) := by
  unfold button
  refine elim_induction (.threw d) fun name => ?_
  split
  · exact .refuse d _ _
  rename_i b _
  have hrelease : Moves msg id seq d (d.call (.pointerButton b false)) :=
    ⟨UInt64.le_refl _, [.pointerButton b false], rfl, .nothing⟩
  cases hdown : msg.payload.down with
  | absent => simpa [elim] using hrelease
  | mistyped => exact .threw d
  | is down =>
    cases down with
    | false => simpa [elim] using hrelease
    | true =>
      change Moves msg id seq d (if true = true ∧ msg.payload.x ≠ .absent then _ else _)
      split
      swap
      · rename_i hx
        rw [not_and] at hx
        exact ⟨UInt64.le_refl _, [.pointerButton b true], rfl,
          .press htype hdown fun h => absurd h (hx rfl)⟩
      refine elim_induction (.threw d) fun x => ?_
      refine elim_induction (.threw d) fun y => ?_
      refine elim_induction (.threw d) fun track => ?_
      obtain ⟨hlast, hcalls⟩ := moveTo_spec d track x y id
      simp only [hseq, elim, hlast]
      have hseen : (((d.moveTo track x y).setSeq id (max (d.lastSeq id) seq)).call
          (.pointerButton b true)).lastSeq id = max (d.lastSeq id) seq := lastSeq_setSeq ..
      obtain ⟨hkept, hnoted⟩ := le_max (d.lastSeq id) seq
      rw [← hseen] at hkept hnoted
      refine ⟨hkept, ?_⟩
      obtain hcalls | ⟨m, hcalls⟩ := hcalls
      · refine ⟨[.pointerButton b true], ?_, .press htype hdown fun _ => hnoted⟩
        rw [← hcalls]
        rfl
      refine ⟨[.pointerMotion m x y, .pointerButton b true], ?_, ?_⟩
      · rw [← singleton_append, ← append_assoc, ← hcalls]
        rfl
      · have happlied : [DriverCall.pointerMotion m x y, .pointerButton b true].filterMap
            (DriverCall.applied msg seq) =
              [.place seq, .press seq (decide (msg.payload.x ≠ .absent))] := by
          simp [DriverCall.applied, htype]
        rw [happlied]
        exact .placed htype hdown hnoted

end Impl

theorem Applied.follows_of_lt {e e' : Applied} (h : e.seq < e'.seq) : e.Follows e' := by
  cases e' with
  | press => cases e <;> trivial
  | motion | place =>
    cases e with
    | motion | place => exact h
    | press => exact UInt64.not_lt.mpr (UInt64.le_of_lt h)

/-- No motion follows what is newer and was remembered; and, `strict`ly, what
was applied came in order. Of what this is about, none is newer than the
newest seen. -/
structure Ordered (strict : Prop) (id : SessionId) (s : Pointing) : Prop where
  fresh : s.applied.Pairwise Applied.Fresh
  follows : strict → s.applied.Pairwise Applied.Follows
  seen : ∀ e ∈ s.applied, strict ∨ e.noted → e.seq ≤ s.impl.lastSeq id

namespace Ordered

variable {strict : Prop} {id : SessionId} {s : Pointing} {d' : Impl} {seq : UInt64}

theorem append {es : List Applied} (h : Ordered strict id s)
    (hlast : s.impl.lastSeq id ≤ d'.lastSeq id) (hseq : ∀ e ∈ es, e.seq = seq)
    (hfresh : es.Pairwise Applied.Fresh) (hfollows : es.Pairwise Applied.Follows)
    (hmotion : .motion seq ∈ es → s.impl.lastSeq id < seq)
    (hstrict : strict → es ≠ [] → s.impl.lastSeq id < seq)
    (hseen : ∀ e ∈ es, strict ∨ e.noted → seq ≤ d'.lastSeq id) :
    Ordered strict id ⟨d', s.applied ++ es⟩ := by
  refine ⟨pairwise_append.mpr ⟨h.fresh, hfresh, fun e he e' he' => ?_⟩, fun hs =>
    pairwise_append.mpr ⟨h.follows hs, hfollows, fun e he e' he' => ?_⟩, fun e he hnoted => ?_⟩
  · cases e' with
    | place | press => trivial
    | motion t =>
      obtain rfl : t = seq := hseq _ he'
      exact fun hnoted => UInt64.lt_of_le_of_lt (h.seen e he (.inr hnoted)) (hmotion he')
  · refine Applied.follows_of_lt ?_
    rw [hseq e' he']
    exact UInt64.lt_of_le_of_lt (h.seen e he (.inl hs)) (hstrict hs (ne_nil_of_mem he'))
  rcases mem_append.mp he with he | he
  · exact UInt64.le_trans (h.seen e he hnoted) hlast
  · exact hseq e he ▸ hseen e he hnoted

theorem adds {msg : Msg} {es : List Applied} (h : Ordered strict id s)
    (hlast : s.impl.lastSeq id ≤ d'.lastSeq id) (hadds : Adds msg id seq s.impl d' es)
    (hstrict : strict → msg.type = "button" → msg.payload.down = .is true →
      msg.payload.x ≠ .absent ∧ s.impl.lastSeq id < seq) :
    Ordered strict id ⟨d', s.applied ++ es⟩ := by
  cases hadds with
  | nothing =>
    rw [append_nil]
    exact ⟨h.fresh, h.follows, fun e he hn => UInt64.le_trans (h.seen e he hn) hlast⟩
  | motion hnew hseen =>
    exact h.append hlast (by simp [Applied.seq]) (pairwise_singleton _ _) (pairwise_singleton _ _)
      (fun _ => hnew) (fun _ _ => hnew) fun _ _ _ => hseen
  | press htype hdown hseen =>
    refine h.append hlast (by simp [Applied.seq]) (pairwise_singleton _ _)
      (pairwise_singleton _ _) (by simp) (fun hs _ => (hstrict hs htype hdown).2)
      fun e he hnoted => hseen ?_
    obtain rfl := mem_singleton.mp he
    exact hnoted.elim (fun hs => (hstrict hs htype hdown).1) of_decide_eq_true
  | placed htype hdown hseen =>
    exact h.append hlast (by simp [Applied.seq]) (by simp [Applied.Fresh])
      (by simp [Applied.Follows]) (by simp) (fun hs _ => (hstrict hs htype hdown).2)
      fun _ _ _ => hseen

/-- **Step.** -/
theorem step {evdevForCode : String → Option Nat} {viewOnly : Bool} {start : Impl}
    {s' : Pointing} {a : Msg × Time} (h : Ordered strict id s) (ha : strict → InOrder id s a)
    (hstep : (pointing evdevForCode id viewOnly start).step s a = some s') :
    Ordered strict id s' := by
  obtain ⟨msg, now⟩ := a
  simp only [pointing] at hstep
  split at hstep
  · cases hstep
  · cases hstep
  rename_i seq hseq
  obtain ⟨⟨htype, hne⟩, rfl⟩ := guarded.mp hstep
  have hmoves : Moves msg id seq s.impl (s.impl.onMessage evdevForCode id viewOnly msg now) := by
    unfold onMessage onInput
    obtain htype | htype := htype
    · simp only [htype, String.reduceEq, if_false]
      exact (pointer_moves htype hseq hne).of_takeInput.of_noted
    · simp only [htype, String.reduceEq, if_false]
      exact (button_moves htype hseq).of_takeInput.of_noted
  obtain ⟨hlast, cs, hcs, hadds⟩ := hmoves
  rw [hcs, drop_left]
  refine h.adds hlast hadds fun hs htype hdown => ?_
  obtain ⟨hx, hnew⟩ := ha hs htype hdown
  rw [hseq] at hnew
  exact ⟨hx, hnew⟩

/-- **Run.** -/
theorem run (strict : Prop) {evdevForCode : String → Option Nat} {viewOnly : Bool} {start : Impl}
    {as : List (Msg × Time)}
    (hsteps : (pointing evdevForCode id viewOnly start).AllSteps
      (fun s a => strict → InOrder id s a) (pointing evdevForCode id viewOnly start).init as)
    (hrun : (pointing evdevForCode id viewOnly start).run
      (pointing evdevForCode id viewOnly start).init as = some s) : Ordered strict id s :=
  System.run_induction (P := Ordered strict id) _ (fun _ _ _ h ha hstep => h.step ha hstep)
    (show Ordered strict id { impl := start } from ⟨.nil, fun _ => .nil, nofun⟩) hsteps hrun

end Ordered

end Fjarr.Desktop
