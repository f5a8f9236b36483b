/-
Fjarr.Audio.Floor — only the talker is heard.

The log's record of what was heard (`Record`) follows from the gate: a
push is let through in the section it runs in, for the session that has
the floor there.

Two things are weaker than one might expect. The section that gives the
floor comes before the answer, so a buffer can enter while the answer is
on its way (`Opening`). And `shutdown` reaches for no context, so a talk
it ends has no `talk-stop` in the audit trail (`shutdown_is_not_audited`);
the agent closes every session before it shuts its capabilities down.
-/
import Fjarr.Audio.Gate

namespace Fjarr.Audio

open Lib List Option

/-! ## What was heard -/

/-- What may come between the section that gives a session the floor and
the answer to its `talk-start`. -/
def Event.Meanwhile (id : SessionId) (e : Event) : Prop :=
  e = .audit id .talkStart ∨ ∃ pcm, e = .heard id pcm

/-- The core loop has still to answer the session that it gave the floor. -/
def World.Answers (w : World) (id : SessionId) : Prop :=
  w.loop = .announcing id ∨ w.loop = .answering id

/-- Around this place in the log: the session was given the floor, and
the next answer is its ok, in the log or the one thing left to do. -/
def Opening (w : World) (id : SessionId) (before after : List Event) : Prop :=
  (∃ pre mid, before = pre ++ .opened id :: mid ∧ ∀ e ∈ mid, e.Meanwhile id) ∧
  ∃ mid rest, after = mid ++ rest ∧ (∀ e ∈ mid, e.Meanwhile id) ∧
    ((∃ rest', rest = .answered id .ok :: rest') ∨ rest = [] ∧ w.Answers id)

/-- The record of what was heard. -/
structure Record (w : World) : Prop where
  opened : ∀ id, w.Answers id → ∃ pre mid, w.log = pre ++ .opened id :: mid ∧
    ∀ e ∈ mid, e.Meanwhile id
  heard : ∀ before id pcm after, w.log = before ++ .heard id pcm :: after →
    Granted before id ∧ (Talking before id ∨ Opening w id before after)
  unaudited : ∀ id during, Event.unaudited id during ∈ w.log → during = .shutdown

/-- What a step adds to the record: nothing but the answer and what may
come before it, while an answer is due. -/
structure Adds (w w' : World) (es : List Event) : Prop where
  log : w'.log = w.log ++ es
  heard : ∀ pre id pcm post, es = pre ++ .heard id pcm :: post →
    Granted (w.log ++ pre) id ∧ (Talking (w.log ++ pre) id ∨ Opening w' id (w.log ++ pre) post)
  audited : ∀ id during, Event.unaudited id during ∈ es → during = .shutdown
  due : ∀ id, w.Answers id → (∃ es', es = .answered id .ok :: es') ∨
    (∀ e ∈ es, e.Meanwhile id) ∧ w'.Answers id
  opens : ∀ id, w'.Answers id → (w.Answers id ∧ ∀ e ∈ es, e.Meanwhile id) ∨ es = [.opened id]

variable {w : World}

theorem Record.adds {w' : World} {es : List Event} (h : Record w) (hadds : Adds w w' es) :
    Record w' := by
  refine ⟨?_, ?_, ?_⟩
  · intro id hanswers
    rcases hadds.opens id hanswers with ⟨hold, hes⟩ | rfl
    · obtain ⟨pre, mid, hlog, hmid⟩ := h.opened id hold
      refine ⟨pre, mid ++ es, by rw [hadds.log, hlog]; simp, fun e he => ?_⟩
      exact (mem_append.mp he).elim (hmid e) (hes e)
    · exact ⟨w.log, [], hadds.log, by simp⟩
  · intro before id pcm after hsplit
    rw [hadds.log, append_eq_append_iff] at hsplit
    obtain ⟨a, rfl, hes⟩ | ⟨a, hold, hafter⟩ := hsplit
    · exact hadds.heard a id pcm after hes
    cases a with
    | nil =>
      obtain rfl : before = w.log := by rw [hold, append_nil]
      rw [← append_nil w.log]
      exact hadds.heard [] id pcm after hafter.symm
    | cons x rest =>
      obtain ⟨rfl, rfl⟩ := List.cons.inj hafter
      obtain ⟨hgranted, hfloor⟩ := h.heard before id pcm rest hold
      refine ⟨hgranted, hfloor.imp_right ?_⟩
      rintro ⟨hopened, mid, rest', rfl, hmid, hanswer⟩
      refine ⟨hopened, ?_⟩
      rcases hanswer with ⟨tail, rfl⟩ | ⟨rfl, hanswers⟩
      · exact ⟨mid, .answered id .ok :: tail ++ es, by simp, hmid, .inl ⟨_, rfl⟩⟩
      rcases hadds.due id hanswers with ⟨tail, rfl⟩ | ⟨hes, hstill⟩
      · exact ⟨mid, .answered id .ok :: tail, by simp, hmid, .inl ⟨_, rfl⟩⟩
      · refine ⟨mid ++ es, [], by simp, fun e he => ?_, .inr ⟨rfl, hstill⟩⟩
        exact (mem_append.mp he).elim (hmid e) (hes e)
  intro id during hmem
  rw [hadds.log] at hmem
  exact (mem_append.mp hmem).elim (h.unaudited id during) (hadds.audited id during)

/-- The event is no buffer, and no end of a talk without an audit event. -/
def Event.Other : Event → Prop
  | .heard .. | .unaudited .. => False
  | _ => True

section Adds

variable {c : Option SpeakerConfig} {w w' : World} {id : SessionId} {es : List Event}

theorem Event.Other.not_heard (hes : ∀ e ∈ es, e.Other) {pre post : List Event} {pcm : List Int16}
    (heq : es = pre ++ .heard id pcm :: post) : False :=
  hes (.heard id pcm) (heq ▸ by simp)

theorem Adds.of_rest (hlog : w'.log = w.log ++ es) (hes : ∀ e ∈ es, e.Other)
    (hnot : ∀ id, ¬ w.Answers id) (hnot' : ∀ id, ¬ w'.Answers id) : Adds w w' es where
  log := hlog
  heard := fun _ _ _ _ heq => (Event.Other.not_heard hes heq).elim
  audited := fun id during hmem => (hes (.unaudited id during) hmem).elim
  due := fun id hanswers => absurd hanswers (hnot id)
  opens := fun id hanswers => absurd hanswers (hnot' id)

theorem World.not_answers {l : Loop} (hloop : w.loop = l)
    (hl : ∀ id, l ≠ .announcing id ∧ l ≠ .answering id) (id : SessionId) : ¬ w.Answers id := by
  rintro (hanswers | hanswers)
  · exact (hl id).1 (hloop.symm.trans hanswers)
  · exact (hl id).2 (hloop.symm.trans hanswers)

theorem World.finish_adds (w : World) (id : SessionId) (after : After) :
    (w.finish id after).loop = .idle ∧
      ∃ es, (w.finish id after).log = w.log ++ es ∧ ∀ e ∈ es, e.Other := by
  cases after with
  | talkStop => exact ⟨rfl, [_], rfl, by simp [Event.Other]⟩
  | detach => exact ⟨rfl, [_], rfl, by simp [Event.Other]⟩
  | shutdown => exact ⟨rfl, [], by simp [World.finish], by simp⟩

/-- Whoever the open gate lets through may talk, and talks or is about to
be told so. -/
theorem Inv.lets_through (h : Inv c w) (hsrc : w.appsrc = true) (htalker : w.talker = some id) :
    w.CanTalk id ∧ (Talking w.log id ∨ w.Answers id) := by
  have hrest : (w.Quiet ∨ ∃ id, w.Plays id) → w.CanTalk id ∧ Talking w.log id := by
    rintro (⟨hfalse, -⟩ | ⟨id', -, htalker', -, htalking, hcan⟩)
    · rw [hsrc] at hfalse
      cases hfalse
    · obtain rfl : id' = id := some.inj (htalker'.symm.trans htalker)
      exact ⟨hcan, htalking⟩
  have hgate := h.gate
  unfold World.Gate at hgate
  split at hgate
  · exact ⟨(hrest hgate).1, .inl (hrest hgate).2⟩
  · exact ⟨(hrest hgate.1).1, .inl (hrest hgate.1).2⟩
  · have hfalse := hgate.1.1
    rw [hsrc] at hfalse
    cases hfalse
  · rw [htalker] at hgate
    cases hgate.2.1
  · rename_i id' hloop
    obtain rfl : id' = id := some.inj (hgate.2.1.symm.trans htalker)
    exact ⟨hgate.2.2.2, .inr (.inl hloop)⟩
  · rename_i id' hloop
    obtain rfl : id' = id := some.inj (hgate.2.1.symm.trans htalker)
    exact ⟨hgate.2.2.2, .inr (.inr hloop)⟩
  · rw [hsrc] at hgate
    cases hgate.1

theorem Inv.answers_talker (h : Inv c w) (hanswers : w.Answers id) : w.talker = some id := by
  have hgate := h.gate
  rcases hanswers with hloop | hloop
  · rw [World.Gate, hloop] at hgate
    exact hgate.2.1
  · rw [World.Gate, hloop] at hgate
    exact hgate.2.1

theorem push_adds (h : Inv c w) (hrec : Record w) (id : SessionId) (pcm : List Int16) :
    ∃ es, Adds w (w.push id pcm) es := by
  unfold World.push
  split
  · exact ⟨[], by simp, by simp, by simp, fun _ hanswers => .inr ⟨by simp, hanswers⟩,
      fun _ hanswers => .inl ⟨hanswers, by simp⟩⟩
  rename_i henters
  obtain ⟨hsrc, htalker⟩ : w.appsrc = true ∧ w.talker = some id := by
    simp only [Bool.or_eq_true, Bool.not_eq_true', decide_eq_true_eq, not_or, not_not,
      Bool.not_eq_false] at henters
    exact henters.1
  obtain ⟨⟨s, hs, hmay⟩, hfloor⟩ := h.lets_through hsrc htalker
  refine ⟨[.heard id pcm], rfl, ?_, by simp, ?_, ?_⟩
  · intro pre id' pcm' post heq
    obtain ⟨rfl, rfl, rfl⟩ : pre = [] ∧ id = id' ∧ post = [] := by
      cases pre with
      | nil =>
        obtain ⟨hhead, htail⟩ := List.cons.inj heq
        exact ⟨rfl, (Event.heard.inj hhead).1, htail.symm⟩
      | cons x pre => simp at heq
    rw [append_nil]
    refine ⟨(h.grants id s hs hmay).1, hfloor.imp_right fun hanswers => ?_⟩
    exact ⟨hrec.opened id hanswers, [], [], rfl, by simp, .inr ⟨rfl, hanswers⟩⟩
  · intro id' hanswers
    obtain rfl : id' = id := some.inj ((h.answers_talker hanswers).symm.trans htalker)
    refine .inr ⟨fun e he => .inr ⟨pcm, mem_singleton.mp he⟩, hanswers⟩
  intro id' hanswers
  have hanswers : w.Answers id' := hanswers
  obtain rfl : id' = id := some.inj ((h.answers_talker hanswers).symm.trans htalker)
  exact .inl ⟨hanswers, fun e he => .inr ⟨pcm, mem_singleton.mp he⟩⟩

theorem closeGate_adds {after : After} (hloop : w.loop = .closing id after) :
    ∃ es, Adds w (w.closeGate id after) es := by
  have hnot : ∀ id, ¬ w.Answers id := World.not_answers hloop (by simp)
  unfold World.closeGate
  dsimp only
  split
  · obtain ⟨hidle, es, hlog, hes⟩ := (w.emit (.stopped id)).finish_adds id after
    refine ⟨.stopped id :: es, Adds.of_rest ?_ ?_ hnot (World.not_answers hidle (by simp))⟩
    · rw [hlog]
      exact append_assoc ..
    intro e he
    rcases mem_cons.mp he with rfl | he
    · exact trivial
    · exact hes e he
  · exact ⟨[.stopped id], Adds.of_rest rfl (by simp [Event.Other]) hnot
      (World.not_answers (l := .cleaning id after) rfl (by simp))⟩

theorem cleanUp_adds (h : Inv c w) {after : After} (hloop : w.loop = .cleaning id after) :
    ∃ es, Adds w (w.cleanUp id after) es := by
  have hnot : ∀ id, ¬ w.Answers id := World.not_answers hloop (by simp)
  unfold World.cleanUp
  dsimp only
  split
  · obtain ⟨hidle, es, hlog, hes⟩ := World.finish_adds ({ w with
      levelTimer := none, pipeline := false }.emit (.audit id .talkStop)) id after
    refine ⟨.audit id .talkStop :: es, Adds.of_rest ?_ ?_ hnot (World.not_answers hidle (by simp))⟩
    · rw [hlog]
      exact append_assoc ..
    intro e he
    rcases mem_cons.mp he with rfl | he
    · exact trivial
    · exact hes e he
  rename_i hnone
  -- without a context, this is `shutdown`
  have hdown : after = .shutdown := by
    obtain ⟨s, hs, hmay⟩ : w.CanTalk id := by
      have hgate := h.gate
      rw [World.Gate, hloop] at hgate
      exact hgate.2.2.2
    rcases (h.grants id s hs hmay).2.2 with hctx | ⟨id', hdown | hdown⟩
    · exact absurd (by simp [hs, hctx]) hnone
    · rw [hloop] at hdown
      cases hdown
    rw [hloop] at hdown
    cases hdown
    rfl
  obtain ⟨hidle, es, hlog, hes⟩ := World.finish_adds ({ w with
    levelTimer := none, pipeline := false }.emit (.unaudited id after)) id after
  refine ⟨.unaudited id after :: es, ?_, ?_, ?_, fun id hanswers => absurd hanswers (hnot id),
    fun id' hanswers => absurd hanswers (World.not_answers hidle (by simp) id')⟩
  · rw [hlog]
    exact append_assoc ..
  · intro pre id' pcm post heq
    cases pre with
    | nil => cases (List.cons.inj heq).1
    | cons x pre => exact (Event.Other.not_heard hes (List.cons.inj heq).2).elim
  intro id' during hmem
  rcases mem_cons.mp hmem with heq | hmem
  · cases heq
    exact hdown
  · exact (hes _ hmem).elim

theorem mayStart_adds {s : Session} (hloop : w.loop = .idle) :
    ∃ es, Adds w (w.mayStart c id s) es := by
  have hnot : ∀ id, ¬ w.Answers id := World.not_answers hloop (by simp)
  have hanswer : ∀ r, ∃ es, Adds w (w.emit (.answered id r)) es := fun r =>
    ⟨[.answered id r], Adds.of_rest rfl (by simp [Event.Other]) hnot hnot⟩
  unfold World.mayStart
  split
  · exact hanswer _
  split
  · exact hanswer _
  split
  · exact hanswer _
  split
  · exact hanswer _
  · exact ⟨[], Adds.of_rest (by simp) (by simp) hnot
      (World.not_answers (l := .building id) rfl (by simp))⟩

end Adds

open World

open Adds

open Event.Other

theorem step_adds (c : Option SpeakerConfig) {w' : World} {a : Act} (h : Inv c w)
    (hrec : Record w) (hstep : step c w a = some w') : ∃ es, Adds w w' es := by
  cases a with
  | attach id who talk =>
    obtain ⟨⟨hloop, -⟩, rfl⟩ := guarded.mp hstep
    have hnot : ∀ id, ¬ w.Answers id := not_answers hloop (by simp)
    unfold sessionAttached
    dsimp only
    split
    · exact ⟨[.attached id talk, .uplink id], of_rest (append_assoc ..)
        (by simp [Event.Other]) hnot hnot⟩
    · exact ⟨[.attached id talk], of_rest rfl (by simp [Event.Other]) hnot hnot⟩
  | request id r =>
    obtain ⟨⟨hloop, -⟩, rfl⟩ := guarded.mp hstep
    have hnot : ∀ id, ¬ w.Answers id := not_answers hloop (by simp)
    cases r with
    | talkStart =>
      obtain ⟨es, hadds⟩ : ∃ es, Adds (w.touch id)
          ((w.touch id).mayStart c id ((w.sessions[id]?).getD {})) es := mayStart_adds hloop
      exact ⟨es, hadds.log, hadds.heard, hadds.audited, hadds.due, hadds.opens⟩
    | talkStop =>
      exact ⟨[], of_rest (by simp [onMessage]) (by simp) hnot
        (not_answers (l := .closing id .talkStop) rfl (by simp))⟩
    | other type => exact ⟨[_], of_rest rfl (by simp [Event.Other]) hnot hnot⟩
  | detach id =>
    obtain ⟨⟨hloop, -⟩, rfl⟩ := guarded.mp hstep
    exact ⟨[], of_rest (by simp) (by simp) (not_answers hloop (by simp))
      (not_answers (l := .closing id .detach) rfl (by simp))⟩
  | shutdown =>
    obtain ⟨hloop, rfl⟩ := guarded.mp hstep
    have hnot : ∀ id, ¬ w.Answers id := not_answers hloop (by simp)
    unfold shutdown
    dsimp only
    split
    · exact ⟨[], of_rest (by simp) (by simp) hnot hnot⟩
    rename_i id htalker
    exact ⟨[], of_rest (by simp) (by simp) hnot
      (not_answers (l := .closing id .shutdown) rfl (by simp))⟩
  | level =>
    simp only [step, ite_none_right_eq_some, map_eq_some_iff] at hstep
    obtain ⟨hloop, id, -, rfl⟩ := hstep
    have hnot : ∀ id, ¬ w.Answers id := not_answers hloop (by simp)
    exact ⟨[_], of_rest rfl (by simp [Event.Other]) hnot hnot⟩
  | proceed built =>
    simp only [step, proceed] at hstep
    split at hstep
    · cases hstep
    · rename_i id hloop
      obtain ⟨sc, -, rfl⟩ := map_eq_some_iff.mp hstep
      have hnot : ∀ id, ¬ w.Answers id := not_answers hloop (by simp)
      cases built with
      | some failure =>
        exact ⟨[_], of_rest rfl (by simp [Event.Other]) hnot
          (not_answers (l := .idle) rfl (by simp))⟩
      | none =>
        exact ⟨[], of_rest (by simp [buildOutput]) (by simp) hnot
          (not_answers (l := .opening id) rfl (by simp))⟩
    · rename_i id hloop
      cases hstep
      refine ⟨[.opened id], rfl, fun pre id' pcm post heq => ?_, by simp, ?_, ?_⟩
      · exact (not_heard (by simp [Event.Other]) heq).elim
      · exact fun id' hanswers => absurd hanswers (not_answers hloop (by simp) id')
      rintro id' (hanswers | hanswers)
      · cases hanswers
        exact .inr rfl
      · cases hanswers
    · rename_i id hloop
      cases hstep
      refine ⟨[.audit id .talkStart], rfl, fun pre id' pcm post heq => ?_, by simp, ?_, ?_⟩
      · exact (not_heard (by simp [Event.Other]) heq).elim
      · rintro id' (hanswers | hanswers)
        · obtain rfl := Loop.announcing.inj (hloop.symm.trans hanswers)
          exact .inr ⟨fun e he => .inl (mem_singleton.mp he), .inr rfl⟩
        · cases hloop.symm.trans hanswers
      rintro id' (hanswers | hanswers)
      · cases hanswers
      · cases hanswers
        exact .inl ⟨.inl hloop, fun e he => .inl (mem_singleton.mp he)⟩
    · rename_i id hloop
      cases hstep
      refine ⟨[.answered id .ok], rfl, fun pre id' pcm post heq => ?_, by simp, ?_, ?_⟩
      · exact (not_heard (by simp [Event.Other]) heq).elim
      · rintro id' (hanswers | hanswers)
        · cases hloop.symm.trans hanswers
        · obtain rfl := Loop.answering.inj (hloop.symm.trans hanswers)
          exact .inl ⟨[], rfl⟩
      · rintro id' (hanswers | hanswers) <;> cases hanswers
    · rename_i id after hloop
      cases hstep
      exact closeGate_adds hloop
    rename_i id after hloop
    cases hstep
    exact cleanUp_adds h hloop
  | push id pcm =>
    cases hstep
    exact push_adds h hrec id pcm

theorem reachable_record {c : Option SpeakerConfig} (hw : (system c).Reachable w) :
    Record w := by
  refine (system c).reachable_induction ?_ (fun s a s' hs hrec hstep => ?_) hw
  · refine ⟨fun id hanswers => ?_, fun before id pcm after heq => ?_, fun id during hmem => ?_⟩
    · rcases hanswers with hanswers | hanswers <;> cases hanswers
    · simp [system] at heq
    · cases hmem
  · obtain ⟨es, hadds⟩ := step_adds c (reachable_inv hs) hrec hstep
    exact hrec.adds hadds

/-! ## The result -/

/-- The gate, as far as the audit trail goes: whose talk has no end yet is
an attached session. -/
def Audited (w : World) : Prop :=
  ∃ who, Alternates (trail w.log) who ∧ ∀ id, who = some id → id ∈ w.attached

theorem Inv.audited {c : Option SpeakerConfig} (h : Inv c w) : Audited w := by
  have hnone : Alternates (trail w.log) none → Audited w := fun halt => ⟨none, halt, nofun⟩
  have hsome : ∀ id, Alternates (trail w.log) (some id) → w.CanTalk id → Audited w := by
    rintro id halt ⟨s, hs, hmay⟩
    refine ⟨some id, halt, fun id' heq => ?_⟩
    cases heq
    exact (h.grants id s hs hmay).2.1
  have hrest : (w.Quiet ∨ ∃ id, w.Plays id) → Audited w := by
    rintro (⟨-, -, halt⟩ | ⟨id, -, -, halt, -, hcan⟩)
    · exact hnone halt
    · exact hsome id halt hcan
  have hgate := h.gate
  unfold World.Gate at hgate
  split at hgate
  · exact hrest hgate
  · exact hrest hgate.1
  · exact hnone hgate.1.2.2
  · exact hnone hgate.2.2.1
  · exact hnone hgate.2.2.1
  · exact hsome _ hgate.2.2.1 hgate.2.2.2
  · exact hsome _ hgate.2.2.1 hgate.2.2.2

/-- **Only the talker is heard.** In every reachable state: every buffer
in the log came from a session with the grant that talks, or that was
given the floor and is answered ok next; at most one session talks; the
audit trail alternates, with an end last once no session is attached; and
only `shutdown` ends a talk without an audit event. -/
theorem only_talker_heard {c : Option SpeakerConfig} {w : World} (hw : (system c).Reachable w) :
    (∀ before id pcm after, w.log = before ++ .heard id pcm :: after →
      Granted before id ∧ (Talking before id ∨ Opening w id before after)) ∧
    (∀ id id', Talking w.log id → Talking w.log id' → id = id') ∧
    (∃ who, Alternates (trail w.log) who ∧ (w.attached = {} → who = none)) ∧
    (∀ id during, Event.unaudited id during ∈ w.log → during = .shutdown) := by
  have h := reachable_inv hw
  have hrec := reachable_record hw
  refine ⟨hrec.heard, ?_, ?_, hrec.unaudited⟩
  · intro id id' htalk htalk'
    exact some.inj ((h.floor id htalk).2.symm.trans (h.floor id' htalk').2)
  obtain ⟨who, halt, hattached⟩ := h.audited
  refine ⟨who, halt, fun hempty => ?_⟩
  cases who with
  | none => rfl
  | some id =>
    have hmem := hattached id rfl
    rw [hempty] at hmem
    simp at hmem

/-- A session talks; its first buffer comes before the answer. -/
def oneTalk : List Act :=
  [.attach "a" ⟨"op", "Operator"⟩ true, .request "a" .talkStart, .proceed none, .proceed none,
    .push "a" [7], .proceed none, .proceed none, .push "b" [8], .push "a" [9]]

theorem only_talker_heard_one :
    ∃ w before, (system (some {})).run {} oneTalk = some w ∧
      w.log = before ++ [.heard "a" [9]] ∧
      (Granted before "a" ∧ (Talking before "a" ∨ Opening w "a" before [])) ∧
      (∀ id, Talking w.log id → id = "a") ∧ Event.heard "b" [8] ∉ w.log := by
  obtain ⟨w, hrun, hlog⟩ : ∃ w, (system (some {})).run {} oneTalk = some w ∧
      w.log = [.attached "a" true, .uplink "a", .opened "a", .heard "a" [7],
        .audit "a" .talkStart, .answered "a" .ok] ++ [.heard "a" [9]] := by
    rw [← map_eq_some_iff]
    decide +kernel
  have htalks : Talking w.log "a" := by
    rw [hlog, Talking]
    decide
  have hresult := only_talker_heard ⟨_, hrun⟩
  refine ⟨w, _, hrun, hlog, hresult.1 _ _ _ _ hlog,
    fun id htalk => hresult.2.1 id "a" htalk htalks, ?_⟩
  rw [hlog]
  decide

/-- **What shutdown ends is not audited**, and the first buffer of a talk
can be heard before its `talk-start` is answered: with the session
detached in the end, the last audit event is its `talk-start`. -/
theorem shutdown_is_not_audited :
    ∃ w before after, (system (some {})).run {} (oneTalk ++
        [.shutdown, .proceed none, .proceed none, .detach "a", .proceed none]) = some w ∧
      w.log = before ++ .heard "a" [7] :: after ∧ ¬ Talking before "a" ∧
      w.attached = {} ∧ Event.audit "a" .talkStart ∈ w.log ∧
      ∀ id, Event.audit id .talkStop ∉ w.log := by
  obtain ⟨w, hrun, hw⟩ : ∃ w, (system (some {})).run {} (oneTalk ++
      [.shutdown, .proceed none, .proceed none, .detach "a", .proceed none]) = some w ∧
      (w.attached.isEmpty, w.log) = (true, [.attached "a" true, .uplink "a", .opened "a",
        .heard "a" [7], .audit "a" .talkStart, .answered "a" .ok, .heard "a" [9], .stopped "a",
        .unaudited "a" .shutdown, .stopped "a", .detached "a"]) := by
    rw [← map_eq_some_iff]
    decide +kernel
  obtain ⟨hempty, hlog⟩ := Prod.mk.inj hw
  refine ⟨w, [.attached "a" true, .uplink "a", .opened "a"], _, hrun, hlog, ?_,
    Std.ExtTreeSet.isEmpty_iff.mp hempty, ?_, ?_⟩
  · rw [Talking]
    decide
  · rw [hlog]
    decide
  · rw [hlog]
    simp

end Fjarr.Audio
