/-
Fjarr.Audio.Gate — the speaker's gate, at every place the core loop can
stand at.

The gate is a pair of fields under a mutex; what it means is read from
the log. A session talks (`Talking`) from the answer to its `talk-start`
to the section that stops it, and it has the grant (`Granted`) from an
attach with `talk` to its detach. `World.Gate` says, for each place of the
core loop, whom the pipeline plays and whom the audit trail names; every
section keeps it, and no push changes it (`step_inv`).
-/
import Fjarr.Lib.Maps
import Fjarr.Audio.Capability

namespace Fjarr.Audio

open Lib Option

/-! ## What the log says -/

def grantStep (id : SessionId) (now : Bool) : Event → Bool
  | .attached id' talk => if id' = id then talk else now
  | .detached id' => if id' = id then false else now
  | _ => now

/-- The session's last attach granted `talk`, and it is attached since. -/
def Granted (log : List Event) (id : SessionId) : Prop := log.foldl (grantStep id) false = true

def talkStep (id : SessionId) (now : Bool) : Event → Bool
  | .answered id' r => if id' = id then r = .ok else now
  | .stopped id' | .detached id' => if id' = id then false else now
  | _ => now

/-- The session's last `talk-start` was answered ok, and it neither
stopped nor detached since. -/
def Talking (log : List Event) (id : SessionId) : Prop := log.foldl (talkStep id) false = true

/-- What an event adds to the audit trail: the two session events, and
the end of a talk without one. -/
inductive Mark where
  | start (id : SessionId)
  | stop (id : SessionId)
  | unaudited (id : SessionId)
  deriving DecidableEq, Repr

def Event.mark? : Event → Option Mark
  | .audit id .talkStart => some (.start id)
  | .audit id .talkStop => some (.stop id)
  | .unaudited id _ => some (.unaudited id)
  | _ => none

/-- The audit trail. -/
def trail (log : List Event) : List Mark := log.filterMap Event.mark?

/-- Starts and ends alternate, each end naming the session of the start
before it; the second argument is whose start has no end yet. -/
inductive Alternates : List Mark → Option SessionId → Prop
  | nil : Alternates [] none
  | start {ms : List Mark} (id : SessionId) : Alternates ms none →
      Alternates (ms ++ [.start id]) (some id)
  | stop {ms : List Mark} {id : SessionId} : Alternates ms (some id) →
      Alternates (ms ++ [.stop id]) none
  | unaudited {ms : List Mark} {id : SessionId} : Alternates ms (some id) →
      Alternates (ms ++ [.unaudited id]) none

theorem granted_snoc (log : List Event) (e : Event) (id : SessionId) :
    Granted (log ++ [e]) id ↔ grantStep id (log.foldl (grantStep id) false) e = true := by
  rw [Granted, List.foldl_append]
  rfl

theorem talking_snoc (log : List Event) (e : Event) (id : SessionId) :
    Talking (log ++ [e]) id ↔ talkStep id (log.foldl (talkStep id) false) e = true := by
  rw [Talking, List.foldl_append]
  rfl

theorem trail_snoc (log : List Event) (e : Event) :
    trail (log ++ [e]) = trail log ++ e.mark?.toList := by
  rw [trail, List.filterMap_append, trail]
  cases h : e.mark? <;> simp [h]

/-- The event is neither an attach or detach, nor about talking, nor a mark. -/
def Event.Plain : Event → Prop
  | .uplink _ | .opened _ | .replied .. | .heard .. | .talkLevel .. => True
  | _ => False

variable {e : Event}

theorem Event.Plain.granted (h : e.Plain) (log : List Event) (id : SessionId) :
    Granted (log ++ [e]) id ↔ Granted log id := by
  rw [granted_snoc]
  cases e <;> first | exact h.elim | rfl

theorem Event.Plain.talking (h : e.Plain) (log : List Event) (id : SessionId) :
    Talking (log ++ [e]) id ↔ Talking log id := by
  rw [talking_snoc]
  cases e <;> first | exact h.elim | rfl

theorem Event.Plain.trail (h : e.Plain) (log : List Event) :
    trail (log ++ [e]) = trail log := by
  rw [trail_snoc]
  cases e <;> first | exact h.elim | simp [Event.mark?]

/-! ## The gate -/

namespace World

variable (w : World)

/-- The session may talk. -/
def CanTalk (id : SessionId) : Prop :=
  ∃ s : Session, w.sessions[id]? = some s ∧ s.talk = true

/-- Nobody has the floor. -/
def Quiet : Prop :=
  w.appsrc = false ∧ w.talker = none ∧ Alternates (trail w.log) none

/-- This session has it. -/
def Plays (id : SessionId) : Prop :=
  w.appsrc = true ∧ w.talker = some id ∧ Alternates (trail w.log) (some id) ∧
    Talking w.log id ∧ w.CanTalk id

/-- Whom the pipeline plays and the audit trail names, at each place the
core loop can stand at. -/
def Gate : Prop :=
  match w.loop with
  | .idle => w.Quiet ∨ ∃ id, w.Plays id
  | .closing id after =>
    (w.Quiet ∨ ∃ id, w.Plays id) ∧ (after = .shutdown → w.talker = some id)
  | .building id => w.Quiet ∧ w.CanTalk id
  | .opening id =>
    w.appsrc = true ∧ w.talker = none ∧ Alternates (trail w.log) none ∧ w.CanTalk id
  | .announcing id =>
    w.appsrc = true ∧ w.talker = some id ∧ Alternates (trail w.log) none ∧ w.CanTalk id
  | .answering id =>
    w.appsrc = true ∧ w.talker = some id ∧ Alternates (trail w.log) (some id) ∧ w.CanTalk id
  | .cleaning id _ =>
    w.appsrc = false ∧ w.talker = none ∧ Alternates (trail w.log) (some id) ∧ w.CanTalk id

/-- `shutdown` is under way. -/
def ShuttingDown : Prop :=
  ∃ id, w.loop = .closing id .shutdown ∨ w.loop = .cleaning id .shutdown

end World

structure Inv (c : Option SpeakerConfig) (w : World) : Prop where
  /-- Who may talk was granted it, is attached, and can be told. -/
  grants : ∀ (id : SessionId) (s : Session), w.sessions[id]? = some s → s.talk = true →
    Granted w.log id ∧ id ∈ w.attached ∧ (s.ctx.isSome = true ∨ w.ShuttingDown)
  /-- Who talks has the floor. -/
  floor : ∀ id, Talking w.log id → w.appsrc = true ∧ w.talker = some id
  gate : w.Gate
  speaker : (w.appsrc = true ∨ ∃ id, w.loop = .building id) → c.isSome = true

theorem Inv.init (c : Option SpeakerConfig) : Inv c {} where
  grants := by intro id s h; simp at h
  floor := by intro id h; cases h
  gate := .inl ⟨rfl, rfl, .nil⟩
  speaker := by
    rintro (h | ⟨id, h⟩)
    · cases h
    · cases h

/-! ## Every section keeps it -/

section Steps

variable {c : Option SpeakerConfig} {w w' : World} {id : SessionId}

section

variable (h : Inv c w)
include h

theorem Inv.plain {e : Event} (he : e.Plain) (hlog : w'.log = w.log ++ [e])
    (hattached : w'.attached = w.attached) (hsessions : w'.sessions = w.sessions)
    (happsrc : w'.appsrc = w.appsrc) (htalker : w'.talker = w.talker)
    (hloop : w'.loop = w.loop) : Inv c w' := by
  have htrail : trail w'.log = trail w.log := by rw [hlog, he.trail]
  have htalking : ∀ id, Talking w'.log id ↔ Talking w.log id := fun id => by rw [hlog, he.talking]
  refine ⟨?_, ?_, ?_, ?_⟩
  · intro id s hs htalk
    rw [hsessions] at hs
    rw [hlog, he.granted, hattached, World.ShuttingDown, hloop]
    exact h.grants id s hs htalk
  · intro id
    rw [htalking, happsrc, htalker]
    exact h.floor id
  · have hgate := h.gate
    unfold World.Gate World.Quiet World.Plays World.CanTalk at hgate ⊢
    simpa only [hloop, htrail, htalking, happsrc, htalker, hsessions] using hgate
  · rw [happsrc, hloop]
    exact h.speaker

theorem Inv.push (id : SessionId) (pcm : List Int16) : Inv c (w.push id pcm) := by
  unfold World.push
  split
  · exact h
  · exact h.plain (e := .heard id pcm) trivial rfl rfl rfl rfl rfl rfl

/-- The answer to a `talk-start`: ok for whoever has the floor, an error
for whoever has not. -/
theorem Inv.answered {r : Reply} (hlog : w'.log = w.log ++ [.answered id r])
    (hattached : w'.attached = w.attached) (hsessions : w'.sessions = w.sessions)
    (happsrc : w'.appsrc = w.appsrc) (htalker : w'.talker = w.talker)
    (hloop : w'.loop = .idle) (hup : ¬ w.ShuttingDown)
    (hcase : (r = .ok ∧ w.appsrc = true ∧ w.talker = some id ∧
        Alternates (trail w.log) (some id) ∧ w.CanTalk id) ∨
      (r ≠ .ok ∧ w.talker ≠ some id ∧ (w.Quiet ∨ ∃ id, w.Plays id))) : Inv c w' := by
  have htrail : trail w'.log = trail w.log := by
    rw [hlog, trail_snoc]
    exact List.append_nil _
  have hothers : ∀ id', id' ≠ id → (Talking w'.log id' ↔ Talking w.log id') := by
    intro id' hne
    rw [hlog, talking_snoc, talkStep, if_neg (Ne.symm hne)]
    rfl
  have hmine : Talking w'.log id ↔ r = .ok := by
    rw [hlog, talking_snoc, talkStep, if_pos rfl, decide_eq_true_eq]
  refine ⟨?_, ?_, ?_, ?_⟩
  · intro id' s hs htalk
    rw [hsessions] at hs
    obtain ⟨hgranted, hin, hctx⟩ := h.grants id' s hs htalk
    rw [hlog, granted_snoc, hattached]
    exact ⟨hgranted, hin, .inl (hctx.resolve_right hup)⟩
  · intro id'
    rw [happsrc, htalker]
    by_cases hsame : id' = id
    · rw [hsame, hmine]
      intro hok
      rcases hcase with ⟨-, hsrc, htalk, -⟩ | ⟨hne, -⟩
      · exact ⟨hsrc, htalk⟩
      · exact absurd hok hne
    · rw [hothers id' hsame]
      exact h.floor id'
  · unfold World.Gate
    rw [hloop]
    unfold World.Quiet World.Plays World.CanTalk at *
    rw [htrail, happsrc, htalker, hsessions]
    rcases hcase with ⟨hok, hsrc, htalk, halt, hcan⟩ | ⟨-, hne, hquiet | ⟨id', hplays⟩⟩
    · exact .inr ⟨id, hsrc, htalk, halt, hmine.mpr hok, hcan⟩
    · exact .inl hquiet
    refine .inr ⟨id', ?_⟩
    rw [hothers]
    · exact hplays
    · rintro rfl
      exact hne hplays.2.1
  rintro (hsrc | ⟨id', hbuilding⟩)
  · exact h.speaker (.inl (happsrc ▸ hsrc))
  · rw [hloop] at hbuilding
    cases hbuilding

theorem Inv.sessionAttached (hloop : w.loop = .idle) (hnew : id ∉ w.attached)
    (who : OperatorInfo) (talk : Bool) : Inv c (w.sessionAttached c id who talk) := by
  have hattach : Inv c ({ w with
      attached := w.attached.insert id
      sessions := w.sessions.insert id { ctx := some who, talk } }.emit (.attached id talk)) := by
    refine ⟨?_, ?_, ?_, ?_⟩
    · intro id' s hs htalk
      simp only [World.emit, Maps.get?_insert] at hs ⊢
      rw [granted_snoc, grantStep, Std.ExtTreeSet.mem_insert]
      split at hs
      · rename_i hsame
        cases hs
        rw [if_pos hsame.symm]
        exact ⟨htalk, .inl (by simp [hsame]), .inl rfl⟩
      rename_i hdiff
      obtain ⟨hgranted, hin, hctx⟩ := h.grants id' s hs htalk
      rw [if_neg (Ne.symm hdiff)]
      refine ⟨hgranted, .inr hin, hctx.imp_right ?_⟩
      exact fun hdown => hdown
    · intro id' htalk
      exact h.floor id' ((talking_snoc ..).mp htalk)
    · have hgate := h.gate
      simp only [World.Gate, hloop] at hgate
      simp only [World.Gate, World.emit, hloop]
      rcases hgate with ⟨hsrc, htalk, halt⟩ | ⟨id', hsrc, htalk, halt, htalking, s, hs, hmay⟩
      · refine .inl ⟨hsrc, htalk, ?_⟩
        rw [trail_snoc]
        simpa [Event.mark?] using halt
      refine .inr ⟨id', hsrc, htalk, ?_, (talking_snoc ..).mpr htalking, s, ?_, hmay⟩
      · rw [trail_snoc]
        simpa [Event.mark?] using halt
      have hdiff : id' ≠ id := by
        rintro rfl
        exact hnew (h.grants id' s hs hmay).2.1
      rw [Maps.get?_insert, if_neg hdiff]
      exact hs
    · exact h.speaker
  unfold World.sessionAttached
  dsimp only
  split
  · exact hattach.plain (e := .uplink id) trivial rfl rfl rfl rfl rfl rfl
  · exact hattach

/-- `sessions[ctx.id()]` adds an entry without the grant, at most. -/
theorem Inv.touch (id : SessionId) :
    Inv c (w.touch id) := by
  have hold : ∀ (id' : SessionId) (s : Session), s.talk = true →
      ((w.sessions.insert id ((w.sessions[id]?).getD {}))[id']? = some s ↔
        w.sessions[id']? = some s) := by
    intro id' s htalk
    rw [Maps.get?_insert]
    split
    · rename_i hsame
      rw [hsame]
      cases hs : w.sessions[id]? with
      | none =>
        refine ⟨fun heq => ?_, nofun⟩
        cases heq
        cases htalk
      | some t => rfl
    · rfl
  have hcan : ∀ id', (w.touch id).CanTalk id' ↔ w.CanTalk id' := fun id' =>
    exists_congr fun s => and_congr_left fun htalk => hold id' s htalk
  refine ⟨?_, h.floor, ?_, h.speaker⟩
  · intro id' s hs htalk
    exact h.grants id' s ((hold id' s htalk).mp hs) htalk
  have hgate := h.gate
  unfold World.Gate World.Quiet World.Plays at hgate ⊢
  simp only [hcan]
  exact hgate

/-- At rest, the pipeline plays somebody or nobody. -/
theorem Inv.rest (hloop : w.loop = .idle) : w.Quiet ∨ ∃ id, w.Plays id := by
  have hgate := h.gate
  rwa [World.Gate, hloop] at hgate

theorem Inv.mayStart {s : Session} (hloop : w.loop = .idle)
    (hget : w.sessions[id]? = some s) : Inv c (w.mayStart c id s) := by
  have hup : ¬ w.ShuttingDown := by
    rintro ⟨id', hdown | hdown⟩ <;> rw [hloop] at hdown <;> cases hdown
  have hrest := h.rest hloop
  have hrefused : ∀ code message holder, w.talker ≠ some id →
      Inv c (w.emit (.answered id (.error code message holder))) := fun code message holder hne =>
    h.answered rfl rfl rfl rfl rfl hloop hup (.inr ⟨by simp, hne, hrest⟩)
  -- whoever has the floor may talk
  have hholder : w.talker = some id → s.talk = true ∧ w.appsrc = true ∧ w.Plays id := by
    intro htalker
    rcases hrest with ⟨-, hnone, -⟩ | ⟨id', hplays⟩
    · rw [hnone] at htalker
      cases htalker
    obtain rfl : id' = id := some.inj (hplays.2.1.symm.trans htalker)
    obtain ⟨t, ht, hmay⟩ := hplays.2.2.2.2
    obtain rfl : s = t := some.inj (hget.symm.trans ht)
    exact ⟨hmay, hplays.1, hplays⟩
  unfold World.mayStart
  split
  · rename_i hdenied
    refine hrefused _ _ _ fun htalker => ?_
    rw [(hholder htalker).1] at hdenied
    cases hdenied
  rename_i hmay
  split
  · rename_i hnone
    refine hrefused _ _ _ fun htalker => ?_
    have hsome := h.speaker (.inl (hholder htalker).2.1)
    rw [isNone_iff_eq_none] at hnone
    rw [hnone] at hsome
    cases hsome
  rename_i hsome
  split
  · rename_i hmine
    rw [Bool.and_eq_true, decide_eq_true_eq] at hmine
    obtain ⟨hsrc, htalk, halt, -, hcan⟩ := (hholder hmine.2).2.2
    exact h.answered rfl rfl rfl rfl rfl hloop hup (.inl ⟨rfl, hsrc, htalk, halt, hcan⟩)
  rename_i hother
  split
  · rename_i hsrc
    refine hrefused _ _ _ fun htalker => hother ?_
    rw [hsrc, htalker]
    simp
  rename_i hfree
  have hquiet : w.Quiet := by
    rcases hrest with hquiet | ⟨id', hplays⟩
    · exact hquiet
    · exact absurd hplays.1 hfree
  have hmay : s.talk = true := by simpa using hmay
  refine ⟨?_, h.floor, ⟨hquiet, s, hget, hmay⟩, ?_⟩
  · intro id' t ht htalk
    obtain ⟨hgranted, hin, hctx⟩ := h.grants id' t ht htalk
    exact ⟨hgranted, hin, .inl (hctx.resolve_right hup)⟩
  · intro _
    simpa [isSome_iff_ne_none] using hsome

theorem Inv.talkStart (hloop : w.loop = .idle) (id : SessionId) :
    Inv c (w.talkStart c id) :=
  (h.touch id).mayStart hloop (by rw [World.touch, Maps.get?_insert, if_pos rfl])

/-- Steps that write no log: where the loop stands changes, and with it
what the gate has to be. -/
theorem Inv.advance (hlog : w'.log = w.log) (hattached : w'.attached = w.attached)
    (hsessions : w'.sessions = w.sessions)
    (hfloor : w.appsrc = true → w'.appsrc = true ∧ w'.talker = w.talker)
    (hup : ¬ w.ShuttingDown) (hgate : w'.Gate)
    (hspeaker : c.isSome = true ∨ w'.appsrc = w.appsrc ∧ ∀ id, w'.loop ≠ .building id) :
    Inv c w' := by
  refine ⟨?_, ?_, hgate, ?_⟩
  · intro id s hs htalk
    rw [hsessions] at hs
    obtain ⟨hgranted, hin, hctx⟩ := h.grants id s hs htalk
    rw [hlog, hattached]
    exact ⟨hgranted, hin, .inl (hctx.resolve_right hup)⟩
  · intro id htalk
    rw [hlog] at htalk
    obtain ⟨hsrc, htalker⟩ := h.floor id htalk
    rw [(hfloor hsrc).2]
    exact ⟨(hfloor hsrc).1, htalker⟩
  rcases hspeaker with hsome | ⟨hsrc, hnot⟩
  · exact fun _ => hsome
  rintro (hsrc' | ⟨id, hbuilding⟩)
  · exact h.speaker (.inl (hsrc ▸ hsrc'))
  · exact absurd hbuilding (hnot id)

end

theorem World.not_shuttingDown_of_loop {l : Loop} (hloop : w.loop = l)
    (hl : ∀ id, l ≠ .closing id .shutdown ∧ l ≠ .cleaning id .shutdown) : ¬ w.ShuttingDown := by
  rintro ⟨id, hdown | hdown⟩
  · exact (hl id).1 (hloop.symm.trans hdown)
  · exact (hl id).2 (hloop.symm.trans hdown)

theorem Inv.buildOutput (h : Inv c w) (hloop : w.loop = .building id) (sc : SpeakerConfig)
    (built : Option BuildFailure) : Inv c (w.buildOutput sc id built) := by
  have hup : ¬ w.ShuttingDown := World.not_shuttingDown_of_loop hloop (by simp)
  obtain ⟨hquiet, hcan⟩ : w.Quiet ∧ w.CanTalk id := by
    have hgate := h.gate
    rwa [World.Gate, hloop] at hgate
  cases built with
  | some failure =>
    refine h.answered rfl rfl rfl rfl rfl rfl hup (.inr ⟨by simp, ?_, .inl hquiet⟩)
    rw [hquiet.2.1]
    simp
  | none =>
    refine h.advance rfl rfl rfl (fun _ => ⟨rfl, rfl⟩) hup ?_
      (.inl (h.speaker (.inr ⟨id, hloop⟩)))
    exact ⟨rfl, hquiet.2.1, hquiet.2.2, hcan⟩

theorem Inv.opening (h : Inv c w) (hloop : w.loop = .opening id) :
    Inv c ({ w with talker := some id, samples := 0, played := 0, loop := .announcing id }.emit
      (.opened id)) := by
  have hup : ¬ w.ShuttingDown := World.not_shuttingDown_of_loop hloop (by simp)
  obtain ⟨hsrc, hnone, halt, hcan⟩ : w.appsrc = true ∧ w.talker = none ∧
      Alternates (trail w.log) none ∧ w.CanTalk id := by
    have hgate := h.gate
    rwa [World.Gate, hloop] at hgate
  have hplain : (Event.opened id).Plain := trivial
  refine ⟨?_, ?_, ⟨hsrc, rfl, ?_, hcan⟩, fun _ => h.speaker (.inl hsrc)⟩
  · intro id' s hs htalk
    obtain ⟨hgranted, hin, hctx⟩ := h.grants id' s hs htalk
    exact ⟨(hplain.granted ..).mpr hgranted, hin, .inl (hctx.resolve_right hup)⟩
  · -- nobody talks yet
    intro id' htalk
    have hfloor := h.floor id' ((hplain.talking ..).mp htalk)
    rw [hnone] at hfloor
    cases hfloor.2
  show Alternates (trail (w.log ++ [.opened id])) none
  rw [hplain.trail]
  exact halt

theorem Inv.announcing (h : Inv c w) (hloop : w.loop = .announcing id) :
    Inv c ({ w with levelTimer := some id, loop := .answering id }.emit (.audit id .talkStart)) := by
  have hup : ¬ w.ShuttingDown := World.not_shuttingDown_of_loop hloop (by simp)
  obtain ⟨hsrc, htalker, halt, hcan⟩ : w.appsrc = true ∧ w.talker = some id ∧
      Alternates (trail w.log) none ∧ w.CanTalk id := by
    have hgate := h.gate
    rwa [World.Gate, hloop] at hgate
  refine ⟨?_, ?_, ⟨hsrc, htalker, ?_, hcan⟩, fun _ => h.speaker (.inl hsrc)⟩
  · intro id' s hs htalk
    obtain ⟨hgranted, hin, hctx⟩ := h.grants id' s hs htalk
    exact ⟨(granted_snoc ..).mpr hgranted, hin, .inl (hctx.resolve_right hup)⟩
  · intro id' htalk
    exact h.floor id' ((talking_snoc ..).mp htalk)
  show Alternates (trail (w.log ++ [.audit id .talkStart])) (some id)
  rw [trail_snoc]
  exact halt.start id

theorem Inv.answering (h : Inv c w) (hloop : w.loop = .answering id) :
    Inv c ({ w with loop := .idle }.emit (.answered id .ok)) := by
  have hup : ¬ w.ShuttingDown := World.not_shuttingDown_of_loop hloop (by simp)
  have hgate := h.gate
  rw [World.Gate, hloop] at hgate
  exact h.answered rfl rfl rfl rfl rfl rfl hup (.inl ⟨rfl, hgate⟩)

variable {after : After}

/-- What comes after `stop_talking`: whoever has the floor now keeps it. -/
theorem Inv.finish (hgrants : ∀ (id' : SessionId) (s : Session),
      w.sessions[id']? = some s → s.talk = true →
      Granted w.log id' ∧ id' ∈ w.attached ∧ (s.ctx.isSome = true ∨ after = .shutdown))
    (hfloor : ∀ id', Talking w.log id' → w.appsrc = true ∧ w.talker = some id')
    (hrest : w.Quiet ∨ ∃ id', id' ≠ id ∧ w.Plays id') (hdown : after = .shutdown → w.Quiet)
    (hspeaker : w.appsrc = true → c.isSome = true) : Inv c (w.finish id after) := by
  have hspeaker' : (w.appsrc = true ∨ ∃ id', Loop.idle = .building id') → c.isSome = true := by
    rintro (hsrc | ⟨id', hbuilding⟩)
    · exact hspeaker hsrc
    · cases hbuilding
  cases after with
  | talkStop =>
    have hplain : (Event.replied id .ok).Plain := trivial
    refine ⟨?_, ?_, ?_, hspeaker'⟩
    · intro id' s hs htalk
      obtain ⟨hgranted, hin, hctx⟩ := hgrants id' s hs htalk
      exact ⟨(hplain.granted ..).mpr hgranted, hin, .inl (hctx.resolve_right (by simp))⟩
    · intro id' htalk
      exact hfloor id' ((hplain.talking ..).mp htalk)
    rcases hrest with ⟨hsrc, hnone, halt⟩ | ⟨id', -, hsrc, htalker, halt, htalking, hcan⟩
    · refine .inl ⟨hsrc, hnone, ?_⟩
      show Alternates (trail (w.log ++ [_])) none
      rwa [hplain.trail]
    refine .inr ⟨id', hsrc, htalker, ?_, (hplain.talking ..).mpr htalking, hcan⟩
    show Alternates (trail (w.log ++ [_])) _
    rwa [hplain.trail]
  | detach =>
    have hget : ∀ id', (w.sessions.erase id)[id']? = if id' = id then none else w.sessions[id']? :=
      Maps.get?_erase w.sessions id
    refine ⟨?_, ?_, ?_, hspeaker'⟩
    · intro id' s hs htalk
      have hs : (w.sessions.erase id)[id']? = some s := hs
      rw [hget] at hs
      split at hs
      · cases hs
      rename_i hdiff
      obtain ⟨hgranted, hin, hctx⟩ := hgrants id' s hs htalk
      refine ⟨?_, ?_, .inl (hctx.resolve_right (by simp))⟩
      · show Granted (w.log ++ [.detached id]) id'
        rw [granted_snoc, grantStep, if_neg (Ne.symm hdiff)]
        exact hgranted
      show id' ∈ w.attached.erase id
      rw [Std.ExtTreeSet.mem_erase]
      exact ⟨by simpa using Ne.symm hdiff, hin⟩
    · intro id' htalk
      have htalk : Talking (w.log ++ [.detached id]) id' := htalk
      rw [talking_snoc, talkStep] at htalk
      split at htalk
      · cases htalk
      · exact hfloor id' htalk
    have htrail : trail (w.log ++ [.detached id]) = trail w.log := by
      rw [trail_snoc]
      exact List.append_nil _
    rcases hrest with ⟨hsrc, hnone, halt⟩ | ⟨id', hne, hsrc, htalker, halt, htalking, s, hs, hmay⟩
    · refine .inl ⟨hsrc, hnone, ?_⟩
      show Alternates (trail (w.log ++ [_])) none
      rwa [htrail]
    refine .inr ⟨id', hsrc, htalker, ?_, ?_, s, ?_, hmay⟩
    · show Alternates (trail (w.log ++ [_])) _
      rwa [htrail]
    · show Talking (w.log ++ [_]) id'
      rw [talking_snoc, talkStep, if_neg (Ne.symm hne)]
      exact htalking
    show (w.sessions.erase id)[id']? = some s
    rw [hget, if_neg hne]
    exact hs
  | shutdown =>
    refine ⟨?_, hfloor, .inl (hdown rfl), hspeaker'⟩
    intro id' s hs
    have hs : (({} : Std.ExtTreeMap SessionId Session))[id']? = some s := hs
    simp at hs

theorem Inv.closeGate (h : Inv c w) (hloop : w.loop = .closing id after) :
    Inv c (w.closeGate id after) := by
  obtain ⟨hrest, hholds⟩ : (w.Quiet ∨ ∃ id, w.Plays id) ∧
      (after = .shutdown → w.talker = some id) := by
    have hgate := h.gate
    rwa [World.Gate, hloop] at hgate
  have htrail : trail (w.log ++ [.stopped id]) = trail w.log := by
    rw [trail_snoc]
    exact List.append_nil _
  have hgrants : ∀ (id' : SessionId) (s : Session), w.sessions[id']? = some s → s.talk = true →
      Granted (w.log ++ [.stopped id]) id' ∧ id' ∈ w.attached ∧
        (s.ctx.isSome = true ∨ after = .shutdown) := by
    intro id' s hs htalk
    obtain ⟨hgranted, hin, hctx⟩ := h.grants id' s hs htalk
    refine ⟨(granted_snoc ..).mpr hgranted, hin, hctx.imp_right ?_⟩
    rintro ⟨id'', hdown | hdown⟩ <;> rw [hloop] at hdown <;> cases hdown
    rfl
  have hothers : ∀ id', Talking (w.log ++ [.stopped id]) id' ↔ id' ≠ id ∧ Talking w.log id' := by
    intro id'
    rw [talking_snoc, talkStep]
    split
    · rename_i hsame
      simp [hsame]
    rename_i hdiff
    simp only [ne_eq, Ne.symm hdiff, not_false_eq_true, true_and]
    rfl
  unfold World.closeGate
  dsimp only
  split
  · -- another session has the floor, or nobody
    rename_i hnot
    have hnot : ¬ (w.talker = some id ∧ w.appsrc = true) := by
      rintro ⟨htalker, hsrc⟩
      simp [World.emit, htalker, hsrc] at hnot
    refine Inv.finish hgrants ?_ ?_ ?_ fun hsrc => h.speaker (.inl hsrc)
    · intro id' htalk
      exact h.floor id' ((hothers id').mp htalk).2
    · rcases hrest with ⟨hsrc, hnone, halt⟩ | ⟨id', hsrc, htalker, halt, htalking, hcan⟩
      · exact .inl ⟨hsrc, hnone, htrail ▸ halt⟩
      have hne : id' ≠ id := by
        rintro rfl
        exact hnot ⟨htalker, hsrc⟩
      exact .inr ⟨id', hne, hsrc, htalker, htrail ▸ halt, (hothers id').mpr ⟨hne, htalking⟩, hcan⟩
    intro hdown
    rcases hrest with ⟨-, hnone, -⟩ | ⟨id', hsrc, -⟩
    · rw [hholds hdown] at hnone
      cases hnone
    · exact absurd ⟨hholds hdown, hsrc⟩ hnot
  rename_i hmine
  obtain ⟨htalker, hsrc⟩ : w.talker = some id ∧ w.appsrc = true := by
    simpa [World.emit] using hmine
  obtain ⟨halt, hcan⟩ : Alternates (trail w.log) (some id) ∧ w.CanTalk id := by
    rcases hrest with ⟨hfalse, -⟩ | ⟨id', -, htalker', halt, -, hcan⟩
    · rw [hsrc] at hfalse
      cases hfalse
    · obtain rfl : id' = id := some.inj (htalker'.symm.trans htalker)
      exact ⟨halt, hcan⟩
  refine ⟨?_, ?_, ⟨rfl, rfl, ?_, hcan⟩, ?_⟩
  · intro id' s hs htalk
    obtain ⟨hgranted, hin, hctx⟩ := hgrants id' s hs htalk
    refine ⟨hgranted, hin, hctx.imp_right fun hdown => ⟨id, .inr ?_⟩⟩
    rw [hdown]
  · intro id' htalk
    obtain ⟨hne, htalk⟩ := (hothers id').mp htalk
    exact absurd (some.inj ((h.floor id' htalk).2.symm.trans htalker)) hne
  · show Alternates (trail (w.log ++ [_])) _
    rw [htrail]
    exact halt
  rintro (hsrc' | ⟨id', hbuilding⟩)
  · cases hsrc'
  · cases hbuilding

theorem Inv.cleanUp (h : Inv c w) (hloop : w.loop = .cleaning id after) :
    Inv c (w.cleanUp id after) := by
  obtain ⟨hsrc, hnone, halt, s, hs, hmay⟩ : w.appsrc = false ∧ w.talker = none ∧
      Alternates (trail w.log) (some id) ∧ w.CanTalk id := by
    have hgate := h.gate
    rwa [World.Gate, hloop] at hgate
  have hnobody : ∀ id', ¬ Talking w.log id' := by
    intro id' htalk
    rw [(h.floor id' htalk).1] at hsrc
    cases hsrc
  -- one mark ends the talk, whichever it is
  have hfinish : ∀ e : Event, (∀ log id', Granted (log ++ [e]) id' ↔ Granted log id') →
      (∀ log id', Talking (log ++ [e]) id' ↔ Talking log id') →
      Alternates (trail (w.log ++ [e])) none →
      Inv c (World.finish ({ w with levelTimer := none, pipeline := false }.emit e) id after) := by
    intro e hgr htk halt'
    refine Inv.finish ?_ ?_ (.inl ⟨hsrc, hnone, halt'⟩) (fun _ => ⟨hsrc, hnone, halt'⟩) ?_
    · intro id' t ht htalk
      obtain ⟨hgranted, hin, hctx⟩ := h.grants id' t ht htalk
      refine ⟨(hgr _ _).mpr hgranted, hin, hctx.imp_right ?_⟩
      rintro ⟨id'', hdown | hdown⟩ <;> rw [hloop] at hdown <;> cases hdown
      rfl
    · intro id' htalk
      exact absurd ((htk _ _).mp htalk) (hnobody id')
    intro hsrc'
    rw [show w.appsrc = true from hsrc'] at hsrc
    cases hsrc
  unfold World.cleanUp
  dsimp only
  split
  · refine hfinish _ (fun _ _ => granted_snoc ..) (fun _ _ => talking_snoc ..) ?_
    rw [trail_snoc]
    exact halt.stop
  refine hfinish _ (fun _ _ => granted_snoc ..) (fun _ _ => talking_snoc ..) ?_
  rw [trail_snoc]
  exact halt.unaudited

theorem Inv.shutdown (h : Inv c w) (hloop : w.loop = .idle) : Inv c w.shutdown := by
  have hget : ∀ id' : SessionId, (w.sessions.map fun _ (s : Session) => { s with ctx := none })[id']? =
      (w.sessions[id']?).map fun s : Session => { s with ctx := none } := by
    intro id'
    simp
  unfold World.shutdown
  dsimp only
  split
  · rename_i hnone
    refine ⟨?_, h.floor, ?_, h.speaker⟩
    · intro id' s hs
      have hs : (({} : Std.ExtTreeMap SessionId Session))[id']? = some s := hs
      simp at hs
    simp only [World.Gate, hloop]
    rcases h.rest hloop with hquiet | ⟨id, -, htalker, -⟩
    · exact .inl hquiet
    · rw [hnone] at htalker
      cases htalker
  rename_i id htalker
  obtain ⟨hsrc, halt, htalking, s, hs, hmay⟩ : w.appsrc = true ∧
      Alternates (trail w.log) (some id) ∧ Talking w.log id ∧ w.CanTalk id := by
    rcases h.rest hloop with ⟨-, hnone, -⟩ | ⟨id', hsrc, htalker', hplays⟩
    · rw [hnone] at htalker
      cases htalker
    · obtain rfl : id' = id := some.inj (htalker'.symm.trans htalker)
      exact ⟨hsrc, hplays⟩
  refine ⟨?_, h.floor, ⟨.inr ⟨id, hsrc, htalker, halt, htalking, { s with ctx := none }, ?_, hmay⟩,
    fun _ => htalker⟩, fun _ => h.speaker (.inl hsrc)⟩
  · intro id' t ht htalk
    have ht : (w.sessions.map fun _ (s : Session) => { s with ctx := none })[id']? = some t := ht
    rw [hget, map_eq_some_iff] at ht
    obtain ⟨t', ht', rfl⟩ := ht
    obtain ⟨hgranted, hin, -⟩ := h.grants id' t' ht' htalk
    exact ⟨hgranted, hin, .inr ⟨id, .inl rfl⟩⟩
  show (w.sessions.map fun _ (s : Session) => { s with ctx := none })[id]? = _
  rw [hget, hs]
  rfl

end Steps

theorem step_inv (c : Option SpeakerConfig) {w w' : World} {a : Act} (h : Inv c w)
    (hstep : step c w a = some w') : Inv c w' := by
  cases a with
  | attach id who talk =>
    obtain ⟨⟨hloop, hnew⟩, rfl⟩ := guarded.mp hstep
    exact h.sessionAttached hloop hnew who talk
  | request id r =>
    obtain ⟨⟨hloop, -⟩, rfl⟩ := guarded.mp hstep
    cases r with
    | talkStart => exact h.talkStart hloop id
    | talkStop =>
      exact h.advance rfl rfl rfl (fun hsrc => ⟨hsrc, rfl⟩)
        (World.not_shuttingDown_of_loop hloop (by simp)) ⟨h.rest hloop, nofun⟩
        (.inr ⟨rfl, by simp [World.onMessage]⟩)
    | other type => exact h.plain (e := .replied id _) trivial rfl rfl rfl rfl rfl rfl
  | detach id =>
    obtain ⟨⟨hloop, -⟩, rfl⟩ := guarded.mp hstep
    exact h.advance rfl rfl rfl (fun hsrc => ⟨hsrc, rfl⟩)
      (World.not_shuttingDown_of_loop hloop (by simp)) ⟨h.rest hloop, nofun⟩ (.inr ⟨rfl, by simp⟩)
  | shutdown =>
    obtain ⟨hloop, rfl⟩ := guarded.mp hstep
    exact h.shutdown hloop
  | level =>
    simp only [step, ite_none_right_eq_some, map_eq_some_iff] at hstep
    obtain ⟨-, id, -, rfl⟩ := hstep
    exact h.plain (e := .talkLevel id _) trivial rfl rfl rfl rfl rfl rfl
  | proceed built =>
    simp only [step, World.proceed] at hstep
    split at hstep
    · cases hstep
    · rename_i id hloop
      obtain ⟨sc, -, rfl⟩ := map_eq_some_iff.mp hstep
      exact h.buildOutput hloop sc built
    · rename_i id hloop
      cases hstep
      exact h.opening hloop
    · rename_i id hloop
      cases hstep
      exact h.announcing hloop
    · rename_i id hloop
      cases hstep
      exact h.answering hloop
    · rename_i id after hloop
      cases hstep
      exact h.closeGate hloop
    rename_i id after hloop
    cases hstep
    exact h.cleanUp hloop
  | push id pcm =>
    cases hstep
    exact h.push id pcm

theorem reachable_inv {c : Option SpeakerConfig} {w : World} (hw : (system c).Reachable w) :
    Inv c w :=
  (system c).invariant (Inv.init c) (fun _ _ _ h hstep => step_inv c h hstep) hw

end Fjarr.Audio
