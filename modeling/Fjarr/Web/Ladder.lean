/-
Fjarr.Web.Ladder — the budget of the session's reconnection ladder.

The stability clock is the time of the last connect, read when the next
round is started. A session that goes through an ICE restart is not
connected meanwhile, and the clock runs on: a round that ends the restart
may set the counter back although the session was connected for less than
the stable period. Where no loss finds the session so (`Steady`), the
counter is set back only then, and the rounds started since the session was
last stable keep to the limit.
-/
import Fjarr.Web.Session

namespace Fjarr.Web.Client

open Lib Option

/-- The fields the ladder reads, and its history. -/
structure Ladder where
  state : Phase
  connectedAt : Option Nat
  round : Nat
  freeRoundUsed : Bool
  history : History

def Session.ladder (s : Session) : Ladder where
  state := s.state
  connectedAt := s.connectedAt
  round := s.round
  freeRoundUsed := s.freeRoundUsed
  history := s.history

namespace Ladder

/-- The budget is kept. -/
structure Sound (max : Nat) (l : Ladder) : Prop where
  /-- Connected, the clock says since when. -/
  clock : l.state = .connected → l.history.connectedSince = l.connectedAt
  away : l.connectedAt ≠ none → l.state = .connected ∨ l.state = .reconnecting
  counted : l.history.counted ≤ l.round ∧ l.history.counted ≤ max
  limit : l.state.terminal = false → l.round ≤ max
  /-- The counter was set back only after a stable connection. -/
  refills : ∀ f ∈ l.history.refills, stable f.since f.time = true
  free : l.history.free ≤ 1 ∧ (l.freeRoundUsed = false → l.history.free = 0)

variable {max now : Nat} {l : Ladder}

/-- Away from a connection, with the clock cleared. -/
theorem Sound.leave (h : l.Sound max) {state : Phase} (hstate : state ≠ .connected)
    (hlimit : state.terminal = false → l.round ≤ max) :
    Sound max { l with
      state, connectedAt := none, history := { l.history with connectedSince := none } } where
  clock := fun hconn => absurd hconn hstate
  away := fun hne => absurd rfl hne
  counted := h.counted
  limit := hlimit
  refills := h.refills
  free := h.free

end Ladder

/-- What the ladder answers with a round, if with anything. -/
def Signal.loses : Signal → Bool
  | .sessionClose retry => retry
  | .error _ => true
  | _ => false

namespace Session

variable {cfg : Options} {s : Session} {now : Nat} {random : ℚ}

/-! ## What the functions do to the ladder -/

theorem ladder_setState {state : Phase} (hstate : state ≠ .connected) :
    (s.setState now state).ladder =
      { s.ladder with state, history := { s.history with connectedSince := none } } := by
  simp [setState, ladder, hstate]

theorem ladder_teardownMedia (s : Session) : s.teardownMedia.ladder = s.ladder := by
  dsimp only [ladder, teardownMedia, resetChannels, clearTimer]

theorem ladder_detachSocket (s : Session) : s.detachSocket.ladder = s.ladder := by
  dsimp only [ladder, detachSocket]

theorem ladder_teardownAll (s : Session) :
    s.teardownAll.ladder = { s.ladder with connectedAt := none } := by
  dsimp only [ladder, teardownAll, detachSocket, teardownMedia, resetChannels, clearTimer]

theorem sound_ended {state : Phase} (h : s.ladder.Sound cfg.maxRounds)
    (hstate : state.terminal = true) :
    (s.teardownAll.setState now state).ladder.Sound cfg.maxRounds := by
  have hne : state ≠ .connected := by
    rintro rfl
    exact absurd hstate (by simp [Phase.terminal])
  have hhistory : s.teardownAll.history = s.history :=
    congrArg Ladder.history (ladder_teardownAll s)
  rw [ladder_setState hne, ladder_teardownAll, hhistory]
  exact h.leave hne fun hlive => absurd (hstate.symm.trans hlive) (by simp)

theorem sound_fail (h : s.ladder.Sound cfg.maxRounds) :
    (s.fail now).ladder.Sound cfg.maxRounds :=
  sound_ended h rfl

theorem sound_close (h : s.ladder.Sound cfg.maxRounds) :
    (s.close now).ladder.Sound cfg.maxRounds := by
  unfold close
  split_ifs
  · exact h
  · exact sound_ended h rfl
  · exact sound_ended h rfl

variable {gen : Nat} {ok : Bool}

theorem sound_openSocket (h : s.ladder.Sound cfg.maxRounds) :
    (s.openSocket gen ok now).ladder.Sound cfg.maxRounds := by
  unfold openSocket
  split_ifs
  · exact h
  · exact sound_fail h

theorem sound_startRound (h : s.ladder.Sound cfg.maxRounds) :
    (startRound cfg s ok now).ladder.Sound cfg.maxRounds := by
  unfold startRound
  split_ifs
  · exact h
  dsimp only
  split_ifs
  · exact sound_openSocket h
  · exact h

theorem ladder_touchIdle : (s.touchIdle cfg now).ladder = s.ladder := by
  unfold touchIdle
  cases cfg.idle with
  | none => rfl
  | some ms =>
    dsimp only
    split_ifs <;> rfl

theorem sound_openUp (h : s.ladder.Sound cfg.maxRounds) :
    (s.openUp cfg ok now).ladder.Sound cfg.maxRounds := by
  unfold openUp
  split_ifs
  · exact h
  rw [ladder_touchIdle]
  refine sound_startRound ?_
  rw [ladder_setState (by simp)]
  refine Ladder.Sound.leave (l := { s.ladder with
    round := 0, history := { s.history with counted := 0 } }) ?_ (by simp) fun _ => Nat.zero_le _
  exact ⟨h.clock, h.away, ⟨le_refl 0, Nat.zero_le _⟩, fun _ => Nat.zero_le _, h.refills, h.free⟩

theorem sound_retry (h : s.ladder.Sound cfg.maxRounds) :
    (s.retry cfg ok now).ladder.Sound cfg.maxRounds := by
  unfold retry
  split_ifs
  · exact sound_openUp h
  · exact sound_startRound h
  · exact h

theorem sound_maybeConnected (h : s.ladder.Sound cfg.maxRounds) :
    (s.maybeConnected now).ladder.Sound cfg.maxRounds := by
  unfold maybeConnected
  split_ifs with hstate hready
  · exact h
  · exact h
  have hlive : s.state.terminal = false ∧ s.state ≠ .connected := by
    cases hs : s.state <;> simp_all [Phase.terminal]
  refine ⟨fun _ => ?_, fun _ => .inl rfl, h.counted, fun _ => h.limit hlive.1, h.refills, h.free⟩
  simp [ladder, setState, clearTimer, hlive.2]

theorem ladder_endRound : (s.endRound now).ladder =
    { (s.refill now).ladder with connectedAt := none } := by
  rw [endRound, ladder_detachSocket, ladder_teardownMedia]
  dsimp only [ladder]

/-- Where the clock says stable, it is right and the count was set back. -/
def Clocked (s : Session) (now : Nat) : Prop :=
  stable s.connectedAt now = true →
    s.history.connectedSince = s.connectedAt ∧ s.history.counted = 0

/-- The counter set back, or not: the clock is read and cleared. -/
theorem sound_endRound (h : s.ladder.Sound cfg.maxRounds) (hlimit : s.round ≤ cfg.maxRounds)
    (hstable : s.Clocked now) :
    Ladder.Sound cfg.maxRounds { (s.endRound now).ladder with
        state := .reconnecting,
        history := { (s.endRound now).ladder.history with connectedSince := none } } ∧
      (s.endRound now).ladder.history.free = s.history.free ∧
      (s.endRound now).ladder.freeRoundUsed = s.freeRoundUsed := by
  rw [ladder_endRound]
  unfold refill
  split_ifs with hs
  · obtain ⟨hsince, hcounted⟩ := hstable hs
    refine ⟨⟨nofun, nofun,
      ⟨by simp [ladder, hcounted], h.counted.2⟩, fun _ => Nat.zero_le _, fun f hf => ?_, h.free⟩,
      rfl, rfl⟩
    obtain hf | rfl := mem_snoc.mp hf
    · exact h.refills f hf
    rw [hsince]
    exact hs
  · exact ⟨h.leave (by simp) fun _ => hlimit, rfl, rfl⟩

theorem ladder_armReconnect (s : Session) (opts : RoundOptions) (now : Nat) (random : ℚ) :
    (s.armReconnect opts now random).ladder = s.ladder := by
  dsimp only [armReconnect, arm, ladder]
  split_ifs <;> rfl

variable (h : s.ladder.Sound cfg.maxRounds)
include h

/-- A new round, from a connection or after the clock was cleared. -/
theorem sound_newRound {opts : RoundOptions} (hstable : s.Clocked now)
    (hfree : opts = .free → s.history.free = 0 ∧ s.freeRoundUsed = true) :
    (newRound cfg s opts now random).ladder.Sound cfg.maxRounds := by
  unfold newRound
  by_cases hterm : s.state.terminal = true
  · rw [if_pos hterm]
    exact h
  rw [if_neg hterm]
  have hlimit : s.round ≤ cfg.maxRounds := h.limit (by simpa [ladder] using hterm)
  obtain ⟨hsound, hfreeSame, husedSame⟩ := sound_endRound h hlimit hstable
  generalize s.endRound now = s₁ at hsound hfreeSame husedSame ⊢
  by_cases hout : cfg.maxRounds < if opts = .free then s₁.round else s₁.round + 1
  · -- the budget is used up
    have hladder : ({ s₁.fail now with
        round := if opts = .free then s₁.round else s₁.round + 1 } : Session).ladder =
        { state := .failed, connectedAt := none, freeRoundUsed := s₁.freeRoundUsed
          round := if opts = .free then s₁.round else s₁.round + 1
          history := { s₁.history with connectedSince := none } } := by
      have hfail : (s₁.fail now).ladder = { s₁.ladder with
          state := .failed, connectedAt := none
          history := { s₁.history with connectedSince := none } } := by
        rw [fail, ladder_setState (by simp), ladder_teardownAll]
        rfl
      exact congrArg (fun l : Ladder => { l with
        round := if opts = RoundOptions.free then s₁.round else s₁.round + 1 }) hfail
    rw [if_pos hout, hladder]
    refine ⟨nofun, nofun,
      ⟨hsound.counted.1.trans ?_, hsound.counted.2⟩,
      nofun, hsound.refills, hsound.free⟩
    dsimp only [ladder]
    split_ifs <;> omega
  have hhistory : ((s₁.countRound opts).armReconnect opts now random).history =
      (s₁.countRound opts).history :=
    congrArg Ladder.history (ladder_armReconnect _ opts now random)
  rw [if_neg hout, ladder_setState (by simp), ladder_armReconnect, hhistory]
  unfold countRound
  by_cases hopts : opts = .free
  · rw [if_pos hopts] at hout ⊢
    obtain ⟨hzero, hused⟩ := hfree hopts
    refine ⟨hsound.clock, hsound.away, hsound.counted, fun _ => not_lt.mp hout, hsound.refills,
      ⟨?_, fun hunused => ?_⟩⟩
    · have hfree₁ : s₁.history.free = 0 := hfreeSame.trans hzero
      simp [hfree₁]
    · exact absurd (husedSame.trans hused) (by simpa [ladder] using hunused)
  rw [if_neg hopts] at hout ⊢
  have hcounted : s₁.history.counted ≤ s₁.round := hsound.counted.1
  exact ⟨hsound.clock, hsound.away,
    ⟨Nat.succ_le_succ hcounted, (Nat.succ_le_succ hcounted).trans (not_lt.mp hout)⟩,
    fun _ => not_lt.mp hout, hsound.refills, hsound.free⟩

theorem sound_requestIceRestart (hstable : s.Clocked now) :
    (s.requestIceRestart cfg now random).ladder.Sound cfg.maxRounds := by
  unfold requestIceRestart
  split_ifs with hstate hbusy
  · exact h
  · exact h
  dsimp only
  split_ifs
  · have hlive : s.state.terminal = false := by
      cases hs : s.state <;> simp_all [Phase.terminal]
    refine ⟨fun hconn => absurd hconn ?_, fun _ => .inr rfl, h.counted, fun _ => h.limit hlive,
      h.refills, h.free⟩
    simp [ladder, setState, send, arm]
  · exact sound_newRound (s := { s with heartbeat := false }) h hstable (by simp)

theorem sound_onServerError {code : ErrorCode} (hstable : s.Clocked now) :
    (s.onServerError cfg code now random).ladder.Sound cfg.maxRounds := by
  unfold onServerError
  cases code with
  | grantExpired =>
    have hused : Ladder.Sound cfg.maxRounds { s.ladder with freeRoundUsed := true } :=
      ⟨h.clock, h.away, h.counted, h.limit, h.refills, h.free.1, nofun⟩
    refine sound_newRound (s := { s with grantToken := false, freeRoundUsed := true }) hused hstable
      fun hopts => ⟨?_, rfl⟩
    cases hf : s.freeRoundUsed with
    | true => simp [hf] at hopts
    | false => exact h.free.2 hf
  | rateLimited => exact sound_newRound h hstable (by simp)
  | sessionUnknown => exact sound_ended h rfl
  | robotOffline =>
    dsimp only
    split_ifs
    · exact sound_newRound h hstable (by simp)
    · exact sound_fail h
  | fatal => exact sound_fail h
  | other => exact h

theorem sound_onSignal {msg : Signal} (hstable : msg.loses = true → s.Clocked now) :
    (s.onSignal cfg gen msg now random).ladder.Sound cfg.maxRounds := by
  unfold onSignal
  cases msg with
  | helloAck sessionId =>
    exact ⟨h.clock, h.away, h.counted, h.limit, h.refills, Nat.zero_le _, fun _ => rfl⟩
  | sessionAccept => exact h
  | sessionReject => exact sound_fail h
  | offer offer => exact h
  | ice =>
    dsimp only
    split_ifs <;> exact h
  | sessionClose retry =>
    cases retry with
    | true => exact sound_newRound h (hstable rfl) (by simp)
    | false => exact sound_ended h rfl
  | peerGone => exact sound_ended h rfl
  | error code => exact sound_onServerError h (hstable rfl)
  | other => exact h

theorem sound_ensurePeer :
    s.ensurePeer.ladder.Sound cfg.maxRounds := by
  unfold ensurePeer
  split_ifs <;> exact h

theorem sound_beginOffer {t : OfferTask} {closes : Bool} :
    (s.beginOffer t closes now).1.ladder.Sound cfg.maxRounds := by
  have hseen : Ladder.Sound cfg.maxRounds { s.ladder with
      history := { s.history with offers := s.history.offers ++ [(t.gen, t.offer.id)] } } :=
    ⟨h.clock, h.away, h.counted, h.limit, h.refills, h.free⟩
  unfold beginOffer
  split_ifs
  · exact h
  · exact h
  · exact sound_ensurePeer (sound_close hseen)
  · exact sound_ensurePeer hseen

theorem sound_stepOffer {i : Nat} {closes : Bool} {s' : Session}
    (hstep : s.stepOffer i ok closes now = some s') :
    s'.ladder.Sound cfg.maxRounds := by
  unfold stepOffer at hstep
  split at hstep
  · exact absurd hstep (by simp)
  rename_i t ht
  obtain ⟨-, hstep⟩ := guarded_not.mp hstep
  rw [← hstep]
  suffices hr : (s.advanceOffer t ok closes now).1.ladder.Sound cfg.maxRounds from hr
  unfold advanceOffer
  split
  · exact sound_beginOffer h
  · split_ifs <;> exact h
  · split_ifs <;> exact h
  split_ifs with hstop hsocket
  · exact h
  · exact sound_maybeConnected (s := s.send _) h
  · exact sound_maybeConnected h

theorem sound_attachControl {channel : Nat} {isOpen : Bool} :
    (s.attachControl channel isOpen now).ladder.Sound cfg.maxRounds := by
  unfold attachControl
  dsimp only
  split_ifs
  · exact sound_maybeConnected h
  · exact h

theorem sound_controlClosed {channel : Nat} (hstable : s.Clocked now) :
    (s.controlClosed cfg channel now random).ladder.Sound cfg.maxRounds := by
  unfold controlClosed
  dsimp only
  split_ifs
  · exact sound_newRound (s := { s with control := none, controlOpen := false }) h hstable (by simp)
  · exact h
  · exact sound_newRound h hstable (by simp)
  · exact h

theorem sound_connectionStateChanged {peerState : PeerState}
    (hstable : peerState = .disconnected ∨ peerState = .failed → s.Clocked now) :
    (s.connectionStateChanged cfg peerState now random).ladder.Sound cfg.maxRounds := by
  unfold connectionStateChanged
  cases peerState with
  | other => exact h
  | connected => exact sound_maybeConnected h
  | disconnected =>
    dsimp only
    split_ifs
    · exact sound_newRound (s := { s with peerState := .disconnected }) h (hstable (.inl rfl))
        (by simp)
    · exact h
    · exact h
  | failed =>
    dsimp only
    split_ifs
    · exact sound_newRound (s := { s with peerState := .failed }) h (hstable (.inr rfl)) (by simp)
    · exact h
    · exact sound_newRound (s := { s with peerState := .failed }) h (hstable (.inr rfl)) (by simp)
    · exact sound_requestIceRestart (s := { s with peerState := .failed }) h (hstable (.inr rfl))

theorem sound_fired {kind : TimerKind} (hstable : s.Clocked now) :
    (s.fired cfg kind ok now random).ladder.Sound cfg.maxRounds := by
  unfold fired
  cases kind with
  | grace => exact sound_requestIceRestart (s := { s with graceTimer := none }) h hstable
  | restart => exact sound_newRound (s := { s with restartTimer := none }) h hstable (by simp)
  | reconnect => exact sound_startRound (s := { s with reconnectTimer := none }) h
  | connect gen =>
    dsimp only
    split_ifs
    · exact sound_newRound (s := { s with connectTimer := none }) h hstable (by simp)
    · exact h
  | idle =>
    dsimp only
    split_ifs
    · exact sound_close (s := { s with idleTimer := none }) h
    · exact h

theorem sound_grantArrived {socketOk : Bool} :
    (s.grantArrived gen ok socketOk now).ladder.Sound cfg.maxRounds := by
  unfold grantArrived
  dsimp only
  split_ifs
  · exact h
  · exact sound_openSocket h
  · exact sound_fail h

end Session

/-- An event that the ladder may answer with a round. -/
def Act.loses : Act → Bool
  | .restartIce => true
  | .socketMessage _ msg => msg.loses
  | .socketClose _ => true
  | .connectionState _ .disconnected => true
  | .connectionState _ .failed => true
  | .channelClose _ => true
  | .timer .. => true
  | .heartbeatDead => true
  | _ => false

/-- No loss finds the session reconnecting later than the stable period
after its last connect. -/
def Steady (r : Run) (ev : Event) : Prop :=
  ev.act.loses = true → r.session.state = .reconnecting →
    stable r.session.connectedAt ev.now = false

namespace Session

variable {cfg : Options} {s s' : Session} {now : Nat} {random : ℚ}

theorem sound_handle (h : s.ladder.Sound cfg.maxRounds) {act : Act}
    (hstable : act.loses = true → s.Clocked now)
    (hstep : s.handle cfg now random act = some s') : s'.ladder.Sound cfg.maxRounds := by
  cases act with
  | openUp ok => exact some.inj hstep ▸ sound_openUp h
  | close => exact some.inj hstep ▸ sound_close h
  | retry ok => exact some.inj hstep ▸ sound_retry h
  | restartIce =>
    rw [← some.inj hstep]
    split_ifs
    · exact sound_requestIceRestart h (hstable rfl)
    · exact h
  | retain =>
    rw [← some.inj hstep, ladder_touchIdle]
    exact h
  | release =>
    rw [← some.inj hstep, ladder_touchIdle]
    exact h
  | request =>
    rw [← some.inj hstep]
    split_ifs <;> exact h
  | reply =>
    rw [← some.inj hstep]
    exact h
  | grant gen ok socketOk =>
    obtain ⟨-, rfl⟩ := guarded.mp hstep
    exact sound_grantArrived h
  | socketOpen gen =>
    obtain ⟨-, rfl⟩ := guarded.mp hstep
    split_ifs <;> exact h
  | socketMessage gen msg =>
    obtain ⟨-, rfl⟩ := guarded.mp hstep
    split_ifs
    · exact sound_onSignal h hstable
    · exact h
  | socketClose gen =>
    obtain ⟨-, rfl⟩ := guarded.mp hstep
    dsimp only
    split_ifs
    · exact h
    · exact sound_newRound (s := { s with sockets := _, socket := none }) h (hstable rfl) (by simp)
    · exact h
  | offer i ok closes => exact sound_stepOffer h hstep
  | iceCandidate pc =>
    rw [← some.inj hstep]
    split_ifs <;> exact h
  | connectionState pc peerState =>
    rw [← some.inj hstep]
    split_ifs
    · refine sound_connectionStateChanged h fun hlose => hstable ?_
      obtain rfl | rfl := hlose <;> rfl
    · exact h
  | dataChannel pc channel isOpen =>
    rw [← some.inj hstep]
    split_ifs
    · exact sound_attachControl h
    · exact h
  | channelOpen channel =>
    obtain ⟨-, rfl⟩ := guarded.mp hstep
    split_ifs
    · exact sound_maybeConnected (s := { s with controlOpen := true }) h
    · exact sound_maybeConnected h
  | channelClose channel =>
    obtain ⟨-, rfl⟩ := guarded.mp hstep
    refine sound_controlClosed ?_ (hstable rfl)
    exact h
  | timer id socketOk =>
    simp only [handle] at hstep
    split at hstep
    · exact absurd hstep (by simp)
    obtain ⟨-, rfl⟩ := guarded.mp hstep
    refine sound_fired ?_ (hstable rfl)
    exact h
  | heartbeatDead =>
    obtain ⟨-, rfl⟩ := guarded.mp hstep
    exact sound_newRound (s := { s with heartbeat := false }) h (hstable rfl) (by simp)

theorem sound_tick (h : s.ladder.Sound cfg.maxRounds) :
    (s.tick now).ladder.Sound cfg.maxRounds := by
  unfold tick
  split_ifs
  · exact ⟨h.clock, h.away, ⟨Nat.zero_le _, Nat.zero_le _⟩, h.limit, h.refills, h.free⟩
  · exact h

end Session

instance (r : Run) (ev : Event) : Decidable (Steady r ev) :=
  inferInstanceAs (Decidable (_ → _ → _))

/-- A loss of a connection that is stable: the clock is right, and the count
was set back. -/
theorem Steady.stable {cfg : Options} {r : Run} {ev : Event} (hq : Steady r ev)
    (h : r.session.ladder.Sound cfg.maxRounds) (hlose : ev.act.loses = true) :
    (r.session.tick ev.now).Clocked ev.now := by
  intro hs
  have hat : (r.session.tick ev.now).connectedAt = r.session.connectedAt := by
    unfold Session.tick
    split_ifs <;> rfl
  rw [hat] at hs
  have hne : r.session.connectedAt ≠ none := by
    intro hnone
    simp [hnone, Client.stable] at hs
  have hclock : r.session.history.connectedSince = r.session.connectedAt := by
    refine h.clock ((h.away hne).resolve_right fun hstate => ?_)
    exact absurd hs (by simp [hq hlose hstate])
  have htick : r.session.tick ev.now =
      { r.session with history := { r.session.history with counted := 0 } } := by
    rw [Session.tick, if_pos (by rw [hclock]; exact hs)]
  rw [htick]
  exact ⟨hclock, rfl⟩

theorem sound_step {cfg : Options} {r r' : Run} {ev : Event}
    (h : r.session.ladder.Sound cfg.maxRounds) (hq : Steady r ev)
    (hstep : (system cfg).step r ev = some r') : r'.session.ladder.Sound cfg.maxRounds := by
  obtain ⟨-, hstep⟩ := ite_none_right_eq_some.mp hstep
  obtain ⟨s', hhandle, rfl⟩ := map_eq_some_iff.mp hstep
  exact Session.sound_handle (Session.sound_tick h) (fun hlose => hq.stable h hlose) hhandle

/-- In every run in which no loss finds the session reconnecting later than
the stable period after its last connect: the round counter is set back only
when the session has been connected for the stable period, the rounds since
it last was keep to the limit, the free ones apart, and of these there is at
most one until the next `hello-ack`. -/
theorem only_stable_refills (cfg : Options) {evs : List Event} {r : Run}
    (hrun : (system cfg).run (system cfg).init evs = some r)
    (hq : (system cfg).AllSteps Steady (system cfg).init evs) :
    (∀ f ∈ r.session.history.refills, ∃ c, f.since = some c ∧ c + stableResetMs ≤ f.time) ∧
      r.session.history.counted ≤ cfg.maxRounds ∧ r.session.history.free ≤ 1 := by
  have hinit : (system cfg).init.session.ladder.Sound cfg.maxRounds :=
    ⟨nofun, nofun,
      ⟨Nat.zero_le _, Nat.zero_le _⟩, fun _ => Nat.zero_le _,
      nofun, Nat.zero_le _, fun _ => rfl⟩
  have hsound := System.run_induction (P := fun r : Run => r.session.ladder.Sound cfg.maxRounds)
    (Q := Steady) (system cfg) (fun _ _ _ h hq hstep => sound_step h hq hstep) hinit hq hrun
  refine ⟨fun f hf => ?_, hsound.counted.2, hsound.free.1⟩
  have hstable := hsound.refills f hf
  cases hsince : f.since with
  | none => simp [hsince, stable] at hstable
  | some c => exact ⟨c, rfl, by simpa [hsince, stable] using hstable⟩

/-- A first round that ends up connected after a second. -/
def connects : List Event :=
  [(0, .openUp true), (100, .grant 1 true true), (200, .socketOpen 1),
    (300, .socketMessage 1 (.helloAck true)), (400, .socketMessage 1 (.offer { id := 0 })),
    (400, .offer 0 true false), (500, .offer 0 true false), (600, .offer 0 true false),
    (800, .dataChannel 1 0 true), (1000, .connectionState 1 .connected)].map
    fun e => { now := e.1, random := 1 / 2, act := e.2 }

/-- The socket is lost 39 s later. -/
theorem only_stable_refills_socket :
    ∃ r, (system {}).run (system {}).init
        (connects ++ [{ now := 40000, random := 1 / 2, act := .socketClose 1 }]) = some r ∧
      r.session.history.refills = [{ time := 40000, since := some 1000 }] ∧
      (∀ f ∈ r.session.history.refills, ∃ c, f.since = some c ∧ c + stableResetMs ≤ f.time) := by
  have hrefills : ((system {}).run (system {}).init
      (connects ++ [{ now := 40000, random := 1 / 2, act := .socketClose 1 }])).map
      (·.session.history.refills) = some [{ time := 40000, since := some 1000 }] := by
    decide +kernel
  obtain ⟨r, hrun, hr⟩ := map_eq_some_iff.mp hrefills
  exact ⟨r, hrun, hr, (only_stable_refills {} hrun (by decide +kernel)).1⟩

/-- Connected from 1 s on, the session is in an ICE restart from 29 s on,
after the grace; and the counter is set back at 39 s, when no offer came. -/
theorem refilled_by_restart :
    ((system {}).run (system {}).init (connects ++
        [{ now := 26000, random := 1 / 2, act := .connectionState 1 .disconnected },
          { now := 29000, random := 1 / 2, act := .timer 1 true }])).map
        (fun r => (r.session.state, r.session.connectedAt, r.session.history.refills)) =
          some (.reconnecting, some 1000, []) ∧
    ((system {}).run (system {}).init (connects ++
        [{ now := 26000, random := 1 / 2, act := .connectionState 1 .disconnected },
          { now := 29000, random := 1 / 2, act := .timer 1 true },
          { now := 39000, random := 1 / 2, act := .timer 2 true }])).map
        (·.session.history.refills) = some [{ time := 39000, since := none }] := by
  decide +kernel

end Fjarr.Web.Client
