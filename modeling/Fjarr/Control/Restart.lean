/-
Fjarr.Control.Restart — a session closed to be retried keeps its
operator's claim across the gap, and when the code lets go of it.

The rule (docs/10, docs/23): a media or ICE restart is a new session, so
the claim survives the close, bounded by the 30 s fail-open. The code
decides it in each posted `on_closed` callback, from the ONE session that
callback erases: `drop_orphaned_claims(keep)` spares the operator of that
session and sweeps every other holder without a live session. A claim
kept by one callback is therefore dropped by the next callback of any
other operator's session, or of a session of the same operator that did
not close to be retried (`restart_drops_claim`: two operators, one
`close_all` with retry).

`restart_keeps_claim_iff` is the exact account over whole runs: while no
`release-control`, no take-over and no late tick ends the claim, the
operator holds the domain in every state of the run if and only if every
callback that runs is its own retried session's or finds it another
session that has not closed.
-/
import Fjarr.Control.Inherit

namespace Fjarr.Control

open SessionManager ControlDomains

/-! ## Holding a domain through the operations of the claim store -/

namespace ControlDomains

/-- The operator is the recorded holder of the domain. -/
def HeldBy (c : ControlDomains) (operatorId domain : String) : Prop :=
  ∃ h, c.holder domain = some h ∧ h.op.id = operatorId

variable {c : ControlDomains} {a d domain : String}

theorem heldBy_insert {h h' : Holder}
    (hold : c.HeldBy a d) (hh : c.held[domain]? = some h) (hop : h'.op = h.op) :
    ({ c with held := c.held.insert domain h' } : ControlDomains).HeldBy a d := by
  obtain ⟨k, hk, rfl⟩ := hold
  by_cases hd : domain = d
  · subst hd
    rw [holder, hh, Option.some.injEq] at hk
    subst hk
    exact ⟨h', by simp [holder], by rw [hop]⟩
  · exact ⟨k, by simpa [holder, Std.ExtTreeMap.getElem?_insert, hd] using hk, rfl⟩

theorem heldBy_claim (hold : c.HeldBy a d)
    (hd : d ≠ domain) (op : OperatorInfo) (now : Time) (nowMs : Int) (why : Why) :
    (c.claim domain op now nowMs why).2.HeldBy a d := by
  obtain ⟨k, hk, hid⟩ := hold
  refine ⟨k, ?_, hid⟩
  rw [holder, claim_held, if_neg hd]
  exact hk

theorem heldBy_input (hold : c.HeldBy a d) (domain : String)
    (op : OperatorInfo) (now : Time) (nowMs : Int) :
    (c.input domain op now nowMs).2.HeldBy a d := by
  unfold input
  cases hh : c.held[domain]? with
  | none =>
    have hd : d ≠ domain := by
      rintro rfl
      obtain ⟨k, hk, -⟩ := hold
      rw [holder, hh] at hk
      cases hk
    exact heldBy_claim hold hd op now nowMs .claim
  | some h =>
    dsimp only
    split
    · exact hold
    · exact heldBy_insert hold hh rfl

theorem heldBy_take (hold : c.HeldBy a d) (domain : String)
    (op : OperatorInfo) (hop : domain = d → op.id = a) (now : Time) (nowMs : Int) :
    (c.take domain op now nowMs).2.HeldBy a d := by
  unfold take
  by_cases hd : domain = d
  · subst hd
    obtain ⟨k, hk, rfl⟩ := id hold
    rw [holder] at hk
    simp only [hk, hop rfl, if_true]
    exact heldBy_insert hold hk rfl
  cases hh : c.held[domain]? with
  | none => exact heldBy_claim hold (Ne.symm hd) op now nowMs .take
  | some h =>
    dsimp only
    split
    · exact heldBy_insert hold hh rfl
    · exact heldBy_claim hold (Ne.symm hd) op now nowMs .take

theorem heldBy_erase (hd : d ≠ domain) :
    ({ c with held := c.held.erase domain } : ControlDomains).HeldBy a d ↔ c.HeldBy a d := by
  simp [HeldBy, holder, Std.ExtTreeMap.getElem?_erase, Ne.symm hd]

theorem heldBy_release (hold : c.HeldBy a d)
    (domain operatorId : String) (hne : domain = d → operatorId ≠ a) :
    (c.release domain operatorId).2.HeldBy a d := by
  rcases c.release_cases domain operatorId with heq | ⟨h, hh, hid, heq⟩
  · rw [heq]
    exact hold
  rw [heq]
  refine (heldBy_erase ?_).mpr hold
  rintro rfl
  obtain ⟨k, hk, hka⟩ := hold
  rw [holder, hh, Option.some.injEq] at hk
  subst hk
  exact hne rfl (hid ▸ hka)

theorem heldBy_heartbeat (hold : c.HeldBy a d)
    (operatorId : String) (now : Time) : (c.heartbeat operatorId now).HeldBy a d := by
  obtain ⟨k, hk, hid⟩ := hold
  rw [holder] at hk
  refine ⟨_, by rw [holder, heartbeat_held, hk]; rfl, ?_⟩
  dsimp only
  split <;> exact hid

/-- The claim of a domain has run out at `now`: no heartbeat for 30 s, or
for the desktop no input for 5 s. -/
def RunOut (c : ControlDomains) (domain : String) (now : Time) : Prop :=
  ∃ h, c.holder domain = some h ∧
    (now - h.lastHeartbeat > staleAfter ∨ domain = "desktop" ∧ now - h.lastInput > desktopIdle)

theorem heldBy_expire (hold : c.HeldBy a d) {now : Time}
    (hnot : ¬ c.RunOut d now) : (c.expire now).2.HeldBy a d := by
  obtain ⟨k, hk, hid⟩ := hold
  refine ⟨k, expire_held_of_not_ended hk ?_, hid⟩
  have hlate := not_or.mp fun hl => hnot ⟨k, hk, hl⟩
  rw [verdict, if_neg hlate.1, if_neg hlate.2]

end ControlDomains

/-! ## What may end a claim by right -/

/-- The operation runs `control_tick` at `now`: a tick of its own, an
input message that is not view-only, or a `take-control` the session may
make. -/
inductive Ticks (m : SessionManager) : Op → Time → Prop where
  | tick (now : Time) : Ticks m (.tick now) now
  | text {id : String} {env : Envelope} {now : Time} {nowMs : Int} {s : Session}
      {cap : AttachedCapability} : m.sessions[id]? = some s → s.state = .live →
      env.cap ≠ "fjarr.core" → s.attached env.cap = some cap →
      ¬ (env.type = "select-tracks" ∧ env.kind = .request) →
      cap.manifest.isInput (some env.type) = true → cap.viewOnly = false →
      Ticks m (.text id env now nowMs) now
  | data {id capName : String} {wellFormed : Bool} {now : Time} {nowMs : Int} {s : Session}
      {cap : AttachedCapability} : m.sessions[id]? = some s → s.state = .live →
      s.attached capName = some cap → cap.manifest.isInput none = true → cap.viewOnly = false →
      Ticks m (.data id capName wellFormed now nowMs) now
  | take {id : String} {env : Envelope} {now : Time} {nowMs : Int} {s : Session}
      {domain : String} : m.sessions[id]? = some s → s.state = .live →
      env.cap = "fjarr.core" → env.kind = .request → env.type = "take-control" →
      env.domain = some domain → domain ∈ s.domains → s.canClaim domain = true →
      Ticks m (.text id env now nowMs) now

/-- A control request of a live session for the domain. -/
def Requests (m : SessionManager) (op : Op) (type domain : String) (s : Session) : Prop :=
  ∃ id env now nowMs, op = .text id env now nowMs ∧ m.sessions[id]? = some s ∧
    s.state = .live ∧ env.cap = "fjarr.core" ∧ env.kind = .request ∧ env.type = type ∧
    env.domain = some domain

/-- The three ways the rule lets a claim end: its operator's
`release-control`, another operator's `take-control` that succeeds, and a
tick after the claim has run out. -/
def Ended (m : SessionManager) (a domain : String) (op : Op) : Prop :=
  (∃ s, Requests m op "release-control" domain s ∧ s.operator.id = a) ∨
  (∃ s, Requests m op "take-control" domain s ∧ s.operator.id ≠ a ∧
    domain ∈ s.domains ∧ s.canClaim domain = true) ∨
  ∃ now, Ticks m op now ∧ m.control.RunOut domain now

/-! ## One step -/

namespace SessionManager

variable {m : SessionManager} {a d id : String} {now : Time} {nowMs : Int}

section

variable (hold : m.control.HeldBy a d)
include hold

theorem heldBy_controlTick
    (hnot : ¬ m.control.RunOut d now) : (m.controlTick now).1.control.HeldBy a d :=
  heldBy_expire hold hnot

theorem heldBy_controlInput (op : OperatorInfo) (domain : String) (nowMs : Int)
    (hnot : ¬ m.control.RunOut d now) :
    (m.controlInput op domain now nowMs).1.control.HeldBy a d := by
  have h := heldBy_input (heldBy_controlTick hold hnot) domain op now nowMs
  simp only [controlInput]
  split <;> exact h

theorem heldBy_controlGate
    (id : String) (s : Session) (cap : AttachedCapability) (type : Option String)
    (request : Bool) (nowMs : Int)
    (hnot : cap.manifest.isInput type = true → cap.viewOnly = false → ¬ m.control.RunOut d now) :
    (m.controlGate id s cap type request now nowMs).1.control.HeldBy a d := by
  unfold controlGate
  cases hin : cap.manifest.isInput type with
  | false => simpa using hold
  | true =>
    cases hv : cap.viewOnly with
    | true => simpa using hold
    | false =>
      have h := heldBy_controlInput hold s.operator cap.manifest.controlDomain nowMs (hnot hin hv)
      simp only [Bool.not_true, Bool.false_eq_true, if_false]
      split
      all_goals
        rename_i heq
        rwa [heq] at h

theorem heldBy_controlRequest
    (s : Session) (type : ControlRequest) (domain : String) (now : Time) (nowMs : Int)
    (hrel : type = .release → domain = d → s.operator.id ≠ a)
    (htake : type = .take → domain ∈ s.domains → s.canClaim domain = true →
      (domain = d → s.operator.id = a) ∧ ¬ m.control.RunOut d now) :
    (m.controlRequest s type domain now nowMs).1.control.HeldBy a d := by
  cases type with
  | release =>
    have h := heldBy_release hold domain s.operator.id (hrel rfl)
    simp only [controlRequest]
    split
    all_goals
      rename_i heq
      rwa [heq] at h
  | take =>
    simp only [controlRequest]
    split
    · exact hold
    rename_i hdom
    rw [not_not] at hdom
    split
    · exact hold
    rename_i hclaim
    rw [Bool.not_eq_true, Bool.not_eq_false'] at hclaim
    obtain ⟨hop, hnot⟩ := htake rfl hdom hclaim
    have h := heldBy_take (heldBy_controlTick hold hnot) domain s.operator hop
      now nowMs
    split
    all_goals
      rename_i heq
      rwa [heq] at h

theorem heldBy_handleCore {s : Session} (hs : m.sessions[id]? = some s) (hlive : s.state = .live)
    {env : Envelope} (hcap : env.cap = "fjarr.core")
    (hnot : ¬ Ended m a d (.text id env now nowMs)) :
    (m.handleCore id s env now nowMs).1.control.HeldBy a d := by
  unfold handleCore
  split
  · exact hold
  rename_i hkind
  rw [ne_eq, not_not] at hkind
  split
  · exact heldBy_heartbeat hold _ _
  split
  · rename_i htype
    split
    · exact hold
    rename_i domain hdom
    have hdom' : env.domain = some domain := (Option.filter_eq_some_iff.mp hdom).1
    have h := heldBy_controlRequest hold s
      (if env.type = "take-control" then .take else .release) domain now nowMs
    have hreq : ∀ type, env.type = type → domain = d →
        Requests m (.text id env now nowMs) type d s := by
      rintro type ht rfl
      exact ⟨id, env, now, nowMs, rfl, hs, hlive, hcap, hkind, ht, hdom'⟩
    have h := h
      (fun hrel hd hop => by
        rcases htype with ht | ht
        · simp [ht] at hrel
        · exact hnot (.inl ⟨s, hreq _ ht hd, hop⟩))
      (fun htake hin hclaim => by
        have ht : env.type = "take-control" := by
          by_contra hne
          simp [hne] at htake
        refine ⟨fun hd => ?_, fun hrun => ?_⟩
        · by_contra hop
          exact hnot (.inr (.inl ⟨s, hreq _ ht hd, hop, hd ▸ hin, hd ▸ hclaim⟩))
        · exact hnot (.inr (.inr ⟨now,
            .take hs hlive hcap hkind ht hdom' hin hclaim, hrun⟩)))
    dsimp only
    split
    all_goals
      rename_i heq
      rwa [heq] at h
  · exact hold

theorem heldBy_onChannelText {env : Envelope} (hnot : ¬ Ended m a d (.text id env now nowMs)) :
    (m.onChannelText id env now nowMs).1.control.HeldBy a d := by
  unfold onChannelText
  cases hs : m.sessions[id]? with
  | none => exact hold
  | some s =>
    dsimp only
    split
    · exact hold
    rename_i hlive
    rw [ne_eq, not_not] at hlive
    unfold route
    split
    · rename_i hcore
      exact heldBy_handleCore hold hs hlive hcore hnot
    rename_i hcore
    split
    · exact hold
    rename_i cap hcap
    split
    · exact hold
    rename_i hsel
    have h := heldBy_controlGate hold id s cap (some env.type) (env.kind == .request) nowMs
      fun hin hv hrun =>
        hnot (.inr (.inr ⟨now, .text hs hlive hcore hcap hsel hin hv, hrun⟩))
    split
    all_goals
      rename_i heq
      rwa [heq] at h

theorem heldBy_onChannelData {capName : String} {wellFormed : Bool}
    (hnot : ¬ Ended m a d (.data id capName wellFormed now nowMs)) :
    (m.onChannelData id capName wellFormed now nowMs).1.control.HeldBy a d := by
  unfold onChannelData
  cases hs : m.sessions[id]? with
  | none => exact hold
  | some s =>
    dsimp only
    split
    · exact hold
    rename_i hlive
    rw [ne_eq, not_not] at hlive
    split
    · exact hold
    rename_i cap hcap
    have h := heldBy_controlGate hold id s cap none false nowMs
      fun hin hv hrun => hnot (.inr (.inr ⟨now, .data hs hlive hcap hin hv, hrun⟩))
    split
    all_goals
      rename_i heq
      rwa [heq] at h

end

theorem finishClose_control (m : SessionManager) (id : String) :
    (m.finishClose id).control = m.control := by
  unfold finishClose
  split
  · rfl
  · split <;> rfl

theorem close_control (m : SessionManager) (id : String) (retry immediate : Bool) :
    (m.close id retry immediate).1.control = m.control := by
  unfold close
  split
  · rfl
  split
  · rfl
  dsimp only
  split
  · exact finishClose_control _ id
  · rfl

end SessionManager

/-! ## The posted callback -/

/-- The condition an operation has to meet: an `on_closed` callback is of
a session of the operator that closed to be retried, or finds the
operator another session in the domain that has not closed. -/
def CallbackSpares (m : SessionManager) (a domain : String) : Op → Prop
  | .runPosted => ∀ id rest, m.posted = id :: rest →
      m.keepFor id = a ∨ ({ m with sessions := m.sessions.erase id }).liveIn a domain = true
  | _ => True

namespace SessionManager

theorem dropOrphanedClaim_sessions (m : SessionManager) (hx : m.control.Exclusive)
    (keep domain : String) :
    (m.dropOrphanedClaim keep domain).1.sessions = m.sessions ∧
      (m.dropOrphanedClaim keep domain).1.control.Exclusive := by
  rcases m.dropOrphanedClaim_cases hx keep domain with ⟨heq, -⟩ | ⟨h, -, -, -, heq⟩
  · rw [heq]
    exact ⟨rfl, hx⟩
  · rw [heq]
    exact ⟨rfl, erase_exclusive hx domain⟩

variable {m : SessionManager} {a domain : String}

theorem dropOrphanedClaim_heldBy_ne (hx : m.control.Exclusive)
    {d : String} (hd : d ≠ domain) (keep : String) :
    (m.dropOrphanedClaim keep domain).1.control.HeldBy a d ↔ m.control.HeldBy a d := by
  rcases m.dropOrphanedClaim_cases hx keep domain with ⟨heq, -⟩ | ⟨h, -, -, -, heq⟩
  · rw [heq]
  · rw [heq]
    exact heldBy_erase hd

/-- The sweep of the claim's own domain spares it exactly when its
operator is kept or has a live session. -/
theorem dropOrphanedClaim_heldBy_iff (hx : m.control.Exclusive)
    (hold : m.control.HeldBy a domain) (keep : String) :
    (m.dropOrphanedClaim keep domain).1.control.HeldBy a domain ↔
      keep = a ∨ m.liveIn a domain = true := by
  obtain ⟨k, hk, rfl⟩ := id hold
  rcases m.dropOrphanedClaim_cases hx keep domain with ⟨heq, hspared⟩ | ⟨h, hh, hne, hdead, heq⟩
  · rw [heq]
    refine ⟨fun _ => ?_, fun _ => hold⟩
    rcases hspared k hk with hkeep | hlive
    · exact .inl hkeep.symm
    · exact .inr hlive
  rw [hk, Option.some.injEq] at hh
  subst hh
  rw [heq]
  constructor
  · rintro ⟨h', hh', -⟩
    simp [holder] at hh'
  rintro (hkeep | hlive)
  · exact absurd hkeep.symm hne
  · rw [hdead] at hlive
    cases hlive

theorem dropOrphanedClaims_fst (m : SessionManager) (keep : String) :
    (m.dropOrphanedClaims keep).1 =
      ((m.dropOrphanedClaim keep "desktop").1.dropOrphanedClaim keep "motion").1 :=
  rfl

theorem runPosted_heldBy_iff (hx : m.control.Exclusive)
    (hknown : ControlDomains.known domain = true) (hold : m.control.HeldBy a domain) :
    m.runPosted.1.control.HeldBy a domain ↔ CallbackSpares m a domain .runPosted := by
  unfold runPosted
  cases hp : m.posted with
  | nil =>
    refine ⟨fun _ id rest h => ?_, fun _ => hold⟩
    rw [hp] at h
    cases h
  | cons id rest =>
    have hiff : CallbackSpares m a domain .runPosted ↔ m.keepFor id = a ∨
        ({ m with sessions := m.sessions.erase id, posted := rest }).liveIn a domain = true := by
      constructor
      · intro h
        exact h id rest hp
      rintro h id' rest' h'
      rw [hp, List.cons.injEq] at h'
      exact h'.1 ▸ h
    rw [hiff, dropOrphanedClaims_fst]
    generalize hm0 : ({ m with sessions := m.sessions.erase id, posted := rest } :
      SessionManager) = m0
    generalize m.keepFor id = keep
    have hx0 : m0.control.Exclusive := by subst hm0; exact hx
    have hold0 : m0.control.HeldBy a domain := by subst hm0; exact hold
    obtain ⟨hs1, hx1⟩ := m0.dropOrphanedClaim_sessions hx0 keep "desktop"
    generalize hm1 : (m0.dropOrphanedClaim keep "desktop").1 = m1 at *
    simp only [ControlDomains.known, Bool.or_eq_true, beq_iff_eq] at hknown
    rcases hknown with rfl | rfl
    · rw [dropOrphanedClaim_heldBy_ne hx1 (by decide), ← hm1]
      exact dropOrphanedClaim_heldBy_iff hx0 hold0 keep
    have hold1 : m1.control.HeldBy a "motion" :=
      hm1 ▸ (dropOrphanedClaim_heldBy_ne hx0 (by decide) keep).mpr hold0
    rw [dropOrphanedClaim_heldBy_iff hx1 hold1, liveIn, hs1, liveIn]

end SessionManager

/-! ## Whole runs -/

variable {a domain : String}

/-- **One step.** An operation that does not end the claim by right
leaves the operator its domain exactly when it spares it: every other
operation does, and a callback as `CallbackSpares` says. -/
theorem step_heldBy_iff {m : SessionManager} (hx : m.control.Exclusive)
    (hknown : ControlDomains.known domain = true) (hold : m.control.HeldBy a domain) {op : Op}
    (hnot : ¬ Ended m a domain op) :
    CallbackSpares m a domain op ↔ (m.step op).1.control.HeldBy a domain := by
  cases op with
  | runPosted => exact (runPosted_heldBy_iff hx hknown hold).symm
  | sessionRequest id op caps =>
    refine iff_of_true trivial ?_
    simp only [step, onSessionRequest]
    split <;> exact hold
  | text id env now nowMs =>
    exact iff_of_true trivial (heldBy_onChannelText hold hnot)
  | data id capName wellFormed now nowMs =>
    exact iff_of_true trivial (heldBy_onChannelData hold hnot)
  | tick now =>
    refine iff_of_true trivial (heldBy_controlTick hold fun hrun => ?_)
    exact hnot (.inr (.inr ⟨now, .tick now, hrun⟩))
  | close id retry immediate =>
    refine iff_of_true trivial ?_
    rw [step, close_control]
    exact hold
  | finishClose id =>
    refine iff_of_true trivial ?_
    rw [step, finishClose_control]
    exact hold

/-- The operations of a closing session. -/
def Op.closes : Op → Bool
  | .close _ _ _ | .finishClose _ | .runPosted => true
  | _ => false

theorem not_ended_of_closes {m : SessionManager} {op : Op}
    (h : op.closes = true) : ¬ Ended m a domain op := by
  rintro (⟨s, ⟨id, env, now, nowMs, rfl, -⟩, -⟩ | ⟨s, ⟨id, env, now, nowMs, rfl, -⟩, -⟩ |
    ⟨now, ht, -⟩)
  · cases h
  · cases h
  · cases ht <;> cases h

theorem allSteps_not_ended {known : List String} {ops : List Op}
    (h : ops.all Op.closes = true) (w : World) :
    (system known).AllSteps (fun v op => ¬ Ended v.mgr a domain op) w ops := by
  induction ops generalizing w with
  | nil => trivial
  | cons op ops ih =>
    rw [List.all_cons, Bool.and_eq_true] at h
    exact ⟨not_ended_of_closes h.1, fun w' _ => ih h.2 w'⟩

/-- **When a restart keeps the claim.** Operator `a` holds the domain when
a session closes to be retried. In every run from there that does not end
the claim by right, `a` holds the domain in every state if and only if
every `on_closed` callback that runs spares it. -/
theorem restart_keeps_claim_iff {known : List String} {w : World}
    (hw : (system known).Reachable w) {a domain : String}
    (hknown : ControlDomains.known domain = true) (hold : w.mgr.control.HeldBy a domain)
    (id : String) (immediate : Bool) {ops : List Op} {w' : World}
    (hrun : (system known).run (w.after (.close id true immediate)) ops = some w')
    (hright : (system known).AllSteps (fun v op => ¬ Ended v.mgr a domain op)
      (w.after (.close id true immediate)) ops) :
    (system known).AllSteps (fun v op => CallbackSpares v.mgr a domain op)
        (w.after (.close id true immediate)) ops ↔
      (system known).AllStates (fun v => v.mgr.control.HeldBy a domain)
        (w.after (.close id true immediate)) ops := by
  have hclosed : (w.after (.close id true immediate)).mgr.control.HeldBy a domain := by
    rw [World.after, step, close_control]
    exact hold
  have hreach : (system known).Reachable (w.after (.close id true immediate)) := hw.step rfl
  refine (system known).allSteps_iff_states ?_ hclosed (hright.and_reachable hreach) hrun
  rintro v op v' hv ⟨hvr, hnot⟩ hstep
  obtain rfl : v.after op = v' := Option.some.inj hstep
  exact step_heldBy_iff (reachable_inv hvr).exclusive hknown hv hnot

/-- A single session's restart: the session closes, and its callback
keeps the claim. -/
theorem restart_keeps_claim_iff_single :
    (system []).AllStates (fun v => v.mgr.control.HeldBy "anna" "motion")
      (driven.after (.close "a" true false)) [.finishClose "a", .runPosted] := by
  have hold : driven.mgr.control.HeldBy "anna" "motion" :=
    ⟨⟨⟨"anna", "Anna"⟩, 0, 0, 0⟩, by decide +kernel, rfl⟩
  refine (restart_keeps_claim_iff driven_reachable (by decide) hold "a" false rfl
    (allSteps_not_ended (by decide) _)).mp ⟨trivial, fun v hv => ⟨fun id rest h => ?_, ?_⟩⟩
  · cases hv
    have hp : ((driven.after (.close "a" true false)).after (.finishClose "a")).mgr.posted =
      ["a"] := by decide +kernel
    obtain ⟨rfl, -⟩ := List.cons.inj (hp.symm.trans h)
    exact .inl (by decide +kernel)
  · exact fun _ _ => trivial

/-- What follows the first close of `close_all` with retry on the two
sessions of `driven`: the second close, both flush windows cut short, and
the two posted callbacks. -/
def restartOps : List Op :=
  [.close "b" true false, .finishClose "a", .finishClose "b", .runPosted, .runPosted]

/-- **A restart can drop the claim.** Anna holds motion, Bob is only
connected; `close_all` closes both sessions to be retried. Anna's callback
keeps its claim, and Bob's, run next, sweeps it. -/
theorem restart_drops_claim :
    (system []).Reachable driven ∧ driven.mgr.control.HeldBy "anna" "motion" ∧
    driven.mgr.sessions["a"]?.map (·.operator.id) = some "anna" ∧
    Op.close "a" true false :: restartOps =
      closeAllOps driven.mgr true (fun _ => false) ++ [.runPosted, .runPosted] ∧
    (system []).AllSteps (fun v op => ¬ Ended v.mgr "anna" "motion" op)
      (driven.after (.close "a" true false)) restartOps ∧
    ∃ w', (system []).run (driven.after (.close "a" true false)) restartOps = some w' ∧
      ¬ w'.mgr.control.HeldBy "anna" "motion" := by
  refine ⟨driven_reachable, ⟨⟨⟨"anna", "Anna"⟩, 0, 0, 0⟩, by decide +kernel, rfl⟩,
    by decide +kernel, by decide +kernel, allSteps_not_ended (by decide) _, _, rfl, ?_⟩
  rintro ⟨h, hh, -⟩
  revert hh
  exact ne_of_eq_of_ne (by decide +kernel : _ = none) (by simp)

end Fjarr.Control
