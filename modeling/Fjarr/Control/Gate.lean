/-
Fjarr.Control.Gate — what the gate lets through to one capability.

Of all the manager holds, what a capability is handed depends on the
sessions and on its own domain's two entries; the other domains may
change at will. `SameDomain` says that two managers agree on this much,
and a message to the capability then does the same in both
(`gated_same`).

Input that is turned away, because its session may not claim the domain
or another operator holds it, leaves the manager as it was in this sense
and hands the capability nothing (`gated_turned`).
-/
import Fjarr.Control.Sessions
import Fjarr.Lib.Maps

namespace Fjarr.Control

open Lib List Option ControlDomains

/-! ## One domain of `expire` -/

namespace ControlDomains

/-- The change `expire` reports for an entry of `held_`. -/
def ended (now : Time) (domain : String) (h : Holder) : Option Change :=
  match verdict now domain h with
  | some .stale => some ⟨domain, some h.op.id, .stale⟩
  | some .idle => some ⟨domain, none, .idle⟩
  | _ => none

theorem ended_domain {now : Time} {domain : String} {h : Holder} {ch : Change}
    (hch : ended now domain h = some ch) : ch.domain = domain := by
  unfold ended at hch
  split at hch
  · cases hch; rfl
  · cases hch; rfl
  · cases hch

theorem expireLoop_fst (now : Time) (l : List (String × Holder)) (c : ControlDomains) :
    (expireLoop now l c).1 = l.filterMap fun e => ended now e.1 e.2 := by
  induction l generalizing c with
  | nil => rfl
  | cons e l ih =>
    obtain ⟨domain, h⟩ := e
    rw [filterMap_cons]
    rcases verdict_cases now domain h with hv | hv | hv <;> simp only [expireLoop, ended, hv, ih]

theorem expire_filter (c : ControlDomains) (now : Time) (domain : String) :
    (c.expire now).1.filter (fun ch => ch.domain = domain) =
      ((c.held[domain]?).bind (ended now domain)).toList := by
  have hentry : ∀ e : String × Holder, (ended now e.1 e.2).filter (fun ch => ch.domain = domain) =
      if e.1 = domain then ended now e.1 e.2 else none := by
    rintro ⟨domain', h⟩
    cases hch : ended now domain' h with
    | none => simp
    | some ch => simp [ended_domain hch, filter_some]
  have hfilter := Maps.toList_filter_key c.held domain
  rw [expire, expireLoop_fst, filter_filterMap]
  simp only [hentry]
  have hsome := filterMap_filter (p := fun e : String × Holder => decide (e.1 = domain))
    (f := fun e : String × Holder => ended now e.1 e.2) (l := c.held.toList)
  simp only [decide_eq_true_eq] at hsome
  rw [← hsome, hfilter]
  cases c.held[domain]? with
  | none => rfl
  | some h => cases hh : ended now domain h <;> simp [hh]

theorem expire_idlePrevious (c : ControlDomains) (now : Time) (domain : String) :
    (c.expire now).2.idlePrevious[domain]? =
      (((c.held[domain]?).filter fun h => verdict now domain h = some .idle).map
        fun h => h.op.id).or c.idlePrevious[domain]? := by
  have hmem : ∀ g, (domain, g) ∈ c.held.toList ↔ c.held[domain]? = some g := fun g =>
    Std.ExtTreeMap.mem_toList_iff_getElem?_eq_some
  cases hh : c.held[domain]? with
  | none =>
    refine expireLoop_idlePrevious_of_not_idle now _ c domain fun g hg => ?_
    rw [hmem, hh] at hg
    cases hg
  | some h =>
    have honly : ∀ g, (domain, g) ∈ c.held.toList → g = h := by
      intro g hg
      rw [hmem, hh, some.injEq] at hg
      exact hg.symm
    rw [filter_some]
    by_cases hv : verdict now domain h = some .idle
    · rw [expire, expireLoop_idlePrevious_of_idle now _ c ((hmem h).mpr hh) honly hv,
        if_pos (decide_eq_true hv)]
      rfl
    rw [expire, expireLoop_idlePrevious_of_not_idle now _ c domain fun g hg => honly g hg ▸ hv,
      if_neg (by simpa using hv)]
    rfl

end ControlDomains

/-! ## What a capability is called for -/

/-- The effect is a call of the capability. -/
def Effect.isFor (name : String) : Effect → Bool
  | .deliver _ m _ => m.name == name
  | .releaseAllInput _ m => m.name == name
  | _ => false

/-- Wherever the capability is attached, it is in the domain. -/
def SessionManager.InDomain (m : SessionManager) (name domain : String) : Prop :=
  ∀ (id : String) (s : Session), m.sessions[id]? = some s →
    ∀ c ∈ s.caps, c.manifest.name = name → c.manifest.controlDomain = domain

/-- Two managers agree on the sessions and on one domain. -/
structure SameDomain (domain : String) (m m' : SessionManager) : Prop where
  sessions : m'.sessions = m.sessions
  held : m'.control.held[domain]? = m.control.held[domain]?
  idle : m'.control.idlePrevious[domain]? = m.control.idlePrevious[domain]?

namespace SameDomain

variable {domain : String} {m m' m'' : SessionManager}

theorem refl (m : SessionManager) : SameDomain domain m m := ⟨rfl, rfl, rfl⟩

variable (h : SameDomain domain m m')
include h

theorem symm : SameDomain domain m' m :=
  ⟨h.sessions.symm, h.held.symm, h.idle.symm⟩

theorem trans (h' : SameDomain domain m' m'') :
    SameDomain domain m m'' :=
  ⟨h'.sessions.trans h.sessions, h'.held.trans h.held, h'.idle.trans h.idle⟩

theorem inDomain {name : String} (hin : m.InDomain name domain) :
    m'.InDomain name domain := by
  intro id s hs
  exact hin id s (h.sessions ▸ hs)

end SameDomain

namespace SessionManager

variable {name domain : String} {m m' : SessionManager}

theorem announcements_isFor (m : SessionManager) (name domain : String) :
    (m.announcements domain).filter (Effect.isFor name) = [] := by
  refine filter_eq_nil_iff.mpr fun e he => ?_
  obtain ⟨⟨id, s⟩, -, he⟩ := mem_flatMap.mp he
  dsimp only at he
  split at he
  · rw [mem_singleton.mp he]
    simp [Effect.isFor]
  · cases he

theorem apply_isFor (m : SessionManager) (name : String) (c : Change) :
    (m.apply c).filter (Effect.isFor name) = (m.releases c).filter (Effect.isFor name) := by
  rw [apply, filter_append, announcements_isFor, append_nil]

theorem releases_isFor_other (hin : m.InDomain name domain) {c : Change} (hc : c.domain ≠ domain) :
    (m.releases c).filter (Effect.isFor name) = [] := by
  refine filter_eq_nil_iff.mpr fun e he hfor => ?_
  unfold releases at he
  split at he
  · cases he
  obtain ⟨⟨id, s⟩, hs, he⟩ := mem_flatMap.mp he
  rw [Std.ExtTreeMap.mem_toList_iff_getElem?_eq_some] at hs
  dsimp only at he
  split at he
  · obtain ⟨k, hk, rfl⟩ := List.mem_map.mp he
    obtain ⟨hk, hkd⟩ := mem_filter.mp hk
    have hdomain := hin id s hs k hk (by simpa [Effect.isFor] using hfor)
    simp only [Bool.and_eq_true, beq_iff_eq] at hkd
    exact hc (hkd.1.symm.trans hdomain)
  · cases he

theorem flatMap_apply_isFor (hin : m.InDomain name domain) (changes : List Change) :
    (changes.flatMap m.apply).filter (Effect.isFor name) =
      (changes.filter fun c => c.domain = domain).flatMap
        fun c => (m.releases c).filter (Effect.isFor name) := by
  induction changes with
  | nil => rfl
  | cons c changes ih =>
    rw [flatMap_cons, filter_append, ih, apply_isFor]
    by_cases hc : c.domain = domain
    · rw [filter_cons_of_pos (by simp [hc]), flatMap_cons]
    · rw [filter_cons_of_neg (by simp [hc]), releases_isFor_other hin hc, nil_append]

theorem controlTick_isFor (hin : m.InDomain name domain) (now : Time) :
    (m.controlTick now).2.filter (Effect.isFor name) =
      ((m.control.held[domain]?).bind (ControlDomains.ended now domain)).toList.flatMap
        fun c => (m.releases c).filter (Effect.isFor name) := by
  have hin' : InDomain { m with control := (m.control.expire now).2 } name domain := hin
  rw [← expire_filter]
  exact flatMap_apply_isFor hin' _

theorem controlTick_control (m : SessionManager) (now : Time) :
    (m.controlTick now).1.control = (m.control.expire now).2 := rfl

theorem controlTick_same (h : SameDomain domain m m') (now : Time) :
    SameDomain domain (m.controlTick now).1 (m'.controlTick now).1 where
  sessions := h.sessions
  held := by
    rw [controlTick_control, controlTick_control, expire_held,
      expire_held, h.held]
  idle := by
    rw [controlTick_control, controlTick_control, expire_idlePrevious,
      expire_idlePrevious, h.held, h.idle]

theorem releases_same (h : SameDomain domain m m') (c : Change) : m'.releases c = m.releases c := by
  unfold releases
  rw [h.sessions]

theorem controlTick_isFor_same (h : SameDomain domain m m') (hin : m.InDomain name domain)
    (now : Time) : (m'.controlTick now).2.filter (Effect.isFor name) =
      (m.controlTick now).2.filter (Effect.isFor name) := by
  rw [controlTick_isFor (h.inDomain hin), controlTick_isFor hin, h.held]
  simp only [releases_same h]

variable {now : Time} {h : Holder}

theorem controlTick_lasting
    (hh : (m.control.expire now).2.held[domain]? = some h) :
    m.control.held[domain]? = some h ∧ ControlDomains.verdict now domain h = none := by
  rw [expire_held, filter_eq_some_iff] at hh
  exact ⟨hh.1, isNone_iff_eq_none.mp hh.2⟩

theorem controlTick_same_self
    (hh : (m.control.expire now).2.held[domain]? = some h) :
    SameDomain domain m (m.controlTick now).1 := by
  obtain ⟨hheld, hv⟩ := controlTick_lasting hh
  refine ⟨rfl, hh.trans hheld.symm, ?_⟩
  rw [controlTick_control, expire_idlePrevious, hheld, filter_some, hv]
  rfl

theorem controlTick_isFor_nil (hin : m.InDomain name domain)
    (hh : (m.control.expire now).2.held[domain]? = some h) :
    (m.controlTick now).2.filter (Effect.isFor name) = [] := by
  obtain ⟨hheld, hv⟩ := controlTick_lasting hh
  rw [controlTick_isFor hin, hheld, bind_some, ended, hv]
  rfl

/-! ## `control_input` -/

section ControlInput

variable {op : OperatorInfo} {now : Time} {nowMs : Int}

theorem controlInput_other {h : Holder} (hh : (m.control.expire now).2.held[domain]? = some h)
    (hop : h.op.id ≠ op.id) : m.controlInput op domain now nowMs =
      ((m.controlTick now).1, (m.controlTick now).2,
        some ((m.controlTick now).1.heldData domain)) := by
  simp [controlInput, controlTick, input, hh, hop]

theorem controlInput_own {h : Holder} (hh : (m.control.expire now).2.held[domain]? = some h)
    (hop : h.op.id = op.id) : m.controlInput op domain now nowMs =
      ({ (m.controlTick now).1 with
          control := { (m.control.expire now).2 with
            held := (m.control.expire now).2.held.insert domain { h with lastInput := now } } },
        (m.controlTick now).2, none) := by
  simp [controlInput, controlTick, input, hh, hop]

theorem controlInput_free (hh : (m.control.expire now).2.held[domain]? = none) :
    m.controlInput op domain now nowMs =
      ({ m with control := ((m.control.expire now).2.claim domain op now nowMs .claim).2 },
        (m.controlTick now).2 ++
          { m with control := ((m.control.expire now).2.claim domain op now nowMs .claim).2 }.apply
            ((m.control.expire now).2.claim domain op now nowMs .claim).1, none) := by
  simp [controlInput, controlTick, input, hh]

theorem controlInput_sessions (m : SessionManager) (op : OperatorInfo) (domain : String)
    (now : Time) (nowMs : Int) : (m.controlInput op domain now nowMs).1.sessions = m.sessions := by
  cases hh : (m.control.expire now).2.held[domain]? with
  | none => rw [controlInput_free hh]
  | some h =>
    by_cases hop : h.op.id = op.id
    · rw [controlInput_own hh hop]
      rfl
    · rw [controlInput_other hh hop]
      rfl

theorem controlInput_same (h : SameDomain domain m m') (hin : m.InDomain name domain)
    (op : OperatorInfo) (now : Time) (nowMs : Int) :
    SameDomain domain (m.controlInput op domain now nowMs).1 (m'.controlInput op domain now nowMs).1 ∧
      (m'.controlInput op domain now nowMs).2.1.filter (Effect.isFor name) =
        (m.controlInput op domain now nowMs).2.1.filter (Effect.isFor name) ∧
      ((m'.controlInput op domain now nowMs).2.2.isNone =
        (m.controlInput op domain now nowMs).2.2.isNone) := by
  have htick := controlTick_same h now
  have hticked := controlTick_isFor_same h hin now
  have hheld : (m'.control.expire now).2.held[domain]? = (m.control.expire now).2.held[domain]? :=
    htick.held
  cases hh : (m.control.expire now).2.held[domain]? with
  | some k =>
    have hh' := hheld.trans hh
    by_cases hop : k.op.id = op.id
    · rw [controlInput_own hh hop, controlInput_own hh' hop]
      refine ⟨⟨h.sessions, ?_, htick.idle⟩, hticked, rfl⟩
      simp only [Maps.get?_insert, if_pos]
    · rw [controlInput_other hh hop, controlInput_other hh' hop]
      exact ⟨htick, hticked, rfl⟩
  | none =>
    have hh' := hheld.trans hh
    have hchange : ((m'.control.expire now).2.claim domain op now nowMs .claim).1 =
        ((m.control.expire now).2.claim domain op now nowMs .claim).1 := by
      have hidle : (m'.control.expire now).2.idlePrevious[domain]? =
        (m.control.expire now).2.idlePrevious[domain]? := htick.idle
      simp only [claim, hh, hh', hidle]
    rw [controlInput_free hh, controlInput_free hh']
    refine ⟨⟨h.sessions, ?_, ?_⟩, ?_, rfl⟩
    · rw [claim_held, claim_held, if_pos rfl, if_pos rfl]
    · rw [claim_idlePrevious, claim_idlePrevious, if_pos rfl,
        if_pos rfl]
    rw [filter_append, filter_append, hticked, apply_isFor, apply_isFor, hchange]
    congr 2
    unfold releases
    rw [h.sessions]

end ControlInput

/-! ## `control_gate` -/

section Gate

variable {id : String} {s : Session} {cap : AttachedCapability} {now : Time} {nowMs : Int}

theorem controlGate_same (h : SameDomain domain m m') (hin : m.InDomain name domain)
    (hcap : cap.manifest.controlDomain = domain) (type : Option String) (request : Bool) :
    SameDomain domain (m.controlGate id s cap type request now nowMs).1
        (m'.controlGate id s cap type request now nowMs).1 ∧
      (m'.controlGate id s cap type request now nowMs).2.1.filter (Effect.isFor name) =
        (m.controlGate id s cap type request now nowMs).2.1.filter (Effect.isFor name) ∧
      (m'.controlGate id s cap type request now nowMs).2.2 =
        (m.controlGate id s cap type request now nowMs).2.2 := by
  obtain ⟨hsame, heffects, hanswer⟩ := controlInput_same h hin s.operator now nowMs
  unfold controlGate
  rw [hcap]
  split
  · exact ⟨h, rfl, rfl⟩
  split
  · exact ⟨h, rfl, rfl⟩
  generalize m.controlInput s.operator domain now nowMs = x at *
  generalize m'.controlInput s.operator domain now nowMs = x' at *
  obtain ⟨m1, es, data⟩ := x
  obtain ⟨m1', es', data'⟩ := x'
  dsimp only at hsame heffects hanswer
  cases data with
  | none =>
    cases data' with
    | none => exact ⟨hsame, heffects, rfl⟩
    | some => cases hanswer
  | some data =>
    cases data' with
    | none => cases hanswer
    | some data' =>
      refine ⟨hsame, ?_, rfl⟩
      rw [filter_append, filter_append, heffects]
      congr 1
      split <;> rfl

/-- Input is turned away from a view-only grant, and while an operator
that is not the sender's holds the domain. -/
theorem controlGate_turned (hin : m.InDomain name domain)
    (hcap : cap.manifest.controlDomain = domain) {type : Option String}
    (htype : cap.manifest.isInput type = true) (request : Bool)
    (hturned : cap.viewOnly = true ∨
      ∃ h, (m.control.expire now).2.held[domain]? = some h ∧ h.op.id ≠ s.operator.id) :
    SameDomain domain m (m.controlGate id s cap type request now nowMs).1 ∧
      (m.controlGate id s cap type request now nowMs).2.1.filter (Effect.isFor name) = [] ∧
      (m.controlGate id s cap type request now nowMs).2.2 = false := by
  unfold controlGate
  rw [if_neg (by simp [htype])]
  split
  · refine ⟨.refl m, ?_, rfl⟩
    dsimp only
    split <;> rfl
  rename_i hview
  obtain ⟨h, hh, hop⟩ := hturned.resolve_left hview
  rw [hcap, controlInput_other hh hop]
  refine ⟨controlTick_same_self hh, ?_, rfl⟩
  dsimp only
  rw [filter_append, controlTick_isFor_nil hin hh]
  split <;> rfl

theorem controlGate_sessions (m : SessionManager) (id : String) (s : Session)
    (cap : AttachedCapability) (type : Option String) (request : Bool) (now : Time) (nowMs : Int) :
    (m.controlGate id s cap type request now nowMs).1.sessions = m.sessions := by
  have hinput := m.controlInput_sessions s.operator cap.manifest.controlDomain now nowMs
  unfold controlGate
  split
  · rfl
  split
  · rfl
  · split <;> rename_i heq <;> rw [heq] at hinput <;> exact hinput

theorem controlGate_not_input {type : Option String} (htype : cap.manifest.isInput type = false)
    (request : Bool) : m.controlGate id s cap type request now nowMs = (m, [], true) := by
  unfold controlGate
  rw [if_pos (by simp [htype])]

end Gate

/-! ## Messages to the capability -/

/-- The live session and its grant a message to the capability is from. -/
def addressed (m : SessionManager) (id name : String) : Option (Session × AttachedCapability) :=
  (m.sessions[id]?).bind fun s =>
    if s.state = .live then (s.attached name).map fun cap => (s, cap) else none

/-- A message that is handed over if it passes the gate. -/
def gated (m : SessionManager) (id : String) (s : Session) (cap : AttachedCapability)
    (type : Option String) (request : Bool) (now : Time) (nowMs : Int) :
    SessionManager × List Effect :=
  ((m.controlGate id s cap type request now nowMs).1,
    (m.controlGate id s cap type request now nowMs).2.1 ++
      if (m.controlGate id s cap type request now nowMs).2.2 then
        [.deliver id cap.manifest (cap.manifest.isInput type)]
      else [])

section Messages

variable {id : String} {s : Session} {cap : AttachedCapability} {now : Time} {nowMs : Int}

theorem addressed_spec (h : m.addressed id name = some (s, cap)) :
    m.sessions[id]? = some s ∧ s.state = .live ∧ s.attached name = some cap := by
  obtain ⟨s', hs, h⟩ := bind_eq_some_iff.mp h
  rw [ite_none_right_eq_some, map_eq_some_iff] at h
  obtain ⟨hlive, cap', hcap, heq⟩ := h
  obtain ⟨rfl, rfl⟩ := Prod.mk.inj heq
  exact ⟨hs, hlive, hcap⟩

theorem addressed_manifest (h : m.addressed id name = some (s, cap)) :
    cap ∈ s.caps ∧ cap.manifest.name = name := by
  obtain ⟨-, -, hattached⟩ := addressed_spec h
  exact ⟨mem_of_find?_eq_some hattached, by simpa using find?_some hattached⟩

theorem addressed_domain (hin : m.InDomain name domain)
    (h : m.addressed id name = some (s, cap)) : cap.manifest.controlDomain = domain :=
  hin id s (addressed_spec h).1 cap (addressed_manifest h).1 (addressed_manifest h).2

variable {env : Envelope}

theorem onChannelText_unaddressed (hcore : env.cap ≠ "fjarr.core")
    (h : m.addressed id env.cap = none) (now : Time) (nowMs : Int) :
    (m.onChannelText id env now nowMs).1 = m ∧
      (m.onChannelText id env now nowMs).2.filter (Effect.isFor env.cap) = [] := by
  unfold onChannelText
  unfold addressed at h
  cases hs : m.sessions[id]? with
  | none => exact ⟨rfl, rfl⟩
  | some s =>
    rw [hs, bind_some] at h
    dsimp only
    split
    · exact ⟨rfl, rfl⟩
    rename_i hlive
    rw [if_pos (not_not.mp hlive), map_eq_none_iff] at h
    rw [route, if_neg hcore, h]
    refine ⟨rfl, ?_⟩
    dsimp only
    split
    · split <;> rfl
    · rfl

theorem onChannelText_addressed (hcore : env.cap ≠ "fjarr.core")
    (h : m.addressed id env.cap = some (s, cap)) (now : Time) (nowMs : Int) :
    m.onChannelText id env now nowMs =
      if env.type = "select-tracks" ∧ env.kind = .request then (m, [])
      else m.gated id s cap (some env.type) (env.kind == .request) now nowMs := by
  obtain ⟨hs, hlive, hattached⟩ := addressed_spec h
  rw [onChannelText, hs]
  dsimp only
  rw [if_neg (not_not.mpr hlive), route, if_neg hcore, hattached]
  dsimp only
  congr 1
  unfold gated
  split
  · rename_i hgate
    rw [hgate]
    rfl
  rename_i hgate
  rw [hgate]
  simp

theorem onChannelData_unaddressed (h : m.addressed id name = none) (wellFormed : Bool) (now : Time)
    (nowMs : Int) : m.onChannelData id name wellFormed now nowMs = (m, []) := by
  unfold onChannelData
  unfold addressed at h
  cases hs : m.sessions[id]? with
  | none => rfl
  | some s =>
    rw [hs, bind_some] at h
    dsimp only
    split
    · rfl
    rename_i hlive
    rw [if_pos (not_not.mp hlive), map_eq_none_iff] at h
    rw [h]

theorem onChannelData_addressed (h : m.addressed id name = some (s, cap)) (now : Time)
    (nowMs : Int) : m.onChannelData id name true now nowMs = m.gated id s cap none false now nowMs := by
  obtain ⟨hs, hlive, hattached⟩ := addressed_spec h
  rw [onChannelData, hs]
  dsimp only
  rw [if_neg (not_not.mpr hlive), hattached]
  dsimp only
  unfold gated
  split
  · rename_i hgate
    rw [hgate]
  rename_i hgate
  rw [hgate]
  simp

theorem onChannelText_sessions (hcore : env.cap ≠ "fjarr.core") (id : String)
    (now : Time) (nowMs : Int) : (m.onChannelText id env now nowMs).1.sessions = m.sessions := by
  cases h : m.addressed id env.cap with
  | none => rw [(onChannelText_unaddressed hcore h now nowMs).1]
  | some x =>
    rw [onChannelText_addressed hcore h]
    split
    · rfl
    · exact controlGate_sessions _ _ _ _ _ _ _ _

theorem onChannelData_sessions (m : SessionManager) (id name : String) (now : Time) (nowMs : Int) :
    (m.onChannelData id name true now nowMs).1.sessions = m.sessions := by
  cases h : m.addressed id name with
  | none => rw [onChannelData_unaddressed h]
  | some x =>
    rw [onChannelData_addressed h]
    exact controlGate_sessions _ _ _ _ _ _ _ _

theorem gated_same (h : SameDomain domain m m') (hin : m.InDomain name domain)
    (hcap : cap.manifest.controlDomain = domain) (type : Option String) (request : Bool) :
    SameDomain domain (m.gated id s cap type request now nowMs).1
        (m'.gated id s cap type request now nowMs).1 ∧
      (m'.gated id s cap type request now nowMs).2.filter (Effect.isFor name) =
        (m.gated id s cap type request now nowMs).2.filter (Effect.isFor name) := by
  obtain ⟨hsame, heffects, hpass⟩ := controlGate_same h hin hcap type request
  refine ⟨hsame, ?_⟩
  unfold gated
  rw [filter_append, filter_append, heffects, hpass]

theorem gated_turned (hin : m.InDomain name domain)
    (hcap : cap.manifest.controlDomain = domain) {type : Option String}
    (htype : cap.manifest.isInput type = true) (request : Bool)
    (hturned : cap.viewOnly = true ∨
      ∃ h, (m.control.expire now).2.held[domain]? = some h ∧ h.op.id ≠ s.operator.id) :
    SameDomain domain m (m.gated id s cap type request now nowMs).1 ∧
      (m.gated id s cap type request now nowMs).2.filter (Effect.isFor name) = [] := by
  obtain ⟨hsame, heffects, hpass⟩ := controlGate_turned hin hcap htype request hturned
  refine ⟨hsame, ?_⟩
  unfold gated
  rw [filter_append, heffects, hpass]
  rfl

theorem gated_not_input {type : Option String} (htype : cap.manifest.isInput type = false)
    (request : Bool) : m.gated id s cap type request now nowMs =
      (m, [.deliver id cap.manifest false]) := by
  unfold gated
  rw [controlGate_not_input htype, htype]
  rfl

end Messages

end SessionManager

end Fjarr.Control
