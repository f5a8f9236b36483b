/-
Fjarr.Control.Inherit — nobody inherits a held key or a moving robot.

A session is DIRTY in a domain from the moment an input message of it is
handed to a capability of that domain until `release_all_input` next runs
on that capability for it (`dirtyIn`, read off the log of effects). The
invariant (`Inv`) ties the dirty sessions to the claim store: whoever is
dirty in a domain is a session that is not closing, of the operator
`ControlDomains.responsible` names.

The proof does not follow the six operations of the claim store one by
one. `Handover` says once what any of them may do: keep the sessions,
hand no input over, and move the responsibility for a domain only after
releasing every session of the operator it moves from. It composes
(`Handover.trans`), it preserves `Inv` (`Inv.handover`), and every path
through the gate and through `take-control` is one. Only two steps are
outside it: an orphaned claim is dropped without a release, because the
operator's sessions have all closed, and a close releases one session of
its own accord.
-/
import Fjarr.Control.Sessions

namespace Fjarr.Control

open List SessionManager ControlDomains Session

/-! ## Dirty sessions -/

/-- Has the session unreleased input at the capability? The last word on
the pair is an input delivery and not a release. -/
def dirtyIn (log : List Effect) (id : String) (m : Manifest) : Bool :=
  log.foldl (fun dirty e =>
    match e with
    | .deliver i k true => if i = id ∧ k = m then true else dirty
    | .releaseAllInput i k => if i = id ∧ k = m then false else dirty
    | _ => dirty) false

theorem dirtyIn_snoc (log : List Effect) (e : Effect) (id : String) (m : Manifest) :
    dirtyIn (log ++ [e]) id m =
      match e with
      | .deliver i k true => if i = id ∧ k = m then true else dirtyIn log id m
      | .releaseAllInput i k => if i = id ∧ k = m then false else dirtyIn log id m
      | _ => dirtyIn log id m := by
  rw [dirtyIn, foldl_append]
  rfl

/-- No effect in the list hands input to a capability. -/
def Quiet (es : List Effect) : Prop := ∀ id m, Effect.deliver id m true ∉ es

variable {es : List Effect} {id i domain : String} {m m' : SessionManager} {k : Manifest}
  {s : Session} {w : World} {type : Option String} {cap : AttachedCapability} {now : Time}
  {nowMs : Int}

theorem Quiet.append {fs : List Effect} (he : Quiet es) (hf : Quiet fs) : Quiet (es ++ fs) := by
  intro id m hmem
  rcases mem_append.mp hmem with h | h
  · exact he id m h
  · exact hf id m h

theorem quiet_nil : Quiet [] := nofun

theorem quiet_reply (id : String) (r : Reply) : Quiet [.reply id r] := by
  intro i m h
  simp at h

theorem dirtyIn_append_quiet {log : List Effect} (hq : Quiet es) {m : Manifest}
    (h : dirtyIn (log ++ es) id m = true) :
    dirtyIn log id m = true ∧ Effect.releaseAllInput id m ∉ es := by
  induction es using reverseRecOn with
  | nil => exact ⟨by simpa using h, by simp⟩
  | append_singleton es e ih =>
    have hq' : Quiet es := fun i k hmem => hq i k (mem_append_left _ hmem)
    rw [← append_assoc, dirtyIn_snoc] at h
    cases e with
    | deliver i k input =>
      cases input with
      | true => exact absurd (mem_append_right _ mem_cons_self) (hq i k)
      | false =>
        obtain ⟨h1, h2⟩ := ih hq' h
        exact ⟨h1, by simpa using h2⟩
    | releaseAllInput i k =>
      by_cases hik : i = id ∧ k = m
      · simp [hik] at h
      simp only [hik, if_false] at h
      obtain ⟨h1, h2⟩ := ih hq' h
      refine ⟨h1, ?_⟩
      rw [mem_append, mem_singleton]
      rintro (h3 | h3)
      · exact h2 h3
      · cases h3
        exact hik ⟨rfl, rfl⟩
    | reply i r =>
      obtain ⟨h1, h2⟩ := ih hq' h
      exact ⟨h1, by simpa using h2⟩
    | controlState i es' =>
      obtain ⟨h1, h2⟩ := ih hq' h
      exact ⟨h1, by simpa using h2⟩

theorem dirtyIn_snoc_deliver {log : List Effect} {input : Bool}
    {m : Manifest} (h : dirtyIn (log ++ [.deliver i k input]) id m = true) :
    (input = true ∧ i = id ∧ k = m) ∨ dirtyIn log id m = true := by
  rw [dirtyIn_snoc] at h
  cases input with
  | false => exact .inr h
  | true =>
    by_cases hik : i = id ∧ k = m
    · exact .inl ⟨rfl, hik⟩
    · simp only [hik, if_false] at h
      exact .inr h

/-! ## What a change of holder releases -/

theorem Session.mem_domains :
    domain ∈ s.domains ↔ domain ≠ "" ∧ ∃ c ∈ s.caps, c.manifest.controlDomain = domain := by
  simp only [domains, Std.ExtTreeSet.mem_ofList, contains_iff_mem, mem_filter,
    mem_map, decide_eq_true_eq]
  constructor
  · rintro ⟨⟨c, hc, rfl⟩, hne⟩
    exact ⟨hne, c, hc, rfl⟩
  · rintro ⟨hne, c, hc, rfl⟩
    exact ⟨⟨c, hc, rfl⟩, hne⟩

/-- The effects release every session of the operator in the domain. -/
def ReleasesAll (m : SessionManager) (es : List Effect) (operatorId domain : String) : Prop :=
  ∀ (id : String) (s : Session), m.sessions[id]? = some s → s.operator.id = operatorId →
    ∀ c ∈ s.caps, c.manifest.controlDomain = domain → domain ≠ "" →
      Effect.releaseAllInput id c.manifest ∈ es

theorem ReleasesAll.mono (hm : m'.sessions = m.sessions)
    {fs : List Effect} (hsub : ∀ e ∈ es, e ∈ fs) {operatorId : String}
    (h : ReleasesAll m' es operatorId domain) : ReleasesAll m fs operatorId domain := by
  intro id s hs hop c hc hd hne
  exact hsub _ (h id s (hm ▸ hs) hop c hc hd hne)

namespace SessionManager

theorem quiet_apply (m : SessionManager) (c : Change) : Quiet (m.apply c) := by
  intro id k hmem
  rcases mem_append.mp hmem with h | h
  · unfold releases at h
    split at h
    · cases h
    obtain ⟨⟨i, s⟩, -, hi⟩ := mem_flatMap.mp h
    dsimp only at hi
    split at hi
    · simp [releaseDomainInput] at hi
    · cases hi
  obtain ⟨⟨i, s⟩, -, hi⟩ := mem_flatMap.mp h
  dsimp only at hi
  split at hi
  · simp at hi
  · cases hi

theorem apply_releasesAll (m : SessionManager) {c : Change} {operatorId : String}
    (hc : c.release = some operatorId) : ReleasesAll m (m.apply c) operatorId c.domain := by
  intro id s hs hop cap hcap hd hne
  refine mem_append_left _ ?_
  rw [releases, hc]
  refine mem_flatMap.mpr
    ⟨(id, s), Std.ExtTreeMap.mem_toList_iff_getElem?_eq_some.mpr hs, ?_⟩
  have hdom : c.domain ∈ s.domains := mem_domains.mpr ⟨hne, cap, hcap, hd⟩
  have hin : cap.manifest.inputBearing = true :=
    cap.manifest.domain_inputBearing (hd ▸ hne)
  dsimp only
  rw [if_pos ⟨hop, hdom⟩]
  exact mem_map.mpr ⟨cap, mem_filter.mpr ⟨hcap, by simp [hd, hin]⟩, rfl⟩

end SessionManager

/-! ## Handing a domain over -/

/-- What a change of control may do: the sessions stay, no input is
handed over, and a domain's responsible operator changes only together
with the release of every session of the one it was. -/
structure Handover (m m' : SessionManager) (es : List Effect) : Prop where
  sessions : m'.sessions = m.sessions
  posted : m'.posted = m.posted
  quiet : Quiet es
  exclusive : m.control.Exclusive → m'.control.Exclusive
  moved : m.control.Exclusive → ∀ domain,
    m'.control.responsible domain = m.control.responsible domain ∨
      ∀ operatorId, m.control.responsible domain = some operatorId →
        ReleasesAll m es operatorId domain

namespace Handover

theorem refl (m : SessionManager) {es : List Effect} (hq : Quiet es) : Handover m m es :=
  ⟨rfl, rfl, hq, id, fun _ _ => .inl rfl⟩

theorem trans {m m1 m2 : SessionManager} {es1 es2 : List Effect} (h1 : Handover m m1 es1)
    (h2 : Handover m1 m2 es2) : Handover m m2 (es1 ++ es2) := by
  refine ⟨h2.sessions.trans h1.sessions, h2.posted.trans h1.posted, h1.quiet.append h2.quiet,
    fun hx => h2.exclusive (h1.exclusive hx), fun hx domain => ?_⟩
  have hleft : ∀ e ∈ es1, e ∈ es1 ++ es2 := fun e he => mem_append_left _ he
  have hright : ∀ e ∈ es2, e ∈ es1 ++ es2 := fun e he => mem_append_right _ he
  rcases h1.moved hx domain with hsame | hrel
  · rcases h2.moved (h1.exclusive hx) domain with hsame2 | hrel2
    · exact .inl (hsame2.trans hsame)
    · exact .inr fun op hop => (hrel2 op (hsame.trans hop)).mono h1.sessions hright
  · exact .inr fun op hop => (hrel op hop).mono rfl hleft

theorem then_quiet {m m' : SessionManager} {es fs : List Effect} (h : Handover m m' es)
    (hq : Quiet fs) : Handover m m' (es ++ fs) :=
  h.trans (refl m' hq)

end Handover

namespace SessionManager

variable (m : SessionManager)

theorem claim_handover (domain : String) (op : OperatorInfo) (now : Time)
    (nowMs : Int) (why : Why) :
    Handover m { m with control := (m.control.claim domain op now nowMs why).2 }
      (({ m with control := (m.control.claim domain op now nowMs why).2 } : SessionManager).apply
        (m.control.claim domain op now nowMs why).1) := by
  refine ⟨rfl, rfl, quiet_apply _ _, 
    fun hx => claim_exclusive hx domain op now nowMs why, ?_⟩
  intro hx d
  rw [claim_responsible]
  by_cases hd : d = domain
  · rw [if_pos hd]
    subst hd
    cases hr : m.control.responsible d with
    | none => exact .inr (by simp)
    | some previous =>
      by_cases hid : previous = op.id
      · exact .inl (by rw [hid])
      right
      rintro p hp
      obtain rfl : previous = p := Option.some.inj hp
      have hrel : (m.control.claim d op now nowMs why).1.release = some previous := by
        rw [claim_release hx, hr, Option.filter_some]
        simp [hid]
      exact (apply_releasesAll { m with control := (m.control.claim d op now nowMs why).2 }
        hrel).mono rfl fun _ he => he
  · rw [if_neg hd]
    exact .inl rfl

theorem controlTick_handover (now : Time) :
    Handover m (m.controlTick now).1 (m.controlTick now).2 := by
  refine ⟨rfl, rfl, ?_, fun hx => expire_exclusive hx now, fun hx d => ?_⟩
  · intro id k hmem
    obtain ⟨c, -, hc⟩ := mem_flatMap.mp hmem
    exact quiet_apply _ c id k hc
  rcases expire_responsible hx now d with hsame | ⟨h, hh, -, hmem⟩
  · exact .inl hsame
  right
  intro op hop
  rw [responsible_of_held hh, Option.some.injEq] at hop
  subst hop
  refine (apply_releasesAll ({ m with control := (m.control.expire now).2 })
    (c := ⟨d, some h.op.id, .stale⟩) rfl).mono rfl fun e he => ?_
  exact mem_flatMap.mpr ⟨_, hmem, he⟩

theorem refresh_handover {domain : String} {h : Holder}
    (hh : m.control.held[domain]? = some h) (h' : Holder) (hop : h'.op = h.op) :
    Handover m
      { m with control := { m.control with held := m.control.held.insert domain h' } } [] :=
  ⟨rfl, rfl, quiet_nil, fun hx => refresh_exclusive hx hh h',
    fun _ d => .inl (refresh_responsible hh hop d)⟩

theorem controlInput_handover (op : OperatorInfo) (domain : String) (now : Time) (nowMs : Int) :
    Handover m (m.controlInput op domain now nowMs).1 (m.controlInput op domain now nowMs).2.1 := by
  have htick := m.controlTick_handover now
  simp only [controlInput, input]
  cases hh : (m.controlTick now).1.control.held[domain]? with
  | none => exact htick.trans (claim_handover _ domain op now nowMs .claim)
  | some h =>
    by_cases hid : h.op.id = op.id
    · simp only [hid, ne_eq, not_true_eq_false, if_false]
      simpa using htick.trans (refresh_handover _ hh { h with lastInput := now } rfl)
    · simp only [hid, ne_eq, not_false_eq_true, if_true]
      exact htick

theorem controlInput_holder (op : OperatorInfo) (domain : String)
    (now : Time) (nowMs : Int) (hpass : (m.controlInput op domain now nowMs).2.2 = none) :
    ∃ h, (m.controlInput op domain now nowMs).1.control.holder domain = some h ∧ h.op.id = op.id := by
  simp only [controlInput, input] at hpass ⊢
  cases hh : (m.controlTick now).1.control.held[domain]? with
  | none =>
    refine ⟨⟨op, nowMs, now, now⟩, ?_, rfl⟩
    show ((m.controlTick now).1.control.claim domain op now nowMs .claim).2.held[domain]? = _
    rw [claim_held, if_pos rfl]
  | some h =>
    by_cases hid : h.op.id = op.id
    · simp only [hid, ne_eq, not_true_eq_false, if_false]
      exact ⟨{ h with lastInput := now }, by simp [holder], hid⟩
    · simp [hh, hid] at hpass

theorem controlRequest_handover (s : Session) (type : ControlRequest)
    (domain : String) (now : Time) (nowMs : Int) :
    Handover m (m.controlRequest s type domain now nowMs).1
      (m.controlRequest s type domain now nowMs).2.1 := by
  cases type with
  | release =>
    simp only [controlRequest]
    rcases release_cases m.control domain s.operator.id with
      heq | ⟨h, hh, hid, heq⟩
    · rw [heq]
      exact Handover.refl m quiet_nil
    rw [heq]
    refine ⟨rfl, rfl, quiet_apply _ _, fun hx => erase_exclusive hx domain, ?_⟩
    intro hx d
    by_cases hd : d = domain
    · right
      intro op hop
      subst hd
      rw [responsible_of_held hh, Option.some.injEq] at hop
      subst hop
      rw [hid]
      exact (apply_releasesAll
        { m with control := { m.control with held := m.control.held.erase d } }
        (c := ⟨d, some s.operator.id, .release⟩) rfl).mono rfl fun _ he => he
    · left
      rw [erase_responsible hx hh, if_neg hd]
  | take =>
    have htick := m.controlTick_handover now
    simp only [controlRequest]
    split
    · exact Handover.refl m quiet_nil
    split
    · exact Handover.refl m quiet_nil
    simp only [ControlDomains.take]
    cases hh : (m.controlTick now).1.control.held[domain]? with
    | none => exact htick.trans (claim_handover _ domain s.operator now nowMs .take)
    | some h =>
      by_cases hid : h.op.id = s.operator.id
      · simp only [hid, if_true]
        simpa using htick.trans (refresh_handover _ hh { h with lastInput := now } rfl)
      · simp only [hid, if_false]
        exact htick.trans (claim_handover _ domain s.operator now nowMs .take)

end SessionManager

/-! ## The invariant -/

/-- In every reachable world: the two maps of the claim store exclude each
other, a posted `on_closed` is of a session that has closed, and whoever
is dirty is a session that is not closing, of the domain's responsible
operator. -/
structure Inv (w : World) : Prop where
  exclusive : w.mgr.control.Exclusive
  posted_nodup : w.mgr.posted.Nodup
  posted_closed : ∀ id ∈ w.mgr.posted, ∃ s, w.mgr.sessions[id]? = some s ∧ s.state = .closed
  owned : ∀ id m, dirtyIn w.log id m = true →
    ∃ s, w.mgr.sessions[id]? = some s ∧ s.state = .live ∧ (∃ c ∈ s.caps, c.manifest = m) ∧
      m.controlDomain ≠ "" ∧ w.mgr.control.responsible m.controlDomain = some s.operator.id

theorem Inv.init (known : List String) : Inv (system known).init where
  exclusive := exclusive_empty
  posted_nodup := nodup_nil
  posted_closed := nofun
  owned := nofun

theorem Inv.handover (h : Inv w)
    (ho : Handover w.mgr m' es) : Inv ⟨m', w.log ++ es⟩ where
  exclusive := ho.exclusive h.exclusive
  posted_nodup := by
    rw [ho.posted]
    exact h.posted_nodup
  posted_closed := by
    rw [ho.posted, ho.sessions]
    exact h.posted_closed
  owned := by
    intro id k hd
    obtain ⟨hd, hnot⟩ := dirtyIn_append_quiet ho.quiet hd
    obtain ⟨s, hs, hlive, ⟨c, hc, rfl⟩, hne, hresp⟩ := h.owned id k hd
    refine ⟨s, ho.sessions ▸ hs, hlive, ⟨c, hc, rfl⟩, hne, ?_⟩
    rcases ho.moved h.exclusive c.manifest.controlDomain with hsame | hrel
    · exact hsame.trans hresp
    · exact absurd (hrel _ hresp id s hs rfl c hc rfl hne) hnot

theorem Inv.then_quiet (h : Inv w) (hq : Quiet es) :
    Inv ⟨w.mgr, w.log ++ es⟩ :=
  h.handover (Handover.refl w.mgr hq)

theorem Inv.then_deliver (h : Inv w)
    (hs : w.mgr.sessions[id]? = some s) (hlive : s.state = .live) {c : AttachedCapability}
    (hc : c ∈ s.caps) {input : Bool}
    (hresp : input = true → c.manifest.controlDomain ≠ "" ∧
      w.mgr.control.responsible c.manifest.controlDomain = some s.operator.id) :
    Inv ⟨w.mgr, w.log ++ [.deliver id c.manifest input]⟩ where
  exclusive := h.exclusive
  posted_nodup := h.posted_nodup
  posted_closed := h.posted_closed
  owned := by
    intro i k hd
    rcases dirtyIn_snoc_deliver hd with ⟨hin, rfl, rfl⟩ | hold
    · exact ⟨s, hs, hlive, ⟨c, hc, rfl⟩, (hresp hin).1, (hresp hin).2⟩
    · exact h.owned i k hold

theorem Inv.update_session (h : Inv w) (s' : Session)
    (hclean : ∀ m, dirtyIn w.log id m = false) (hposted : id ∉ w.mgr.posted) :
    Inv ⟨{ w.mgr with sessions := w.mgr.sessions.insert id s' }, w.log⟩ where
  exclusive := h.exclusive
  posted_nodup := h.posted_nodup
  posted_closed := by
    intro i hi
    obtain ⟨s, hs, hst⟩ := h.posted_closed i hi
    have hne : id ≠ i := fun he => hposted (he ▸ hi)
    exact ⟨s, by simpa [Std.ExtTreeMap.getElem?_insert, hne] using hs, hst⟩
  owned := by
    intro i k hd
    have hne : id ≠ i := fun he => by simp [← he, hclean k] at hd
    obtain ⟨s, hs, hrest⟩ := h.owned i k hd
    exact ⟨s, by simpa [Std.ExtTreeMap.getElem?_insert, hne] using hs, hrest⟩

theorem Inv.clean_of_closing (h : Inv w)
    (hs : w.mgr.sessions[id]? = some s) (hst : s.state ≠ .live) (m : Manifest) :
    dirtyIn w.log id m = false := by
  rw [Bool.eq_false_iff]
  intro hd
  obtain ⟨s', hs', hlive, -⟩ := h.owned id m hd
  rw [hs, Option.some.injEq] at hs'
  exact hst (hs' ▸ hlive)

theorem Inv.not_posted (h : Inv w)
    (hs : w.mgr.sessions[id]? = some s) (hst : s.state ≠ .closed) : id ∉ w.mgr.posted := by
  intro hp
  obtain ⟨s', hs', hclosed⟩ := h.posted_closed id hp
  rw [hs, Option.some.injEq] at hs'
  exact hst (hs' ▸ hclosed)

/-! ## The gate -/

theorem Session.attached_mem {name : String} {c : AttachedCapability}
    (h : s.attached name = some c) : c ∈ s.caps :=
  mem_of_find?_eq_some h

namespace SessionManager

theorem controlGate_handover (m : SessionManager) (id : String) (s : Session)
    (cap : AttachedCapability) (type : Option String) (request : Bool) (now : Time)
    (nowMs : Int) :
    Handover m (m.controlGate id s cap type request now nowMs).1
      (m.controlGate id s cap type request now nowMs).2.1 := by
  have hin := m.controlInput_handover s.operator cap.manifest.controlDomain now nowMs
  unfold controlGate
  split
  · exact Handover.refl m quiet_nil
  split
  · refine Handover.refl m ?_
    split
    · exact quiet_reply _ _
    · exact quiet_nil
  split
  · rename_i heq
    rw [heq] at hin
    exact hin
  rename_i heq
  rw [heq] at hin
  refine hin.then_quiet ?_
  split
  · exact quiet_reply _ _
  · exact quiet_nil

theorem controlGate_pass (m : SessionManager) (id : String) (s : Session)
    (cap : AttachedCapability) (type : Option String) (request : Bool) (now : Time)
    (nowMs : Int) (hin : cap.manifest.isInput type = true)
    (hpass : (m.controlGate id s cap type request now nowMs).2.2 = true) :
    cap.viewOnly = false ∧
      ∃ h, (m.controlGate id s cap type request now nowMs).1.control.holder
        cap.manifest.controlDomain = some h ∧ h.op.id = s.operator.id := by
  have hold := m.controlInput_holder s.operator cap.manifest.controlDomain now nowMs
  unfold controlGate at hpass ⊢
  rw [hin] at hpass ⊢
  cases hv : cap.viewOnly with
  | true => simp [hv] at hpass
  | false =>
    refine ⟨rfl, ?_⟩
    simp only [hv, Bool.not_true, Bool.false_eq_true, if_false] at hpass ⊢
    split at hpass
    · rename_i heq
      rw [heq] at hold
      exact hold rfl
    · cases hpass

end SessionManager

theorem ControlDomains.responsible_of_holder {c : ControlDomains} {h : Holder}
    (hh : c.holder domain = some h) : c.responsible domain = some h.op.id :=
  responsible_of_held hh

theorem Manifest.isInput_domain {m : Manifest}
    (h : m.isInput type = true) : m.controlDomain ≠ "" := by
  simp only [Manifest.isInput, Bool.and_eq_true, bne_iff_ne] at h
  exact h.1

theorem Inv.gated (h : Inv w)
    (hs : w.mgr.sessions[id]? = some s) (hlive : s.state = .live)
    (hcap : cap ∈ s.caps) (type : Option String) (request : Bool) (now : Time) (nowMs : Int)
    (hpass : (w.mgr.controlGate id s cap type request now nowMs).2.2 = true) :
    Inv ⟨(w.mgr.controlGate id s cap type request now nowMs).1,
      (w.log ++ (w.mgr.controlGate id s cap type request now nowMs).2.1) ++
        [.deliver id cap.manifest (cap.manifest.isInput type)]⟩ := by
  have ho := w.mgr.controlGate_handover id s cap type request now nowMs
  refine (h.handover ho).then_deliver (s := s) (ho.sessions ▸ hs) hlive hcap fun hin => ?_
  obtain ⟨-, k, hk, hop⟩ :=
    w.mgr.controlGate_pass id s cap type request now nowMs hin hpass
  refine ⟨Manifest.isInput_domain hin, ?_⟩
  rw [responsible_of_holder hk, hop]

/-! ## Every step keeps the invariant -/

theorem handleCore_handover (m : SessionManager) (id : String) (s : Session) (env : Envelope)
    (now : Time) (nowMs : Int) :
    Handover m (m.handleCore id s env now nowMs).1 (m.handleCore id s env now nowMs).2 := by
  unfold handleCore
  split
  · exact Handover.refl m quiet_nil
  split
  · exact ⟨rfl, rfl, quiet_reply _ _, fun hx => heartbeat_exclusive hx _ _,
      fun _ d => .inl (heartbeat_responsible _ _ _ d)⟩
  split
  · split
    · exact Handover.refl m (quiet_reply _ _)
    rename_i domain _
    have hreq := fun type => m.controlRequest_handover s type domain now nowMs
    dsimp only
    split
    · rename_i heq
      have := hreq (if env.type = "take-control" then .take else .release)
      rw [heq] at this
      exact this.then_quiet (quiet_reply _ _)
    rename_i heq
    have := hreq (if env.type = "take-control" then .take else .release)
    rw [heq] at this
    exact this.then_quiet (quiet_reply _ _)
  · exact Handover.refl m quiet_nil

theorem text_inv (h : Inv w) (id : String) (env : Envelope) (now : Time)
    (nowMs : Int) : Inv (w.after (.text id env now nowMs)) := by
  simp only [World.after, step, onChannelText]
  cases hs : w.mgr.sessions[id]? with
  | none => exact h.then_quiet quiet_nil
  | some s =>
    dsimp only
    split
    · exact h.then_quiet quiet_nil
    rename_i hlive
    rw [ne_eq, not_not] at hlive
    unfold route
    split
    · exact h.handover (handleCore_handover w.mgr id s env now nowMs)
    split
    · refine h.then_quiet ?_
      split
      · split <;> exact quiet_reply _ _
      · exact quiet_nil
    rename_i cap hcap
    split
    · exact h.then_quiet quiet_nil
    have ho := w.mgr.controlGate_handover id s cap (some env.type) (env.kind == .request)
      now nowMs
    have hg := h.gated hs hlive (attached_mem hcap) (some env.type)
      (env.kind == .request) now nowMs
    split
    · rename_i heq
      rw [heq] at hg
      have := hg rfl
      rwa [append_assoc] at this
    rename_i heq
    rw [heq] at ho
    exact h.handover ho

theorem data_inv (h : Inv w) (id capName : String) (wellFormed : Bool) (now : Time)
    (nowMs : Int) : Inv (w.after (.data id capName wellFormed now nowMs)) := by
  simp only [World.after, step, onChannelData]
  cases hs : w.mgr.sessions[id]? with
  | none => exact h.then_quiet quiet_nil
  | some s =>
    dsimp only
    split
    · exact h.then_quiet quiet_nil
    rename_i hlive
    rw [ne_eq, not_not] at hlive
    split
    · exact h.then_quiet quiet_nil
    rename_i cap hcap
    have ho := w.mgr.controlGate_handover id s cap none false now nowMs
    have hg := h.gated hs hlive (attached_mem hcap) none false now nowMs
    split
    · rename_i heq
      rw [heq] at hg ho
      cases wellFormed with
      | true =>
        have := hg rfl
        rwa [append_assoc] at this
      | false => simpa using h.handover ho
    rename_i heq
    rw [heq] at ho
    exact h.handover ho

theorem sessionRequest_inv (h : Inv w) (id : String) (op : OperatorInfo)
    (caps : List AttachedCapability) : Inv (w.after (.sessionRequest id op caps)) := by
  simp only [World.after, step, onSessionRequest]
  split
  · exact h.then_quiet quiet_nil
  rename_i hfree
  have hnone : w.mgr.sessions[id]? = none := by
    rw [Bool.not_eq_true] at hfree
    exact Std.ExtTreeMap.getElem?_eq_none_of_contains_eq_false hfree
  have hclean : ∀ m, dirtyIn w.log id m = false := by
    intro m
    rw [Bool.eq_false_iff]
    intro hd
    obtain ⟨s, hs, -⟩ := h.owned id m hd
    rw [hnone] at hs
    cases hs
  have hposted : id ∉ w.mgr.posted := by
    intro hp
    obtain ⟨s, hs, -⟩ := h.posted_closed id hp
    rw [hnone] at hs
    cases hs
  simpa using h.update_session { operator := op, caps } hclean hposted

theorem finishClose_inv (h : Inv w) (id : String) :
    Inv ⟨w.mgr.finishClose id, w.log⟩ := by
  unfold finishClose
  cases hs : w.mgr.sessions[id]? with
  | none => exact h
  | some s =>
    dsimp only
    split
    · exact h
    rename_i hst
    rw [ne_eq, not_not] at hst
    have hposted : id ∉ w.mgr.posted := h.not_posted hs (by rw [hst]; decide)
    have hu := h.update_session { s with state := .closed }
      (h.clean_of_closing hs (by rw [hst]; decide)) hposted
    refine ⟨hu.exclusive, ?_, ?_, hu.owned⟩
    · exact Lib.nodup_snoc h.posted_nodup hposted
    intro i hi
    rcases Lib.mem_snoc.mp hi with hi | rfl
    · exact hu.posted_closed i hi
    exact ⟨{ s with state := .closed }, by simp, rfl⟩

theorem close_inv (h : Inv w) (id : String) (retry immediate : Bool) :
    Inv (w.after (.close id retry immediate)) := by
  simp only [World.after, step, close]
  cases hs : w.mgr.sessions[id]? with
  | none => exact h.then_quiet quiet_nil
  | some s =>
    dsimp only
    split
    · exact h.then_quiet quiet_nil
    rename_i hlive
    rw [ne_eq, not_not] at hlive
    have hq : Quiet (s.releaseEveryInput id) := by
      intro i k hmem
      simp [releaseEveryInput] at hmem
    have hrel := h.then_quiet hq
    have hclean : ∀ m, dirtyIn (w.log ++ s.releaseEveryInput id) id m = false := by
      intro m
      rw [Bool.eq_false_iff]
      intro hd
      obtain ⟨hd, hnot⟩ := dirtyIn_append_quiet hq hd
      obtain ⟨s', hs', -, ⟨c, hc, rfl⟩, hne, -⟩ := h.owned id m hd
      rw [hs, Option.some.injEq] at hs'
      subst hs'
      refine hnot (mem_map.mpr ⟨c, mem_filter.mpr ⟨hc, ?_⟩, rfl⟩)
      exact c.manifest.domain_inputBearing hne
    have hu := hrel.update_session { s with state := .closing, closingRetry := retry } hclean
      (h.not_posted hs (by rw [hlive]; decide))
    split
    · exact finishClose_inv hu id
    · exact hu

namespace SessionManager

variable (m : SessionManager)

theorem liveIn_iff (operatorId domain : String) :
    m.liveIn operatorId domain = true ↔
      ∃ (id : String) (s : Session), m.sessions[id]? = some s ∧ s.operator.id = operatorId ∧
        domain ∈ s.domains ∧ s.state ≠ .closed := by
  simp only [liveIn, any_eq_true, Prod.exists, Bool.and_eq_true, beq_iff_eq, bne_iff_ne,
    Std.ExtTreeMap.mem_toList_iff_getElem?_eq_some, Std.ExtTreeSet.contains_iff_mem, and_assoc]

/-- What dropping a domain's orphaned claim does: nothing while its holder
is kept or has a live session, else the claim is gone. -/
theorem dropOrphanedClaim_cases (hx : m.control.Exclusive)
    (keep domain : String) :
    (m.dropOrphanedClaim keep domain = (m, []) ∧
      ∀ h, m.control.holder domain = some h → h.op.id = keep ∨ m.liveIn h.op.id domain = true) ∨
    ∃ h, m.control.holder domain = some h ∧ h.op.id ≠ keep ∧ m.liveIn h.op.id domain = false ∧
      m.dropOrphanedClaim keep domain =
        ({ m with control := { m.control with held := m.control.held.erase domain } },
          ({ m with control := { m.control with held := m.control.held.erase domain } } :
            SessionManager).apply ⟨domain, none, .gone⟩) := by
  unfold dropOrphanedClaim
  cases hh : m.control.holder domain with
  | none => exact .inl ⟨rfl, nofun⟩
  | some h =>
    dsimp only
    by_cases hk : h.op.id = keep
    · refine .inl ⟨by simp [hk], ?_⟩
      rintro h' hh'
      cases hh'
      exact .inl hk
    cases hl : m.liveIn h.op.id domain with
    | true =>
      refine .inl ⟨by simp, ?_⟩
      rintro h' hh'
      cases hh'
      exact .inr hl
    | false =>
      refine .inr ⟨h, rfl, hk, hl, ?_⟩
      rw [gone_of_held hx hh]
      simp [hk]

end SessionManager

theorem dropOrphanedClaim_inv (h : Inv w) (keep domain : String) :
    Inv ⟨(w.mgr.dropOrphanedClaim keep domain).1,
      w.log ++ (w.mgr.dropOrphanedClaim keep domain).2⟩ := by
  rcases w.mgr.dropOrphanedClaim_cases h.exclusive keep domain with
    ⟨heq, -⟩ | ⟨k, hk, -, hdead, heq⟩
  · rw [heq]
    exact h.then_quiet quiet_nil
  rw [heq]
  refine ⟨erase_exclusive h.exclusive domain, h.posted_nodup, h.posted_closed, ?_⟩
  intro id m hd
  obtain ⟨hd, -⟩ := dirtyIn_append_quiet (quiet_apply _ _) hd
  obtain ⟨s, hs, hlive, ⟨c, hc, rfl⟩, hne, hresp⟩ := h.owned id m hd
  refine ⟨s, hs, hlive, ⟨c, hc, rfl⟩, hne, ?_⟩
  show ({ w.mgr.control with held := w.mgr.control.held.erase domain } :
    ControlDomains).responsible c.manifest.controlDomain = _
  rw [erase_responsible h.exclusive hk]
  split
  · rename_i hdom
    rw [hdom, responsible_of_holder hk, Option.some.injEq] at hresp
    have hl : w.mgr.liveIn k.op.id domain = true :=
      (w.mgr.liveIn_iff _ _).mpr ⟨id, s, hs, hresp.symm,
        mem_domains.mpr ⟨hdom ▸ hne, c, hc, hdom⟩, by rw [hlive]; decide⟩
    rw [hdead] at hl
    cases hl
  · exact hresp

theorem runPosted_inv (h : Inv w) : Inv (w.after .runPosted) := by
  simp only [World.after, step, runPosted]
  cases hp : w.mgr.posted with
  | nil => exact h.then_quiet quiet_nil
  | cons id rest =>
    have hnd := h.posted_nodup
    rw [hp, nodup_cons] at hnd
    obtain ⟨s, hs, hclosed⟩ := h.posted_closed id (hp ▸ mem_cons_self)
    have herase : Inv ⟨{ w.mgr with sessions := w.mgr.sessions.erase id, posted := rest },
        w.log⟩ := by
      refine ⟨h.exclusive, hnd.2, ?_, ?_⟩
      · intro i hi
        obtain ⟨s', hs', hst'⟩ := h.posted_closed i (hp ▸ mem_cons_of_mem _ hi)
        have hne : id ≠ i := fun he => hnd.1 (he ▸ hi)
        exact ⟨s', by simpa [Std.ExtTreeMap.getElem?_erase, hne] using hs', hst'⟩
      intro i m hd
      have hne : id ≠ i := by
        rintro rfl
        rw [h.clean_of_closing hs (by rw [hclosed]; decide) m] at hd
        cases hd
      obtain ⟨s', hs', hrest⟩ := h.owned i m hd
      exact ⟨s', by simpa [Std.ExtTreeMap.getElem?_erase, hne] using hs', hrest⟩
    have h1 := dropOrphanedClaim_inv herase (w.mgr.keepFor id) "desktop"
    have h2 := dropOrphanedClaim_inv h1 (w.mgr.keepFor id) "motion"
    rw [append_assoc] at h2
    exact h2

theorem step_inv (h : Inv w) (op : Op) : Inv (w.after op) := by
  cases op with
  | sessionRequest id op caps => exact sessionRequest_inv h id op caps
  | text id env now nowMs => exact text_inv h id env now nowMs
  | data id capName wellFormed now nowMs => exact data_inv h id capName wellFormed now nowMs
  | tick now => exact h.handover (w.mgr.controlTick_handover now)
  | close id retry immediate => exact close_inv h id retry immediate
  | finishClose id => simpa [World.after, step] using finishClose_inv h id
  | runPosted => exact runPosted_inv h

theorem reachable_inv {known : List String} (hw : (system known).Reachable w) :
    Inv w :=
  (system known).invariant (Inv.init known)
    (fun w op w' h hstep => by
      obtain rfl : w.after op = w' := Option.some.inj hstep
      exact step_inv h op) hw

/-! ## The result -/

/-- A drive capability in the motion domain. -/
def driveCap : AttachedCapability :=
  ⟨⟨"fjarr.test", true, "motion", ["drive"], fun _ => rfl⟩, false⟩

/-- Two operators' sessions, the first of them driving. -/
def driven : World :=
  (((system []).init.after (.sessionRequest "a" ⟨"anna", "Anna"⟩ [driveCap])).after
    (.sessionRequest "b" ⟨"bob", "Bob"⟩ [driveCap])).after
    (.text "a" ⟨"fjarr.test", "drive", .event, none⟩ 0 0)

theorem driven_reachable : (system []).Reachable driven :=
  (((system []).reachable_init.step rfl).step rfl).step rfl

/-- **Ends are posted once** in every run. -/
theorem posted_once {known : List String} (hw : (system known).Reachable w) :
    w.mgr.posted.Nodup ∧
      ∀ id ∈ w.mgr.posted, ∃ s, w.mgr.sessions[id]? = some s ∧ s.state = .closed :=
  ⟨(reachable_inv hw).posted_nodup, (reachable_inv hw).posted_closed⟩

theorem posted_once_close : ∃ s,
    (driven.after (.close "a" true true)).mgr.sessions["a"]? = some s ∧ s.state = .closed :=
  (posted_once (driven_reachable.step rfl)).2 "a" (by decide +kernel)

end Fjarr.Control
