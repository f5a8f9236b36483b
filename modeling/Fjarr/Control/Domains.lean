/-
Fjarr.Control.Domains — `core/control_domains.{hpp,cpp}`: who holds each
control domain, and when that ends.

The class is pure bookkeeping over two `std::map`s, with the time passed
in: `held_` (domain to holder) and `idle_previous_` (a desktop freed by
idleness, to the operator whose input is released once someone else
claims it). Every operation that moves a domain to another operator
returns a `Change`, whose `release` names the operator whose input has to
be released before anything else happens in the domain.

What the two maps mean together is `responsible`: the one operator whose
input may still be down in a domain. Under `Exclusive` (no domain is in
both maps) each operation below is characterised by what it does to
`responsible` and by the release it asks for, and nothing above this
module looks at the maps again:

| operation   | `responsible` afterwards | release asked for            |
|-------------|--------------------------|------------------------------|
| `claim`     | the claimer              | the old one, if another      |
| `release`   | nobody                   | the holder                   |
| `gone`      | nobody                   | none (the caller's business) |
| `expire`    | nobody / unchanged       | the stale holder / none      |
-/
import Fjarr.Lib.Transition

namespace Fjarr.Control

open List Option

/-- `steady_clock::time_point`, in nanoseconds. -/
abbrev Time := Int

/-- `fjarr::OperatorInfo`. -/
structure OperatorInfo where
  id : String
  label : String
  deriving DecidableEq, Repr

/-- `ControlDomains::DESKTOP_IDLE`. -/
def desktopIdle : Time := 5 * 1000000000

/-- `ControlDomains::STALE`. -/
def staleAfter : Time := 30 * 1000000000

/-- `ControlDomains::Holder`. -/
structure Holder where
  op : OperatorInfo
  sinceMs : Int
  lastInput : Time
  lastHeartbeat : Time
  deriving DecidableEq, Repr

/-- The `why` of a change. -/
inductive Why where
  | claim | take | release | idle | stale | gone
  deriving DecidableEq, Repr

/-- `ControlDomains::Change`: a change of holder, and the operator whose
input must be released now. -/
structure Change where
  domain : String
  release : Option String
  why : Why
  deriving DecidableEq, Repr

/-- `ControlDomains`: `held_` and `idle_previous_`. -/
structure ControlDomains where
  held : Std.ExtTreeMap String Holder := {}
  idlePrevious : Std.ExtTreeMap String String := {}

/-- `ControlDomains::Outcome`. -/
inductive Outcome where
  | allowed | held
  deriving DecidableEq, Repr

/-- `ControlDomains::InputResult`. -/
structure InputResult where
  outcome : Outcome
  change : Option Change
  deriving DecidableEq, Repr

namespace ControlDomains

variable (c : ControlDomains) (domain : String)

/-- `ControlDomains::known`: the domains `take-control` and
`release-control` may name. -/
def known : Bool := domain == "desktop" || domain == "motion"

/-- `ControlDomains::holder`. -/
def holder : Option Holder := c.held[domain]?

/-- `ControlDomains::claim`. -/
def claim (op : OperatorInfo) (now : Time) (nowMs : Int)
    (why : Why) : Change × ControlDomains :=
  let fromHeld := match c.held[domain]? with
    | some h => if h.op.id ≠ op.id then some h.op.id else none
    | none => none
  -- an idle desktop holder may still have a key or button down
  let release := match c.idlePrevious[domain]? with
    | some previous => if fromHeld.isNone && previous != op.id then some previous else fromHeld
    | none => fromHeld
  (⟨domain, release, why⟩,
    { held := c.held.insert domain ⟨op, nowMs, now, now⟩
      idlePrevious := c.idlePrevious.erase domain })

/-- `ControlDomains::input`. -/
def input (op : OperatorInfo) (now : Time) (nowMs : Int) :
    InputResult × ControlDomains :=
  match c.held[domain]? with
  | none =>
    let (change, c') := c.claim domain op now nowMs .claim
    (⟨.allowed, some change⟩, c')
  | some h =>
    if h.op.id ≠ op.id then (⟨.held, none⟩, c)
    else (⟨.allowed, none⟩, { c with held := c.held.insert domain { h with lastInput := now } })

/-- `ControlDomains::take`. -/
def take (c : ControlDomains) (domain : String) (op : OperatorInfo) (now : Time) (nowMs : Int) :
    Option Change × ControlDomains :=
  match c.held[domain]? with
  | some h =>
    if h.op.id = op.id then
      -- taking what you hold restarts the desktop idle clock
      (none, { c with held := c.held.insert domain { h with lastInput := now } })
    else
      let (change, c') := c.claim domain op now nowMs .take
      (some change, c')
  | none =>
    let (change, c') := c.claim domain op now nowMs .take
    (some change, c')

/-- `ControlDomains::release`. -/
def release (c : ControlDomains) (domain operatorId : String) : Option Change × ControlDomains :=
  match c.held[domain]? with
  | some h =>
    if h.op.id ≠ operatorId then (none, c)
    else (some ⟨domain, some operatorId, .release⟩, { c with held := c.held.erase domain })
  | none => (none, c)

/-- `ControlDomains::gone`. -/
def gone (c : ControlDomains) (domain operatorId : String) : Option Change × ControlDomains :=
  let c1 : ControlDomains :=
    if c.idlePrevious[domain]? = some operatorId then
      { c with idlePrevious := c.idlePrevious.erase domain }
    else c
  match c1.held[domain]? with
  | some h =>
    if h.op.id ≠ operatorId then (none, c1)
    else (some ⟨domain, none, .gone⟩, { c1 with held := c1.held.erase domain })
  | none => (none, c1)

/-- `ControlDomains::heartbeat`. -/
def heartbeat (operatorId : String) (now : Time) : ControlDomains :=
  { c with
    held := c.held.map fun _ h => if h.op.id = operatorId then { h with lastHeartbeat := now } else h }

/-- What `expire` decides about one entry of `held_`: `some` names the
reason its claim ends. -/
def verdict (now : Time) (domain : String) (h : Holder) : Option Why :=
  if now - h.lastHeartbeat > staleAfter then some .stale
  else if domain = "desktop" ∧ now - h.lastInput > desktopIdle then some .idle
  else none

/-- The loop of `ControlDomains::expire` over the entries it has still to
visit. -/
def expireLoop (now : Time) :
    List (String × Holder) → ControlDomains → List Change × ControlDomains
  | [], c => ([], c)
  | (domain, h) :: rest, c =>
    match verdict now domain h with
    | some .stale =>
      let (out, c') := expireLoop now rest { c with held := c.held.erase domain }
      (⟨domain, some h.op.id, .stale⟩ :: out, c')
    | some .idle =>
      -- not released now: an idle holder may be mid-drag
      let (out, c') := expireLoop now rest
        { held := c.held.erase domain, idlePrevious := c.idlePrevious.insert domain h.op.id }
      (⟨domain, none, .idle⟩ :: out, c')
    | _ => expireLoop now rest c

/-- `ControlDomains::expire`. -/
def expire (now : Time) : List Change × ControlDomains :=
  expireLoop now c.held.toList c

end ControlDomains

/-! ## Who is responsible for a domain's input -/

namespace ControlDomains

/-- The operator whose input may still be down in the domain: its holder,
or the idle holder it was freed from. -/
def responsible (c : ControlDomains) (domain : String) : Option String :=
  match c.held[domain]? with
  | some h => some h.op.id
  | none => c.idlePrevious[domain]?

/-- No domain is held and remembered as idle at once. -/
def Exclusive (c : ControlDomains) : Prop :=
  ∀ (domain : String) (h : Holder), c.held[domain]? = some h → c.idlePrevious[domain]? = none

variable {c : ControlDomains} {domain : String} {h : Holder}

theorem responsible_of_held
    (hh : c.held[domain]? = some h) : c.responsible domain = some h.op.id := by
  rw [responsible, hh]

theorem responsible_of_free
    (hh : c.held[domain]? = none) : c.responsible domain = c.idlePrevious[domain]? := by
  rw [responsible, hh]

theorem exclusive_empty : Exclusive {} := by
  intro domain h hh
  simp at hh

/-- Refreshing a holder's clocks, the operator kept, changes neither who
is responsible nor the exclusion of the two maps. -/
theorem refresh_responsible {h' : Holder}
    (hh : c.held[domain]? = some h) (hop : h'.op = h.op) (d : String) :
    ({ c with held := c.held.insert domain h' } : ControlDomains).responsible d
      = c.responsible d := by
  simp only [responsible, Std.ExtTreeMap.getElem?_insert, Std.LawfulEqCmp.compare_eq_iff_eq]
  by_cases hd : domain = d
  · subst hd
    simp [hh, hop]
  · simp [hd]

theorem refresh_exclusive (hx : c.Exclusive)
    (hh : c.held[domain]? = some h) (h' : Holder) :
    ({ c with held := c.held.insert domain h' } : ControlDomains).Exclusive := by
  intro d k hk
  simp only [Std.ExtTreeMap.getElem?_insert, Std.LawfulEqCmp.compare_eq_iff_eq] at hk
  split at hk
  · rename_i hd
    exact hd ▸ hx domain h hh
  · exact hx d k hk

/-! ### `claim` -/

theorem claim_held (c : ControlDomains) (domain : String) (op : OperatorInfo) (now : Time)
    (nowMs : Int) (why : Why) (d : String) :
    (c.claim domain op now nowMs why).2.held[d]? =
      if d = domain then some ⟨op, nowMs, now, now⟩ else c.held[d]? := by
  simp only [claim, Std.ExtTreeMap.getElem?_insert, Std.LawfulEqCmp.compare_eq_iff_eq]
  by_cases hd : d = domain
  · rw [if_pos hd.symm, if_pos hd]
  · rw [if_neg (Ne.symm hd), if_neg hd]

theorem claim_idlePrevious (c : ControlDomains) (domain : String) (op : OperatorInfo)
    (now : Time) (nowMs : Int) (why : Why) (d : String) :
    (c.claim domain op now nowMs why).2.idlePrevious[d]? =
      if d = domain then none else c.idlePrevious[d]? := by
  simp only [claim, Std.ExtTreeMap.getElem?_erase, Std.LawfulEqCmp.compare_eq_iff_eq]
  by_cases hd : d = domain
  · rw [if_pos hd.symm, if_pos hd]
  · rw [if_neg (Ne.symm hd), if_neg hd]

/-- A claim asks for the release of whoever was responsible, unless it is
the claimer. -/
theorem claim_release (hx : c.Exclusive) (domain : String)
    (op : OperatorInfo) (now : Time) (nowMs : Int) (why : Why) :
    (c.claim domain op now nowMs why).1.release =
      (c.responsible domain).filter (fun previous => previous != op.id) := by
  cases hh : c.held[domain]? with
  | some h =>
    have hi := hx domain h hh
    simp only [claim, responsible, hh, hi, filter_some]
    by_cases hid : h.op.id = op.id <;> simp [hid]
  | none =>
    cases hi : c.idlePrevious[domain]? with
    | none => simp [claim, responsible, hh, hi]
    | some previous => simp [claim, responsible, hh, hi, filter_some]

theorem claim_responsible (c : ControlDomains) (domain : String) (op : OperatorInfo)
    (now : Time) (nowMs : Int) (why : Why) (d : String) :
    (c.claim domain op now nowMs why).2.responsible d =
      if d = domain then some op.id else c.responsible d := by
  simp only [responsible, claim_held, claim_idlePrevious]
  by_cases hd : d = domain <;> simp [hd]

theorem claim_exclusive (hx : c.Exclusive) (domain : String)
    (op : OperatorInfo) (now : Time) (nowMs : Int) (why : Why) :
    (c.claim domain op now nowMs why).2.Exclusive := by
  intro d h hh
  rw [claim_held] at hh
  rw [claim_idlePrevious]
  split at hh
  · rw [if_pos ‹_›]
  · rw [if_neg ‹_›]
    exact hx d h hh

/-! ### `release`, `gone`, `heartbeat` -/

theorem erase_responsible (hx : c.Exclusive)
    (hh : c.held[domain]? = some h) (d : String) :
    ({ c with held := c.held.erase domain } : ControlDomains).responsible d =
      if d = domain then none else c.responsible d := by
  simp only [responsible, Std.ExtTreeMap.getElem?_erase, Std.LawfulEqCmp.compare_eq_iff_eq]
  by_cases hd : d = domain
  · subst hd
    simp [hx d h hh]
  · simp [hd, Ne.symm hd]

theorem erase_exclusive (hx : c.Exclusive) (domain : String) :
    ({ c with held := c.held.erase domain } : ControlDomains).Exclusive := by
  intro d h hh
  simp only [Std.ExtTreeMap.getElem?_erase, Std.LawfulEqCmp.compare_eq_iff_eq] at hh
  split at hh
  · cases hh
  · exact hx d h hh

/-- `release` either changes nothing or ends the operator's own claim and
asks for its release. -/
theorem release_cases (c : ControlDomains) (domain operatorId : String) :
    c.release domain operatorId = (none, c) ∨
      ∃ h, c.held[domain]? = some h ∧ h.op.id = operatorId ∧
        c.release domain operatorId =
          (some ⟨domain, some operatorId, .release⟩, { c with held := c.held.erase domain }) := by
  unfold release
  cases hh : c.held[domain]? with
  | none => exact .inl rfl
  | some h =>
    by_cases hid : h.op.id = operatorId
    · exact .inr ⟨h, rfl, hid, by simp [hid]⟩
    · exact .inl (by simp [hid])

theorem gone_of_held (hx : c.Exclusive)
    (hh : c.held[domain]? = some h) :
    c.gone domain h.op.id =
      (some ⟨domain, none, .gone⟩, { c with held := c.held.erase domain }) := by
  have hi := hx domain h hh
  simp [gone, hi, hh]

theorem heartbeat_held (c : ControlDomains) (operatorId : String) (now : Time) (d : String) :
    (c.heartbeat operatorId now).held[d]? =
      (c.held[d]?).map fun h =>
        if h.op.id = operatorId then { h with lastHeartbeat := now } else h := by
  simp [heartbeat]

theorem heartbeat_responsible (c : ControlDomains) (operatorId : String) (now : Time)
    (d : String) : (c.heartbeat operatorId now).responsible d = c.responsible d := by
  simp only [responsible, heartbeat_held]
  cases hh : c.held[d]? with
  | none => rfl
  | some h => by_cases hid : h.op.id = operatorId <;> simp [hid]

theorem heartbeat_exclusive (hx : c.Exclusive) (operatorId : String)
    (now : Time) : (c.heartbeat operatorId now).Exclusive := by
  intro d h hh
  rw [heartbeat_held, map_eq_some_iff] at hh
  obtain ⟨h0, hh0, -⟩ := hh
  exact hx d h0 hh0

/-! ### `expire` -/

theorem verdict_cases (now : Time) (domain : String) (h : Holder) :
    verdict now domain h = none ∨ verdict now domain h = some .stale ∨
      verdict now domain h = some .idle := by
  unfold verdict
  split
  · exact .inr (.inl rfl)
  split
  · exact .inr (.inr rfl)
  · exact .inl rfl

section

variable (now : Time) (l : List (String × Holder)) (c : ControlDomains)

theorem expireLoop_held (d : String) :
    (expireLoop now l c).2.held[d]? =
      if l.any (fun p => p.1 = d && (verdict now d p.2).isSome) then none else c.held[d]? := by
  induction l generalizing c with
  | nil => simp [expireLoop]
  | cons p l ih =>
    obtain ⟨k, h⟩ := p
    rw [any_cons]
    by_cases hkd : k = d
    · subst hkd
      rcases verdict_cases now k h with hv | hv | hv <;>
        simp only [expireLoop, hv, ih, isSome_none, Bool.and_false, Bool.false_or] <;> simp
    simp only [hkd, decide_false, Bool.false_and, Bool.false_or]
    rcases verdict_cases now k h with hv | hv | hv <;>
      simp [expireLoop, hv, ih, hkd, Std.ExtTreeMap.getElem?_erase]

theorem expireLoop_idlePrevious_of_not_idle (d : String)
    (hd : ∀ h, (d, h) ∈ l → verdict now d h ≠ some .idle) :
    (expireLoop now l c).2.idlePrevious[d]? = c.idlePrevious[d]? := by
  induction l generalizing c with
  | nil => rfl
  | cons p l ih =>
    obtain ⟨k, h⟩ := p
    have hrest : ∀ g, (d, g) ∈ l → verdict now d g ≠ some .idle :=
      fun g hg => hd g (mem_cons_of_mem _ hg)
    rcases verdict_cases now k h with hv | hv | hv
    · simp only [expireLoop, hv]; exact ih c hrest
    · simp only [expireLoop, hv]; exact ih _ hrest
    have hkd : k ≠ d := by
      rintro rfl
      exact hd h mem_cons_self hv
    simp only [expireLoop, hv]
    rw [ih _ hrest]
    simp [Std.ExtTreeMap.getElem?_insert, hkd]

theorem expireLoop_idlePrevious_of_idle {d : String} (hmem : (d, h) ∈ l)
    (hfun : ∀ g, (d, g) ∈ l → g = h) (hv : verdict now d h = some .idle) :
    (expireLoop now l c).2.idlePrevious[d]? = some h.op.id := by
  induction l generalizing c with
  | nil => cases hmem
  | cons p l ih =>
    obtain ⟨k, g⟩ := p
    have hrest : ∀ g, (d, g) ∈ l → g = h := fun g hg => hfun g (mem_cons_of_mem _ hg)
    by_cases hl : (d, h) ∈ l
    · rcases verdict_cases now k g with hk | hk | hk <;> simp only [expireLoop, hk] <;>
        exact ih _ hl hrest
    obtain ⟨rfl, rfl⟩ : d = k ∧ h = g := by
      rcases mem_cons.mp hmem with he | he
      · exact Prod.mk.inj he
      · exact absurd he hl
    simp only [expireLoop, hv]
    rw [expireLoop_idlePrevious_of_not_idle]
    · simp
    · intro g' hg'
      exact absurd (hrest g' hg' ▸ hg') hl

theorem expireLoop_changes (ch : Change) :
    ch ∈ (expireLoop now l c).1 ↔
      ∃ d h, (d, h) ∈ l ∧ (verdict now d h = some .stale ∧ ch = ⟨d, some h.op.id, .stale⟩ ∨
        verdict now d h = some .idle ∧ ch = ⟨d, none, .idle⟩) := by
  induction l generalizing c with
  | nil => simp [expireLoop]
  | cons p l ih =>
    obtain ⟨k, h⟩ := p
    have hsplit : ∀ R : String → Holder → Prop,
        (∃ d g, (d, g) ∈ (k, h) :: l ∧ R d g) ↔ R k h ∨ ∃ d g, (d, g) ∈ l ∧ R d g := by
      intro R
      constructor
      · rintro ⟨d, g, hg, hR⟩
        rcases mem_cons.mp hg with hg | hg
        · cases hg; exact .inl hR
        · exact .inr ⟨d, g, hg, hR⟩
      rintro (hR | ⟨d, g, hg, hR⟩)
      · exact ⟨k, h, mem_cons_self, hR⟩
      · exact ⟨d, g, mem_cons_of_mem _ hg, hR⟩
    rw [hsplit]
    rcases verdict_cases now k h with hv | hv | hv <;> simp [expireLoop, hv, ih]

end

theorem expire_held (c : ControlDomains) (now : Time) (d : String) :
    (c.expire now).2.held[d]? = (c.held[d]?).filter fun h => (verdict now d h).isNone := by
  have hany : c.held.toList.any (fun p => p.1 = d && (verdict now d p.2).isSome) = true ↔
      ∃ h, c.held[d]? = some h ∧ (verdict now d h).isSome = true := by
    simp only [List.any_eq_true, Bool.and_eq_true, decide_eq_true_eq, Prod.exists,
      Std.ExtTreeMap.mem_toList_iff_getElem?_eq_some]
    constructor
    · rintro ⟨k, h, hh, rfl, hv⟩
      exact ⟨h, hh, hv⟩
    · rintro ⟨h, hh, hv⟩
      exact ⟨d, h, hh, rfl, hv⟩
  rw [expire, expireLoop_held]
  simp only [hany]
  cases hh : c.held[d]? with
  | none => simp
  | some h => cases hv : verdict now d h <;> simp [hv, filter_some]

theorem expire_held_of_not_ended {now : Time} {d : String}
    (hh : c.held[d]? = some h) (hv : verdict now d h = none) :
    (c.expire now).2.held[d]? = some h := by
  rw [expire_held, hh, filter_some, hv]
  rfl

theorem expire_exclusive (hx : c.Exclusive) (now : Time) :
    (c.expire now).2.Exclusive := by
  intro d h hh
  rw [expire_held, filter_eq_some_iff] at hh
  obtain ⟨hh, hv⟩ := hh
  rw [expire, expireLoop_idlePrevious_of_not_idle]
  · exact hx d h hh
  intro g hg hidle
  rw [Std.ExtTreeMap.mem_toList_iff_getElem?_eq_some, hh, some.injEq] at hg
  subst hg
  simp [hidle] at hv

/-- `expire` leaves a domain's responsible operator in place, unless that
is a stale holder: then nobody is, and one of the changes returned
releases it. -/
theorem expire_responsible (hx : c.Exclusive) (now : Time) (d : String) :
    (c.expire now).2.responsible d = c.responsible d ∨
      ∃ h, c.held[d]? = some h ∧ (c.expire now).2.responsible d = none ∧
        (⟨d, some h.op.id, .stale⟩ : Change) ∈ (c.expire now).1 := by
  have hmem : ∀ g, (d, g) ∈ c.held.toList ↔ c.held[d]? = some g := fun g =>
    Std.ExtTreeMap.mem_toList_iff_getElem?_eq_some
  have hnot : (∀ g, c.held[d]? = some g → verdict now d g ≠ some .idle) →
      (c.expire now).2.idlePrevious[d]? = c.idlePrevious[d]? := fun hn =>
    expireLoop_idlePrevious_of_not_idle now _ c d fun g hg => hn g ((hmem g).mp hg)
  cases hh : c.held[d]? with
  | none =>
    left
    rw [responsible_of_free hh, responsible_of_free (by rw [expire_held, hh]; rfl)]
    exact hnot fun g hg => by rw [hh] at hg; cases hg
  | some h =>
    rcases verdict_cases now d h with hv | hv | hv
    · left
      rw [responsible_of_held hh, responsible_of_held (expire_held_of_not_ended hh hv)]
    · right
      refine ⟨h, rfl, ?_, ?_⟩
      · rw [responsible_of_free (by rw [expire_held, hh, filter_some, hv]; rfl), hnot]
        · exact hx d h hh
        intro g hg
        rw [hh, some.injEq] at hg
        subst hg
        rw [hv]
        simp
      · rw [expire, expireLoop_changes]
        exact ⟨d, h, (hmem h).mpr hh, .inl ⟨hv, rfl⟩⟩
    left
    rw [responsible_of_held hh,
      responsible_of_free (by rw [expire_held, hh, filter_some, hv]; rfl), expire,
      expireLoop_idlePrevious_of_idle now _ c ((hmem h).mpr hh) _ hv]
    intro g hg
    rw [hmem, hh, some.injEq] at hg
    exact hg.symm

end ControlDomains

end Fjarr.Control
