/-
Fjarr.Web.RobotClipboard — the robot's clipboard in the browser:
`DesktopClipboard` (`web/packages/core/src/desktop.ts`), its
`onOffer`/`readContent`/`pull` and `copyFromRobot`.

An offer starts a chain of its own: a `clipboard-read`, the blob's
reception, and the browser's write. Each ends in the two fields `held` and
`state`, and none looks whether its offer is still the newest one. So a
chain that is overtaken by a newer offer's puts the older copy over the
newer (`older_copy_last`). While an offer comes only when no chain is under
way, the fields and the browser are those of the newest offer
(`follows_newest`).

The chains under way are a list, of which any may go on at any time. An
offer is known by its place among the offers, and content by the offer it
was read for. The text of an error and `dispose` are left out.
-/
import Fjarr.Lib.Transition

namespace Fjarr.Web.RobotClipboard

open Lib List

/-! ## The clipboard -/

inductive Mime where
  | text
  | png
  | other
  deriving DecidableEq, Repr

/-- The type that is read of an offer: the image in preference to the
text. -/
def wanted (types : List Mime) : Option Mime :=
  if .png ∈ types then some .png else if .text ∈ types then some .text else none

inductive Sync where
  | idle
  | synced
  | needsGesture
  | failed
  deriving DecidableEq, Repr

variable {D : Type}

structure Content (D : Type) where
  offer : Nat
  type : Mime
  data : D
  deriving DecidableEq, Repr

inductive Stage (D : Type) where
  /-- `clipboard-read` was sent. -/
  | reading
  /-- Its result came; `bulk.receive` waits for the bytes. -/
  | receiving
  /-- `toBrowser` was called. -/
  | writing (data : D)
  deriving DecidableEq, Repr

/-- A call of `pull`, or of `copyFromRobot`, that waits for something. -/
structure Chain (D : Type) where
  pull : Bool
  offer : Nat
  type : Mime
  stage : Stage D
  deriving DecidableEq, Repr

structure State (D : Type) where
  autoSync : Bool := true
  /-- The number of offers so far. -/
  count : Nat := 0
  offer : Option (List Mime) := none
  held : Option (Content D) := none
  sync : Sync := .idle
  chains : List (Chain D) := []
  /-- What was written to the browser's clipboard. -/
  browser : List (Content D) := []
  deriving DecidableEq, Repr

namespace State

variable (s : State D) (i : Nat)

/-- The type the newest offer is read in, if it has a supported one. -/
def wanted (s : State D) : Option Mime := s.offer.bind RobotClipboard.wanted

/-- `onOffer`, up to where it waits. -/
def onOffer (types : List Mime) : State D :=
  let s := { s with count := s.count + 1, offer := some types, held := none }
  match RobotClipboard.wanted types with
  | none => { s with sync := .idle }
  | some type =>
    if s.autoSync then
      { s with chains := s.chains ++ [{ pull := true, offer := s.count, type, stage := .reading }] }
    else s

/-- `copyFromRobot`, up to where it waits. -/
def copyFromRobot : State D :=
  match s.held with
  | some c =>
    { s with
      chains := s.chains ++
        [{ pull := false, offer := c.offer, type := c.type, stage := .writing c.data }] }
  | none =>
    match s.wanted with
    | none => s
    | some type =>
      { s with
        chains := s.chains ++ [{ pull := false, offer := s.count, type, stage := .reading }] }

/-- `readContent` threw: a `pull` catches it. -/
def readFailed (c : Chain D) : State D :=
  { s with
    chains := s.chains.eraseIdx i
    sync := if c.pull then .failed else s.sync }

def goOn (c : Chain D) (stage : Stage D) : State D :=
  { s with chains := s.chains.set i { c with stage } }

/-- The browser took it. -/
def written (c : Chain D) (data : D) : State D :=
  { s with
    chains := s.chains.eraseIdx i
    browser := s.browser ++ [{ offer := c.offer, type := c.type, data }]
    held := none
    sync := .synced }

/-- The browser refused it: a `pull` keeps it for `copyFromRobot`. -/
def refused (c : Chain D) (data : D) : State D :=
  let s := { s with chains := s.chains.eraseIdx i }
  if c.pull then
    { s with held := some { offer := c.offer, type := c.type, data }, sync := .needsGesture }
  else s

end State

inductive Act (D : Type) where
  | offer (types : List Mime)
  | copyFromRobot
  /-- The result of chain `i`'s `clipboard-read`. -/
  | result (i : Nat) (ok : Bool)
  /-- The end of its blob's reception. -/
  | received (i : Nat) (data : Option D)
  /-- The end of its write. -/
  | wrote (i : Nat) (ok : Bool)
  deriving DecidableEq, Repr

def step (s : State D) : Act D → Option (State D)
  | .offer types => some (s.onOffer types)
  | .copyFromRobot => some s.copyFromRobot
  | .result i ok => s.chains[i]?.bind fun c =>
    match c.stage with
    | .reading => some (if ok then s.goOn i c .receiving else s.readFailed i c)
    | _ => none
  | .received i data => s.chains[i]?.bind fun c =>
    match c.stage, data with
    | .receiving, some data => some (s.goOn i c (.writing data))
    | .receiving, none => some (s.readFailed i c)
    | _, _ => none
  | .wrote i ok => s.chains[i]?.bind fun c =>
    match c.stage with
    | .writing data => some (if ok then s.written i c data else s.refused i c data)
    | _ => none

def clipboard (D : Type) (autoSync : Bool) : System (State D) (Act D) where
  init := { autoSync }
  step := step

/-- No offer comes while a chain is under way, and the clipboard syncs. -/
def Quiet (s : State D) : Act D → Prop
  | .offer _ => s.autoSync = true ∧ s.chains = []
  | _ => True

instance [DecidableEq D] (s : State D) : DecidablePred (Quiet s)
  | .offer _ => inferInstanceAs (Decidable (s.autoSync = true ∧ s.chains = []))
  | .copyFromRobot | .result .. | .received .. | .wrote .. => isTrue trivial

/-! ## What a step keeps -/

/-- The fields are those of the newest offer's own read. -/
def State.Settled (s : State D) : Prop :=
  match s.wanted with
  | none => s.sync = .idle ∧ s.held = none
  | some type =>
    (s.sync = .synced ∧ s.held = none ∧
      ∃ data, s.browser.getLast? = some { offer := s.count, type, data }) ∨
    (s.sync = .needsGesture ∧ ∃ data, s.held = some { offer := s.count, type, data }) ∨
    (s.sync = .failed ∧ s.held = none)

structure State.Current (s : State D) : Prop where
  chains : ∀ c ∈ s.chains, c.offer = s.count ∧ s.wanted = some c.type
  held : ∀ c, s.held = some c → c.offer = s.count ∧ s.wanted = some c.type
  /-- The newest offer's `pull` is under way, or it was. -/
  state : (s.chains.countP (·.pull) = 1 ∧ s.held = none) ∨
    (s.chains.countP (·.pull) = 0 ∧ s.Settled)
  browser : (∀ c ∈ s.browser, c.offer ≤ s.count) ∧
    s.browser.Pairwise fun a b => a.offer ≤ b.offer

section

variable {s s' : State D} {c : Chain D} {i : Nat}

theorem countP_eraseIdx (h : s.chains[i]? = some c) :
    (s.chains.eraseIdx i).countP (·.pull) + (if c.pull then 1 else 0) =
      s.chains.countP (·.pull) := by
  obtain ⟨hi, rfl⟩ := List.getElem?_eq_some_iff.mp h
  rw [← (getElem_cons_eraseIdx_perm hi).countP_eq, countP_cons]

theorem countP_set (h : s.chains[i]? = some c) (stage : Stage D) :
    (s.chains.set i { c with stage }).countP (·.pull) = s.chains.countP (·.pull) := by
  obtain ⟨hi, rfl⟩ := List.getElem?_eq_some_iff.mp h
  have hpos : s.chains[i].pull = true → 0 < s.chains.countP (·.pull) := fun hpull =>
    countP_pos_iff.mpr ⟨_, getElem_mem hi, hpull⟩
  rw [List.countP_set hi]
  dsimp only
  split
  · rename_i hpull
    have := hpos hpull
    omega
  · omega

theorem current_init (autoSync : Bool) : (clipboard D autoSync).init.Current where
  chains := by simp [clipboard]
  held := by simp [clipboard]
  state := .inr ⟨rfl, rfl, rfl⟩
  browser := ⟨by simp [clipboard], .nil⟩

variable (h : s.Current)
include h

theorem State.Current.onOffer (hsync : s.autoSync = true) (hquiet : s.chains = [])
    (types : List Mime) : (s.onOffer types).Current := by
  have hbrowser : (∀ c ∈ s.browser, c.offer ≤ s.count + 1) ∧
      s.browser.Pairwise fun a b => a.offer ≤ b.offer :=
    ⟨fun c hc => (h.browser.1 c hc).trans (Nat.le_succ _), h.browser.2⟩
  unfold State.onOffer
  cases hwanted : RobotClipboard.wanted types with
  | none =>
    refine ⟨by simp [hquiet], by simp, .inr ⟨by simp [hquiet], ?_⟩, hbrowser⟩
    simp [State.Settled, State.wanted, hwanted]
  | some type =>
    simp only [hsync, if_true, hquiet, nil_append]
    refine ⟨?_, by simp, .inl ⟨by simp, rfl⟩, hbrowser⟩
    simp [State.wanted, hwanted]

/-- Chains that begin, go on or end, the `pull` aside. -/
theorem State.Current.setChains {chains : List (Chain D)}
    (hchains : ∀ c ∈ chains, c.offer = s.count ∧ s.wanted = some c.type)
    (hcount : chains.countP (·.pull) = s.chains.countP (·.pull)) :
    Current { s with chains } := by
  refine ⟨hchains, h.held, ?_, h.browser⟩
  rw [hcount]
  exact h.state

/-- Another chain that reads or writes the newest offer's content. -/
theorem State.Current.append (stage : Stage D) {type : Mime} (htype : s.wanted = some type) :
    Current
      { s with chains := s.chains ++ [{ pull := false, offer := s.count, type, stage }] } := by
  refine h.setChains (fun c hc => ?_) (by simp [countP_append])
  obtain hc | rfl := mem_snoc.mp hc
  · exact h.chains c hc
  · exact ⟨rfl, htype⟩

theorem State.Current.copyFromRobot : s.copyFromRobot.Current := by
  unfold State.copyFromRobot
  split
  · rename_i c hheld
    obtain ⟨hoffer, htype⟩ := h.held c hheld
    rw [hoffer]
    exact h.append _ htype
  split
  · exact h
  · rename_i type htype
    exact h.append _ htype

theorem State.Current.goOn (hc : s.chains[i]? = some c) (stage : Stage D) :
    (s.goOn i c stage).Current := by
  refine h.setChains (fun c' hc' => ?_) (countP_set hc stage)
  obtain hc' | rfl := mem_or_eq_of_mem_set hc'
  · exact h.chains c' hc'
  · exact h.chains c (mem_of_getElem? hc)

theorem State.Current.chains_eraseIdx :
    ∀ c ∈ s.chains.eraseIdx i, c.offer = s.count ∧ s.wanted = some c.type :=
  fun c hc => h.chains c (mem_of_mem_eraseIdx hc)

section

variable (hc : s.chains[i]? = some c)
include hc

/-- A `copyFromRobot` that threw. -/
theorem State.Current.eraseIdx
    (hpull : c.pull = false) : Current { s with chains := s.chains.eraseIdx i } := by
  refine h.setChains h.chains_eraseIdx ?_
  simpa [hpull] using countP_eraseIdx hc

/-- Where the `pull` ends, no other one is under way. -/
theorem State.Current.pull_ended
    (hpull : c.pull = true) : (s.chains.eraseIdx i).countP (·.pull) = 0 ∧ s.held = none := by
  have hcount := countP_eraseIdx hc
  rw [hpull, if_pos rfl] at hcount
  rcases h.state with ⟨hone, hheld⟩ | ⟨hzero, -⟩
  · exact ⟨by omega, hheld⟩
  · omega

theorem State.Current.readFailed :
    (s.readFailed i c).Current := by
  have htype := (h.chains c (mem_of_getElem? hc)).2
  unfold State.readFailed
  cases hpull : c.pull with
  | true =>
    obtain ⟨hcount, hheld⟩ := h.pull_ended hc hpull
    refine ⟨h.chains_eraseIdx, h.held, .inr ⟨hcount, ?_⟩, h.browser⟩
    simp only [State.Settled, State.wanted] at htype ⊢
    simp [htype, hheld]
  | false => exact h.eraseIdx hc hpull

theorem State.Current.refused (data : D) :
    (s.refused i c data).Current := by
  obtain ⟨hoffer, htype⟩ := h.chains c (mem_of_getElem? hc)
  unfold State.refused
  cases hpull : c.pull with
  | true =>
    obtain ⟨hcount, -⟩ := h.pull_ended hc hpull
    refine ⟨h.chains_eraseIdx, ?_, .inr ⟨hcount, ?_⟩, h.browser⟩
    · rintro c' hc'
      cases hc'
      exact ⟨hoffer, htype⟩
    · simp only [State.Settled, State.wanted] at htype ⊢
      simp [htype, hoffer]
  | false => exact h.eraseIdx hc hpull

theorem State.Current.written (data : D) :
    (s.written i c data).Current := by
  obtain ⟨hoffer, htype⟩ := h.chains c (mem_of_getElem? hc)
  have hcount := countP_eraseIdx hc
  refine ⟨h.chains_eraseIdx, by simp [State.written], ?_, ?_, ?_⟩
  · have hsettled : (s.written i c data).Settled := by
      simp only [State.Settled, State.wanted, State.written] at htype ⊢
      simp [htype, hoffer]
    rcases h.state with ⟨hone, -⟩ | ⟨hzero, -⟩
    · by_cases hend : (s.chains.eraseIdx i).countP (·.pull) = 0
      · exact .inr ⟨hend, hsettled⟩
      · exact .inl ⟨by simp only [State.written]; omega, rfl⟩
    · exact .inr ⟨by simp only [State.written]; omega, hsettled⟩
  · intro c' hc'
    obtain hc' | rfl := mem_snoc.mp hc'
    · exact h.browser.1 c' hc'
    · exact hoffer.le
  -- What was written before is of this offer, or of an earlier one.
  refine pairwise_append.mpr ⟨h.browser.2, pairwise_singleton _ _, ?_⟩
  intro a ha b hb
  obtain rfl := mem_singleton.mp hb
  exact (h.browser.1 a ha).trans hoffer.ge

end

theorem State.Current.step {act : Act D} (hq : Quiet s act)
    (hstep : RobotClipboard.step s act = some s') : s'.Current := by
  cases act with
  | offer types =>
    cases hstep
    exact h.onOffer hq.1 hq.2 types
  | copyFromRobot =>
    cases hstep
    exact h.copyFromRobot
  | result i ok =>
    obtain ⟨c, hc, hstep⟩ := Option.bind_eq_some_iff.mp hstep
    split at hstep
    · cases hstep
      cases ok with
      | true => exact h.goOn hc _
      | false => exact h.readFailed hc
    · exact absurd hstep (by simp)
  | received i data =>
    obtain ⟨c, hc, hstep⟩ := Option.bind_eq_some_iff.mp hstep
    split at hstep
    · cases hstep
      exact h.goOn hc _
    · cases hstep
      exact h.readFailed hc
    · exact absurd hstep (by simp)
  | wrote i ok =>
    obtain ⟨c, hc, hstep⟩ := Option.bind_eq_some_iff.mp hstep
    split at hstep
    · cases hstep
      cases ok with
      | true => exact h.written hc _
      | false => exact h.refused hc _
    · exact absurd hstep (by simp)

end

/-- While no offer comes before the chains of the earlier ones ended: when
everything has settled, the fields are those of the newest offer's own read;
and no older content is ever written over newer content. -/
theorem follows_newest (autoSync : Bool) (acts : List (Act D)) (s : State D)
    (hq : (clipboard D autoSync).AllSteps Quiet (clipboard D autoSync).init acts)
    (hrun : (clipboard D autoSync).run (clipboard D autoSync).init acts = some s) :
    (s.chains = [] → s.Settled) ∧ s.browser.Pairwise fun a b => a.offer ≤ b.offer := by
  have hs : s.Current := System.run_induction (P := State.Current) (Q := Quiet) _
    (fun _ _ _ h hq hstep => h.step hq hstep) (current_init autoSync) hq hrun
  refine ⟨fun hnone => ?_, hs.browser.2⟩
  rcases hs.state with ⟨hone, -⟩ | ⟨-, hsettled⟩
  · rw [hnone] at hone
    exact absurd hone (by simp)
  · exact hsettled

/-- A copy the browser refuses, and then a click. -/
theorem follows_newest_click :
    ∃ s, (clipboard Nat true).run (clipboard Nat true).init
        [.offer [.text, .png], .result 0 true, .received 0 (some 7), .wrote 0 false,
          .copyFromRobot, .wrote 0 true] = some s ∧
      s.browser = [{ offer := 1, type := .png, data := 7 }] ∧ s.Settled :=
  ⟨_, rfl, rfl, (follows_newest true [.offer [.text, .png], .result 0 true, .received 0 (some 7),
    .wrote 0 false, .copyFromRobot, .wrote 0 true] _ (by decide) rfl).1 rfl⟩

/-- Two copies in a row: the first one's bytes come last, and the browser is
left with them. -/
theorem older_copy_last :
    ∃ s, (clipboard Nat true).run (clipboard Nat true).init
        [.offer [.text], .offer [.text], .result 0 true, .result 1 true, .received 1 (some 8),
          .wrote 1 true, .received 0 (some 7), .wrote 0 true] = some s ∧
      s.chains = [] ∧ s.count = 2 ∧ s.sync = .synced ∧
      s.browser = [{ offer := 2, type := .text, data := 8 },
        { offer := 1, type := .text, data := 7 }] :=
  ⟨_, rfl, rfl, rfl, rfl, rfl⟩

end Fjarr.Web.RobotClipboard
