/-
Fjarr.Capture.Release — what `Frames` gives back, over every run.

* `Kept` ties PipeWire's record to the reader's: a buffer of ours is out
  under its delivery's number, a posted token is dead, and a dead token of
  a buffer that is out is posted. It is stated with the releases still to
  be matched and the buffers still to be given back as parameters, so that
  the loop of `drain_releases` keeps it turn by turn; `Inv` is `Kept` at
  what the channel and the thread have.
* A section that pushes the newest frame again (`Repeats`), one that drops
  its token after the mutex (`Drops`) and one that moves a buffer to other
  hands (`Kept.place`) each keep it.
* `never_overwritten` — what is given back is held by us, and nobody
  reads it; each delivery goes back at most once; and a drain gives back
  every delivery nobody refers to any more.
-/
import Fjarr.Capture.Frames

namespace Fjarr.Capture

open Lib List Option Function

/-! ## What holds between steps -/

/-- What PipeWire's record and the reader's have to do with each other,
with the releases `pending` still to be matched and the buffers `back`
still to be given back. -/
structure Kept (w : World) (pending : List (Addr × Nat)) (back : List Addr) : Prop where
  absent : ∀ b, w.frames.slots b = none ↔ w.peer.life b = .absent
  ready : ∀ b s, w.peer.life b = .ready → w.frames.slots b = some s → s.out = false
  out : ∀ b s d, w.peer.life b = .held d → w.frames.slots b = some s →
    s.delivery = d ∧ (s.out = true ↔ b ∉ back)
  matched : ∀ b ∈ back, ∃ d, w.peer.life b = .held d ∧ w.refs d = 0
  distinct : back.Nodup
  number : ∀ b d, w.peer.life b = .held d →
    d ≤ w.frames.deliveries ∧ w.pw d = b ∧ d ∉ w.peer.returned
  newest : ∀ t, w.frames.heldToken = some t → ∃ b, w.frames.held = some b ∧ w.peer.life b = .held t
  known : ∀ d, w.refs d ≠ 0 → d ≤ w.frames.deliveries
  posted : ∀ p ∈ pending, w.refs p.2 = 0 ∧ p.2 ≤ w.frames.deliveries
  owed : w.alive = true → ∀ b d, w.peer.life b = .held d → b ∉ back → w.refs d = 0 →
    (b, d) ∈ pending
  once : w.peer.returned.Nodup
  past : ∀ d ∈ w.peer.returned, d ≤ w.frames.deliveries

/-- **The invariant.** -/
def Inv (w : World) : Prop := Kept w (w.released ++ w.thread.released) w.thread.back

namespace Kept

variable {w : World} {pending : List (Addr × Nat)} {back : List Addr}

variable {b : Addr}

section

variable (h : Kept w pending back)
include h

/-- A buffer with its delivery out is held under that delivery's number,
and not on its way back. -/
theorem held_of_out {s : Slot} (hs : w.frames.slots b = some s) (hout : s.out = true) :
    w.peer.life b = .held s.delivery ∧ b ∉ back := by
  cases hl : w.peer.life b with
  | absent =>
    rw [(h.absent b).mpr hl] at hs
    cases hs
  | ready =>
    rw [h.ready b s hl hs] at hout
    cases hout
  | held d =>
    obtain ⟨rfl, hback⟩ := h.out b s d hl hs
    exact ⟨rfl, hback.mp hout⟩

theorem slot_of_held {d : Nat} (hl : w.peer.life b = .held d) : ∃ s, w.frames.slots b = some s := by
  cases hs : w.frames.slots b with
  | none =>
    rw [(h.absent b).mp hs] at hl
    cases hl
  | some s => exact ⟨s, rfl⟩

theorem held_inj {b' : Addr} {d : Nat}
    (hb : w.peer.life b = .held d) (hb' : w.peer.life b' = .held d) : b = b' :=
  (h.number b d hb).2.1.symm.trans (h.number b' d hb').2.1

/-- Tokens may die, when each death of one that is out is posted. -/
theorem fewer (w' : World) (hslots : w'.frames.slots = w.frames.slots)
    (hdeliveries : w'.frames.deliveries = w.frames.deliveries)
    (hnewest : ∀ t, w'.frames.heldToken = some t →
      w.frames.heldToken = some t ∧ w'.frames.held = w.frames.held)
    (hpeer : w'.peer = w.peer) (hpw : w'.pw = w.pw) (halive : w'.alive = true → w.alive = true)
    (hrefs : ∀ d, w.refs d = 0 → w'.refs d = 0) {pending' : List (Addr × Nat)}
    (hsub : ∀ p ∈ pending, p ∈ pending')
    (hnew : ∀ p ∈ pending', p ∉ pending → w.refs p.2 ≠ 0 ∧ w'.refs p.2 = 0)
    (howed : w'.alive = true → ∀ b d, w.peer.life b = .held d → w.refs d ≠ 0 → w'.refs d = 0 →
      (b, d) ∈ pending') : Kept w' pending' back where
  absent := by simpa only [hslots, hpeer] using h.absent
  ready := by simpa only [hslots, hpeer] using h.ready
  out := by simpa only [hslots, hpeer] using h.out
  matched := by
    intro b hb
    obtain ⟨d, hl, hd⟩ := h.matched b hb
    exact ⟨d, hpeer ▸ hl, hrefs d hd⟩
  distinct := h.distinct
  number := by simpa only [hpeer, hpw, hdeliveries] using h.number
  newest := by
    intro t ht
    obtain ⟨hold, hheld⟩ := hnewest t ht
    rw [hheld, hpeer]
    exact h.newest t hold
  known := by
    intro d hd
    rw [hdeliveries]
    exact h.known d fun hzero => hd (hrefs d hzero)
  posted := by
    intro p hp
    rw [hdeliveries]
    by_cases hold : p ∈ pending
    · exact ⟨hrefs _ (h.posted p hold).1, (h.posted p hold).2⟩
    · obtain ⟨halive, hdead⟩ := hnew p hp hold
      exact ⟨hdead, h.known _ halive⟩
  owed := by
    intro ha b d hl hb hd
    rw [hpeer] at hl
    by_cases hold : w.refs d = 0
    · exact hsub _ (h.owed (halive ha) b d hl hb hold)
    · exact howed ha b d hl hold hd
  once := hpeer ▸ h.once
  past := by simpa only [hpeer, hdeliveries] using h.past

/-- Only whether a token is alive matters, not how many refer to it. -/
theorem congr (w' : World) (hslots : w'.frames.slots = w.frames.slots)
    (hdeliveries : w'.frames.deliveries = w.frames.deliveries)
    (hnewest : ∀ t, w'.frames.heldToken = some t →
      w.frames.heldToken = some t ∧ w'.frames.held = w.frames.held)
    (hpeer : w'.peer = w.peer) (hpw : w'.pw = w.pw) (halive : w'.alive = w.alive)
    (hrefs : ∀ d, w'.refs d = 0 ↔ w.refs d = 0) : Kept w' pending back :=
  h.fewer w' hslots hdeliveries hnewest hpeer hpw (fun ha => halive ▸ ha) (fun d => (hrefs d).mpr)
    (fun _ hp => hp) nofun
    (fun _ _ d _ hlive hdead => absurd ((hrefs d).mp hdead) hlive)

end

/-- The reader's slot for a buffer PipeWire has as it says. -/
def Fits (slot : Option Slot) : Life → Prop
  | .absent => slot = none
  | .ready => ∃ s, slot = some s ∧ s.out = false
  | .held d => ∃ s, slot = some s ∧ s.out = true ∧ s.delivery = d

/-- One buffer changes hands; if it is held then, that is a new delivery
and its token is alive. -/
theorem place (h : Kept w pending []) (w' : World) {slot : Option Slot} {l : Life}
    (hslots : w'.frames.slots = Function.update w.frames.slots b slot)
    (hpeer : w'.peer = w.peer.set b l) (hfits : Fits slot l) (halive : w'.alive = w.alive)
    (hdeliveries : w.frames.deliveries ≤ w'.frames.deliveries)
    (hpw : ∀ d ≤ w.frames.deliveries, w'.pw d = w.pw d)
    (hrefs : ∀ d ≤ w.frames.deliveries, w'.refs d = w.refs d)
    (hknown : ∀ d, w'.refs d ≠ 0 → d ≤ w'.frames.deliveries)
    (hfresh : ∀ d, l = .held d → w.frames.deliveries < d ∧ w'.pw d = b ∧ w'.refs d ≠ 0)
    (hnewest : ∀ t, w'.frames.heldToken = some t →
      (∃ b' ≠ b, w'.frames.held = some b' ∧ w.peer.life b' = .held t) ∨
        (w'.frames.held = some b ∧ l = .held t)) :
    Kept w' pending [] := by
  have hlife : w'.peer.life b = l := by simp [hpeer, Peer.set]
  have hslot : w'.frames.slots b = slot := by simp [hslots]
  have hlife_ne : ∀ b' ≠ b, w'.peer.life b' = w.peer.life b' := fun b' hb => by
    simp [hpeer, Peer.set, update_of_ne hb]
  have hslot_ne : ∀ b' ≠ b, w'.frames.slots b' = w.frames.slots b' := fun b' hb => by
    simp [hslots, update_of_ne hb]
  have hreturned : w'.peer.returned = w.peer.returned := by rw [hpeer]; rfl
  refine ⟨fun b' => ?_, fun b' s hl hs => ?_, fun b' s d hl hs => ?_, nofun, .nil,
    fun b' d hl => ?_, fun t ht => ?_, hknown, fun p hp => ?_, fun ha b' d hl _ hd => ?_,
    hreturned ▸ h.once, fun d hd => ?_⟩
  · by_cases hb : b' = b
    · subst hb
      rw [hslot, hlife]
      cases l with
      | absent => simpa [Fits] using hfits
      | ready => obtain ⟨s, rfl, -⟩ := hfits; simp
      | held d => obtain ⟨s, rfl, -⟩ := hfits; simp
    · rw [hslot_ne b' hb, hlife_ne b' hb]
      exact h.absent b'
  · by_cases hb : b' = b
    · subst hb
      obtain rfl := hlife.symm.trans hl
      obtain ⟨s', heq, hout⟩ := hfits
      obtain rfl := some.inj ((hslot.trans heq).symm.trans hs)
      exact hout
    · exact h.ready b' s (hlife_ne b' hb ▸ hl) (hslot_ne b' hb ▸ hs)
  · by_cases hb : b' = b
    · subst hb
      obtain rfl := hlife.symm.trans hl
      obtain ⟨s', heq, hout, hdelivery⟩ := hfits
      obtain rfl := some.inj ((hslot.trans heq).symm.trans hs)
      exact ⟨hdelivery, by simpa using hout⟩
    · exact h.out b' s d (hlife_ne b' hb ▸ hl) (hslot_ne b' hb ▸ hs)
  · rw [hreturned]
    by_cases hb : b' = b
    · subst hb
      obtain ⟨hnew, hpw', hlive⟩ := hfresh d (hlife.symm.trans hl)
      exact ⟨hknown d hlive, hpw', fun hd => absurd (h.past d hd) (by omega)⟩
    · obtain ⟨hle, hpw', hnot⟩ := h.number b' d (hlife_ne b' hb ▸ hl)
      exact ⟨hle.trans hdeliveries, (hpw d hle).trans hpw', hnot⟩
  · obtain ⟨b', hb, hheld, hl⟩ | ⟨hheld, hl⟩ := hnewest t ht
    · exact ⟨b', hheld, (hlife_ne b' hb).trans hl⟩
    · exact ⟨b, hheld, hlife.trans hl⟩
  · obtain ⟨hdead, hle⟩ := h.posted p hp
    exact ⟨(hrefs _ hle).trans hdead, hle.trans hdeliveries⟩
  · by_cases hb : b' = b
    · subst hb
      exact absurd hd (hfresh d (hlife.symm.trans hl)).2.2
    rw [hlife_ne b' hb] at hl
    rw [hrefs d (h.number b' d hl).1] at hd
    exact h.owed (halive ▸ ha) b' d hl (not_mem_nil) hd
  · exact (h.past d (hreturned ▸ hd)).trans hdeliveries

end Kept

/-! ## GStreamer's references -/

/-- A mutex section that at most pushes the newest frame again. -/
structure Repeats (f : Frames) (r : Frames × Option Nat) : Prop where
  slots : r.1.slots = f.slots
  deliveries : r.1.deliveries = f.deliveries
  held : r.1.held = f.held
  heldToken : r.1.heldToken = f.heldToken
  pushed : ∀ t, r.2 = some t → f.heldToken = some t

namespace Frames

variable (f : Frames)

theorem repeats_none : Repeats f (f, none) := ⟨rfl, rfl, rfl, rfl, nofun⟩

theorem repeats_pushOver {f : Frames} {t : Nat} (ht : f.heldToken = some t) (now : Nat) :
    Repeats f (f.pushOver now t) := by
  refine ⟨rfl, rfl, rfl, rfl, fun t' ht' => ?_⟩
  obtain ⟨-, heq⟩ := ite_none_right_eq_some.mp ht'
  exact ht.trans heq

theorem repeats_repeatShm (now : Nat) : Repeats f (f.repeatShm now) := by
  unfold repeatShm
  split
  · exact ⟨rfl, rfl, rfl, rfl, nofun⟩
  · exact f.repeats_none

theorem repeats_repeatNewestLocked (now : Nat) :
    Repeats f (f.repeatNewestLocked now) := by
  unfold repeatNewestLocked
  split
  · exact f.repeats_repeatShm now
  split
  · exact f.repeats_repeatShm now
  rename_i t ht
  split
  · exact f.repeats_none
  · exact repeats_pushOver ht now

theorem repeats_keepalive (interval now : Nat) :
    Repeats f (f.keepalive interval now) := by
  unfold keepalive
  split
  · exact f.repeats_none
  · exact f.repeats_repeatNewestLocked now

theorem repeats_feeding {f : Frames} (appsrc : Option Nat) (suspended : Bool)
    {r : Frames × Option Nat} (h : Repeats { f with appsrc, suspended } r) : Repeats f r :=
  ⟨h.slots, h.deliveries, h.held, h.heldToken, h.pushed⟩

theorem repeats_attach (appsrc : Option Nat) (now : Nat) :
    Repeats f (f.attach appsrc now) := by
  unfold attach
  split
  · exact f.repeats_none
  refine repeats_feeding appsrc f.suspended ?_
  dsimp only
  split
  · exact repeats_none _
  · exact repeats_repeatNewestLocked _ now

theorem repeats_resume (now : Nat) : Repeats f (f.resume now) := by
  unfold resume
  split
  · exact f.repeats_none
  refine repeats_feeding f.appsrc false ?_
  dsimp only
  split
  · exact repeats_none _
  · exact repeats_repeatNewestLocked _ now

end Frames

/-- The newest frame stays, or its token is the one that is dropped. -/
def Drops (f : Frames) (r : Frames × Option Nat) : Prop :=
  (r.1.held = f.held ∧ r.1.heldToken = f.heldToken ∧ r.2 = none) ∨
    (r.1.heldToken = none ∧ r.2 = f.heldToken)

namespace Frames

variable (f : Frames)

theorem drops_setFormat (n : NegotiatedFormat) : Drops f (f.setFormat n) := by
  unfold setFormat
  split
  · exact .inl ⟨rfl, rfl, rfl⟩
  split
  · exact .inl ⟨rfl, rfl, rfl⟩
  · exact .inr ⟨rfl, rfl⟩

theorem setFormat_slots (n : NegotiatedFormat) :
    (f.setFormat n).1.slots = f.slots ∧ (f.setFormat n).1.deliveries = f.deliveries := by
  unfold setFormat
  split
  · exact ⟨rfl, rfl⟩
  split <;> exact ⟨rfl, rfl⟩

theorem drops_removeBuffer (b : Addr) : Drops f (f.removeBuffer b) := by
  unfold removeBuffer
  split
  · exact .inl ⟨rfl, rfl, rfl⟩
  split
  · exact .inr ⟨rfl, rfl⟩
  · exact .inl ⟨rfl, rfl, rfl⟩

theorem removeBuffer_slots (b : Addr) :
    (f.removeBuffer b).1.slots = Function.update f.slots b none ∧
      (f.removeBuffer b).1.deliveries = f.deliveries := by
  unfold removeBuffer
  split
  · rename_i hnone
    exact ⟨(update_eq_self_iff.mpr hnone.symm).symm, rfl⟩
  split <;> exact ⟨rfl, rfl⟩

theorem removeBuffer_newest {f : Frames} {b : Addr} (hslot : f.slots b ≠ none) {t : Nat}
    (ht : (f.removeBuffer b).1.heldToken = some t) :
    f.heldToken = some t ∧ (f.removeBuffer b).1.held = f.held ∧ f.held ≠ some b := by
  unfold removeBuffer at ht ⊢
  split at ht
  · contradiction
  split at ht
  · cases ht
  rename_i hheld
  rw [if_neg hheld]
  exact ⟨ht, rfl, hheld⟩

end Frames

namespace Inv

variable {w : World}

theorem push (h : Inv w) {d : Nat} (hd : w.refs d ≠ 0) : Inv (w.push (some d)) := by
  refine Kept.congr h (w.push (some d)) rfl rfl (fun t ht => ⟨ht, rfl⟩) rfl rfl rfl fun e => ?_
  by_cases he : e = d
  · subst he
    simp only [World.push, World.refs, update_self] at hd ⊢
    omega
  · simp only [World.push, World.refs, update_of_ne he]

theorem pushing (h : Inv w) {r : Frames × Option Nat} (hr : Repeats w.frames r) :
    Inv (w.pushing r) := by
  have hframes : Inv { w with frames := r.1 } := by
    refine Kept.congr h { w with frames := r.1 } hr.slots hr.deliveries
      (fun t ht => ⟨hr.heldToken ▸ ht, hr.held⟩) rfl rfl rfl fun d => ?_
    simp only [World.refs, hr.heldToken]
  unfold World.pushing
  cases ht : r.2 with
  | none => exact hframes
  | some t =>
    refine hframes.push ?_
    -- the reader's own reference keeps the token alive
    have hheld : r.1.heldToken = some t := hr.heldToken.trans (hr.pushed t ht)
    simp [World.refs, hheld]

theorem suspend (h : Inv w) : Inv { w with frames := w.frames.suspend } :=
  Kept.congr h _ rfl rfl (fun _ ht => ⟨ht, rfl⟩) rfl rfl rfl fun _ => Iff.rfl

/-- A reference is dropped: if it was the last, the death is posted. -/
theorem unref {w' : World} (h : Inv w) {d : Nat} (hframes : w'.frames = w.frames)
    (halive : w'.alive = w.alive) (hreleased : w'.released = w.released) (hpw : w'.pw = w.pw)
    (hmatching : w'.thread.released = w.thread.released) (hback : w'.thread.back = w.thread.back)
    (hpeer : w'.peer = w.peer) (hd : w'.refs d + 1 = w.refs d)
    (hother : ∀ e ≠ d, w'.refs e = w.refs e) : Inv (w'.unref d) := by
  have hlast : ∀ e, w.refs e ≠ 0 → w'.refs e = 0 → e = d := by
    intro e hlive hdead
    by_contra hne
    exact hlive ((hother e hne).symm.trans hdead)
  have hrefs : ∀ e, w.refs e = 0 → w'.refs e = 0 := by
    intro e he
    rw [hother e (by rintro rfl; omega), he]
  have hkept : Kept w (w.released ++ w.thread.released) w'.thread.back := by
    rw [hback]
    exact h
  unfold World.unref
  split
  · rename_i hpost
    refine hkept.fewer { w' with released := w'.released ++ [(w'.pw d, d)] } (hframes ▸ rfl)
      (hframes ▸ rfl) (fun t ht => ⟨hframes ▸ ht, hframes ▸ rfl⟩) hpeer hpw (fun ha => halive ▸ ha)
      hrefs (fun p hp => ?_) (fun p hp hnew => ?_) fun _ b e hl hlive hdead => ?_
    · simp only [mem_append, hreleased, hmatching] at hp ⊢
      exact hp.imp_left .inl
    · simp only [mem_append, hreleased, hmatching, mem_singleton] at hp hnew
      obtain rfl : p = (w'.pw d, d) := by tauto
      exact ⟨by simp only; omega, hpost.1⟩
    obtain rfl := hlast e hlive hdead
    rw [hpw, (Kept.number h b e hl).2.1]
    simp
  rename_i hquiet
  refine hkept.fewer w' (hframes ▸ rfl)
    (hframes ▸ rfl) (fun t ht => ⟨hframes ▸ ht, hframes ▸ rfl⟩) hpeer hpw (fun ha => halive ▸ ha)
    hrefs (fun p hp => ?_) (fun p hp hnew => ?_) fun ha b e hl hlive hdead => ?_
  · rwa [hreleased, hmatching]
  · rw [hreleased, hmatching] at hp
    exact absurd hp hnew
  · obtain rfl := hlast e hlive hdead
    exact absurd ⟨hdead, ha⟩ hquiet

theorem destroy (h : Inv w) :
    Inv { w with alive := false, frames := { w.frames with heldToken := none } } := by
  refine Kept.fewer h { w with alive := false, frames := { w.frames with heldToken := none } } rfl
    rfl nofun rfl rfl nofun (fun d hd => ?_) (fun _ hp => hp) nofun nofun
  simp only [World.refs, refTo_none] at hd ⊢
  omega

/-! ## The PipeWire thread's calls -/

theorem idle (h : Inv w) (hthread : w.thread = .idle) : Kept w w.released [] := by
  have hkept : Kept w (w.released ++ w.thread.released) w.thread.back := h
  rw [hthread] at hkept
  simpa [Thread.released, Thread.back] using hkept

theorem refs_dropping (hthread : w.thread = .idle) {r : Frames × Option Nat}
    (hr : Drops w.frames r) (peer : Peer) (d : Nat) : (w.dropping r peer).refs d = w.refs d := by
  simp only [World.dropping, World.refs, hthread, Thread.token]
  obtain ⟨-, hsame, hnone⟩ | ⟨hnone, hsame⟩ := hr
  · rw [hsame, hnone]
    rfl
  · rw [hnone, hsame]
    cases w.frames.heldToken <;> simp [Thread.drop]

/-- After the mutex of such a call there is nothing to match or give back
either. -/
theorem of_drop {t : Option Nat} (hthread : w.thread = .drop t) (h : Kept w w.released []) :
    Inv w := by
  have hdrop : (Thread.drop t).released = [] ∧ (Thread.drop t).back = [] := by
    cases t <;> exact ⟨rfl, rfl⟩
  unfold Inv
  rw [hthread, hdrop.1, hdrop.2, append_nil]
  exact h

theorem setFormat (h : Inv w) (hthread : w.thread = .idle) (n : NegotiatedFormat) :
    Inv (w.dropping (w.frames.setFormat n) w.peer) := by
  have hdrops := w.frames.drops_setFormat n
  obtain ⟨hslots, hdeliveries⟩ := w.frames.setFormat_slots n
  refine of_drop rfl ((h.idle hthread).congr _ hslots hdeliveries (fun t ht => ?_) rfl rfl rfl
    fun d => by rw [refs_dropping hthread hdrops])
  obtain ⟨hheld, hsame, -⟩ | ⟨hnone, -⟩ := hdrops
  · exact ⟨hsame ▸ ht, hheld⟩
  · exact absurd (hnone.symm.trans ht) nofun

theorem removeBuffer (h : Inv w) (hthread : w.thread = .idle) (b : Addr) :
    Inv (w.dropping (w.frames.removeBuffer b) (w.peer.set b .absent)) := by
  have hkept := h.idle hthread
  have hdrops := w.frames.drops_removeBuffer b
  obtain ⟨hslots, hdeliveries⟩ := w.frames.removeBuffer_slots b
  have hrefs := refs_dropping hthread hdrops (w.peer.set b .absent)
  refine of_drop rfl (hkept.place _ hslots rfl rfl rfl hdeliveries.ge (fun _ _ => rfl)
    (fun d _ => hrefs d) (fun d hd => ?_) nofun fun t ht => ?_)
  · rw [hrefs] at hd
    exact (hkept.known d hd).trans hdeliveries.ge
  by_cases hslot : w.frames.slots b = none
  · -- an unknown buffer: nothing changes
    have hsame : w.frames.removeBuffer b = (w.frames, none) := by
      simp [Frames.removeBuffer, hslot]
    simp only [World.dropping, hsame] at ht ⊢
    obtain ⟨b', hheld, hl⟩ := hkept.newest t ht
    refine .inl ⟨b', ?_, hheld, hl⟩
    rintro rfl
    rw [(hkept.absent b').mp hslot] at hl
    cases hl
  obtain ⟨hold, hsame, hne⟩ := Frames.removeBuffer_newest hslot ht
  obtain ⟨b', hheld, hl⟩ := hkept.newest t hold
  refine .inl ⟨b', ?_, hsame.trans hheld, hl⟩
  rintro rfl
  exact hne hheld

theorem addBuffer (h : Inv w) (hthread : w.thread = .idle) {b : Addr}
    (hb : w.peer.life b = .absent) (sb : Arrival) :
    Inv { w with frames := w.frames.addBuffer b sb, peer := w.peer.set b .ready } := by
  have hkept := h.idle hthread
  refine of_drop (t := none) hthread (hkept.place
    { w with frames := w.frames.addBuffer b sb, peer := w.peer.set b .ready } rfl rfl ⟨_, rfl, rfl⟩
    rfl le_rfl (fun _ _ => rfl) (fun _ _ => rfl) hkept.known nofun fun t ht => ?_)
  obtain ⟨b', hheld, hl⟩ := hkept.newest t ht
  refine .inl ⟨b', ?_, hheld, hl⟩
  rintro rfl
  rw [hb] at hl
  cases hl

/-- The sections of `on_buffer`: straight back, with at most a copy made,
or held. -/
theorem onBuffer_cases (f : Frames) (b : Addr) (sb : Content) (now : Nat) :
    (∃ f' d, f.onBuffer b sb now = (f', d, none, none) ∧ requeueNow d = true ∧
      Repeats f (f', none)) ∨
    ∃ s, f.onBuffer b sb now = (((f.hold b s).pushOver now (f.deliveries + 1)).1, .held,
      ((f.hold b s).pushOver now (f.deliveries + 1)).2, f.heldToken) := by
  unfold Frames.onBuffer
  split
  · exact .inl ⟨f, _, rfl, rfl, f.repeats_none⟩
  split
  · rename_i s _
    exact .inr ⟨s, rfl⟩
  split
  · exact .inl ⟨f, _, rfl, rfl, f.repeats_none⟩
  · exact .inl ⟨_, _, rfl, rfl, rfl, rfl, rfl, rfl, nofun⟩

theorem hold (h : Inv w) (hthread : w.thread = .idle) (b : Addr) (s : Slot) (now : Nat) :
    Inv { w with
      frames := { w.frames.hold b s with lastPush := now }
      pw := Function.update w.pw (w.frames.deliveries + 1) b
      thread := .drop w.frames.heldToken
      peer := w.peer.set b (.held (w.frames.deliveries + 1)) } := by
  have hkept := h.idle hthread
  set w' : World := { w with
    frames := { w.frames.hold b s with lastPush := now }
    pw := Function.update w.pw (w.frames.deliveries + 1) b
    thread := .drop w.frames.heldToken
    peer := w.peer.set b (.held (w.frames.deliveries + 1)) } with hw'
  have hold : ∀ d, d ≠ w.frames.deliveries + 1 → w'.refs d = w.refs d := by
    intro d hd
    have hnew : refTo w'.frames.heldToken d = 0 := refTo_some_ne hd.symm
    have hprevious : w'.thread.token = w.frames.heldToken := by
      simp only [hw']
      cases w.frames.heldToken <;> rfl
    have hidle : w.thread.token = none := by rw [hthread]; rfl
    simp only [World.refs, hnew, hprevious, hidle, refTo_none, add_zero]
    rfl
  have hnew : w'.refs (w.frames.deliveries + 1) ≠ 0 := by
    simp [World.refs, hw', Frames.hold]
  refine of_drop rfl (hkept.place w' rfl rfl ⟨_, rfl, rfl, rfl⟩ rfl (Nat.le_succ _)
    (fun d hd => update_of_ne (by omega) _ _) (fun d hd => hold d (by omega))
    (fun d hd => ?_) (fun d hd => ?_) fun t ht => .inr ⟨rfl, ?_⟩)
  · by_cases hd' : d = w.frames.deliveries + 1
    · exact hd'.le
    · rw [hold d hd'] at hd
      exact (hkept.known d hd).trans (Nat.le_succ _)
  · obtain rfl := Life.held.inj hd
    exact ⟨Nat.lt_succ_self _, update_self .., hnew⟩
  · rw [← some.inj ht]

theorem deliver (h : Inv w) (hthread : w.thread = .idle) {b : Addr}
    (hb : w.peer.life b = .ready) (sb : Content) (now : Nat) : Inv (w.deliver b sb now) := by
  unfold World.deliver
  obtain ⟨f', d, heq, hnow, hsame⟩ | ⟨s, heq⟩ := onBuffer_cases w.frames b sb now
  · have hpeer : w.peer.set b .ready = w.peer := by
      rw [Peer.set, update_eq_self_iff.mpr hb.symm]
    rw [heq]
    simp only [hnow, if_pos, hpeer]
    exact h.pushing hsame
  rw [heq]
  have hheld := h.hold hthread b s now
  cases hpush : ((w.frames.hold b s).pushOver now (w.frames.deliveries + 1)).2 with
  | none => exact hheld
  | some t =>
    obtain ⟨-, rfl⟩ := guarded.mp hpush
    exact hheld.push (by simp [World.refs, Frames.hold])

end Inv

/-! ## Draining -/

namespace Kept

variable {w : World} {pending : List (Addr × Nat)} {back : List Addr}

variable {b : Addr}

/-- A release whose buffer is not out under its number is not one that is
owed. -/
theorem skip (h : Kept w pending back) {d : Nat} {pending' : List (Addr × Nat)}
    (hskip : ∀ s, w.frames.slots b = some s → ¬ (s.out = true ∧ s.delivery = d))
    (hpending : ∀ p, p ∈ pending ↔ p = (b, d) ∨ p ∈ pending') : Kept w pending' back where
  absent := h.absent
  ready := h.ready
  out := h.out
  matched := h.matched
  distinct := h.distinct
  number := h.number
  newest := h.newest
  known := h.known
  posted p hp := h.posted p ((hpending p).mpr (.inr hp))
  owed := by
    intro ha b' d' hl hb hd
    refine ((hpending _).mp (h.owed ha b' d' hl hb hd)).resolve_left fun heq => ?_
    obtain ⟨rfl, rfl⟩ := Prod.mk.inj heq
    obtain ⟨s, hs⟩ := h.slot_of_held hl
    obtain ⟨hdelivery, hout⟩ := h.out b' s d' hl hs
    exact hskip s hs ⟨hout.mpr hb, hdelivery⟩
  once := h.once
  past := h.past

/-- A matched buffer is on its way back, and nobody refers to its
delivery. -/
theorem take (h : Kept w pending back) {s : Slot} {pending' : List (Addr × Nat)}
    (hs : w.frames.slots b = some s) (hout : s.out = true)
    (hpending : ∀ p, p ∈ pending ↔ p = (b, s.delivery) ∨ p ∈ pending') :
    Kept { w with frames := { w.frames with
      slots := Function.update w.frames.slots b (some { s with out := false }) } }
      pending' (back ++ [b]) := by
  obtain ⟨hheld, hb⟩ := h.held_of_out hs hout
  have hmem : ∀ {b'}, b' ≠ b → (b' ∈ back ++ [b] ↔ b' ∈ back) := fun hne => by simp [hne]
  constructor
  · intro b'
    by_cases hne : b' = b
    · subst hne
      simp [hheld]
    · simpa [update_of_ne hne] using h.absent b'
  · intro b' s' hl hs'
    have hne : b' ≠ b := by
      rintro rfl
      exact absurd (hheld.symm.trans hl) nofun
    exact h.ready b' s' hl (by simpa [update_of_ne hne] using hs')
  · intro b' s' d hl hs'
    by_cases hne : b' = b
    · subst hne
      obtain rfl := Life.held.inj (hheld.symm.trans hl)
      have heq : { s with out := false } = s' := by simpa using hs'
      subst heq
      exact ⟨rfl, by simp⟩
    · rw [hmem hne]
      exact h.out b' s' d hl (by simpa [update_of_ne hne] using hs')
  · intro b' hb'
    rcases mem_snoc.mp hb' with hb' | rfl
    · exact h.matched b' hb'
    · exact ⟨s.delivery, hheld, (h.posted _ ((hpending _).mpr (.inl rfl))).1⟩
  · exact nodup_snoc h.distinct hb
  · exact h.number
  · exact h.newest
  · exact h.known
  · exact fun p hp => h.posted p ((hpending p).mpr (.inr hp))
  · intro ha b' d hl hb' hd
    have hne : b' ≠ b := by
      rintro rfl
      simp at hb'
    rw [hmem hne] at hb'
    refine ((hpending _).mp (h.owed ha b' d hl hb' hd)).resolve_left fun heq => ?_
    exact hne (Prod.mk.inj heq).1
  · exact h.once
  · exact h.past

theorem matchReleased {rest released : List (Addr × Nat)} (h : Kept w (rest ++ released) back) :
    Kept { w with frames := { w.frames with
        slots := (Frames.matchReleased w.frames.slots back released).1 } }
      rest (Frames.matchReleased w.frames.slots back released).2 := by
  induction released generalizing w back with
  | nil => simpa [Frames.matchReleased] using h
  | cons p released ih =>
    obtain ⟨b, d⟩ := p
    have hpending : ∀ p, p ∈ rest ++ (b, d) :: released ↔ p = (b, d) ∨ p ∈ rest ++ released := by
      intro p
      simp only [mem_append, mem_cons]
      tauto
    rw [Frames.matchReleased]
    split
    · rename_i hnone
      exact ih (h.skip (by simp [hnone]) hpending)
    rename_i s hs
    split
    · rename_i hskip
      refine ih (h.skip (fun s' hs' hmatch => ?_) hpending)
      cases hs'.symm.trans hs
      simp [hmatch.1, hmatch.2] at hskip
    rename_i hmatch
    simp only [Bool.not_eq_true', ne_eq, not_or, Bool.not_eq_false, not_not] at hmatch
    obtain ⟨hout, rfl⟩ := hmatch
    exact ih (h.take hs hout hpending)

theorem requeue (h : Kept w pending (b :: back)) :
    Kept { w with peer := w.peer.requeue b } pending back := by
  obtain ⟨d, hheld, hdead⟩ := h.matched b mem_cons_self
  obtain ⟨hfresh, hdistinct⟩ := nodup_cons.mp h.distinct
  have hpeer : w.peer.requeue b =
      { w.peer.set b .ready with returned := w.peer.returned ++ [d] } := by
    simp only [Peer.requeue, hheld]
  have hlife : (w.peer.requeue b).life b = .ready := by simp [hpeer, Peer.set]
  have hlife_ne : ∀ {b'}, b' ≠ b → (w.peer.requeue b).life b' = w.peer.life b' := fun hne => by
    simp [hpeer, Peer.set, update_of_ne hne]
  have hreturned : (w.peer.requeue b).returned = w.peer.returned ++ [d] := by rw [hpeer]
  have hne_of_held : ∀ {b' d'}, (w.peer.requeue b).life b' = .held d' → b' ≠ b := by
    rintro b' d' hl rfl
    exact absurd (hlife.symm.trans hl) nofun
  constructor
  · intro b'
    by_cases hne : b' = b
    · subst hne
      simpa [hlife, hheld] using h.absent b'
    · simpa [hlife_ne hne] using h.absent b'
  · intro b' s hl hs
    by_cases hne : b' = b
    · subst hne
      obtain ⟨-, hout⟩ := h.out b' s d hheld hs
      simpa using hout
    · exact h.ready b' s ((hlife_ne hne).symm.trans hl) hs
  · intro b' s d' hl hs
    have hne := hne_of_held hl
    obtain ⟨hdelivery, hout⟩ := h.out b' s d' ((hlife_ne hne).symm.trans hl) hs
    exact ⟨hdelivery, by simpa [hne] using hout⟩
  · intro b' hb'
    obtain ⟨d', hl, hd'⟩ := h.matched b' (mem_cons_of_mem _ hb')
    have hne : b' ≠ b := by
      rintro rfl
      exact hfresh hb'
    exact ⟨d', (hlife_ne hne).trans hl, hd'⟩
  · exact hdistinct
  · intro b' d' hl
    have hne := hne_of_held hl
    have hold := (hlife_ne hne).symm.trans hl
    obtain ⟨hle, hpw, hnot⟩ := h.number b' d' hold
    refine ⟨hle, hpw, ?_⟩
    rw [hreturned]
    simp only [mem_append, mem_singleton, not_or]
    refine ⟨hnot, ?_⟩
    rintro rfl
    exact hne (h.held_inj hold hheld)
  · intro t ht
    obtain ⟨b', hb', hl⟩ := h.newest t ht
    refine ⟨b', hb', (hlife_ne ?_).trans hl⟩
    rintro rfl
    -- the reader still refers to its newest frame
    obtain rfl := Life.held.inj (hheld.symm.trans hl)
    have hone : refTo w.frames.heldToken d = 1 := by
      rw [show w.frames.heldToken = some d from ht, refTo_some_self]
    simp only [World.refs] at hdead
    omega
  · exact h.known
  · exact h.posted
  · intro ha b' d' hl hb' hd'
    have hne := hne_of_held hl
    exact h.owed ha b' d' ((hlife_ne hne).symm.trans hl) (by simpa [hne] using hb') hd'
  · rw [hreturned]
    exact nodup_snoc h.once (h.number b d hheld).2.2
  intro e he
  rw [hreturned] at he
  rcases mem_snoc.mp he with he | rfl
  · exact h.past e he
  · exact (h.number b e hheld).1

end Kept

namespace Inv

variable {w : World}

theorem giveBack {back : List Addr} (h : Kept w w.released back) (htoken : w.thread.token = none) :
    Inv { w with thread := .giveBack back } := by
  unfold Inv
  simp only [Thread.giveBack_released, Thread.giveBack_back, append_nil]
  refine h.congr { w with thread := .giveBack back } rfl rfl (fun t ht => ⟨ht, rfl⟩) rfl rfl rfl
    fun d => ?_
  simp only [World.refs, htoken, Thread.giveBack_token]

theorem drainReleases (h : Inv w) (hthread : w.thread = .idle) :
    Inv { w with released := [], thread := .matching w.released } := by
  refine (h.idle hthread).congr { w with released := [], thread := .matching w.released } rfl rfl
    (fun t ht => ⟨ht, rfl⟩) rfl rfl rfl fun d => ?_
  simp only [World.refs, hthread, Thread.token]

theorem matchReleased (h : Inv w) {released : List (Addr × Nat)}
    (hthread : w.thread = .matching released) :
    Inv { w with
      frames := { w.frames with slots := (Frames.matchReleased w.frames.slots [] released).1 }
      thread := .giveBack (Frames.matchReleased w.frames.slots [] released).2 } := by
  have hkept : Kept w (w.released ++ w.thread.released) w.thread.back := h
  rw [hthread] at hkept
  have htoken : w.thread.token = none := by rw [hthread]; rfl
  exact giveBack (Kept.matchReleased hkept) htoken

theorem requeue (h : Inv w) {b : Addr} {back : List Addr}
    (hthread : w.thread = .returning (b :: back)) :
    Inv { w with thread := .giveBack back, peer := w.peer.requeue b } := by
  have hkept : Kept w (w.released ++ w.thread.released) w.thread.back := h
  rw [hthread] at hkept
  have htoken : w.thread.token = none := by rw [hthread]; rfl
  have hback : Kept { w with peer := w.peer.requeue b } (w.released ++ []) back := hkept.requeue
  rw [append_nil] at hback
  exact giveBack hback htoken

/-- **Step.** -/
theorem step (h : Inv w) {a : Act} {w' : World} (hstep : step w a = some w') : Inv w' := by
  cases a with
  | addBuffer b sb =>
    obtain ⟨⟨-, hidle, hb⟩, rfl⟩ := guarded.mp hstep
    exact h.addBuffer (Thread.eq_idle hidle) hb sb
  | removeBuffer b =>
    obtain ⟨⟨-, hidle⟩, rfl⟩ := guarded.mp hstep
    exact h.removeBuffer (Thread.eq_idle hidle) b
  | onBuffer b sb now =>
    obtain ⟨⟨-, hidle, hb⟩, rfl⟩ := guarded.mp hstep
    exact h.deliver (Thread.eq_idle hidle) hb sb now
  | setFormat n =>
    obtain ⟨⟨-, hidle⟩, rfl⟩ := guarded.mp hstep
    exact h.setFormat (Thread.eq_idle hidle) n
  | keepalive interval now =>
    obtain ⟨-, rfl⟩ := guarded.mp hstep
    exact h.pushing (w.frames.repeats_keepalive interval now)
  | release =>
    simp only [Capture.step] at hstep
    split at hstep
    · rename_i d hthread
      cases hstep
      refine h.unref rfl rfl rfl rfl ?_ ?_ rfl ?_ fun e he => ?_
      · rw [hthread]; rfl
      · rw [hthread]; rfl
      · simp [World.refs, hthread, Thread.token]
      · simp [World.refs, hthread, Thread.token, refTo_some_ne he.symm]
    · cases hstep
  | drainReleases =>
    obtain ⟨⟨-, hidle⟩, rfl⟩ := guarded.mp hstep
    exact h.drainReleases (Thread.eq_idle hidle)
  | matchReleased =>
    simp only [Capture.step] at hstep
    split at hstep
    · rename_i released hthread
      exact some.inj hstep ▸ h.matchReleased hthread
    · cases hstep
  | requeue =>
    simp only [Capture.step] at hstep
    split at hstep
    · rename_i b back hthread
      exact some.inj hstep ▸ h.requeue hthread
    · cases hstep
  | attach appsrc now =>
    obtain ⟨-, rfl⟩ := guarded.mp hstep
    exact h.pushing (w.frames.repeats_attach appsrc now)
  | suspend =>
    obtain ⟨-, rfl⟩ := guarded.mp hstep
    exact h.suspend
  | resume now =>
    obtain ⟨-, rfl⟩ := guarded.mp hstep
    exact h.pushing (w.frames.repeats_resume now)
  | copy d =>
    obtain ⟨hlive, rfl⟩ := guarded.mp hstep
    exact h.push (by simp only [World.refs]; omega)
  | drop d =>
    obtain ⟨hlive, rfl⟩ := guarded.mp hstep
    refine h.unref rfl rfl rfl rfl rfl rfl rfl ?_ fun e he => ?_
    · simp only [World.refs, update_self]
      omega
    · simp only [World.refs, update_of_ne he]
  | destroy =>
    obtain ⟨-, rfl⟩ := guarded.mp hstep
    exact h.destroy

end Inv

variable {w : World} {b : Addr}

theorem inv_of_reachable (hw : capture.Reachable w) : Inv w := by
  refine capture.invariant (P := Inv) ?_ (fun _ _ _ h hstep => h.step hstep) hw
  constructor <;> simp [capture, World.refs, Thread.released, Thread.back, Thread.token]

/-! ## A drain to its end -/

theorem Frames.mem_matchReleased_of_mem {slots : Addr → Option Slot} {back : List Addr}
    (hb : b ∈ back) (released : List (Addr × Nat)) : b ∈ (matchReleased slots back released).2 := by
  induction released generalizing slots back with
  | nil => exact hb
  | cons p released ih =>
    rw [matchReleased]
    split
    · exact ih hb
    split
    · exact ih hb
    · exact ih (mem_append_left _ hb)

theorem Frames.mem_matchReleased {slots : Addr → Option Slot} {back : List Addr}
    {s : Slot} (hs : slots b = some s) (hout : s.out = true) {released : List (Addr × Nat)}
    (hb : (b, s.delivery) ∈ released) : b ∈ (matchReleased slots back released).2 := by
  induction released generalizing slots back with
  | nil => cases hb
  | cons p released ih =>
    obtain ⟨b', d⟩ := p
    by_cases hhead : (b, s.delivery) = (b', d)
    · obtain ⟨rfl, rfl⟩ := Prod.mk.inj hhead
      simp only [matchReleased, hs]
      rw [if_neg (by simp [hout])]
      exact mem_matchReleased_of_mem (by simp) released
    have htail := (mem_cons.mp hb).resolve_left hhead
    rw [matchReleased]
    split
    · exact ih hs htail
    split
    · exact ih hs htail
    by_cases hne : b = b'
    · subst hne
      exact mem_matchReleased_of_mem (by simp) released
    · exact ih (by rw [update_of_ne hne, hs]) htail

/-- The delivery is back, or a drain has it. -/
def Underway (b : Addr) (d : Nat) (w : World) : Prop :=
  d ∈ w.peer.returned ∨
    w.peer.life b = .held d ∧ ((b, d) ∈ w.thread.released ∨ b ∈ w.thread.back)

/-- What a step does to the thread and to PipeWire's record: nothing, or a
new call, or the call goes on. -/
theorem step_cases {w' : World} {a : Act} (hstep : step w a = some w') :
    (w'.thread = w.thread ∧ w'.peer = w.peer) ∨
      (w.thread = .idle ∧ (w'.peer = w.peer ∨ ∃ b l, w'.peer = w.peer.set b l)) ∨
      ((∃ d, w.thread = .dropping d) ∧ w'.peer = w.peer) ∨
      (∃ released, w.thread = .matching released ∧
        w'.thread = .giveBack (Frames.matchReleased w.frames.slots [] released).2 ∧
        w'.peer = w.peer) ∨
      ∃ b back, w.thread = .returning (b :: back) ∧ w'.thread = .giveBack back ∧
        w'.peer = w.peer.requeue b := by
  cases a with
  | addBuffer b sb =>
    obtain ⟨⟨-, hidle, -⟩, rfl⟩ := guarded.mp hstep
    exact .inr (.inl ⟨Thread.eq_idle hidle, .inr ⟨b, .ready, rfl⟩⟩)
  | removeBuffer b =>
    obtain ⟨⟨-, hidle⟩, rfl⟩ := guarded.mp hstep
    exact .inr (.inl ⟨Thread.eq_idle hidle, .inr ⟨b, .absent, rfl⟩⟩)
  | onBuffer b sb now =>
    obtain ⟨⟨-, hidle, -⟩, rfl⟩ := guarded.mp hstep
    refine .inr (.inl ⟨Thread.eq_idle hidle, .inr ?_⟩)
    unfold World.deliver
    dsimp only
    split
    · exact ⟨b, .ready, rfl⟩
    · exact ⟨b, _, World.push_peer ..⟩
  | setFormat n =>
    obtain ⟨⟨-, hidle⟩, rfl⟩ := guarded.mp hstep
    exact .inr (.inl ⟨Thread.eq_idle hidle, .inl rfl⟩)
  | release =>
    simp only [step] at hstep
    split at hstep
    · rename_i d hthread
      cases hstep
      exact .inr (.inr (.inl ⟨⟨d, hthread⟩, World.unref_peer ..⟩))
    · cases hstep
  | drainReleases =>
    obtain ⟨⟨-, hidle⟩, rfl⟩ := guarded.mp hstep
    exact .inr (.inl ⟨Thread.eq_idle hidle, .inl rfl⟩)
  | matchReleased =>
    simp only [step] at hstep
    split at hstep
    · rename_i released hthread
      cases hstep
      exact .inr (.inr (.inr (.inl ⟨released, hthread, rfl, rfl⟩)))
    · cases hstep
  | requeue =>
    simp only [step] at hstep
    split at hstep
    · rename_i b back hthread
      cases hstep
      exact .inr (.inr (.inr (.inr ⟨b, back, hthread, rfl, rfl⟩)))
    · cases hstep
  | keepalive | attach | resume | suspend | copy | drop | destroy =>
    obtain ⟨-, rfl⟩ := guarded.mp hstep
    left
    simp [World.pushing]

theorem Peer.returned_requeue (p : Peer) (b : Addr) {d : Nat} (hd : d ∈ p.returned) :
    d ∈ (p.requeue b).returned := by
  unfold requeue
  split
  · exact mem_append_left _ hd
  · exact hd

/-- **Step.** A drain that has a delivery gives it back. -/
theorem Underway.step {w' : World} {a : Act} {d : Nat} (h : Inv w)
    (hd : Underway b d w) (hstep : step w a = some w') : Underway b d w' := by
  obtain hback | ⟨hl, hthread⟩ := hd
  · left
    obtain ⟨-, hpeer⟩ | ⟨-, hpeer | ⟨b', l, hpeer⟩⟩ | ⟨-, hpeer⟩ | ⟨_, -, -, hpeer⟩ |
      ⟨b', _, -, -, hpeer⟩ := step_cases hstep
    · exact hpeer ▸ hback
    · exact hpeer ▸ hback
    · exact hpeer ▸ hback
    · exact hpeer ▸ hback
    · exact hpeer ▸ hback
    · exact hpeer ▸ Peer.returned_requeue _ b' hback
  obtain ⟨hsame, hpeer⟩ | ⟨hidle, -⟩ | ⟨⟨t, hdrop⟩, -⟩ | ⟨released, hmatch, hthread', hpeer⟩ |
    ⟨b', back, hreturn, hthread', hpeer⟩ := step_cases hstep
  · right
    rw [hsame, hpeer]
    exact ⟨hl, hthread⟩
  · simp [hidle, Thread.released, Thread.back] at hthread
  · simp [hdrop, Thread.released, Thread.back] at hthread
  · right
    -- the buffer is out under this delivery, so the loop matches it
    have hmem : (b, d) ∈ released := by simpa [hmatch, Thread.released, Thread.back] using hthread
    obtain ⟨s, hs⟩ := Kept.slot_of_held h hl
    obtain ⟨rfl, hout⟩ := Kept.out h b s d hl hs
    have hout' : s.out = true := hout.mpr (by simp [hmatch, Thread.back])
    refine ⟨hpeer ▸ hl, .inr ?_⟩
    rw [hthread', Thread.giveBack_back]
    exact Frames.mem_matchReleased hs hout' hmem
  have hmem : b = b' ∨ b ∈ back := by
    simpa [hreturn, Thread.released, Thread.back] using hthread
  by_cases hb : b = b'
  · subst hb
    left
    simp [hpeer, Peer.requeue, hl]
  right
  refine ⟨?_, .inr ?_⟩
  · rw [hpeer, Peer.requeue]
    split
    · simpa [Peer.set, update_of_ne hb] using hl
    · exact hl
  · rw [hthread', Thread.giveBack_back]
    exact hmem.resolve_left hb

theorem run_requeue (back : List Addr) (hthread : w.thread = .giveBack back) :
    ∃ w', capture.run w (List.replicate back.length .requeue) = some w' ∧ w'.thread = .idle := by
  induction back generalizing w with
  | nil => exact ⟨w, rfl, hthread⟩
  | cons b back ih =>
    have hstep : capture.step w .requeue =
        some { w with thread := .giveBack back, peer := w.peer.requeue b } := by
      rw [Thread.giveBack, if_neg (cons_ne_nil b back)] at hthread
      simp only [capture, step, hthread]
    obtain ⟨w', hrun, hidle⟩ := ih
      (w := { w with thread := .giveBack back, peer := w.peer.requeue b }) rfl
    exact ⟨w', capture.run_cons_eq_some.mpr ⟨_, hstep, hrun⟩, hidle⟩

/-- A drain that begins comes to its end. -/
theorem drain_ends (halive : w.alive = true) (hthread : w.thread = .idle) :
    ∃ n w', capture.run w
        (.drainReleases :: .matchReleased :: List.replicate n .requeue) = some w' ∧
      w'.thread = .idle := by
  have hdrain : capture.step w .drainReleases =
      some { w with released := [], thread := .matching w.released } := by
    simp [capture, step, halive, hthread]
  let r := Frames.matchReleased w.frames.slots [] w.released
  obtain ⟨w', hrun, hidle⟩ := run_requeue r.2
    (w := { w with
      frames := { w.frames with slots := r.1 }, released := [], thread := .giveBack r.2 }) rfl
  exact ⟨r.2.length, w', capture.run_cons_eq_some.mpr ⟨_, hdrain,
    capture.run_cons_eq_some.mpr ⟨_, rfl, hrun⟩⟩, hidle⟩

/-! ## Result -/

/-- **A frame somebody reads is not overwritten.** In every reachable
state: a buffer about to be given back is one PipeWire delivered and we
held, with no GstBuffer over that delivery alive and the delivery not the
newest frame; no delivery is given back twice; and while the PipeWire
thread is in no call, a held delivery that nobody refers to is given back
by the drain that begins then, whatever the others do meanwhile, and that
drain comes to its end. -/
theorem never_overwritten {w : World} (hw : capture.Reachable w) :
    (∀ b back, w.thread = .returning (b :: back) → ∃ d, w.peer.life b = .held d ∧
      w.live d = 0 ∧ w.frames.heldToken ≠ some d ∧
      (w.frames.held = some b → w.frames.heldToken = none)) ∧
    w.peer.returned.Nodup ∧
    ∀ b d, w.alive = true → w.thread = .idle → w.peer.life b = .held d → w.live d = 0 →
      w.frames.heldToken ≠ some d →
      (∃ n w', capture.run w
          (.drainReleases :: .matchReleased :: List.replicate n .requeue) = some w' ∧
        w'.thread = .idle) ∧
      ∀ acts w', capture.run w (.drainReleases :: acts) = some w' → w'.thread = .idle →
        d ∈ w'.peer.returned := by
  have hinv := inv_of_reachable hw
  refine ⟨fun b back hthread => ?_, Kept.once hinv, fun b d halive hthread hl hlive hnot => ?_⟩
  · obtain ⟨d, hl, hdead⟩ := Kept.matched hinv b (by simp [hthread, Thread.back])
    simp only [World.refs, Nat.add_eq_zero_iff] at hdead
    have hnot : w.frames.heldToken ≠ some d := fun heq => by simp [heq] at hdead
    refine ⟨d, hl, hdead.1.1, hnot, fun hheld => ?_⟩
    cases ht : w.frames.heldToken with
    | none => rfl
    | some t =>
      obtain ⟨b', hheld', hl'⟩ := Kept.newest hinv t ht
      cases hheld'.symm.trans hheld
      obtain rfl := Life.held.inj (hl.symm.trans hl')
      exact absurd ht hnot
  refine ⟨drain_ends halive hthread, fun acts w' hrun hidle => ?_⟩
  have hkept := hinv.idle hthread
  have hdead : w.refs d = 0 := by
    have hheld : refTo w.frames.heldToken d = 0 := if_neg hnot
    simp [World.refs, hlive, hheld, hthread, Thread.token]
  obtain ⟨w₁, hdrain, hrest⟩ := capture.run_cons_eq_some.mp hrun
  have hw₁ : Underway b d w₁ := by
    obtain ⟨-, rfl⟩ := guarded.mp hdrain
    exact .inr ⟨hl, .inl (hkept.owed halive b d hl not_mem_nil hdead)⟩
  have hend : Inv w' ∧ Underway b d w' := by
    refine capture.run_induction (P := fun w => Inv w ∧ Underway b d w) (Q := fun _ _ => True)
      ?_ ⟨hinv.step (a := .drainReleases) hdrain, hw₁⟩ (capture.allSteps_true _ _) hrest
    rintro w a w' ⟨hinv, hunder⟩ - hstep
    exact ⟨hinv.step hstep, hunder.step hinv hstep⟩
  obtain hback | ⟨-, hthread'⟩ := hend.2
  · exact hback
  · simp [hidle, Thread.released, Thread.back] at hthread'

/-- Two buffers delivered to an appsrc, which has dropped the first. -/
def twoFrames : List Act :=
  [.addBuffer 1 ⟨1, true, true⟩, .addBuffer 2 ⟨1, true, true⟩,
    .setFormat { width := 64, height := 48, dmabuf := true }, .attach (some 0) 0,
    .onBuffer 1 ⟨some (64, false), false⟩ 1, .onBuffer 2 ⟨some (64, false), false⟩ 2, .release,
    .drop 1]

theorem never_overwritten_first : ∃ w, capture.run {} twoFrames = some w ∧
    w.peer.life 1 = .held 1 ∧ w.peer.life 2 = .held 2 ∧
    ∃ w', capture.run w [.drainReleases, .matchReleased, .copy 2, .requeue] = some w' ∧
      1 ∈ w'.peer.returned := by
  refine evaluated (fun w => decide (w.peer.life 1 = .held 1 ∧ w.peer.life 2 = .held 2 ∧
    w.alive = true ∧ w.thread = .idle ∧ w.live 1 = 0 ∧ w.frames.heldToken = some 2 ∧
    (capture.run w [.drainReleases, .matchReleased, .copy 2, .requeue]).map World.thread =
      some .idle)) (b := true) (by decide +kernel) fun w hrun hw => ?_
  obtain ⟨hfirst, hsecond, halive, hidle, hlive, hheld, hend⟩ := of_decide_eq_true hw
  obtain ⟨w', hrun', hidle'⟩ := map_eq_some_iff.mp hend
  exact ⟨hfirst, hsecond, w', hrun',
    ((never_overwritten ⟨_, hrun⟩).2.2 1 1 halive hidle hfirst hlive (by simp [hheld])).2 _ w' hrun'
      hidle'⟩

end Fjarr.Capture
