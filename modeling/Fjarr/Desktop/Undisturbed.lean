/-
Fjarr.Desktop.Undisturbed — what the sessions without control can do to
the desktop.

Every message of a session passes the core's control gate on its way to
the capability. The gate stops input only; a message whose type is not
among the manifest's inputs passes, and the capability is trusted to
handle those that are not input before it does its input bookkeeping. It
does so for three of them. Any other type from any session takes the
input away from the session that has it (`stolen_input`). Nor does the
gate stop blob chunks, which may complete a write that was asked for
while the session had control.

With those two left out, the driver is called exactly as if only the
operator's own sessions had sent anything: `undisturbed`. The proof
relates the run with the run of the operator's messages alone, by what
the operator's own messages depend on (`Alike`, `SameDomain`).
-/
import Fjarr.Control.Gate
import Fjarr.Desktop.Clipboard
import Fjarr.Desktop.Handles

namespace Fjarr.Desktop

open Lib Blob Option Control.SessionManager Fjarr.Desktop.Field

/-! ## What the operator's messages depend on -/

/-- The two agree on what the driver was called for, whose input is on
the desktop, the pointers, the layout, the sessions and, of the blobs the
operator uses, the entries that count. -/
structure Alike (mine : String → Bool) (live : Incoming → Bool) (d d' : Impl) : Prop where
  calls : d'.calls = d.calls
  input : d'.inputSession = d.inputSession
  seq : d'.pointerSeq = d.pointerSeq
  layout : d'.world.backend.monitors.map Monitor.ident =
    d.world.backend.monitors.map Monitor.ident
  sessions : d'.world.sessions = d.world.sessions
  incoming : ∀ blobId, mine blobId = true →
    (d'.incoming[blobId]?).filter live = (d.incoming[blobId]?).filter live

theorem Field.elim_induction₂ {α β : Type} {P : β → β → Prop} (f : Field α) (default : α)
    {threw threw' : β} {next next' : α → β} (hthrew : P threw threw')
    (hnext : ∀ v, P (next v) (next' v)) :
    P (f.elim default threw next) (f.elim default threw' next') := by
  cases f with
  | absent => exact hnext default
  | mistyped => exact hthrew
  | is v => exact hnext v

namespace Alike

variable {mine : String → Bool} {live : Incoming → Bool} {d d' d'' : Impl}

theorem refl (d : Impl) : Alike mine live d d := ⟨rfl, rfl, rfl, rfl, rfl, fun _ _ => rfl⟩

theorem trans (h : Alike mine live d d') (h' : Alike mine live d' d'') : Alike mine live d d'' :=
  ⟨h'.calls.trans h.calls, h'.input.trans h.input, h'.seq.trans h.seq, h'.layout.trans h.layout,
    h'.sessions.trans h.sessions, fun b hb => (h'.incoming b hb).trans (h.incoming b hb)⟩

theorem symm (h : Alike mine live d d') : Alike mine live d' d :=
  ⟨h.calls.symm, h.input.symm, h.seq.symm, h.layout.symm, h.sessions.symm,
    fun b hb => (h.incoming b hb).symm⟩

theorem fewer {live' : Incoming → Bool} (h : Alike mine live d d')
    (hlive : ∀ i, live' i = true → live i = true) : Alike mine live' d d' where
  __ := h
  incoming := fun b hb => by
    have hfilter : ∀ o : Option Incoming, o.filter live' = (o.filter live).filter live' := by
      intro o
      rw [filter_filter]
      congr 1
      funext i
      cases hi : live' i with
      | false => rw [Bool.and_false]
      | true => rw [hlive i hi, Bool.and_true]
    rw [hfilter, h.incoming b hb, ← hfilter]

variable {now : Time}

theorem later {now' : Time} (h : Alike mine (·.waits now) d d') (hnow : now ≤ now') :
    Alike mine (·.waits now') d d' := by
  refine h.fewer fun i hi => ?_
  have hi : now' - i.first < incomingTtl := of_decide_eq_true hi
  exact decide_eq_true ((Int.sub_le_sub_right hnow _).trans_lt hi)

/-! ### Messages of the operator -/

section

variable (h : Alike mine live d d')
include h

theorem call (c : DriverCall) :
    Alike mine live (d.call c) (d'.call c) where
  __ := h
  calls := by rw [Impl.call, Impl.call, h.calls]

section

variable (id : SessionId)

theorem accept (msg : Msg) :
    Alike mine live (d.accept id msg) (d'.accept id msg) := by
  unfold Impl.accept
  split
  · exact { h with }
  · exact h

theorem refuse (msg : Msg) (code why : String) :
    Alike mine live (d.refuse id msg code why) (d'.refuse id msg code why) := by
  unfold Impl.refuse
  split
  · exact { h with }
  · exact h

theorem threw (msg : Msg) :
    Alike mine live (d.threw id msg) (d'.threw id msg) := by
  unfold Impl.threw
  split
  · exact { h with }
  · exact h

theorem lastSeq : d'.lastSeq id = d.lastSeq id := by
  rw [Impl.lastSeq, Impl.lastSeq, h.seq]

theorem setSeq (seq : UInt64) :
    Alike mine live (d.setSeq id seq) (d'.setSeq id seq) where
  __ := h
  seq := by rw [Impl.setSeq, Impl.setSeq, h.seq]

end

theorem monitorFor (track : String) :
    d'.monitorFor track = d.monitorFor track := by
  have hfind : ∀ ms : List Monitor,
      (ms.find? fun m => "desk-" ++ m.wireId = track).map Monitor.id =
        ((ms.map Monitor.ident).find? fun i => "desk-" ++ i.2.1 = track).map Prod.fst := by
    intro ms
    rw [List.find?_map, map_map]
    rfl
  unfold Impl.monitorFor
  rw [hfind, hfind, h.layout]

theorem moveTo (track : String) (x y : ℚ) :
    Alike mine live (d.moveTo track x y) (d'.moveTo track x y) := by
  unfold Impl.moveTo
  rw [h.monitorFor]
  split
  · exact h
  split
  · exact h
  · exact h.call _

theorem pointer (id : SessionId) (msg : Msg) :
    Alike mine live (d.pointer id msg) (d'.pointer id msg) := by
  unfold Impl.pointer
  refine elim_induction₂ _ _ (h.threw id msg) fun seq => ?_
  rw [h.lastSeq]
  split
  · exact h
  have hseq := h.setSeq id seq
  refine elim_induction₂ _ _ (hseq.threw id msg) fun x => ?_
  refine elim_induction₂ _ _ (hseq.threw id msg) fun y => ?_
  exact elim_induction₂ _ _ (hseq.threw id msg) fun track => hseq.moveTo track x y

theorem button (id : SessionId) (msg : Msg) :
    Alike mine live (d.button id msg) (d'.button id msg) := by
  unfold Impl.button
  refine elim_induction₂ _ _ (h.threw id msg) fun name => ?_
  split
  · exact h.refuse id msg _ _
  refine elim_induction₂ _ _ (h.threw id msg) fun down => ?_
  split
  · refine elim_induction₂ _ _ (h.threw id msg) fun x => ?_
    refine elim_induction₂ _ _ (h.threw id msg) fun y => ?_
    refine elim_induction₂ _ _ (h.threw id msg) fun track => ?_
    have hmove := h.moveTo track x y
    refine elim_induction₂ _ _ (hmove.threw id msg) fun seq => ?_
    rw [hmove.lastSeq]
    exact (hmove.setSeq id _).call _
  · exact h.call _

theorem wheel (id : SessionId) (msg : Msg) :
    Alike mine live (d.wheel id msg) (d'.wheel id msg) :=
  elim_induction₂ _ _ (h.threw id msg) fun _ =>
    elim_induction₂ _ _ (h.threw id msg) fun _ => h.call _

theorem key (evdevForCode : String → Option Nat) (id : SessionId)
    (msg : Msg) : Alike mine live (d.key evdevForCode id msg) (d'.key evdevForCode id msg) := by
  unfold Impl.key
  refine elim_induction₂ _ _ (h.threw id msg) fun code => ?_
  split
  · exact h.refuse id msg _ _
  · exact elim_induction₂ _ _ (h.threw id msg) fun down => h.call _

theorem keyCombo (evdevForCode : String → Option Nat) (id : SessionId) (msg : Msg) :
    Alike mine live (d.keyCombo evdevForCode id msg) (d'.keyCombo evdevForCode id msg) := by
  unfold Impl.keyCombo
  split
  · exact h.refuse id msg _ _
  · refine accept ?_ id msg
    exact { h with calls := by rw [h.calls] }

theorem text (id : SessionId) (msg : Msg) :
    Alike mine live (d.text id msg) (d'.text id msg) := by
  unfold Impl.text
  refine elim_induction₂ _ _ (h.threw id msg) fun text => ?_
  have hcall := h.call (.typeText text)
  split
  · exact hcall.refuse id msg _ _
  split
  · split
    · exact { hcall with }
    · exact hcall
  · exact hcall.accept id msg

/-- The screens change on both sides, as long as the layout is kept. -/
theorem world {w w' : World} (hw : Backend.Moves d.world.backend w.backend)
    (hw' : Backend.Moves d'.world.backend w'.backend) (hsessions : w.sessions = d.world.sessions)
    (hsessions' : w'.sessions = d'.world.sessions) :
    Alike mine live { d with world := w } { d' with world := w' } where
  __ := h
  layout := by
    rw [hw.layout.1, hw'.layout.1, h.layout]
  sessions := hsessions'.trans (h.sessions.trans hsessions.symm)

variable (id : SessionId)

theorem addMonitor (msg : Msg) :
    Alike mine live (d.addMonitor id msg) (d'.addMonitor id msg) := by
  unfold Impl.addMonitor
  refine elim_induction₂ _ _ (h.threw id msg) fun width => ?_
  refine elim_induction₂ _ _ (h.threw id msg) fun height => ?_
  exact h.world (World.addMonitor_moves _ _ _ _ _) (World.addMonitor_moves _ _ _ _ _)
    (addMonitor_sessions _ _ _ _ _) (addMonitor_sessions _ _ _ _ _)

theorem removeMonitor (msg : Msg) :
    Alike mine live (d.removeMonitor id msg) (d'.removeMonitor id msg) := by
  unfold Impl.removeMonitor
  refine elim_induction₂ _ _ (h.threw id msg) fun wire => ?_
  exact h.world (World.removeMonitor_moves _ _ _ _) (World.removeMonitor_moves _ _ _ _)
    (removeMonitor_sessions _ _ _ _) (removeMonitor_sessions _ _ _ _)

theorem takeInput :
    Alike mine live (d.takeInput id) (d'.takeInput id) := by
  unfold Impl.takeInput
  rw [h.input]
  split
  · exact { h.call .releaseAllInput with input := rfl }
  · exact { h with input := rfl }

theorem releaseAllInput :
    Alike mine live (d.releaseAllInput id) (d'.releaseAllInput id) := by
  unfold Impl.releaseAllInput
  rw [h.input]
  split
  · exact h
  · exact { h.call .releaseAllInput with input := rfl }

end

theorem clipboardRead (d : Impl) (id : SessionId) (viewOnly : Bool) (msg : Msg) :
    Alike mine live d (d.clipboardRead id viewOnly msg) := by
  have hrefuse : ∀ code why, Alike mine live d (d.refuse id msg code why) := by
    intro code why
    unfold Impl.refuse
    split
    · exact { refl d with }
    · exact refl d
  have hthrew : Alike mine live d (d.threw id msg) := by
    unfold Impl.threw
    split
    · exact { refl d with }
    · exact refl d
  unfold Impl.clipboardRead
  split
  · exact hrefuse _ _
  refine elim_induction hthrew fun type => ?_
  refine elim_induction hthrew fun offerId => ?_
  split
  · exact hrefuse _ _
  split
  · exact hrefuse _ _
  · exact refl d

theorem resumeSharing (d : Impl) (id : SessionId) (msg : Call) :
    Alike mine live d { d with world := d.world.resumeSharing id msg } where
  __ := refl d
  layout := by
    have hmoves := (World.resume_moves d.world).layout.1
    rw [← hmoves]
    rw [World.resumeSharing, World.answer_backend]
  sessions := resumeSharing_sessions d.world id msg

/-! ### Clipboard writes of the operator -/

section Writes

variable {now : Time}

theorem of_get? {live' : Incoming → Bool} (h : Alike mine live' d d')
    (hget : ∀ b, mine b = true → d'.incoming[b]? = d.incoming[b]?) : Alike mine live d d' where
  __ := h
  incoming := fun b hb => by rw [hget b hb]

variable {blobId : String}

theorem get? (h : Alike mine (fun _ => true) d d') (hmine : mine blobId = true) :
    d'.incoming[blobId]? = d.incoming[blobId]? := by
  have hall : ∀ o : Option Incoming, o.filter (fun _ => true) = o := by
    intro o
    cases o <;> rfl
  have hfilter := h.incoming blobId hmine
  rwa [hall, hall] at hfilter

theorem of_all (h : Alike mine (fun _ => true) d d') : Alike mine live d d' :=
  h.of_get? fun _ hb => h.get? hb

theorem expireIncoming (h : Alike mine (·.waits now) d d') :
    Alike mine (fun _ => true) (d.expireIncoming now) (d'.expireIncoming now) := by
  have hrest : Alike mine (fun _ => false) (d.expireIncoming now) (d'.expireIncoming now) :=
    { h with
      incoming := fun b _ => by
        cases (d'.expireIncoming now).incoming[b]? <;> cases (d.expireIncoming now).incoming[b]? <;>
          rfl }
  refine hrest.of_get? fun b hb => ?_
  unfold Impl.expireIncoming
  rw [Maps.get?_filter, Maps.get?_filter]
  exact h.incoming b hb

theorem entry (h : Alike mine (fun _ => true) d d') (hmine : mine blobId = true)
    (id : SessionId) (now : Time) : d'.entry id blobId now = d.entry id blobId now := by
  rw [Impl.entry, Impl.entry, h.get? hmine]

theorem setIncoming (h : Alike mine (fun _ => true) d d') (blobId : String) (i : Incoming) :
    Alike mine (fun _ => true) (d.setIncoming blobId i) (d'.setIncoming blobId i) where
  __ := h
  incoming := fun b hb => by
    unfold Impl.setIncoming
    rw [Maps.get?_insert, Maps.get?_insert, h.get? hb]

theorem tryWrite (h : Alike mine (fun _ => true) d d')
    (hmine : mine blobId = true) :
    Alike mine (fun _ => true) (d.tryWrite blobId) (d'.tryWrite blobId) := by
  have herase : ∀ b, mine b = true →
      (d'.incoming.erase blobId)[b]? = (d.incoming.erase blobId)[b]? := by
    intro b hb
    rw [Maps.get?_erase, Maps.get?_erase, h.get? hb]
  unfold Impl.tryWrite
  rw [h.get? hmine]
  split
  · exact h
  split
  · exact h
  split
  · exact h
  dsimp only
  rw [h.sessions]
  split
  · exact { h.call _ with incoming := fun b hb => congrArg _ (herase b hb) }
  · exact { h with incoming := fun b hb => congrArg _ (herase b hb) }

theorem clipboardWrite (h : Alike mine (·.waits now) d d') (id : SessionId) {msg : Msg}
    (hmine : ∀ ref ∈ msg.payload.blob, mine ref.id = true) :
    Alike mine (·.waits now) (d.clipboardWrite id msg now) (d'.clipboardWrite id msg now) := by
  unfold Impl.clipboardWrite
  refine elim_induction₂ _ _ (h.threw id msg) fun type => ?_
  split
  · exact h.refuse id msg _ _
  split
  · exact h.refuse id msg _ _
  rename_i ref hblob
  have hmine := hmine ref hblob
  split
  · exact { h with }
  have hexpire := h.expireIncoming
  refine of_all ?_
  unfold Impl.requestWrite
  dsimp only
  rw [hexpire.entry hmine]
  split
  · exact hexpire.refuse id msg _ _
  · exact (hexpire.setIncoming ref.id _).tryWrite hmine

theorem onBlobChunk (h : Alike mine (·.waits now) d d') (id : SessionId) {c : BlobChunk}
    (hmine : mine c.blobId = true) :
    Alike mine (·.waits now) (d.onBlobChunk id c now) (d'.onBlobChunk id c now) := by
  have hnoted : Alike mine (·.waits now) { d with chunks := d.chunks ++ [(id, c)] }
      { d' with chunks := d'.chunks ++ [(id, c)] } := { h with }
  unfold Impl.onBlobChunk
  split
  · exact hnoted
  have hexpire := hnoted.expireIncoming
  refine of_all ?_
  unfold Impl.addChunk
  dsimp only
  rw [hexpire.entry hmine]
  split
  · exact hexpire
  generalize (if c.offset = 0 then [] else _) ++ c.payload = bytes
  split
  · exact (hexpire.setIncoming c.blobId _).tryWrite hmine
  · exact hexpire.setIncoming c.blobId _

end Writes

theorem onInput (h : Alike mine (·.waits now) d d')
    (evdevForCode : String → Option Nat) (id : SessionId) {msg : Msg}
    (hmine : ∀ ref ∈ msg.payload.blob, mine ref.id = true) :
    Alike mine (·.waits now) (d.onInput evdevForCode id msg now)
      (d'.onInput evdevForCode id msg now) := by
  unfold Impl.onInput
  split
  · exact h.pointer id msg
  · exact h.button id msg
  · exact h.wheel id msg
  · exact h.key evdevForCode id msg
  · exact h.keyCombo evdevForCode id msg
  · exact h.clipboardWrite id hmine
  · exact h.addMonitor id msg
  · exact h.removeMonitor id msg
  · exact h.text id msg
  · exact h.refuse id msg _ _

theorem onMessage (h : Alike mine (·.waits now) d d')
    (evdevForCode : String → Option Nat) (id : SessionId) (viewOnly : Bool) {msg : Msg}
    (hmine : ∀ ref ∈ msg.payload.blob, mine ref.id = true) :
    Alike mine (·.waits now) (d.onMessage evdevForCode id viewOnly msg now)
      (d'.onMessage evdevForCode id viewOnly msg now) := by
  have hnoted : Alike mine (·.waits now) { d with messages := d.messages ++ [(id, msg)] }
      { d' with messages := d'.messages ++ [(id, msg)] } := { h with }
  unfold Impl.onMessage
  split
  · exact ((resumeSharing _ id msg.call).symm.trans hnoted).trans (resumeSharing _ id msg.call)
  split
  · exact ((clipboardRead _ id viewOnly msg).symm.trans hnoted).trans
      (clipboardRead _ id viewOnly msg)
  split
  · exact (hnoted.releaseAllInput id).accept id msg
  · exact (hnoted.takeInput id).onInput evdevForCode id hmine

end Alike

/-! ## Messages of the others -/

/-- The chunk completes a write its session asked for. -/
def Impl.completes (d : Impl) (id : SessionId) (c : BlobChunk) (now : Time) : Bool :=
  ((d.incoming[c.blobId]?).filter (·.waits now)).any fun i =>
    i.session = id ∧ i.request.isSome ∧
      c.blobLen.toNat ≤ ((if c.offset = 0 then [] else i.bytes) ++ c.payload).length

namespace Alike

variable {mine : String → Bool} {d : Impl} {id : SessionId} {now : Time}

theorem setIncoming_other {live : Incoming → Bool} {blobId : String}
    (hmine : mine blobId = false) (i : Incoming) :
    Alike mine live d (d.setIncoming blobId i) := by
  refine ⟨rfl, rfl, rfl, rfl, rfl, fun b hb => ?_⟩
  have hne : b ≠ blobId := by
    rintro rfl
    rw [hmine] at hb
    cases hb
  unfold Impl.setIncoming
  rw [Maps.get?_insert, if_neg hne]

theorem expireIncoming_self (d : Impl) (now : Time) :
    Alike mine (·.waits now) d (d.expireIncoming now) := by
  refine ⟨rfl, rfl, rfl, rfl, rfl, fun b _ => ?_⟩
  unfold Impl.expireIncoming
  rw [Maps.get?_filter, filter_filter]
  simp only [Bool.and_self]

theorem addChunk_other {live : Incoming → Bool} {c : BlobChunk} (hmine : mine c.blobId = false)
    (hrequest : (d.entry id c.blobId now).session = id → c.blobLen.toNat ≤
      ((if c.offset = 0 then [] else (d.entry id c.blobId now).bytes) ++ c.payload).length →
      (d.entry id c.blobId now).request = none) :
    Alike mine live d (d.addChunk id c now) := by
  unfold Impl.addChunk
  generalize d.entry id c.blobId now = i at hrequest ⊢
  dsimp only
  split
  · exact refl d
  rename_i hsession
  generalize (if c.offset = 0 then [] else i.bytes) ++ c.payload = bytes at hrequest ⊢
  split
  · rename_i hfull
    have hnone := hrequest (not_not.mp hsession) hfull
    have htry : (d.setIncoming c.blobId { i with bytes, complete := true }).tryWrite c.blobId =
        d.setIncoming c.blobId { i with bytes, complete := true } := by
      rw [Impl.tryWrite, Impl.setIncoming]
      rw [Maps.get?_insert, if_pos rfl]
      rw [hnone]
    rw [htry]
    exact setIncoming_other hmine _
  · exact setIncoming_other hmine _

/-- A chunk that completes no write is not noticed. -/
theorem onBlobChunk_other {c : BlobChunk} (hmine : mine c.blobId = false)
    (hcompletes : d.completes id c now = false) :
    Alike mine (·.waits now) d (d.onBlobChunk id c now) := by
  have hnoted : Alike mine (·.waits now) d { d with chunks := d.chunks ++ [(id, c)] } :=
    { refl d with }
  unfold Impl.onBlobChunk
  split
  · exact hnoted
  refine (hnoted.trans (expireIncoming_self _ now)).trans (addChunk_other hmine ?_)
  have hexpired : ({ d with chunks := d.chunks ++ [(id, c)] }.expireIncoming
      now).incoming[c.blobId]? = (d.incoming[c.blobId]?).filter (·.waits now) :=
    Maps.get?_filter _ _ _
  unfold Impl.completes at hcompletes
  unfold Impl.entry
  rw [hexpired]
  intro hsession hfull
  cases hi : (d.incoming[c.blobId]?).filter (·.waits now) with
  | none => rfl
  | some i =>
    rw [hi] at hcompletes hsession hfull
    by_contra hrequest
    have hsome : i.request.isSome = true := isSome_iff_ne_none.mpr hrequest
    exact absurd ⟨hsession, hsome, hfull⟩ (of_decide_eq_false hcompletes)

/-- The types the capability handles before its input bookkeeping. -/
theorem onMessage_other (evdevForCode : String → Option Nat) (viewOnly : Bool) {msg : Msg}
    (htype : msg.type ∈ ["resume-sharing", "clipboard-read", "release-all"])
    (hinput : d.inputSession.any (· ≠ id) = true) :
    Alike mine (·.waits now) d (d.onMessage evdevForCode id viewOnly msg now) := by
  have hnoted : Alike mine (·.waits now) d { d with messages := d.messages ++ [(id, msg)] } :=
    { refl d with }
  refine hnoted.trans ?_
  unfold Impl.onMessage
  split
  · exact resumeSharing _ id msg.call
  rename_i hresume
  split
  · exact clipboardRead _ id viewOnly msg
  rename_i hread
  have hrelease : msg.type = "release-all" := by
    simpa [hresume, hread] using htype
  rw [if_pos hrelease, Impl.releaseAllInput, if_pos hinput]
  unfold Impl.accept
  split
  · exact { refl _ with }
  · exact refl _

end Alike

/-! ## The gate in front of the capability -/

/-- `DesktopCapability::manifest`. -/
def desktopManifest : Control.Manifest where
  name := "fjarr.desktop"
  inputBearing := true
  controlDomain := "desktop"
  controlInputs := ["pointer", "button", "wheel", "key", "key-combo", "text", "clipboard-write",
    "add-monitor", "remove-monitor"]
  domain_inputBearing := fun _ => rfl

/-- What a session sends to the capability. -/
inductive Inbound where
  | text (msg : Msg)
  | chunk (c : BlobChunk)

structure Arrival where
  sender : SessionId
  what : Inbound
  now : Time
  nowMs : Int := 0

/-- The core and the capability, in which every grant of the desktop
carries the capability's manifest. -/
structure Robot where
  mgr : Control.SessionManager
  desktop : Impl
  clock : Time := 0
  granted : ∀ (id : SessionId) (s : Control.Session), mgr.sessions[id]? = some s →
    ∀ c ∈ s.caps, c.manifest.name = desktopManifest.name → c.manifest = desktopManifest

/-- The message as the core sees it. -/
def Msg.envelope (msg : Msg) : Control.Envelope where
  cap := desktopManifest.name
  type := msg.type
  kind := if msg.request then .request else .event

def Arrival.op (a : Arrival) : Control.Op :=
  match a.what with
  | .text msg => .text a.sender msg.envelope a.now a.nowMs
  | .chunk _ => .data a.sender desktopManifest.name true a.now a.nowMs

/-- One call of the capability. -/
def Impl.called (evdevForCode : String → Option Nat) (viewOnly : Bool) (a : Arrival) (d : Impl) :
    Control.Effect → Impl
  | .deliver id _ _ =>
    match a.what with
    | .text msg => d.onMessage evdevForCode id viewOnly msg a.now
    | .chunk c => d.onBlobChunk id c a.now
  | .releaseAllInput id _ => d.releaseAllInput id
  | _ => d

theorem desktopManifest_name : desktopManifest.name ≠ "fjarr.core" := by decide

namespace Arrival

variable {m m' : Control.SessionManager} {a : Arrival}

/-- What the gate is told of it. -/
def type (a : Arrival) : Option String :=
  match a.what with
  | .text msg => some msg.type
  | .chunk _ => none

def request (a : Arrival) : Bool :=
  match a.what with
  | .text msg => msg.envelope.kind == .request
  | .chunk _ => false

/-- The core serves it and hands it to nobody. -/
def served (a : Arrival) : Bool :=
  match a.what with
  | .text msg => msg.type = "select-tracks" ∧ msg.request = true
  | .chunk _ => false

theorem step_unaddressed (h : m.addressed a.sender desktopManifest.name = none) :
    (m.step a.op).1 = m ∧
      (m.step a.op).2.filter (Control.Effect.isFor desktopManifest.name) = [] := by
  obtain ⟨sender, what, now, nowMs⟩ := a
  cases what with
  | text msg => exact onChannelText_unaddressed desktopManifest_name h now nowMs
  | chunk c =>
    have hstep := onChannelData_unaddressed h true now nowMs
    exact ⟨congrArg Prod.fst hstep, by rw [op, Control.SessionManager.step, hstep]; rfl⟩

theorem step_addressed {s : Control.Session} {cap : Control.AttachedCapability}
    (h : m.addressed a.sender desktopManifest.name = some (s, cap)) :
    m.step a.op = if a.served = true then (m, [])
      else m.gated a.sender s cap a.type a.request a.now a.nowMs := by
  obtain ⟨sender, what, now, nowMs⟩ := a
  cases what with
  | text msg =>
    refine (onChannelText_addressed desktopManifest_name h now nowMs).trans ?_
    have hserved : msg.envelope.type = "select-tracks" ∧ msg.envelope.kind = .request ↔
        served ⟨sender, .text msg, now, nowMs⟩ = true := by
      unfold served Msg.envelope
      cases hr : msg.request <;> simp [hr]
    simp only [hserved]
    rfl
  | chunk c => exact onChannelData_addressed h now nowMs

theorem sessions (m : Control.SessionManager) (a : Arrival) :
    (m.step a.op).1.sessions = m.sessions := by
  unfold op
  split
  · exact onChannelText_sessions desktopManifest_name _ _ _
  · exact m.onChannelData_sessions _ _ _ _

theorem step_same (h : Control.SameDomain "desktop" m m')
    (hin : m.InDomain desktopManifest.name "desktop") :
    Control.SameDomain "desktop" (m.step a.op).1 (m'.step a.op).1 ∧
      (m'.step a.op).2.filter (Control.Effect.isFor desktopManifest.name) =
        (m.step a.op).2.filter (Control.Effect.isFor desktopManifest.name) := by
  have haddressed : m'.addressed a.sender desktopManifest.name =
      m.addressed a.sender desktopManifest.name := by
    unfold addressed
    rw [h.sessions]
  cases hcap : m.addressed a.sender desktopManifest.name with
  | none =>
    obtain ⟨hm, hes⟩ := step_unaddressed hcap
    obtain ⟨hm', hes'⟩ := step_unaddressed (haddressed.trans hcap)
    rw [hm, hm', hes, hes']
    exact ⟨h, rfl⟩
  | some x =>
    obtain ⟨s, cap⟩ := x
    rw [step_addressed hcap, step_addressed (haddressed.trans hcap)]
    split
    · exact ⟨h, rfl⟩
    · exact gated_same h hin
        (addressed_domain hin hcap) _ _

end Arrival

namespace Robot

/-- The session's grant of the desktop is view-only. -/
def viewOnly (r : Robot) (id : SessionId) : Bool :=
  ((r.mgr.sessions[id]?).bind fun s => s.attached desktopManifest.name).any fun c => c.viewOnly

/-- The message goes through the core, which calls the capability. -/
def after (evdevForCode : String → Option Nat) (r : Robot) (a : Arrival) : Robot where
  mgr := (r.mgr.step a.op).1
  desktop := ((r.mgr.step a.op).2.filter (Control.Effect.isFor desktopManifest.name)).foldl
    (Impl.called evdevForCode (r.viewOnly a.sender) a) r.desktop
  clock := a.now
  granted := by
    rw [Arrival.sessions]
    exact r.granted

/-- A session of the operator, whose grant is not view-only. -/
def mayInput (r : Robot) (op : String) (id : SessionId) : Bool :=
  (r.mgr.sessions[id]?).any (fun s => s.operator.id = op) && !r.viewOnly id

/-- The operator holds the desktop at this time. -/
def holds (r : Robot) (op : String) (now : Time) : Bool :=
  ((r.mgr.control.expire now).2.holder "desktop").any fun h => h.op.id = op

end Robot

/-- Any messages of any sessions; the clock does not go back. -/
def robot (evdevForCode : String → Option Nat) : System Robot Arrival where
  init := { mgr := {}, desktop := {}, granted := fun id s hs => by simp at hs }
  step := fun r a => if a.now < r.clock then none else some (r.after evdevForCode a)

/-- The blobs a message names. -/
def Inbound.blobs : Inbound → List String
  | .text msg => (msg.payload.blob.map BlobRef.id).toList
  | .chunk c => [c.blobId]

/-- A message of another session that does no harm: input, which the gate
stops, one of the types handled first, a request the core serves, or a
chunk of another blob that completes no write. -/
def Harmless (mine : String → Bool) (r : Robot) (a : Arrival) : Prop :=
  match a.what with
  | .text msg =>
    msg.type ∈ desktopManifest.controlInputs ∨
      msg.type ∈ ["resume-sharing", "clipboard-read", "release-all"] ∨
      msg.type = "select-tracks" ∧ msg.request = true
  | .chunk c => mine c.blobId = false ∧ r.desktop.completes a.sender c a.now = false

/-- The operator's sessions send what they like, about blobs of their own;
the others send what does no harm, while the operator holds the desktop
and one of the operator's sessions has its input on it. -/
def Permitted (op : String) (mine : String → Bool) (r : Robot) (a : Arrival) : Prop :=
  if r.mayInput op a.sender then ∀ b ∈ a.what.blobs, mine b = true
  else r.desktop.inputSession.any (r.mayInput op) = true ∧ r.holds op a.now = true ∧
    Harmless mine r a

instance (op : String) (mine : String → Bool) (r : Robot) (a : Arrival) :
    Decidable (Permitted op mine r a) := by
  unfold Permitted Harmless
  split
  · infer_instance
  · split <;> infer_instance

/-! ## Steps -/

theorem isInput_text {type : String} (h : type ∈ desktopManifest.controlInputs) :
    desktopManifest.isInput (some type) = true := by
  have hcontains : desktopManifest.controlInputs.contains type = true := List.contains_iff_mem.mpr h
  unfold Control.Manifest.isInput
  rw [any_some, hcontains, Bool.or_true, Bool.and_true]
  rfl

theorem isInput_first {type : String}
    (h : type ∈ ["resume-sharing", "clipboard-read", "release-all"]) :
    desktopManifest.isInput (some type) = false := by
  simp only [List.mem_cons, List.not_mem_nil, or_false] at h
  rcases h with rfl | rfl | rfl <;> decide

namespace Robot

variable {evdevForCode : String → Option Nat} {op : String} {mine : String → Bool} {r r' : Robot}
  {a : Arrival}

theorem inDomain (r : Robot) : r.mgr.InDomain desktopManifest.name "desktop" := by
  intro id s hs c hc hname
  rw [r.granted id s hs c hc hname]
  rfl

variable {id : SessionId}

theorem addressed_manifest {s : Control.Session} {cap : Control.AttachedCapability}
    (h : r.mgr.addressed id desktopManifest.name = some (s, cap)) :
    cap.manifest = desktopManifest ∧ r.mgr.sessions[id]? = some s ∧ r.viewOnly id = cap.viewOnly := by
  obtain ⟨hs, -, hattached⟩ := addressed_spec h
  obtain ⟨hmem, hname⟩ := Control.SessionManager.addressed_manifest h
  refine ⟨r.granted id s hs cap hmem hname, hs, ?_⟩
  rw [viewOnly, hs, bind_some, hattached]
  rfl

/-- The gate turns away the input of the others. -/
theorem turned {s : Control.Session} {cap : Control.AttachedCapability} {now : Time}
    (h : r.mgr.addressed id desktopManifest.name = some (s, cap)) (hother : r.mayInput op id = false)
    (hholds : r.holds op now = true) :
    cap.viewOnly = true ∨
      ∃ h, (r.mgr.control.expire now).2.held["desktop"]? = some h ∧ h.op.id ≠ s.operator.id := by
  obtain ⟨-, hs, hview⟩ := addressed_manifest h
  rw [mayInput, hs, hview, any_some] at hother
  cases hh : (r.mgr.control.expire now).2.held["desktop"]? with
  | none =>
    rw [holds, Control.ControlDomains.holder, hh] at hholds
    cases hholds
  | some holder =>
    rw [holds, Control.ControlDomains.holder, hh] at hholds
    have hop : holder.op.id = op := of_decide_eq_true hholds
    cases hv : cap.viewOnly with
    | true => exact .inl rfl
    | false =>
      rw [hv, Bool.not_false, Bool.and_true] at hother
      exact .inr ⟨holder, rfl, fun heq => of_decide_eq_false hother (heq ▸ hop)⟩

theorem after_nothing (hsame : Control.SameDomain "desktop" r.mgr (r.mgr.step a.op).1)
    (hes : (r.mgr.step a.op).2.filter (Control.Effect.isFor desktopManifest.name) = []) :
    Control.SameDomain "desktop" r.mgr (r.after evdevForCode a).mgr ∧
      Alike mine (·.waits a.now) r.desktop (r.after evdevForCode a).desktop := by
  refine ⟨hsame, ?_⟩
  rw [after, hes]
  exact .refl _

theorem after_handed {input : Bool}
    (hstep : r.mgr.step a.op = (r.mgr, [.deliver id desktopManifest input]))
    (halike : Alike mine (·.waits a.now) r.desktop
      (r.desktop.called evdevForCode (r.viewOnly a.sender) a (.deliver id desktopManifest input))) :
    Control.SameDomain "desktop" r.mgr (r.after evdevForCode a).mgr ∧
      Alike mine (·.waits a.now) r.desktop (r.after evdevForCode a).desktop := by
  have hdesktop : (r.after evdevForCode a).desktop =
      r.desktop.called evdevForCode (r.viewOnly a.sender) a (.deliver id desktopManifest input) := by
    show List.foldl _ _ (List.filter _ (r.mgr.step a.op).2) = _
    rw [hstep]
    rfl
  refine ⟨?_, hdesktop ▸ halike⟩
  show Control.SameDomain "desktop" r.mgr (r.mgr.step a.op).1
  rw [hstep]
  exact .refl _

theorem input_of_other (hother : r.mayInput op a.sender = false)
    (hinput : r.desktop.inputSession.any (r.mayInput op) = true) :
    r.desktop.inputSession.any (· ≠ a.sender) = true := by
  cases hs : r.desktop.inputSession with
  | none =>
    rw [hs] at hinput
    cases hinput
  | some id =>
    rw [hs, any_some] at hinput
    refine decide_eq_true ?_
    rintro rfl
    rw [hother] at hinput
    cases hinput

theorem after_other (evdevForCode : String → Option Nat) (hpermitted : Permitted op mine r a)
    (hother : r.mayInput op a.sender = false) :
    Control.SameDomain "desktop" r.mgr (r.after evdevForCode a).mgr ∧
      Alike mine (·.waits a.now) r.desktop (r.after evdevForCode a).desktop := by
  rw [Permitted, if_neg (by simp [hother])] at hpermitted
  obtain ⟨hinput, hholds, hharmless⟩ := hpermitted
  have hinput := input_of_other hother hinput
  cases haddressed : r.mgr.addressed a.sender desktopManifest.name with
  | none =>
    obtain ⟨hmgr, hes⟩ := Arrival.step_unaddressed haddressed
    exact after_nothing (hmgr.symm ▸ .refl _) hes
  | some x =>
    obtain ⟨s, cap⟩ := x
    obtain ⟨hmanifest, -, -⟩ := addressed_manifest haddressed
    have hstep := Arrival.step_addressed haddressed
    split at hstep
    · exact after_nothing (by rw [hstep]; exact .refl _) (by rw [hstep]; rfl)
    rename_i hserved
    have hturned : cap.manifest.isInput a.type = true →
        Control.SameDomain "desktop" r.mgr (r.after evdevForCode a).mgr ∧
          Alike mine (·.waits a.now) r.desktop (r.after evdevForCode a).desktop := by
      intro hinput
      have hdomain := addressed_domain r.inDomain haddressed
      have haway := turned haddressed hother hholds
      refine after_nothing ?_ ?_ <;> rw [hstep]
      · exact (gated_turned r.inDomain hdomain hinput _ haway).1
      · exact (gated_turned r.inDomain hdomain hinput _ haway).2
    have hhanded : cap.manifest.isInput a.type = false →
        r.mgr.step a.op = (r.mgr, [.deliver a.sender desktopManifest false]) := by
      intro hnot
      rw [hstep, gated_not_input hnot, hmanifest]
    rw [hmanifest] at hturned hhanded
    obtain ⟨sender, what, now, nowMs⟩ := a
    cases what with
    | text msg =>
      rcases hharmless with hgated | hfirst | hcore
      · exact hturned (isInput_text hgated)
      · exact after_handed (hhanded (isInput_first hfirst))
          (Alike.onMessage_other _ _ hfirst hinput)
      · exact absurd (decide_eq_true hcore) hserved
    | chunk c =>
      have hnot : desktopManifest.isInput none = false := by decide
      exact after_handed (hhanded hnot)
        (Alike.onBlobChunk_other hharmless.1 hharmless.2)

theorem called_alike {d d' : Impl} (h : Alike mine (·.waits a.now) d d')
    (hmine : ∀ b ∈ a.what.blobs, mine b = true) (viewOnly : Bool) (e : Control.Effect) :
    Alike mine (·.waits a.now) (d.called evdevForCode viewOnly a e)
      (d'.called evdevForCode viewOnly a e) := by
  obtain ⟨sender, what, now, nowMs⟩ := a
  cases e with
  | deliver id m input =>
    cases what with
    | text msg =>
      refine Alike.onMessage h evdevForCode id viewOnly fun ref href => ?_
      refine hmine ref.id (mem_toList.mpr ?_)
      exact mem_map_of_mem _ href
    | chunk c => exact Alike.onBlobChunk h id (hmine c.blobId (List.mem_singleton.mpr rfl))
  | releaseAllInput id m => exact h.releaseAllInput id
  | reply => exact h
  | controlState => exact h

/-- The second is as far, as the operator can tell. -/
structure Sim (mine : String → Bool) (r r' : Robot) : Prop where
  mgr : Control.SameDomain "desktop" r.mgr r'.mgr
  desktop : Alike mine (·.waits r.clock) r.desktop r'.desktop
  clock : r'.clock ≤ r.clock

theorem Sim.other (h : Sim mine r r') (hnow : r.clock ≤ a.now) (hpermitted : Permitted op mine r a)
    (hother : r.mayInput op a.sender = false) : Sim mine (r.after evdevForCode a) r' := by
  obtain ⟨hmgr, hdesktop⟩ := after_other evdevForCode hpermitted hother
  exact ⟨hmgr.symm.trans h.mgr, hdesktop.symm.trans (h.desktop.later hnow), h.clock.trans hnow⟩

theorem Sim.own (h : Sim mine r r') (hnow : r.clock ≤ a.now)
    (hmine : ∀ b ∈ a.what.blobs, mine b = true) :
    Sim mine (r.after evdevForCode a) (r'.after evdevForCode a) := by
  obtain ⟨hmgr, hes⟩ := Arrival.step_same (a := a) h.mgr r.inDomain
  have hview : r'.viewOnly a.sender = r.viewOnly a.sender := by
    unfold viewOnly
    rw [h.mgr.sessions]
  refine ⟨hmgr, ?_, le_refl _⟩
  unfold after
  rw [hes, hview]
  generalize (r.mgr.step a.op).2.filter (Control.Effect.isFor desktopManifest.name) = es
  have hstart := h.desktop.later hnow
  generalize r.desktop = d at hstart
  generalize r'.desktop = d' at hstart
  induction es generalizing d d' with
  | nil => exact hstart
  | cons e es ih => exact ih _ _ (called_alike hstart hmine _ e)

end Robot

/-- **The others cannot disturb**: what they send moves neither the input
nor the driver, and the driver is called exactly as if they had sent
nothing. -/
theorem undisturbed {evdevForCode : String → Option Nat} {op : String} {mine : String → Bool}
    {r r' : Robot} {as : List Arrival} (hrun : (robot evdevForCode).run r as = some r')
    (hpermitted : (robot evdevForCode).AllSteps (Permitted op mine) r as) :
    (robot evdevForCode).AllSteps (fun r a => r.mayInput op a.sender = false →
        ∀ r', (robot evdevForCode).step r a = some r' →
          r'.desktop.calls = r.desktop.calls ∧ r'.desktop.inputSession = r.desktop.inputSession)
      r as ∧
    ∃ alone, (robot evdevForCode).run r (as.filter fun a => r.mayInput op a.sender) = some alone ∧
      alone.desktop.calls = r'.desktop.calls ∧
      alone.desktop.inputSession = r'.desktop.inputSession := by
  have hafter : ∀ {r r' : Robot} {a : Arrival}, (robot evdevForCode).step r a = some r' →
      r.clock ≤ a.now ∧ r' = r.after evdevForCode a := by
    intro r r' a hstep
    obtain ⟨hnow, heq⟩ := guarded_not.mp hstep
    exact ⟨not_lt.mp hnow, heq.symm⟩
  constructor
  · refine hpermitted.imp fun r a hq hother r' hstep => ?_
    obtain ⟨-, rfl⟩ := hafter hstep
    obtain ⟨-, halike⟩ := Robot.after_other evdevForCode hq hother
    exact ⟨halike.calls, halike.input⟩
  -- the sessions stay, so whose messages are kept does not change along the run
  have hsessions : ∀ {s : Robot} (op : String) (id : SessionId),
      s.mgr.sessions = r.mgr.sessions → s.mayInput op id = r.mayInput op id := by
    intro s op id hs
    unfold Robot.mayInput Robot.viewOnly
    rw [hs]
  have hkeep : ∀ (s t : Robot) (a : Arrival) (s' : Robot),
      Robot.Sim mine s t ∧ s.mgr.sessions = r.mgr.sessions → Permitted op mine s a →
        r.mayInput op a.sender = true → (robot evdevForCode).step s a = some s' →
          ∃ t', (robot evdevForCode).step t a = some t' ∧
            Robot.Sim mine s' t' ∧ s'.mgr.sessions = r.mgr.sessions := by
    rintro s t a s' ⟨hsim, hs⟩ hq hown hstep
    obtain ⟨hnow, rfl⟩ := hafter hstep
    rw [Permitted, hsessions op a.sender hs, if_pos hown] at hq
    refine ⟨t.after evdevForCode a, if_neg (not_lt.mpr (hsim.clock.trans hnow)),
      hsim.own hnow hq, ?_⟩
    exact (Arrival.sessions s.mgr a).trans hs
  have hdrop : ∀ (s t : Robot) (a : Arrival) (s' : Robot),
      Robot.Sim mine s t ∧ s.mgr.sessions = r.mgr.sessions → Permitted op mine s a →
        r.mayInput op a.sender = false → (robot evdevForCode).step s a = some s' →
          Robot.Sim mine s' t ∧ s'.mgr.sessions = r.mgr.sessions := by
    rintro s t a s' ⟨hsim, hs⟩ hq hother hstep
    obtain ⟨hnow, rfl⟩ := hafter hstep
    refine ⟨hsim.other hnow hq ((hsessions op a.sender hs).trans hother), ?_⟩
    exact (Arrival.sessions s.mgr a).trans hs
  have hstart : Robot.Sim mine r r := ⟨.refl _, .refl _, le_refl _⟩
  obtain ⟨alone, hrun', hsim, -⟩ :=
    (robot evdevForCode).run_filter hkeep hdrop ⟨hstart, rfl⟩ hpermitted hrun
  exact ⟨alone, hrun', hsim.desktop.calls, hsim.desktop.input⟩

def desktopSession (op label : String) (viewOnly : Bool) : Control.Session where
  operator := ⟨op, label⟩
  caps := [⟨desktopManifest, viewOnly⟩]

/-- One operator at the desktop, and another who may only watch. -/
def watched : Robot where
  mgr := {
    sessions := ((∅ : Std.ExtTreeMap SessionId Control.Session).insert "a"
      (desktopSession "alice" "Alice" false)).insert "b" (desktopSession "bob" "Bob" true) }
  desktop := { world := { sessions := .ofList ["a", "b"] } }
  granted := by
    intro id s hs c hc _
    rw [Maps.get?_insert, Maps.get?_insert] at hs
    split at hs
    · cases hs
      rw [List.mem_singleton.mp hc]
    split at hs
    · cases hs
      rw [List.mem_singleton.mp hc]
    · simp at hs

def keyCode (code : String) : Option Nat := if code = "KeyA" then some 30 else none

def keyMsg (down : Bool) : Msg where
  type := "key"
  request := false
  id := 0
  payload := { code := .is "KeyA", down := .is down }

theorem undisturbed_watched :
    let as := [⟨"a", .text (keyMsg true), 1, 1⟩, ⟨"b", .text (keyMsg false), 2, 2⟩,
      ⟨"b", .text { type := "release-all", id := 1 }, 3, 3⟩, ⟨"a", .text (keyMsg false), 4, 4⟩]
    ∃ r alone, (robot keyCode).run watched as = some r ∧
      (robot keyCode).run watched (as.filter fun a => watched.mayInput "alice" a.sender) =
        some alone ∧
      alone.desktop.calls = r.desktop.calls ∧ r.desktop.calls = [.key 30 true, .key 30 false] := by
  intro as
  obtain ⟨r, hrun, hcalls⟩ : ∃ r, (robot keyCode).run watched as = some r ∧
      r.desktop.calls = [.key 30 true, .key 30 false] := by
    rw [← map_eq_some_iff]
    decide +kernel
  have hpermitted : (robot keyCode).AllSteps (Permitted "alice" fun _ => true) watched as := by
    decide +kernel
  obtain ⟨-, alone, halone, hsame, -⟩ := undisturbed hrun hpermitted
  exact ⟨r, alone, hrun, halone, hsame, hcalls⟩

/-- A message of a type the capability does not have, from a session that
may only watch: the keys held down are released and the input is the
watcher's. -/
theorem stolen_input :
    ∃ r r', (robot keyCode).run watched [⟨"a", .text (keyMsg true), 1, 1⟩] = some r ∧
      r.desktop.inputSession = some "a" ∧ r.holds "alice" 2 = true ∧
      r.mayInput "alice" "b" = false ∧ r.viewOnly "b" = true ∧
      (robot keyCode).step r ⟨"b", .text { type := "hello", request := false, id := 1 }, 2, 2⟩ =
        some r' ∧
      r'.desktop.calls = [.key 30 true, .releaseAllInput] ∧
      r'.desktop.inputSession = some "b" := by
  refine ⟨watched.after keyCode ⟨"a", .text (keyMsg true), 1, 1⟩,
    (watched.after keyCode ⟨"a", .text (keyMsg true), 1, 1⟩).after keyCode
      ⟨"b", .text { type := "hello", request := false, id := 1 }, 2, 2⟩,
    rfl, ?_, ?_, ?_, ?_, rfl, ?_, ?_⟩ <;> decide +kernel

end Fjarr.Desktop
