/-
Fjarr.Desktop.Clipboard — what the robot's clipboard is given.

A `clipboard-write` names a blob by id and length; its bytes come as
chunks, before or after it. The two meet in `incoming`, and the driver's
clipboard is written when both are there. Whether the bytes are all there
is decided by the chunk's own length field, and a chunk's offset only
starts the bytes over when it is 0.

So the bytes written are those of the reference when the chunks and
references of a blob agree on its length and the chunks come in order
(`Orderly`): `clipboard_exact`. A chunk that gives another length is
enough to have fewer bytes written than the request names
(`short_write`). That no request is answered more often than it was sent
holds in every run (`Answered`).
-/
import Fjarr.Desktop.Messages

namespace Fjarr.Desktop

open Lib Blob List Fjarr.Desktop.Field

/-! ## The capability's clipboard -/

/-- What `parse_chunk` makes sure of: the payload lies within the blob. -/
def InBounds (c : BlobChunk) : Prop := c.offset.toNat + c.payload.length ≤ c.blobLen.toNat

instance (c : BlobChunk) : Decidable (InBounds c) := by
  unfold InBounds
  infer_instance

inductive ClipboardAct where
  | attach (id : SessionId)
  | detach (id : SessionId)
  | message (id : SessionId) (viewOnly : Bool) (msg : Msg) (now : Time)
  | chunk (id : SessionId) (c : BlobChunk) (now : Time)
  | written (id : SessionId) (request : Msg) (ok : Bool) (error : String)
  | copied (offerId : String) (types : List String)
  deriving DecidableEq

/-- One callback of the capability. -/
def clipboardStep (evdevForCode : String → Option Nat) (d : Impl) : ClipboardAct → Option Impl
  | .attach id => if id ∈ d.world.sessions then none else some (d.sessionAttached id)
  | .detach id => if id ∈ d.world.sessions then some (d.sessionDetached id) else none
  | .message id viewOnly msg now =>
    if id ∈ d.world.sessions then some (d.onMessage evdevForCode id viewOnly msg now) else none
  | .chunk id c now =>
    if id ∈ d.world.sessions ∧ InBounds c then some (d.onBlobChunk id c now) else none
  | .written id request ok error =>
    if (id, request) ∈ d.writing then some (d.written id request ok error) else none
  | .copied offerId types => some (d.onClipboardChanged offerId types)

/-- Any callbacks in any order. -/
def clipboard (evdevForCode : String → Option Nat) : System Impl ClipboardAct where
  init := {}
  step := clipboardStep evdevForCode

/-! ## What is to hold -/

/-- The chunks of a blob a session sent, of all that came. -/
def chunksOf (chunks : List (SessionId × BlobChunk)) (id : SessionId) (blobId : String) :
    List BlobChunk :=
  (chunks.filter fun x => x.1 = id ∧ x.2.blobId = blobId).map Prod.snd

/-- Each chunk begins where the one before it ends. -/
def Contiguous : Nat → List BlobChunk → Prop
  | _, [] => True
  | n, c :: cs => c.offset.toNat = n ∧ Contiguous (n + c.payload.length) cs

/-- The bytes are some of the session's chunks of the blob, put together
at contiguous offsets from 0. -/
def Assembled (chunks : List (SessionId × BlobChunk)) (id : SessionId) (blobId : String)
    (bytes : Bytes) : Prop :=
  ∃ cs, cs.Sublist (chunksOf chunks id blobId) ∧ Contiguous 0 cs ∧
    bytes = cs.flatMap BlobChunk.payload

/-- What a write hands over is what its request names. -/
def Exact (chunks : List (SessionId × BlobChunk)) : DriverCall → Prop
  | .clipboardWrite type bytes id request => ∃ ref, request.payload.blob = some ref ∧
      request.payload.type = .is type ∧ bytes.length = ref.len.toNat ∧
      ref.len.toNat ≤ maxBytes type ∧ Assembled chunks id ref.id bytes
  | _ => True

/-- The answers a message of a session got. -/
def Impl.answers (d : Impl) (id : SessionId) (msg : Msg) : Nat :=
  d.replies.countP fun r => r.1 = id ∧ r.2.1 = msg

/-- Every blob has one length, given by its references and its chunks
alike; a chunk continues the bytes that came before it or starts them over
at 0, and none comes once the bytes are complete. -/
def Orderly (len : String → Nat) (d : Impl) : ClipboardAct → Prop
  | .message _ _ msg _ => ∀ ref ∈ msg.payload.blob, ref.len.toNat = len ref.id
  | .chunk id c now => c.blobLen.toNat = len c.blobId ∧
      (((d.incoming[c.blobId]?).filter fun i => i.waits now).all fun i =>
        i.session ≠ id ∨ (c.offset.toNat = i.bytes.length ∨ c.offset = 0) ∧ i.complete = false) ∧
      ((((d.incoming[c.blobId]?).filter fun i => i.waits now).isNone) → c.offset = 0)
  | _ => True

instance (len : String → Nat) (d : Impl) (a : ClipboardAct) : Decidable (Orderly len d a) := by
  unfold Orderly
  split <;> infer_instance

/-! ## Handlers that leave the clipboard alone -/

def DriverCall.isWrite : DriverCall → Bool
  | .clipboardWrite _ _ _ _ => true
  | _ => false

/-- The handler of a message did nothing to the clipboard but perhaps
answer the message. -/
structure Aside (msg : Msg) (d d' : Impl) : Prop where
  incoming : d'.incoming = d.incoming
  writing : d'.writing = d.writing
  messages : d'.messages = d.messages
  chunks : d'.chunks = d.chunks
  sessions : d'.world.sessions = d.world.sessions
  calls : ∀ c ∈ d'.calls, c ∈ d.calls ∨ c.isWrite = false
  replies : ∃ rs, d'.replies = d.replies ++ rs ∧ ∀ r ∈ rs, r.2.1 = msg

namespace Aside

variable {msg : Msg} {d d' d'' : Impl}
variable (id : SessionId)

theorem same (hincoming : d'.incoming = d.incoming) (hwriting : d'.writing = d.writing)
    (hmessages : d'.messages = d.messages) (hchunks : d'.chunks = d.chunks)
    (hsessions : d'.world.sessions = d.world.sessions) (hcalls : d'.calls = d.calls)
    (hreplies : d'.replies = d.replies) : Aside msg d d' :=
  ⟨hincoming, hwriting, hmessages, hchunks, hsessions, fun _ hc => .inl (hcalls ▸ hc), [],
    by rw [hreplies, append_nil], by simp⟩

theorem refl (d : Impl) : Aside msg d d := same rfl rfl rfl rfl rfl rfl rfl

theorem trans (h : Aside msg d d') (h' : Aside msg d' d'') : Aside msg d d'' where
  incoming := h'.incoming.trans h.incoming
  writing := h'.writing.trans h.writing
  messages := h'.messages.trans h.messages
  chunks := h'.chunks.trans h.chunks
  sessions := h'.sessions.trans h.sessions
  calls := fun c hc => (h'.calls c hc).elim (h.calls c) .inr
  replies := by
    obtain ⟨rs, hrs, hall⟩ := h.replies
    obtain ⟨rs', hrs', hall'⟩ := h'.replies
    refine ⟨rs ++ rs', by rw [hrs', hrs, append_assoc], fun r hr => ?_⟩
    exact (mem_append.mp hr).elim (hall r) (hall' r)

theorem calling {cs : List DriverCall} (hcs : ∀ c ∈ cs, c.isWrite = false) :
    Aside msg d { d with calls := d.calls ++ cs } :=
  ⟨rfl, rfl, rfl, rfl, rfl, fun c hc => (mem_append.mp hc).imp_right (hcs c), [],
    by simp, by simp⟩

theorem call {c : DriverCall} (hc : c.isWrite = false) : Aside msg d (d.call c) :=
  calling (by simpa using hc)

section

variable (id : SessionId)

theorem reply (a : Answer) : Aside msg d (d.reply id msg a) :=
  ⟨rfl, rfl, rfl, rfl, rfl, fun _ hc => .inl hc, [(id, msg, a)], rfl, by simp⟩

theorem accept : Aside msg d (d.accept id msg) := by
  unfold Impl.accept
  split
  · exact reply id .ok
  · exact refl d

theorem refuse (code why : String) : Aside msg d (d.refuse id msg code why) := by
  unfold Impl.refuse
  split
  · exact reply id _
  · exact refl d

theorem threw : Aside msg d (d.threw id msg) := by
  unfold Impl.threw
  split
  · exact reply id .threw
  · exact refl d

theorem setSeq (seq : UInt64) : Aside msg d (d.setSeq id seq) :=
  same rfl rfl rfl rfl rfl rfl rfl

end

theorem moveTo (track : String) (x y : ℚ) : Aside msg d (d.moveTo track x y) := by
  unfold Impl.moveTo
  split
  · exact refl d
  split
  · exact refl d
  · exact call rfl

theorem pointer : Aside msg d (d.pointer id msg) := by
  unfold Impl.pointer
  refine elim_induction (threw id) fun seq => ?_
  split
  · exact refl d
  refine (setSeq id seq).trans ?_
  refine elim_induction (threw id) fun x => ?_
  refine elim_induction (threw id) fun y => ?_
  exact elim_induction (threw id) fun track => moveTo track x y

theorem button : Aside msg d (d.button id msg) := by
  unfold Impl.button
  refine elim_induction (threw id) fun name => ?_
  split
  · exact refuse id _ _
  refine elim_induction (threw id) fun down => ?_
  split
  · refine elim_induction (threw id) fun x => ?_
    refine elim_induction (threw id) fun y => ?_
    refine elim_induction (threw id) fun track => ?_
    refine (moveTo track x y).trans ?_
    refine elim_induction (threw id) fun seq => ?_
    exact (setSeq id _).trans (call rfl)
  · exact call rfl

theorem wheel : Aside msg d (d.wheel id msg) :=
  elim_induction (threw id) fun _ => elim_induction (threw id) fun _ => call rfl

theorem key (evdevForCode : String → Option Nat) (id : SessionId) :
    Aside msg d (d.key evdevForCode id msg) := by
  unfold Impl.key
  refine elim_induction (threw id) fun code => ?_
  split
  · exact refuse id _ _
  · exact elim_induction (threw id) fun down => call rfl

theorem keyCombo (evdevForCode : String → Option Nat) (id : SessionId) :
    Aside msg d (d.keyCombo evdevForCode id msg) := by
  unfold Impl.keyCombo
  split
  · exact refuse id _ _
  rename_i keys _
  refine Aside.trans ?_ (accept id)
  refine calling fun c hc => ?_
  rcases mem_append.mp hc with hc | hc
  · obtain ⟨k, -, rfl⟩ := mem_map.mp hc
    rfl
  · obtain ⟨k, -, rfl⟩ := mem_map.mp hc
    rfl

theorem text (id : SessionId) : Aside msg d (d.text id msg) := by
  unfold Impl.text
  refine elim_induction (threw id) fun text => ?_
  refine (call (c := .typeText text) rfl).trans ?_
  split
  · exact refuse id _ _
  split
  · split
    · exact reply id _
    · exact refl _
  · exact accept id

theorem world {w : World} (hsessions : w.sessions = d.world.sessions) :
    Aside msg d { d with world := w } :=
  same rfl rfl rfl rfl hsessions rfl rfl

end Aside

theorem answer_sessions (w : World) (id : SessionId) (msg : Call) (r : Reply) :
    (w.answer id msg r).sessions = w.sessions := by
  unfold World.answer
  split <;> rfl

theorem answerAdds_sessions (w : World) (ms : List Monitor) :
    (w.answerAdds ms).sessions = w.sessions := by
  induction ms generalizing w with
  | nil => rfl
  | cons m ms ih =>
    rw [World.answerAdds]
    split
    · exact ih w
    rw [ih]
    split <;> rfl

theorem addMonitor_sessions (w : World) (id : SessionId) (msg : Call) (width height : Int) :
    (w.addMonitor id msg width height).sessions = w.sessions := by
  unfold World.addMonitor
  split
  · exact answer_sessions _ _ _ _
  split
  · exact answer_sessions _ _ _ _
  split
  · exact answer_sessions _ _ _ _
  · exact answerAdds_sessions _ _

theorem removeMonitor_sessions (w : World) (id : SessionId) (msg : Call) (wire : String) :
    (w.removeMonitor id msg wire).sessions = w.sessions := by
  unfold World.removeMonitor
  split <;> exact answer_sessions _ _ _ _

theorem resumeSharing_sessions (w : World) (id : SessionId) (msg : Call) :
    (w.resumeSharing id msg).sessions = w.sessions := by
  have hrecapture : ∀ (wires : List String) (w : World),
      (w.recapture wires).sessions = w.sessions := by
    intro wires
    induction wires with
    | nil => exact fun _ => rfl
    | cons wire wires ih =>
      intro w
      rw [World.recapture]
      split
      · exact ih w
      · exact ih _
  rw [World.resumeSharing, answer_sessions]
  unfold World.resume
  split
  · rfl
  · exact hrecapture _ w

namespace Aside

variable {msg : Msg} {d : Impl}
variable (id : SessionId)

theorem takeInput : Aside msg d (d.takeInput id) := by
  unfold Impl.takeInput
  split
  · exact (call (c := .releaseAllInput) rfl).trans (same rfl rfl rfl rfl rfl rfl rfl)
  · exact same rfl rfl rfl rfl rfl rfl rfl

theorem releaseAllInput : Aside msg d (d.releaseAllInput id) := by
  unfold Impl.releaseAllInput
  split
  · exact refl d
  · exact (call (c := .releaseAllInput) rfl).trans (same rfl rfl rfl rfl rfl rfl rfl)

theorem clipboardRead (viewOnly : Bool) :
    Aside msg d (d.clipboardRead id viewOnly msg) := by
  unfold Impl.clipboardRead
  split
  · exact refuse id _ _
  refine elim_induction (threw id) fun type => ?_
  refine elim_induction (threw id) fun offerId => ?_
  split
  · exact refuse id _ _
  split
  · exact refuse id _ _
  · exact refl d

theorem onInput (evdevForCode : String → Option Nat) (id : SessionId) (now : Time)
    (htype : msg.type ≠ "clipboard-write") : Aside msg d (d.onInput evdevForCode id msg now) := by
  unfold Impl.onInput
  split
  · exact pointer id
  · exact button id
  · exact wheel id
  · exact key evdevForCode id
  · exact keyCombo evdevForCode id
  · rename_i heq
    exact absurd heq htype
  · unfold Impl.addMonitor
    refine elim_induction (threw id) fun width => ?_
    exact elim_induction (threw id) fun height => world (addMonitor_sessions _ _ _ _ _)
  · unfold Impl.removeMonitor
    exact elim_induction (threw id) fun wire => world (removeMonitor_sessions _ _ _ _)
  · exact text id
  · exact refuse id _ _

end Aside

open Impl

/-- The handler of any message but `clipboard-write`, once it is noted
that the message came. -/
theorem onMessage_aside (evdevForCode : String → Option Nat) (d : Impl) (id : SessionId)
    (viewOnly : Bool) {msg : Msg} (now : Time) (htype : msg.type ≠ "clipboard-write") :
    Aside msg { d with messages := d.messages ++ [(id, msg)] }
      (d.onMessage evdevForCode id viewOnly msg now) := by
  unfold onMessage
  split
  · exact .world (resumeSharing_sessions _ _ _)
  split
  · exact .clipboardRead id viewOnly
  split
  · exact (Aside.releaseAllInput id).trans (.accept id)
  · exact (Aside.takeInput id).trans (.onInput evdevForCode id now htype)

theorem onMessage_write (evdevForCode : String → Option Nat) (d : Impl) (id : SessionId)
    (viewOnly : Bool) {msg : Msg} (now : Time) (htype : msg.type = "clipboard-write") :
    d.onMessage evdevForCode id viewOnly msg now =
      (({ d with messages := d.messages ++ [(id, msg)] }).takeInput id).clipboardWrite id msg now := by
  unfold onMessage onInput
  rw [htype]
  rfl

/-! ## Answers -/

/-- The writes of a message that still wait for their bytes. -/
def Impl.waiting (d : Impl) (id : SessionId) (msg : Msg) : Nat :=
  d.incoming.toList.countP fun e => e.2.session = id ∧ e.2.request = some msg

/-- A message is answered, waiting for bytes, waiting for the driver or
still in hand (`due`), all together no more often than it came. -/
def Answered (due : SessionId × Msg → Nat) (d : Impl) : Prop :=
  ∀ id msg, msg.type = "clipboard-write" →
    d.answers id msg + d.waiting id msg + d.writing.count (id, msg) + due (id, msg) ≤
      d.messages.count (id, msg)

/-- One message is in hand. -/
def inHand (id : SessionId) (msg : Msg) (x : SessionId × Msg) : Nat := if (id, msg) = x then 1 else 0

theorem waiting_insert (d : Impl) (blobId : String) (i : Incoming) (id : SessionId) (msg : Msg) :
    (d.setIncoming blobId i).waiting id msg =
      { d with incoming := d.incoming.erase blobId }.waiting id msg +
        if i.session = id ∧ i.request = some msg then 1 else 0 := by
  unfold waiting setIncoming
  rw [(Maps.toList_insert_perm d.incoming blobId i).countP_eq, countP_cons]
  simp only [decide_eq_true_eq]

theorem waiting_erase {d : Impl} {blobId : String} {i : Incoming}
    (hi : d.incoming[blobId]? = some i) (id : SessionId) (msg : Msg) :
    d.waiting id msg = { d with incoming := d.incoming.erase blobId }.waiting id msg +
      if i.session = id ∧ i.request = some msg then 1 else 0 := by
  unfold waiting
  rw [(Maps.toList_perm_of_get? hi).countP_eq, countP_cons]
  simp only [decide_eq_true_eq]

theorem waiting_erase_le (d : Impl) (blobId : String) (id : SessionId) (msg : Msg) :
    { d with incoming := d.incoming.erase blobId }.waiting id msg ≤ d.waiting id msg := by
  cases hi : d.incoming[blobId]? with
  | some i =>
    rw [waiting_erase hi]
    exact Nat.le_add_right _ _
  | none =>
    have hsame : d.incoming.erase blobId = d.incoming := by
      refine Std.ExtTreeMap.ext_getElem? fun k => ?_
      rw [Maps.get?_erase]
      split
      · rename_i hk
        rw [hk, hi]
      · rfl
    rw [hsame]

namespace Answered

variable {due : SessionId × Msg → Nat} {d d' : Impl}

variable {msg : Msg} {id : SessionId}

theorem aside (h : Answered due d) (hmsg : msg.type ≠ "clipboard-write")
    (haside : Aside msg d d') : Answered due d' := by
  intro id m hm
  obtain ⟨rs, hrs, hall⟩ := haside.replies
  have hnone : rs.countP (fun r => r.1 = id ∧ r.2.1 = m) = 0 := by
    rw [countP_eq_zero]
    intro r hr hmatch
    have hsame : r.2.1 = m := (of_decide_eq_true hmatch).2
    exact hmsg (hall r hr ▸ hsame ▸ hm)
  have hbefore := h id m hm
  unfold answers waiting at hbefore ⊢
  rw [haside.incoming, haside.writing, haside.messages, hrs, countP_append, hnone]
  exact hbefore

theorem noted (h : Answered 0 d) (id : SessionId) (msg : Msg) :
    Answered (inHand id msg) { d with messages := d.messages ++ [(id, msg)] } := by
  intro id' m hm
  have hbefore : d.answers id' m + d.waiting id' m + d.writing.count (id', m) + 0 ≤
    d.messages.count (id', m) := h id' m hm
  show d.answers id' m + d.waiting id' m + d.writing.count (id', m) + inHand id msg (id', m) ≤
    (d.messages ++ [(id, msg)]).count (id', m)
  rw [count_append, count_singleton, inHand]
  simp only [beq_iff_eq]
  omega

theorem drop (h : Answered due d) : Answered 0 d := fun id m hm =>
  (Nat.add_le_add_left (Nat.zero_le _) _).trans (h id m hm)

theorem same (h : Answered due d) (hincoming : d'.incoming = d.incoming)
    (hwriting : d'.writing = d.writing) (hmessages : d'.messages = d.messages)
    (hreplies : d'.replies = d.replies) : Answered due d' := by
  intro id m hm
  have hbefore := h id m hm
  unfold answers waiting at hbefore ⊢
  rw [hincoming, hwriting, hmessages, hreplies]
  exact hbefore

theorem takeInput (h : Answered due d) (id : SessionId) : Answered due (d.takeInput id) := by
  unfold Impl.takeInput
  split <;> exact h.same rfl rfl rfl rfl

theorem reply (h : Answered (inHand id msg) d) (a : Answer) :
    Answered 0 (d.reply id msg a) := by
  intro id' m hm
  have hbefore := h id' m hm
  have hanswers : (d.reply id msg a).answers id' m = d.answers id' m + inHand id msg (id', m) := by
    unfold answers Impl.reply inHand
    rw [countP_append, countP_singleton]
    simp
  show (d.reply id msg a).answers id' m + d.waiting id' m + d.writing.count (id', m) + 0 ≤
    d.messages.count (id', m)
  omega

theorem refuse (h : Answered (inHand id msg) d) (code why : String) :
    Answered 0 (d.refuse id msg code why) := by
  unfold Impl.refuse
  split
  · exact h.reply _
  · exact h.drop

theorem threw (h : Answered (inHand id msg) d) :
    Answered 0 (d.threw id msg) := by
  unfold Impl.threw
  split
  · exact h.reply _
  · exact h.drop

theorem expireIncoming (h : Answered due d) (now : Time) : Answered due (d.expireIncoming now) := by
  intro id m hm
  have hbefore := h id m hm
  have hexpired : (d.expiredReplies now).countP (fun r => r.1 = id ∧ r.2.1 = m) ≤
      (d.incoming.toList.filter fun e => !e.2.waits now).countP
        fun e => e.2.session = id ∧ e.2.request = some m := by
    rw [expiredReplies, countP_filterMap]
    refine countP_mono_left fun e _ hmatch => ?_
    split at hmatch
    · cases hreq : e.2.request with
      | none =>
        rw [hreq] at hmatch
        cases hmatch
      | some request =>
        rw [hreq] at hmatch
        simpa using hmatch
    · cases hmatch
  have hsplit := countP_eq_countP_filter_add d.incoming.toList
    (fun e => e.2.session = id ∧ e.2.request = some m) fun e => e.2.waits now
  have hwaiting : (d.expireIncoming now).waiting id m =
      (d.incoming.toList.filter fun e => e.2.waits now).countP
        fun e => e.2.session = id ∧ e.2.request = some m := by
    rw [waiting, Impl.expireIncoming, Std.ExtTreeMap.toList_filter]
  have hanswers : (d.expireIncoming now).answers id m = d.answers id m +
      (d.expiredReplies now).countP fun r => r.1 = id ∧ r.2.1 = m := by
    rw [answers, Impl.expireIncoming, countP_append]
    rfl
  have hall : d.waiting id m = d.incoming.toList.countP
      fun e => e.2.session = id ∧ e.2.request = some m := rfl
  show _ + _ + d.writing.count (id, m) + due (id, m) ≤ d.messages.count (id, m)
  rw [hwaiting, hanswers]
  omega

theorem tryWrite (h : Answered due d) (blobId : String) : Answered due (d.tryWrite blobId) := by
  unfold Impl.tryWrite
  split
  · exact h
  rename_i i hi
  split
  · exact h
  rename_i request hrequest
  split
  · exact h
  intro id m hm
  have hbefore := h id m hm
  rw [waiting_erase hi] at hbefore
  dsimp only
  split
  · show d.answers id m + { d with incoming := d.incoming.erase blobId }.waiting id m +
      (d.writing ++ [(i.session, request)]).count (id, m) + due (id, m) ≤
        d.messages.count (id, m)
    have hone : [(i.session, request)].count (id, m) =
        if i.session = id ∧ i.request = some m then 1 else 0 := by
      rw [count_singleton, hrequest]
      simp
    rw [count_append, hone]
    omega
  show d.answers id m + { d with incoming := d.incoming.erase blobId }.waiting id m +
    d.writing.count (id, m) + due (id, m) ≤ d.messages.count (id, m)
  omega

theorem insert (h : Answered due d) {blobId : String} {i : Incoming}
    (hi : i.request = none ∨ ∃ i0, d.incoming[blobId]? = some i0 ∧ i0.session = i.session ∧
      i0.request = i.request) :
    Answered due (d.setIncoming blobId i) := by
  intro id m hm
  have hbefore := h id m hm
  show d.answers id m + (d.setIncoming blobId i).waiting id m +
    d.writing.count (id, m) + due (id, m) ≤ d.messages.count (id, m)
  rw [waiting_insert]
  rcases hi with hnone | ⟨i0, hi0, hsession, hrequest⟩
  · have hle := waiting_erase_le d blobId id m
    rw [if_neg (by rw [hnone]; simp)]
    omega
  · rw [waiting_erase hi0, hsession, hrequest] at hbefore
    omega

theorem request (h : Answered (inHand id msg) d) {blobId : String}
    {i : Incoming} (hsession : i.session = id) (hrequest : i.request = some msg) :
    Answered 0 (d.setIncoming blobId i) := by
  intro id' m hm
  have hbefore := h id' m hm
  have hle := waiting_erase_le d blobId id' m
  have hone : (if i.session = id' ∧ i.request = some m then 1 else 0) = inHand id msg (id', m) := by
    rw [inHand, hsession, hrequest]
    simp
  show d.answers id' m + (d.setIncoming blobId i).waiting id' m +
    d.writing.count (id', m) + 0 ≤ d.messages.count (id', m)
  rw [waiting_insert, hone]
  omega

theorem clipboardWrite (h : Answered (inHand id msg) d) (now : Time) :
    Answered 0 (d.clipboardWrite id msg now) := by
  unfold Impl.clipboardWrite
  refine elim_induction h.threw fun type => ?_
  split
  · exact h.refuse _ _
  split
  · exact h.refuse _ _
  rename_i ref _
  split
  · exact h.reply _
  have hexpire := h.expireIncoming now
  unfold requestWrite
  dsimp only
  split
  · exact hexpire.refuse _ _
  rename_i hsession
  refine tryWrite ?_ _
  refine hexpire.request ?_ rfl
  exact not_not.mp hsession

theorem addChunk (h : Answered due d) (id : SessionId) (c : BlobChunk) (now : Time) :
    Answered due (d.addChunk id c now) := by
  have hkept : ∀ (bytes : Bytes) (complete : Bool), Answered due
      (d.setIncoming c.blobId { d.entry id c.blobId now with bytes, complete }) := by
    intro bytes complete
    refine h.insert ?_
    unfold entry
    cases hi : d.incoming[c.blobId]? with
    | none => exact .inl rfl
    | some i0 => exact .inr ⟨i0, rfl, rfl, rfl⟩
  rw [Impl.addChunk]
  generalize (if c.offset = 0 then [] else (d.entry id c.blobId now).bytes) ++ c.payload = bytes
  dsimp only
  split
  · exact h
  split
  · exact (hkept _ true).tryWrite _
  · exact hkept _ _

theorem onBlobChunk (h : Answered due d) (id : SessionId) (c : BlobChunk) (now : Time) :
    Answered due (d.onBlobChunk id c now) := by
  have hnoted : Answered due { d with chunks := d.chunks ++ [(id, c)] } := h.same rfl rfl rfl rfl
  unfold Impl.onBlobChunk
  split
  · exact hnoted
  · exact (hnoted.expireIncoming now).addChunk id c now

theorem written (h : Answered due d) {request : Msg}
    (hmem : (id, request) ∈ d.writing) (ok : Bool) (error : String) :
    Answered due (d.written id request ok error) := by
  intro id' m hm
  have hbefore := h id' m hm
  have herase : d.writing.count (id', m) =
      (d.writing.erase (id, request)).count (id', m) + inHand id request (id', m) := by
    rw [(perm_cons_erase hmem).count_eq, count_cons, inHand]
    simp
  have hanswers : (d.written id request ok error).answers id' m ≤
      d.answers id' m + inHand id request (id', m) := by
    obtain ⟨rs, hrs, hone⟩ : ∃ rs, (d.written id request ok error).replies = d.replies ++ rs ∧
        (rs = [] ∨ ∃ a, rs = [(id, request, a)]) := by
      unfold Impl.written
      dsimp only
      split
      · exact ⟨_, rfl, .inr ⟨_, rfl⟩⟩
      · exact ⟨[], (append_nil _).symm, .inl rfl⟩
    rw [answers, answers, hrs, countP_append]
    refine Nat.add_le_add_left ?_ _
    rcases hone with rfl | ⟨a, rfl⟩
    · exact Nat.zero_le _
    · rw [countP_singleton, inHand]
      simp
  have hrest : (d.written id request ok error).waiting id' m = d.waiting id' m ∧
      (d.written id request ok error).writing = d.writing.erase (id, request) ∧
      (d.written id request ok error).messages = d.messages := by
    unfold Impl.written
    dsimp only
    split <;> exact ⟨rfl, rfl, rfl⟩
  rw [hrest.1, hrest.2.1, hrest.2.2]
  omega

theorem sessionDetached (h : Answered due d) (id : SessionId) :
    Answered due (d.sessionDetached id) := by
  intro id' m hm
  have hbefore := h id' m hm
  have hwaiting : (d.sessionDetached id).waiting id' m ≤ d.waiting id' m := by
    rw [waiting, Impl.sessionDetached, Std.ExtTreeMap.toList_filter]
    exact filter_sublist.countP_le
  show d.answers id' m + _ + d.writing.count (id', m) + due (id', m) ≤ d.messages.count (id', m)
  omega

theorem step {evdevForCode : String → Option Nat} {a : ClipboardAct} (h : Answered 0 d)
    (hstep : clipboardStep evdevForCode d a = some d') : Answered 0 d' := by
  cases a with
  | attach id =>
    obtain ⟨-, rfl⟩ := guarded_not.mp hstep
    exact h.same rfl rfl rfl rfl
  | detach id =>
    obtain ⟨-, rfl⟩ := guarded.mp hstep
    exact h.sessionDetached id
  | message id viewOnly msg now =>
    obtain ⟨-, rfl⟩ := guarded.mp hstep
    by_cases htype : msg.type = "clipboard-write"
    · rw [onMessage_write evdevForCode d id viewOnly now htype]
      exact ((h.noted id msg).takeInput id).clipboardWrite now
    · exact (h.noted id msg).drop.aside htype
        (onMessage_aside evdevForCode d id viewOnly now htype)
  | chunk id c now =>
    obtain ⟨-, rfl⟩ := guarded.mp hstep
    exact h.onBlobChunk id c now
  | written id request ok error =>
    obtain ⟨hmem, rfl⟩ := guarded.mp hstep
    exact h.written hmem ok error
  | copied offerId types =>
    simp only [clipboardStep, Option.some.injEq] at hstep
    obtain rfl := hstep
    exact h.same rfl rfl rfl rfl

end Answered

/-! ## The chunks that came -/

theorem tryWrite_chunks (d : Impl) (blobId : String) : (d.tryWrite blobId).chunks = d.chunks := by
  unfold tryWrite
  split
  · rfl
  split
  · rfl
  split
  · rfl
  · dsimp only
    split <;> rfl

theorem clipboardWrite_chunks (d : Impl) (id : SessionId) (msg : Msg) (now : Time) :
    (d.clipboardWrite id msg now).chunks = d.chunks := by
  unfold clipboardWrite
  refine elim_induction (P := fun d' : Impl => d'.chunks = d.chunks)
    (Aside.threw id).chunks fun type => ?_
  split
  · exact (Aside.refuse id _ _).chunks
  split
  · exact (Aside.refuse id _ _).chunks
  split
  · rfl
  unfold requestWrite
  dsimp only
  split
  · exact (Aside.refuse id _ _).chunks
  · rw [tryWrite_chunks]
    rfl

theorem onBlobChunk_chunks (d : Impl) (id : SessionId) (c : BlobChunk) (now : Time) :
    (d.onBlobChunk id c now).chunks = d.chunks ++ [(id, c)] := by
  unfold onBlobChunk
  split
  · rfl
  unfold addChunk
  dsimp only
  split_ifs <;> first | exact tryWrite_chunks _ _ | rfl

/-! ## Bytes -/

section Bytes

variable {chunks : List (SessionId × BlobChunk)} {id : SessionId} {blobId : String}

theorem chunksOf_append (chunks new : List (SessionId × BlobChunk)) (id : SessionId)
    (blobId : String) :
    chunksOf (chunks ++ new) id blobId = chunksOf chunks id blobId ++ chunksOf new id blobId := by
  rw [chunksOf, filter_append, map_append]
  rfl

theorem chunksOf_self (id : SessionId) (c : BlobChunk) : chunksOf [(id, c)] id c.blobId = [c] := by
  simp [chunksOf]

theorem contiguous_concat {n : Nat} {cs : List BlobChunk} {c : BlobChunk} (hcs : Contiguous n cs)
    (hc : c.offset.toNat = n + (cs.flatMap BlobChunk.payload).length) :
    Contiguous n (cs ++ [c]) := by
  induction cs generalizing n with
  | nil => exact ⟨hc, trivial⟩
  | cons c' cs ih =>
    refine ⟨hcs.1, ih hcs.2 ?_⟩
    rw [hc, flatMap_cons, length_append]
    omega

theorem Assembled.mono {bytes : Bytes} (h : Assembled chunks id blobId bytes)
    (new : List (SessionId × BlobChunk)) : Assembled (chunks ++ new) id blobId bytes := by
  obtain ⟨cs, hsub, hrest⟩ := h
  refine ⟨cs, ?_, hrest⟩
  rw [chunksOf_append]
  exact hsub.trans (sublist_append_left _ _)

theorem Assembled.nil : Assembled chunks id blobId [] := ⟨[], nil_sublist _, trivial, rfl⟩

theorem Assembled.next {bytes : Bytes} {c : BlobChunk} (h : Assembled chunks id c.blobId bytes)
    (hc : c.offset.toNat = bytes.length) :
    Assembled (chunks ++ [(id, c)]) id c.blobId (bytes ++ c.payload) := by
  obtain ⟨cs, hsub, hcontiguous, rfl⟩ := h
  refine ⟨cs ++ [c], ?_, contiguous_concat hcontiguous (by rw [hc, Nat.zero_add]), ?_⟩
  · rw [chunksOf_append, chunksOf_self]
    exact hsub.append (List.Sublist.refl _)
  · rw [flatMap_append, flatMap_singleton]

theorem Exact.mono {call : DriverCall} (h : Exact chunks call)
    (new : List (SessionId × BlobChunk)) : Exact (chunks ++ new) call := by
  cases call with
  | clipboardWrite type bytes id request =>
    obtain ⟨ref, hblob, htype, hlen, hmax, hassembled⟩ := h
    exact ⟨ref, hblob, htype, hlen, hmax, hassembled.mono new⟩
  | _ => trivial

theorem Exact.of_not_write {call : DriverCall} (h : call.isWrite = false) : Exact chunks call := by
  cases call with
  | clipboardWrite type bytes id request => cases h
  | _ => trivial

end Bytes

/-- What an entry holds, when a blob's length is `len`. -/
structure Sound (len : String → Nat) (chunks : List (SessionId × BlobChunk)) (blobId : String)
    (i : Incoming) : Prop where
  bytes : Assembled chunks i.session blobId i.bytes
  short : i.bytes.length ≤ len blobId
  full : i.complete = true → i.bytes.length = len blobId
  request : ∀ request, i.request = some request → ∃ ref, request.payload.blob = some ref ∧
    ref.id = blobId ∧ ref.len.toNat = len blobId ∧ request.payload.type = .is i.type ∧
    ref.len.toNat ≤ maxBytes i.type

/-- The entries are sound and the writes exact. -/
structure Right (len : String → Nat) (chunks : List (SessionId × BlobChunk)) (d : Impl) : Prop where
  incoming : ∀ (blobId : String) (i : Incoming), d.incoming[blobId]? = some i →
    Sound len chunks blobId i
  writes : ∀ call ∈ d.calls, Exact chunks call

namespace Right

variable {len : String → Nat} {chunks : List (SessionId × BlobChunk)} {d d' : Impl}

section

variable (h : Right len chunks d)
include h

theorem aside {msg : Msg} (haside : Aside msg d d') :
    Right len chunks d' where
  incoming := haside.incoming ▸ h.incoming
  writes := fun call hcall =>
    (haside.calls call hcall).elim (h.writes call) Exact.of_not_write

theorem mono (new : List (SessionId × BlobChunk)) :
    Right len (chunks ++ new) d where
  incoming := fun blobId i hi =>
    { h.incoming blobId i hi with bytes := (h.incoming blobId i hi).bytes.mono new }
  writes := fun call hcall => (h.writes call hcall).mono new

theorem filter {keep : String → Incoming → Bool}
    (hincoming : d'.incoming = d.incoming.filter keep) (hcalls : d'.calls = d.calls) :
    Right len chunks d' where
  incoming := by
    intro blobId i hi
    rw [hincoming, Maps.get?_filter, Option.filter_eq_some_iff] at hi
    exact h.incoming blobId i hi.1
  writes := hcalls ▸ h.writes

theorem expireIncoming (now : Time) :
    Right len chunks (d.expireIncoming now) :=
  h.filter rfl rfl

theorem setIncoming {blobId : String} {i : Incoming}
    (hi : Sound len chunks blobId i) : Right len chunks (d.setIncoming blobId i) where
  incoming := by
    intro blobId' i' hi'
    obtain ⟨rfl, rfl⟩ | ⟨-, hi'⟩ := Maps.of_get?_insert hi'
    · exact hi
    · exact h.incoming blobId' i' hi'
  writes := h.writes

theorem tryWrite (blobId : String) :
    Right len chunks (d.tryWrite blobId) := by
  unfold Impl.tryWrite
  split
  · exact h
  rename_i i hi
  split
  · exact h
  rename_i request hrequest
  split
  · exact h
  rename_i hcomplete
  have herased : ∀ (blobId' : String) (i' : Incoming),
      (d.incoming.erase blobId)[blobId']? = some i' → Sound len chunks blobId' i' :=
    fun blobId' i' hi' => h.incoming blobId' i' (Maps.of_get?_erase hi').2
  dsimp only
  split
  · refine ⟨herased, fun call hcall => ?_⟩
    rcases mem_snoc.mp hcall with hcall | rfl
    · exact h.writes call hcall
    have hsound := h.incoming blobId i hi
    obtain ⟨ref, hblob, hid, hlen, htype, hmax⟩ := hsound.request request hrequest
    have hfull := hsound.full (by simpa using hcomplete)
    exact ⟨ref, hblob, htype, hfull.trans hlen.symm, hmax, hid ▸ hsound.bytes⟩
  · exact ⟨herased, h.writes⟩

theorem entry (id : SessionId) (blobId : String) (now : Time) :
    Sound len chunks blobId (d.entry id blobId now) := by
  unfold Impl.entry
  cases hi : d.incoming[blobId]? with
  | some i => exact h.incoming blobId i hi
  | none =>
    exact ⟨.nil, Nat.zero_le _, fun hfull => (nomatch hfull), fun _ hrequest => (nomatch hrequest)⟩

end

variable {id : SessionId}

variable (h : Right len chunks d)
include h

theorem clipboardWrite {msg : Msg} (now : Time)
    (hmsg : ∀ ref ∈ msg.payload.blob, ref.len.toNat = len ref.id) :
    Right len chunks (d.clipboardWrite id msg now) := by
  unfold Impl.clipboardWrite
  cases htype : msg.payload.type with
  | absent => exact h.aside (.refuse id _ _)
  | mistyped => exact h.aside (.threw id)
  | is type =>
    rw [elim]
    split
    · exact h.aside (.refuse id _ _)
    split
    · exact h.aside (.refuse id _ _)
    rename_i ref hblob
    split
    · exact h.aside (.reply id _)
    rename_i hmax
    have hexpire := h.expireIncoming now
    have hlen := hmsg ref hblob
    have hentry := hexpire.entry id ref.id now
    unfold requestWrite
    dsimp only
    split
    · exact hexpire.aside (.refuse id _ _)
    refine tryWrite ?_ _
    refine hexpire.setIncoming ⟨hentry.bytes, hentry.short, fun hfull => ?_, ?_⟩
    · rcases Bool.or_eq_true_iff.mp hfull with hfull | hzero
      · exact hentry.full hfull
      -- an empty blob: no byte can have come
      have hzero : ref.len.toNat = 0 := by rw [of_decide_eq_true hzero]; rfl
      have hshort := hentry.short
      dsimp only at hshort ⊢
      omega
    rintro request hrequest
    cases hrequest
    exact ⟨ref, hblob, rfl, hlen, htype, Nat.not_lt.mp hmax⟩

/-- An orderly chunk continues its blob, or starts it over. -/
theorem addChunk {c : BlobChunk} {now : Time}
    (hbounds : InBounds c) (hlen : c.blobLen.toNat = len c.blobId)
    (hentry : (d.entry id c.blobId now).session = id →
      (c.offset.toNat = (d.entry id c.blobId now).bytes.length ∨ c.offset = 0) ∧
        (d.entry id c.blobId now).complete = false) :
    Right len (chunks ++ [(id, c)]) (d.addChunk id c now) := by
  have hold := h.entry id c.blobId now
  have hmono := h.mono [(id, c)]
  unfold Impl.addChunk
  dsimp only
  split
  · exact hmono
  rename_i hsession
  have hsession := not_not.mp hsession
  obtain ⟨hoffset, hincomplete⟩ := hentry hsession
  have hbytes : Assembled (chunks ++ [(id, c)]) (d.entry id c.blobId now).session c.blobId
      ((if c.offset = 0 then [] else (d.entry id c.blobId now).bytes) ++ c.payload) := by
    have hassembled := hold.bytes
    rw [hsession] at hassembled ⊢
    split
    · rename_i hzero
      exact Assembled.nil.next (by rw [hzero]; rfl)
    · rename_i hnot
      exact hassembled.next (hoffset.resolve_right hnot)
  have hlength : ((if c.offset = 0 then [] else (d.entry id c.blobId now).bytes) ++
      c.payload).length ≤ len c.blobId := by
    rw [length_append, ← hlen]
    unfold InBounds at hbounds
    split
    · rw [length_nil]
      omega
    rename_i hnot
    rw [← hoffset.resolve_right hnot]
    exact hbounds
  generalize (if c.offset = 0 then [] else (d.entry id c.blobId now).bytes) ++ c.payload = bytes
    at hbytes hlength
  have hrequest := (hmono.entry id c.blobId now).request
  split
  · rename_i hfull
    refine tryWrite ?_ _
    exact hmono.setIncoming ⟨hbytes, hlength, fun _ => le_antisymm hlength (hlen ▸ hfull), hrequest⟩
  refine hmono.setIncoming ⟨hbytes, hlength, fun hfull => ?_, hrequest⟩
  rw [hincomplete] at hfull
  cases hfull

theorem onBlobChunk {c : BlobChunk} {now : Time}
    (hbounds : InBounds c) (horderly : Orderly len d (.chunk id c now)) :
    Right len (chunks ++ [(id, c)]) (d.onBlobChunk id c now) := by
  obtain ⟨hlen, hentry, hnew⟩ := horderly
  have hnoted : Right len chunks { d with chunks := d.chunks ++ [(id, c)] } :=
    ⟨h.incoming, h.writes⟩
  unfold Impl.onBlobChunk
  split
  · exact hnoted.mono _
  refine (hnoted.expireIncoming now).addChunk hbounds hlen fun hsession => ?_
  unfold Impl.entry at hsession ⊢
  have hexpired : ({ d with chunks := d.chunks ++ [(id, c)] }.expireIncoming now).incoming[c.blobId]? =
      (d.incoming[c.blobId]?).filter fun i => i.waits now := Maps.get?_filter _ _ _
  rw [hexpired] at hsession ⊢
  cases hi : (d.incoming[c.blobId]?).filter fun i => i.waits now with
  | none =>
    rw [hi] at hnew
    exact ⟨.inr (hnew rfl), rfl⟩
  | some i =>
    rw [hi] at hentry hsession
    exact (of_decide_eq_true hentry).resolve_left (not_not.mpr hsession)

end Right

theorem step_right {evdevForCode : String → Option Nat} {len : String → Nat} {d d' : Impl}
    {a : ClipboardAct} (h : Right len d.chunks d) (horderly : Orderly len d a)
    (hstep : clipboardStep evdevForCode d a = some d') : Right len d'.chunks d' := by
  cases a with
  | attach id =>
    obtain ⟨-, rfl⟩ := guarded_not.mp hstep
    exact ⟨h.incoming, h.writes⟩
  | detach id =>
    obtain ⟨-, rfl⟩ := guarded.mp hstep
    exact h.filter rfl rfl
  | message id viewOnly msg now =>
    obtain ⟨-, rfl⟩ := guarded.mp hstep
    have hnoted : Right len d.chunks { d with messages := d.messages ++ [(id, msg)] } :=
      ⟨h.incoming, h.writes⟩
    by_cases htype : msg.type = "clipboard-write"
    · rw [onMessage_write evdevForCode d id viewOnly now htype]
      have htaken : Aside msg _ (takeInput { d with messages := d.messages ++ [(id, msg)] } id) :=
        .takeInput id
      rw [clipboardWrite_chunks, htaken.chunks]
      exact (hnoted.aside htaken).clipboardWrite now horderly
    have haside := onMessage_aside evdevForCode d id viewOnly now htype
    rw [haside.chunks]
    exact hnoted.aside haside
  | chunk id c now =>
    obtain ⟨⟨-, hbounds⟩, rfl⟩ := guarded.mp hstep
    rw [onBlobChunk_chunks]
    exact h.onBlobChunk hbounds horderly
  | written id request ok error =>
    obtain ⟨-, rfl⟩ := guarded.mp hstep
    unfold written
    dsimp only
    split <;> exact ⟨h.incoming, h.writes⟩
  | copied offerId types =>
    simp only [clipboardStep, Option.some.injEq] at hstep
    obtain rfl := hstep
    exact ⟨h.incoming, h.writes⟩

/-- The clipboard is written with what the request names, when every blob
has one length and its chunks come in order; and no run answers a request
more often than it came. -/
theorem clipboard_exact {evdevForCode : String → Option Nat} {as : List ClipboardAct} {d : Impl}
    (hrun : (clipboard evdevForCode).run {} as = some d) :
    (∀ id msg, msg.type = "clipboard-write" → d.answers id msg ≤ d.messages.count (id, msg)) ∧
      ∀ len, (clipboard evdevForCode).AllSteps (Orderly len) {} as →
        ∀ call ∈ d.calls, Exact d.chunks call := by
  constructor
  · have hnothing : Answered 0 {} := by
      intro id msg _
      simp [answers, waiting]
    have hanswered : Answered 0 d :=
      (clipboard evdevForCode).invariant hnothing (fun _ _ _ h hstep => h.step hstep) ⟨as, hrun⟩
    intro id msg hmsg
    have hcounted := hanswered id msg hmsg
    omega
  intro len horderly
  have hnothing : Right len [] {} := ⟨fun blobId i hi => by simp at hi, fun _ hcall => (nomatch hcall)⟩
  have hright : Right len d.chunks d :=
    (clipboard evdevForCode).run_induction (P := fun d => Right len d.chunks d)
      (fun _ _ _ h horderly hstep => step_right h horderly hstep) hnothing horderly hrun
  exact hright.writes

def pasted : String := "7d444840-9dc0-11d1-b245-5ffdce74fad2"

/-- A request for the three bytes of a blob. -/
def writeThree : Msg where
  type := "clipboard-write"
  id := 1
  payload := { type := .is "text/plain", blob := some ⟨pasted, 3⟩ }

theorem clipboard_exact_three :
    let as := [.attach "a", .message "a" false writeThree 0,
      .chunk "a" ⟨pasted, 0, 3, [104, 101]⟩ 1, .chunk "a" ⟨pasted, 2, 3, [106]⟩ 2,
      .written "a" writeThree true ""]
    ∃ d, (clipboard fun _ => none).run {} as = some d ∧
      .clipboardWrite "text/plain" [104, 101, 106] "a" writeThree ∈ d.calls ∧
      d.answers "a" writeThree ≤ d.messages.count ("a", writeThree) ∧
      ∀ call ∈ d.calls, Exact d.chunks call := by
  intro as
  refine evaluated (·.calls) (b := [.clipboardWrite "text/plain" [104, 101, 106] "a" writeThree])
    (by decide +kernel) fun d hrun hcalls => ?_
  have hexact := clipboard_exact hrun
  exact ⟨by rw [hcalls]; exact mem_singleton.mpr rfl, hexact.1 _ _ rfl,
    hexact.2 (fun _ => 3) (by decide +kernel)⟩

/-- One chunk that gives its blob two bytes is enough for a request that
names three. -/
theorem short_write :
    let chunk := ⟨pasted, 0, 2, [104, 101]⟩
    (encodeChunk pasted 0 2 [104, 101]).toOption.bind parseChunk = some chunk ∧
    ∃ d, (clipboard fun _ => none).run {}
        [.attach "a", .message "a" false writeThree 0, .chunk "a" chunk 1] = some d ∧
      .clipboardWrite "text/plain" [104, 101] "a" writeThree ∈ d.calls ∧
      ¬ Exact d.chunks (.clipboardWrite "text/plain" [104, 101] "a" writeThree) := by
  intro chunk
  refine ⟨by decide +kernel, ?_⟩
  refine evaluated (·.calls) (b := [.clipboardWrite "text/plain" [104, 101] "a" writeThree])
    (by decide +kernel) fun d _ hcalls => ?_
  refine ⟨by rw [hcalls]; exact mem_singleton.mpr rfl, ?_⟩
  rintro ⟨ref, hblob, -, hlen, -⟩
  cases hblob
  exact absurd hlen (by decide)

end Fjarr.Desktop
