/-
Fjarr.Blob.EndToEnd — what the pump sends, the assembler rebuilds.

The receiver is fed the accepted frames in order and takes each blob as
soon as it is complete. `Inv` relates the two ends at every moment of a
run: a transfer whose offset is `n` stands at the receiver as its first
`n` bytes, and as nothing when `n` is zero.

* `transfer_exact` — in every run of the pump, under any refusals, the
  blobs rebuilt are the blobs reported done, in order and byte for byte,
  and every transfer that left the queue was reported exactly once.
* `answers_return` — the sender gets control back to the client after
  finitely many answers.
-/
import Fjarr.Blob.Assembler
import Fjarr.Blob.Pump

namespace Fjarr.Blob

open Fjarr.Lib List
open Fjarr.Lib.Bytes

/-! ## The receiver -/

structure Receiver where
  asm : BlobAssembler
  blobs : List (String × Bytes) := []

namespace Receiver

/-- One frame: parsed, assembled, and taken when complete. -/
def onFrame (r : Receiver) (frame : Bytes) (now : Time) : Receiver :=
  match parseChunk frame with
  | none => r
  | some chunk =>
    match r.asm.onChunk chunk now with
    | (asm, none) => { r with asm }
    | (asm, some id) =>
      match asm.take id with
      | (asm, none) => { r with asm }
      | (asm, some data) => { asm, blobs := r.blobs ++ [(id, data)] }

/-- A new receiver after `frames`, the `i`-th of which arrives at `now i`. -/
def feed (maxBlob limit : Nat) (now : Nat → Time) (frames : List Bytes) : Receiver :=
  (frames.zipIdx).foldl (fun r f => r.onFrame f.1 (now f.2)) { asm := { maxBlob, limit } }

theorem feed_concat (maxBlob limit : Nat) (now : Nat → Time) (frames : List Bytes)
    (frame : Bytes) : feed maxBlob limit now (frames ++ [frame]) =
      (feed maxBlob limit now frames).onFrame frame (now frames.length) := by
  simp [feed, zipIdx_append, foldl_append]

/-- The first `offset` bytes of a blob stand at the receiver, and nothing
at offset zero. -/
def Holds (r : Receiver) (t : BlobTransfer) : Prop :=
  if t.offset = 0 then r.asm.entries[t.id]? = none
  else ∃ e, r.asm.entries[t.id]? = some e ∧ e.data = t.data.take t.offset ∧
    e.len = UInt64.ofNat t.data.length ∧ e.complete = false

variable {r : Receiver} {t : BlobTransfer}

theorem Holds.stored_eq (h : r.Holds t) :
    r.asm.stored t.id = t.data.take t.offset := by
  unfold Holds at h
  unfold BlobAssembler.stored
  split at h
  · rename_i hzero
    rw [h, hzero]
    rfl
  obtain ⟨e, he, hdata, -, -⟩ := h
  rw [he]
  exact hdata

theorem Holds.expects (h : r.Holds t)
    (hoff : t.offset ≤ t.data.length) (payload : Bytes) :
    r.asm.Expects ⟨t.id, UInt64.ofNat t.offset, UInt64.ofNat t.data.length, payload⟩ := by
  refine ⟨?_, ?_⟩
  · have hoffset : (UInt64.ofNat t.offset).toNat = t.offset :=
      UInt64.toNat_ofNat_of_lt' (Nat.lt_of_le_of_lt hoff t.size_lt)
    rw [h.stored_eq, hoffset, length_take]
    omega
  intro e he
  unfold Holds at h
  split at h
  · rw [h] at he
    cases he
  obtain ⟨e', he', -, hlen, hopen⟩ := h
  rw [he'] at he
  exact Option.some.inj he ▸ ⟨hopen, hlen⟩

/-- **One accepted chunk** moves the receiver on as far as the transfer,
and delivers the blob with its last chunk. -/
theorem onFrame_next {chunk : Nat} {frame : Bytes} (now : Time)
    (hoff : t.offset ≤ t.data.length) (hmax : t.data.length ≤ r.asm.maxBlob) (hold : r.Holds t)
    (hparse : parseChunk frame = some ⟨t.id, UInt64.ofNat t.offset, UInt64.ofNat t.data.length,
      slice t.offset (t.chunkSize chunk) t.data⟩) :
    (r.onFrame frame now).asm.maxBlob = r.asm.maxBlob ∧
      (∀ j, j ≠ t.id → r.asm.entries[j]? = none →
        (r.onFrame frame now).asm.entries[j]? = none) ∧
      if t.offset + t.chunkSize chunk = t.data.length then
        (r.onFrame frame now).blobs = r.blobs ++ [(t.id, t.data)] ∧
          (r.onFrame frame now).asm.entries[t.id]? = none
      else
        (r.onFrame frame now).blobs = r.blobs ∧
          ∃ e, (r.onFrame frame now).asm.entries[t.id]? = some e ∧
            e.data = t.data.take (t.offset + t.chunkSize chunk) ∧
            e.len = UInt64.ofNat t.data.length ∧ e.complete = false := by
  have hle := t.chunkSize_le chunk
  have hlen : (UInt64.ofNat t.data.length).toNat = t.data.length :=
    UInt64.toNat_ofNat_of_lt' t.size_lt
  obtain ⟨e, he, hdata, helen, hcomplete, hret, hmaxBlob, hothers⟩ :=
    BlobAssembler.onChunk_accept now (by rw [hlen]; exact hmax)
      (hold.expects hoff (slice t.offset (t.chunkSize chunk) t.data))
  have htake : e.data = t.data.take (t.offset + t.chunkSize chunk) := by
    rw [hdata, hold.stored_eq, slice, take_add]
  have hcount : e.data.length = t.offset + t.chunkSize chunk := by
    rw [htake, length_take]
    omega
  rw [hlen, hcount] at hcomplete
  unfold onFrame
  rw [hparse]
  dsimp only
  generalize r.asm.onChunk _ now = res at he hret hmaxBlob hothers
  obtain ⟨asm, out⟩ := res
  by_cases hend : t.offset + t.chunkSize chunk = t.data.length
  · have hc : e.complete = true := by rw [hcomplete, hend]; exact beq_self_eq_true _
    obtain ⟨hout, hm, hentries⟩ := BlobAssembler.take_complete he hc
    rw [hc, if_pos rfl] at hret
    subst hret
    dsimp only
    generalize asm.take t.id = taken at hout hm hentries
    obtain ⟨asm', data⟩ := taken
    subst hout
    rw [if_pos hend]
    refine ⟨hm.trans hmaxBlob, ?_, ?_, ?_⟩
    · intro j hj hnone
      rw [hentries, if_neg (Ne.symm hj)]
      exact hothers j hj hnone
    · rw [htake, hend, take_length]
    · rw [hentries, if_pos rfl]
  have hc : e.complete = false := by rw [hcomplete]; simpa using hend
  rw [hc, if_neg Bool.false_ne_true] at hret
  subst hret
  rw [if_neg hend]
  exact ⟨hmaxBlob, hothers, rfl, e, he, htake, helen, hc⟩

end Receiver

/-! ## Both ends together -/

/-- The blobs in the queue. -/
def World.queued (w : World) : List BlobData := w.pump.queue.map (·.toBlobData)

/-- The blobs a `fail_all` has taken from the queue and not yet reported. -/
def Call.waiting : Call → List BlobData
  | .failAll rest => rest.map (·.toBlobData)
  | _ => []

def World.waiting (w : World) : List BlobData := w.calls.flatMap Call.waiting

/-- The blobs reported done with `true`. -/
def reported (called : List (BlobData × Bool)) : List (String × Bytes) :=
  (called.filter (·.2)).map fun c => (c.1.id, c.1.data)

theorem reported_append (called called' : List (BlobData × Bool)) :
    reported (called ++ called') = reported called ++ reported called' := by
  rw [reported, filter_append, map_append]
  rfl

@[simp] theorem reported_map_false (bs : List BlobData) : reported (bs.map (·, false)) = [] := by
  simp [reported, filter_map]

/-- What the two ends share at every moment. `owed` are the callbacks a
running operation still has to make. -/
structure Inv (chunkPayload maxBlob limit : Nat) (now : Nat → Time)
    (owed : List (BlobData × Bool)) (w : World) : Prop where
  chunk : w.pump.chunk = min chunkPayload maxChunkPayload
  account : w.enqueued.Perm (w.queued ++ w.waiting ++ (w.called ++ owed).map Prod.fst)
  distinct : (w.enqueued.map (·.id)).Nodup
  admitted : ∀ b ∈ w.enqueued, Canonical b.id ∧ b.data.length ≤ maxBlob
  pending : ∀ t ∈ w.pump.queue, t.Pending
  -- only the transfer in front has been started
  rear : ∀ t ∈ w.pump.queue.tail, t.offset = 0
  parses : ∀ frame ∈ w.sent, (parseChunk frame).isSome
  bound : (Receiver.feed maxBlob limit now w.sent).asm.maxBlob = maxBlob
  holds : ∀ t ∈ w.pump.queue, (Receiver.feed maxBlob limit now w.sent).Holds t
  unknown : ∀ id, id ∉ w.enqueued.map (·.id) →
    (Receiver.feed maxBlob limit now w.sent).asm.entries[id]? = none
  blobs : (Receiver.feed maxBlob limit now w.sent).blobs = reported (w.called ++ owed)
  sending : w.sending = true → w.pump.queue ≠ []

namespace Inv

variable {chunkPayload maxBlob limit : Nat} {now : Nat → Time} {owed : List (BlobData × Bool)}
  {w : World}

theorem init : Inv chunkPayload maxBlob limit now [] (system chunkPayload).init where
  chunk := rfl
  account := List.Perm.nil
  distinct := nodup_nil
  admitted := by simp [system]
  pending := by simp [system, BlobPump.new]
  rear := by simp [system, BlobPump.new]
  parses := by simp [system]
  bound := rfl
  holds := by simp [system, BlobPump.new]
  unknown := by
    intro id _
    exact Std.ExtTreeMap.getElem?_empty
  blobs := rfl
  sending := by simp [system]

variable {t : BlobTransfer} {rest : List BlobTransfer}

theorem mem_enqueued (h : Inv chunkPayload maxBlob limit now owed w)
    (ht : t ∈ w.pump.queue) : t.toBlobData ∈ w.enqueued := by
  refine h.account.mem_iff.mpr ?_
  rw [append_assoc]
  exact mem_append_left _ (mem_map_of_mem ht)

theorem queue_nodup (h : Inv chunkPayload maxBlob limit now owed w) :
    (w.pump.queue.map (·.id)).Nodup := by
  have hall := (h.account.map (·.id)).nodup_iff.mp h.distinct
  rw [append_assoc, map_append, World.queued, map_map] at hall
  exact hall.of_append_left

/-- A callback is made: it is no longer owed, and the transfers its
operation has still to report wait with that operation. -/
theorem callDone {ok : Bool} (call : Call)
    (h : Inv chunkPayload maxBlob limit now
      ((t.toBlobData, ok) :: call.waiting.map (·, false)) w) :
    Inv chunkPayload maxBlob limit now [] (w.callDone t ok call) := by
  have hblobs := h.blobs
  rw [append_cons, reported_append, reported_map_false] at hblobs
  refine { h with
    account := ?_
    blobs := by simpa only [World.callDone, append_nil] using hblobs
    sending := nofun }
  refine perm_iff_count.mpr fun b => ?_
  have hcount := perm_iff_count.mp h.account b
  have hmap : (call.waiting.map (·, false)).map Prod.fst = call.waiting := by
    rw [map_map]
    exact map_id _
  simp only [count_append, map_append, map_cons, hmap, count_cons] at hcount
  simp only [World.callDone, World.queued, World.waiting, flatMap_cons, count_append,
    map_append, map_cons, map_nil, count_cons, count_nil] at hcount ⊢
  omega

section

variable (h : Inv chunkPayload maxBlob limit now owed w)
include h

theorem leavePump :
    Inv chunkPayload maxBlob limit now owed w.leavePump :=
  { h with sending := nofun }

theorem nextFrame (ht : t ∈ w.pump.queue) : ∃ frame, t.nextFrame w.pump.chunk = some (.ok frame) ∧
      parseChunk frame = some ⟨t.id, UInt64.ofNat t.offset, UInt64.ofNat t.data.length,
        slice t.offset (t.chunkSize w.pump.chunk) t.data⟩ :=
  t.nextFrame_of_pending (h.pending t ht) (h.admitted _ (h.mem_enqueued ht)).1
    (by rw [h.chunk]; exact Nat.min_le_right _ _)

theorem loop :
    Inv chunkPayload maxBlob limit now owed w.loop := by
  unfold World.loop
  split
  · exact h.leavePump
  rename_i t rest hq
  obtain ⟨frame, hframe, -⟩ := h.nextFrame (t := t) (by rw [hq]; exact mem_cons_self)
  rw [hframe]
  refine { h with sending := fun _ => ?_ }
  rw [hq]
  exact cons_ne_nil _ _

end

/-! ## The client's operations -/

theorem enqueue (h : Inv chunkPayload maxBlob limit now [] w) {b : BlobData}
    (hid : Canonical b.id) (hnew : b.id ∉ w.enqueued.map (·.id)) (hmax : b.data.length ≤ maxBlob) :
    Inv chunkPayload maxBlob limit now [] (w.enqueue b) := by
  have hmem : ∀ {t : BlobTransfer}, t ∈ (w.enqueue b).pump.queue →
      t ∈ w.pump.queue ∨ t = { toBlobData := b } := by
    intro t ht
    rwa [World.enqueue, World.setQueue, mem_append, mem_singleton] at ht
  refine { h with
    account := ?_, distinct := ?_, admitted := ?_, pending := ?_, rear := ?_, holds := ?_
    unknown := ?_, sending := ?_ }
  · refine perm_iff_count.mpr fun c => ?_
    have hcount := perm_iff_count.mp h.account c
    simp only [World.enqueue, World.setQueue, World.queued, World.waiting, map_append,
      map_cons, map_nil, count_append, append_nil] at hcount ⊢
    omega
  · rw [World.enqueue, map_append]
    exact nodup_snoc h.distinct hnew
  · intro c hc
    rcases mem_snoc.mp hc with hc | rfl
    · exact h.admitted c hc
    · exact ⟨hid, hmax⟩
  · intro t ht
    rcases hmem ht with ht | rfl
    · exact h.pending t ht
    refine ⟨rfl, ?_⟩
    cases hd : b.data with
    | nil => exact .inl ⟨rfl, rfl⟩
    | cons x xs => exact .inr (Nat.succ_pos _)
  · intro t ht
    cases hq : w.pump.queue with
    | nil =>
      simp [World.enqueue, World.setQueue, hq] at ht
    | cons front rest =>
      rw [World.enqueue, World.setQueue, hq] at ht
      rcases mem_snoc.mp ht with ht | rfl
      · exact h.rear t (by rw [hq]; exact ht)
      · rfl
  · intro t ht
    rcases hmem ht with ht | rfl
    · exact h.holds t ht
    · exact h.unknown b.id hnew
  · intro id hid'
    refine h.unknown id fun hold => hid' ?_
    rw [World.enqueue, map_append]
    exact mem_append_left _ hold
  · intro _ hnil
    simp [World.enqueue, World.setQueue] at hnil

/-- Transfers leave the queue and are owed a callback with `false`. -/
theorem remove (h : Inv chunkPayload maxBlob limit now [] w) (gone : List BlobTransfer)
    {queue : List BlobTransfer} (hperm : w.pump.queue.Perm (gone ++ queue))
    (hsub : queue.Sublist w.pump.queue) (htail : ∀ t ∈ queue.tail, t ∈ w.pump.queue.tail)
    (hidle : w.sending = false) :
    Inv chunkPayload maxBlob limit now ((gone.map (·.toBlobData)).map (·, false))
      (w.setQueue queue) := by
  have hblobs := h.blobs
  refine { h with
    account := ?_, pending := ?_, rear := ?_, holds := ?_, blobs := ?_, sending := ?_ }
  · refine perm_iff_count.mpr fun c => ?_
    have hcount := perm_iff_count.mp h.account c
    have hq := perm_iff_count.mp (hperm.map (·.toBlobData)) c
    have hgone : ((gone.map (·.toBlobData)).map (·, false)).map Prod.fst =
        gone.map (·.toBlobData) := by
      rw [map_map]
      exact map_id _
    simp only [World.setQueue, World.queued, World.waiting, map_append, count_append,
      append_nil, hgone] at hcount hq ⊢
    omega
  · intro t ht
    exact h.pending t (hsub.subset ht)
  · intro t ht
    exact h.rear t (htail t ht)
  · intro t ht
    exact h.holds t (hsub.subset ht)
  · rw [reported_append, reported_map_false]
    rwa [reported_append] at hblobs
  intro hs
  rw [World.setQueue, hidle] at hs
  cases hs

theorem failRest
    (h : Inv chunkPayload maxBlob limit now ((rest.map (·.toBlobData)).map (·, false)) w) :
    Inv chunkPayload maxBlob limit now [] (w.failRest rest) := by
  cases rest with
  | nil => exact h
  | cons t rest => exact callDone (.failAll rest) h

section

variable (h : Inv chunkPayload maxBlob limit now [] w)
include h

theorem failAll (hidle : w.sending = false) :
    Inv chunkPayload maxBlob limit now [] w.failAll := by
  refine failRest (h.remove _ ?_ (nil_sublist _) ?_ hidle)
  · rw [append_nil]
  · intro t ht
    cases ht

theorem cancel (id : String)
    (hidle : w.sending = false) : Inv chunkPayload maxBlob limit now [] (w.cancel id) := by
  unfold World.cancel
  split
  · exact h
  rename_i t hfind
  obtain ⟨hid, front, back, hq, hfront⟩ := find?_eq_some_iff_append.mp hfind
  have herase : w.pump.queue.eraseP (·.id = id) = front ++ back := by
    rw [hq, eraseP_append_right _ (by simpa using hfront),
      eraseP_cons_of_pos (by exact hid)]
  refine callDone .cancel (h.remove [t] ?_ eraseP_sublist ?_ hidle)
  · rw [herase, hq]
    exact perm_middle
  rw [herase, hq]
  cases front with
  | nil => exact fun t ht => mem_of_mem_tail ht
  | cons f front =>
    intro t ht
    rcases mem_append.mp ht with ht | ht
    · exact mem_append_left _ ht
    · exact mem_append_right _ (mem_cons_of_mem _ ht)

theorem startPump (opened : Bool) :
    Inv chunkPayload maxBlob limit now [] (w.startPump opened) := by
  unfold World.startPump
  split
  · exact h
  · exact loop { h with }

theorem ret {w' : World} (hret : w.ret = some w') : Inv chunkPayload maxBlob limit now [] w' := by
  have haccount := h.account
  unfold World.ret at hret
  split at hret
  · cases hret
  · rename_i calls hcalls
    cases hret
    refine loop { h with account := ?_ }
    rwa [World.waiting, hcalls] at haccount
  · rename_i calls hcalls
    cases hret
    refine { h with account := ?_ }
    rwa [World.waiting, hcalls] at haccount
  rename_i rest calls hcalls
  cases hret
  refine failRest { h with account := ?_, blobs := ?_ }
  · refine haccount.trans (perm_iff_count.mpr fun b => ?_)
    have hmap : ((rest.map (·.toBlobData)).map (·, false)).map Prod.fst =
        rest.map (·.toBlobData) := by
      rw [map_map]
      exact map_id _
    simp only [World.queued, World.waiting, hcalls, flatMap_cons, Call.waiting,
      count_append, map_append, hmap, map_nil, count_nil]
    omega
  · rw [reported_append, reported_map_false]
    exact h.blobs.trans (reported_append _ _)

end

/-! ## The sender's answer -/

theorem feed_next (h : Inv chunkPayload maxBlob limit now owed w)
    (hq : w.pump.queue = t :: rest) {frame : Bytes}
    (hparse : parseChunk frame = some ⟨t.id, UInt64.ofNat t.offset, UInt64.ofNat t.data.length,
      slice t.offset (t.chunkSize w.pump.chunk) t.data⟩) {r : Receiver}
    (hr : r = Receiver.feed maxBlob limit now (w.sent ++ [frame])) :
    r.asm.maxBlob = maxBlob ∧ (∀ t' ∈ rest, r.Holds t') ∧
      (∀ id, id ∉ w.enqueued.map (·.id) → r.asm.entries[id]? = none) ∧
      if t.offset + t.chunkSize w.pump.chunk = t.data.length then
        r.blobs = (Receiver.feed maxBlob limit now w.sent).blobs ++ [(t.id, t.data)]
      else
        r.blobs = (Receiver.feed maxBlob limit now w.sent).blobs ∧
          ∃ e, r.asm.entries[t.id]? = some e ∧
            e.data = t.data.take (t.offset + t.chunkSize w.pump.chunk) ∧
            e.len = UInt64.ofNat t.data.length ∧ e.complete = false := by
  have ht : t ∈ w.pump.queue := by rw [hq]; exact mem_cons_self
  have hoff : t.offset ≤ t.data.length := by
    obtain ⟨_, ⟨hnil, hzero⟩ | hlt⟩ := h.pending t ht
    · omega
    · omega
  have hmax : t.data.length ≤ (Receiver.feed maxBlob limit now w.sent).asm.maxBlob := by
    rw [h.bound]
    exact (h.admitted _ (h.mem_enqueued ht)).2
  obtain ⟨hbound, hothers, hnext⟩ := Receiver.onFrame_next (now w.sent.length) hoff hmax
    (h.holds t ht) hparse
  rw [← Receiver.feed_concat, ← hr] at hbound hothers hnext
  refine ⟨hbound.trans h.bound, ?_, ?_, ?_⟩
  · -- the other queued transfers have other ids, and nothing at the receiver
    intro t' ht'
    have hne : t'.id ≠ t.id := by
      have hnodup := h.queue_nodup
      rw [hq, map_cons, nodup_cons] at hnodup
      intro heq
      exact hnodup.1 (heq ▸ mem_map_of_mem ht')
    have hzero : t'.offset = 0 := h.rear t' (by rw [hq]; exact ht')
    have hold := h.holds t' (by rw [hq]; exact mem_cons_of_mem _ ht')
    rw [Receiver.Holds, if_pos hzero] at hold ⊢
    exact hothers t'.id hne hold
  · intro id hid
    refine hothers id ?_ (h.unknown id hid)
    rintro rfl
    exact hid (mem_map_of_mem (h.mem_enqueued ht))
  split at hnext
  · rename_i hend
    rw [if_pos hend]
    exact hnext.1
  rename_i hend
  rw [if_neg hend]
  exact hnext

theorem accept (h : Inv chunkPayload maxBlob limit now [] w) (hchunk : 1 ≤ chunkPayload)
    (hq : w.pump.queue = t :: rest) {frame : Bytes}
    (hframe : t.nextFrame w.pump.chunk = some (.ok frame)) :
    Inv chunkPayload maxBlob limit now []
      ({ w with sent := w.sent ++ [frame] }.setQueue (t.accepted w.pump.chunk :: rest)).loop := by
  have ht : t ∈ w.pump.queue := by rw [hq]; exact mem_cons_self
  obtain ⟨frame', hframe', hparse⟩ := h.nextFrame ht
  obtain rfl : frame' = frame := by rw [hframe] at hframe'; cases hframe'; rfl
  obtain ⟨hbound, hrest, hunknown, hnext⟩ := h.feed_next hq hparse rfl
  have hpending : ∀ t' ∈ rest, t'.Pending := fun t' ht' =>
    h.pending t' (by rw [hq]; exact mem_cons_of_mem _ ht')
  have hrear : ∀ t' ∈ rest, t'.offset = 0 := fun t' ht' => h.rear t' (by rw [hq]; exact ht')
  have hparses : ∀ f ∈ w.sent ++ [frame'], (parseChunk f).isSome := by
    intro f hf
    rcases mem_snoc.mp hf with hf | rfl
    · exact h.parses f hf
    · rw [hparse]
      rfl
  have haccount := h.account
  rw [World.queued, hq] at haccount
  rcases t.accepted_cases (h.pending t ht) w.pump.chunk with
    ⟨hdone, hend⟩ | ⟨hmore, hoffset, hlt, -⟩
  · -- the last chunk: the transfer leaves the queue, delivered
    rw [if_pos hend, h.blobs, append_nil] at hnext
    rw [World.loop]
    simp only [World.setQueue, hdone]
    have htrue : Inv chunkPayload maxBlob limit now [(t.toBlobData, true)]
        ({ w with sent := w.sent ++ [frame'], sending := false }.setQueue rest) := { h with
      account := by
        refine haccount.trans (perm_iff_count.mpr fun b => ?_)
        simp only [World.setQueue, World.queued, World.waiting, map_append, map_cons,
          map_nil, count_append, count_cons, count_nil]
        omega
      pending := hpending
      rear := fun t' ht' => hrear t' (mem_of_mem_tail ht')
      parses := hparses
      bound := hbound
      holds := hrest
      unknown := hunknown
      blobs := by rw [reported_append]; exact hnext
      sending := nofun }
    have hcalled := callDone (t := t.accepted w.pump.chunk) .pump
      (by rw [t.accepted_toBlobData]; exact htrue)
    exact hcalled
  rw [if_neg (by omega)] at hnext
  obtain ⟨hblobs, e, he, hdata, hlen, hopen⟩ := hnext
  refine loop { h with
    account := ?_
    pending := ?_
    rear := hrear
    parses := hparses
    bound := hbound
    holds := ?_
    unknown := hunknown
    blobs := hblobs.trans h.blobs
    sending := fun _ => cons_ne_nil _ _ }
  · rwa [World.queued, World.setQueue, map_cons, t.accepted_toBlobData]
  · intro t' ht'
    rcases mem_cons.mp ht' with rfl | ht'
    · exact hmore
    · exact hpending t' ht'
  intro t' ht'
  rcases mem_cons.mp ht' with rfl | ht'
  · have hpos : 0 < t.offset + t.chunkSize w.pump.chunk := by
      rw [BlobTransfer.chunkSize, h.chunk, maxChunkPayload]
      omega
    rw [Receiver.Holds, hoffset, if_neg (by omega), t.accepted_toBlobData]
    exact ⟨e, he, hdata, hlen, hopen⟩
  · exact hrest t' ht'

theorem answer (h : Inv chunkPayload maxBlob limit now [] w) (hchunk : 1 ≤ chunkPayload)
    (ok : Bool) : Inv chunkPayload maxBlob limit now [] (w.answer ok) := by
  unfold World.answer
  split
  · exact h
  rename_i t rest hq
  split
  · rename_i frame hframe
    split
    · exact h.accept hchunk hq hframe
    · exact h.leavePump
  · exact h

end Inv

/-! ## Runs -/

/-- What a client promises: a canonical id it has not used before, and no
more data than the receiver accepts. -/
def Admissible (maxBlob : Nat) (w : World) : Act → Prop
  | .enqueue b =>
    Canonical b.id ∧ b.id ∉ w.enqueued.map (·.id) ∧ b.data.length ≤ maxBlob
  | _ => True

variable {chunkPayload maxBlob limit : Nat} {now : Nat → Time} {w : World}

theorem step_inv
    (hchunk : 1 ≤ chunkPayload) {w' : World} {act : Act}
    (h : Inv chunkPayload maxBlob limit now [] w) (hact : Admissible maxBlob w act)
    (hstep : step w act = some w') : Inv chunkPayload maxBlob limit now [] w' := by
  cases act with
  | answer ok =>
    simp only [step] at hstep
    split at hstep
    · cases hstep
      exact h.answer hchunk ok
    · cases hstep
  | enqueue b =>
    obtain ⟨hidle, rfl⟩ : w.sending = false ∧ w.enqueue b = w' := by simpa [step] using hstep
    obtain ⟨hid, hnew, hmax⟩ := hact
    exact h.enqueue hid hnew hmax
  | cancel id =>
    obtain ⟨hidle, rfl⟩ : w.sending = false ∧ w.cancel id = w' := by simpa [step] using hstep
    exact h.cancel id hidle
  | failAll =>
    obtain ⟨hidle, rfl⟩ : w.sending = false ∧ w.failAll = w' := by simpa [step] using hstep
    exact h.failAll hidle
  | pump opened =>
    obtain ⟨hidle, rfl⟩ : w.sending = false ∧ w.startPump opened = w' := by
      simpa [step] using hstep
    exact h.startPump opened
  | ret =>
    obtain ⟨hidle, hret⟩ : w.sending = false ∧ w.ret = some w' := by simpa [step] using hstep
    exact h.ret hret

/-- The bytes the front transfer has still to send. -/
def World.left (w : World) : Nat :=
  match w.pump.queue with
  | [] => 0
  | t :: _ => t.data.length - t.offset

/-- An answer gives control back to the client, or the front transfer has
less to send. -/
theorem answer_progress
    (hchunk : 1 ≤ chunkPayload) (h : Inv chunkPayload maxBlob limit now [] w)
    (hs : w.sending = true) (ok : Bool) :
    (w.answer ok).sending = false ∨ (w.answer ok).left < w.left := by
  cases hq : w.pump.queue with
  | nil => exact absurd hq (h.sending hs)
  | cons t rest =>
    have ht : t ∈ w.pump.queue := by rw [hq]; exact mem_cons_self
    obtain ⟨frame, hframe, -⟩ := h.nextFrame ht
    simp only [World.answer, hq, hframe]
    split
    · rcases t.accepted_cases (h.pending t ht) w.pump.chunk with
        ⟨hdone, -⟩ | ⟨hmore, hoffset, hlt, -⟩
      · left
        simp only [World.loop, World.setQueue, hdone]
        rfl
      right
      have hpos : 0 < t.chunkSize w.pump.chunk := by
        rw [BlobTransfer.chunkSize, h.chunk, maxChunkPayload] at hlt ⊢
        omega
      have hid : Canonical (t.accepted w.pump.chunk).id := by
        rw [t.accepted_toBlobData]
        exact (h.admitted _ (h.mem_enqueued ht)).1
      have hle : w.pump.chunk ≤ maxChunkPayload := by
        rw [h.chunk]
        exact Nat.min_le_right _ _
      obtain ⟨next, hnext, -⟩ :=
        (t.accepted w.pump.chunk).nextFrame_of_pending hmore hid hle
      simp only [World.loop, World.setQueue, hnext, World.left, hq, hoffset,
        t.accepted_toBlobData]
      omega
    · exact .inl rfl

/-- **The sender gives control back**: whatever it answers, `pump` returns
or makes a callback after finitely many chunks. -/
theorem answers_return
    (hchunk : 1 ≤ chunkPayload) (h : Inv chunkPayload maxBlob limit now [] w)
    (hs : w.sending = true) (answers : Nat → Bool) :
    ∃ n w', (system chunkPayload).run w ((List.range n).map fun i => .answer (answers i)) =
      some w' ∧ w'.sending = false := by
  -- induction on what the front transfer has still to send
  induction hn : w.left using Nat.strong_induction_on generalizing w answers with
  | _ left ih =>
    have hstep : step w (.answer (answers 0)) = some (w.answer (answers 0)) := by
      rw [step, if_pos hs]
    by_cases hidle : (w.answer (answers 0)).sending = false
    · exact ⟨1, _, by simp [System.run, system, hstep], hidle⟩
    have hless := (answer_progress hchunk h hs (answers 0)).resolve_left hidle
    obtain ⟨n, w', hrun, hw'⟩ := ih _ (hn ▸ hless) (h.answer hchunk (answers 0))
      (by simpa using hidle) (fun i => answers (i + 1)) rfl
    refine ⟨n + 1, w', ?_, hw'⟩
    rw [range_succ_eq_map, map_cons, map_map, System.run_cons_eq_some]
    exact ⟨_, hstep, hrun⟩

/-- **Blob transfer is exact.** In every state of every run of the pump,
whatever the sender refused and whatever the callbacks did: every accepted
frame parses, the receiver has the blobs reported done, in that order and
byte for byte, no id twice; every enqueued transfer that is neither in the
queue nor still to be reported by a running `fail_all` was reported exactly
once; and a sender with a chunk gives control back. -/
theorem transfer_exact {chunkPayload maxBlob : Nat} (limit : Nat) (now : Nat → Time)
    (hchunk : 1 ≤ chunkPayload) {acts : List Act} {w : World}
    (hacts : (system chunkPayload).AllSteps (Admissible maxBlob) (system chunkPayload).init acts)
    (hrun : (system chunkPayload).run (system chunkPayload).init acts = some w) :
    (∀ frame ∈ w.sent, (parseChunk frame).isSome) ∧
      (Receiver.feed maxBlob limit now w.sent).blobs = reported w.called ∧
      ((reported w.called).map Prod.fst).Nodup ∧
      (∀ c ∈ w.called, c.1 ∈ w.enqueued) ∧
      (∀ b ∈ w.enqueued, b ∉ w.queued → b ∉ w.waiting → (w.called.map Prod.fst).count b = 1) ∧
      (w.sending = true → ∀ answers : Nat → Bool, ∃ n w',
        (system chunkPayload).run w ((List.range n).map fun i => .answer (answers i)) = some w' ∧
          w'.sending = false) := by
  have h : Inv chunkPayload maxBlob limit now [] w :=
    (system chunkPayload).run_induction (fun s a s' hP hQ hs => step_inv hchunk hP hQ hs)
      Inv.init hacts hrun
  have haccount := h.account
  have hblobs := h.blobs
  rw [append_nil] at haccount hblobs
  refine ⟨h.parses, hblobs, ?_, ?_, ?_, answers_return hchunk h⟩
  · have hall := (haccount.map (·.id)).nodup_iff.mp h.distinct
    rw [map_append, map_map] at hall
    have hcalled := hall.of_append_right
    rw [reported, map_map]
    exact (filter_sublist.map _).nodup hcalled
  · intro c hc
    exact haccount.mem_iff.mpr (mem_append_right _ (mem_map_of_mem hc))
  intro b hb hqueued hwaiting
  have hcount := perm_iff_count.mp haccount b
  rw [count_append, count_append, count_eq_zero_of_not_mem hqueued,
    count_eq_zero_of_not_mem hwaiting,
    count_eq_one_of_mem h.distinct.of_map hb] at hcount
  omega

/-- Two blobs, one of them empty. -/
def emptyBlob : BlobData := ⟨uuidText ⟨List.replicate 16 0, rfl⟩, [], by decide⟩

def smallBlob : BlobData := ⟨uuidText ⟨List.replicate 16 1, rfl⟩, [7, 8, 9], by decide⟩

/-- Both are sent two bytes a chunk, with one refusal in the middle of the
second. -/
def twoBlobs : List Act :=
  [.enqueue emptyBlob, .enqueue smallBlob, .pump true, .answer true, .ret, .answer true,
    .answer false, .pump true, .answer true, .ret]

theorem transfer_exact_two : ∃ w, (system 2).run (system 2).init twoBlobs = some w ∧
    (Receiver.feed 3 3 (fun i => i) w.sent).blobs =
      [(emptyBlob.id, []), (smallBlob.id, [7, 8, 9])] := by
  refine evaluated (·.called) (b := [(emptyBlob, true), (smallBlob, true)]) (by decide +kernel)
    fun w hrun hcalled => ?_
  have hacts : (system 2).AllSteps (Admissible 3) (system 2).init twoBlobs := by
    refine ⟨⟨⟨_, rfl⟩, not_mem_nil, by decide⟩, ?_⟩
    intro s hs
    obtain rfl : (system 2).init.enqueue emptyBlob = s := Option.some.inj hs
    refine ⟨⟨⟨_, rfl⟩, by decide +kernel, by decide⟩, fun s' _ => ?_⟩
    refine System.allSteps_of_forall _ fun a ha s => ?_
    fin_cases ha <;> trivial
  rw [(transfer_exact 3 _ (by decide) hacts hrun).2.1, hcalled]
  rfl

end Fjarr.Blob
