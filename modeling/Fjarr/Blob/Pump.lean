/-
Fjarr.Blob.Pump — the send side (agent/src/core/blob_pump): queued blobs
go out chunk by chunk while the sender takes them, and every transfer's
`done` callback is told how it ended.

A `done` callback is code of the capability and may call the pump again:
enqueue, cancel, fail everything, pump. So the pump is a machine with a
stack of the calls that wait for a callback to return (`Call`). Control is
with the client, at the top or in the callback on top of the stack, or
with the sender, which has a chunk to accept or refuse (`sending`).
A transfer without a callback is one whose callback does nothing.

`encode_chunk` throws for an id that is no UUID. The exception leaves
`pump` with `pumping_` set and reaches the client that called it.
-/
import Fjarr.Lib.Transition
import Fjarr.Blob.Codec

namespace Fjarr.Blob

open Fjarr.Lib
open Fjarr.Lib.Bytes

/-- A blob to send. Its size fits the 64-bit length field. -/
structure BlobData where
  id : String
  data : Bytes
  size_lt : data.length < 2 ^ 64
  deriving DecidableEq

structure BlobTransfer extends BlobData where
  offset : Nat := 0
  sentEmpty : Bool := false
  deriving DecidableEq

namespace BlobTransfer

variable (t : BlobTransfer) (chunk : Nat)

/-- The size of the next chunk. -/
def chunkSize : Nat := min chunk (t.data.length - t.offset)

/-- The next frame to send, `none` once everything has gone out. An empty
blob is one chunk with no payload. -/
def nextFrame : Option (Except FjarrError Bytes) :=
  if t.data.length = 0 ∧ t.sentEmpty = false then some (encodeChunk t.id 0 0 [])
  else if t.offset < t.data.length then
    some (encodeChunk t.id (UInt64.ofNat t.offset) (UInt64.ofNat t.data.length)
      (slice t.offset (t.chunkSize chunk) t.data))
  else none

/-- The transfer after the sender has accepted its next frame. -/
def accepted : BlobTransfer :=
  if t.data.length = 0 ∧ t.sentEmpty = false then { t with sentEmpty := true }
  else { t with offset := t.offset + t.chunkSize chunk }

end BlobTransfer

structure BlobPump where
  chunk : Nat
  queue : List BlobTransfer := []
  pumping : Bool := false

def BlobPump.new (chunkPayload : Nat) : BlobPump := { chunk := min chunkPayload maxChunkPayload }

/-- A call that waits for a `done` callback to return. -/
inductive Call where
  | pump
  | cancel
  | failAll (rest : List BlobTransfer)
  deriving DecidableEq

/-- The pump, where control is, the frames the sender accepted, the
callbacks made, and the blobs enqueued. -/
structure World where
  pump : BlobPump
  sending : Bool := false
  calls : List Call := []
  sent : List Bytes := []
  called : List (BlobData × Bool) := []
  enqueued : List BlobData := []

namespace World

variable (w : World)

def setQueue (queue : List BlobTransfer) : World :=
  { w with pump := { w.pump with queue } }

/-- A transfer's `done` callback is called, by a call that waits for it. -/
def callDone (t : BlobTransfer) (ok : Bool) (call : Call) : World :=
  { w with called := w.called ++ [(t.toBlobData, ok)], calls := call :: w.calls, sending := false }

/-- `pump` gives up control. -/
def leavePump : World :=
  { w with pump := { w.pump with pumping := false }, sending := false }

/-- The loop of `pump`, up to the next chunk or the next callback. -/
def loop : World :=
  match w.pump.queue with
  | [] => w.leavePump
  | t :: rest =>
    match t.nextFrame w.pump.chunk with
    | some (.ok _) => { w with sending := true }
    | some (.error _) => { w with sending := false }
    | none => (w.setQueue rest).callDone t true .pump

/-- The sender answers. A refusal means the channel is above its high
water: the drain signal calls `pump` again. -/
def answer (ok : Bool) : World :=
  match w.pump.queue with
  | [] => w
  | t :: rest =>
    match t.nextFrame w.pump.chunk with
    | some (.ok frame) =>
      if ok then
        ({ w with sent := w.sent ++ [frame] }.setQueue (t.accepted w.pump.chunk :: rest)).loop
      else w.leavePump
    | _ => w

/-- `BlobPump::enqueue`. -/
def enqueue (b : BlobData) : World :=
  { w.setQueue (w.pump.queue ++ [{ toBlobData := b }]) with enqueued := w.enqueued ++ [b] }

/-- `BlobPump::cancel`. -/
def cancel (w : World) (id : String) : World :=
  match w.pump.queue.find? (·.id = id) with
  | none => w
  | some t => (w.setQueue (w.pump.queue.eraseP (·.id = id))).callDone t false .cancel

/-- The loop of `fail_all` over the transfers it took. -/
def failRest : List BlobTransfer → World
  | [] => w
  | t :: rest => w.callDone t false (.failAll rest)

/-- `BlobPump::fail_all`. -/
def failAll : World := (w.setQueue []).failRest w.pump.queue

/-- `BlobPump::pump` with an open channel or none. -/
def startPump (opened : Bool) : World :=
  if !opened || w.pump.pumping then w
  else { w with pump := { w.pump with pumping := true } }.loop

/-- The callback on top of the stack returns to the call that made it. -/
def ret : Option World :=
  match w.calls with
  | [] => none
  | .pump :: calls => some { w with calls }.loop
  | .cancel :: calls => some { w with calls }
  | .failAll rest :: calls => some ({ w with calls }.failRest rest)

end World

/-- What the client does, and the sender's answer. -/
inductive Act where
  | enqueue (b : BlobData)
  | cancel (id : String)
  | failAll
  | pump (opened : Bool)
  | ret
  | answer (ok : Bool)

/-- One step: the sender answers while it has a chunk, the client acts
otherwise. -/
def step (w : World) : Act → Option World
  | .answer ok => if w.sending then some (w.answer ok) else none
  | .enqueue b => if w.sending then none else some (w.enqueue b)
  | .cancel id => if w.sending then none else some (w.cancel id)
  | .failAll => if w.sending then none else some w.failAll
  | .pump opened => if w.sending then none else some (w.startPump opened)
  | .ret => if w.sending then none else w.ret

def system (chunkPayload : Nat) : Lib.System World Act where
  init := { pump := BlobPump.new chunkPayload }
  step := step

/-! ## Chunks -/

namespace BlobTransfer

variable (t : BlobTransfer)

/-- Something of the transfer is still to be sent. -/
def Pending : Prop :=
  t.sentEmpty = false ∧ (t.data = [] ∧ t.offset = 0 ∨ t.offset < t.data.length)

theorem chunkSize_le (chunk : Nat) :
    t.chunkSize chunk ≤ t.data.length - t.offset :=
  Nat.min_le_right _ _

/-- A pending transfer has a next frame, and it parses to the bytes at the
transfer's offset. -/
theorem nextFrame_of_pending {t : BlobTransfer} (ht : t.Pending) (hid : Canonical t.id)
    {chunk : Nat} (hchunk : chunk ≤ maxChunkPayload) :
    ∃ frame, t.nextFrame chunk = some (.ok frame) ∧
      parseChunk frame = some ⟨t.id, UInt64.ofNat t.offset, UInt64.ofNat t.data.length,
        slice t.offset (t.chunkSize chunk) t.data⟩ := by
  obtain ⟨id, hid⟩ := hid
  obtain ⟨hempty, ⟨hnil, hoff⟩ | hlt⟩ := ht
  · obtain ⟨frame, henc, hparse⟩ := parseChunk_encodeChunk id 0 0 [] (Nat.zero_le _)
      (Nat.le_refl _)
    refine ⟨frame, ?_, ?_⟩
    · rw [nextFrame, if_pos ⟨by rw [hnil]; rfl, hempty⟩, ← hid, henc]
    have hslice : slice 0 (t.chunkSize chunk) ([] : Bytes) = [] := by simp [slice]
    rw [hparse, hid, hnil, hoff, hslice]
    rfl
  have hle := t.chunkSize_le chunk
  have hslice : (slice t.offset (t.chunkSize chunk) t.data).length = t.chunkSize chunk := by
    rw [slice, List.length_take, List.length_drop]
    omega
  have hoffset : (UInt64.ofNat t.offset).toNat = t.offset :=
    UInt64.toNat_ofNat_of_lt' (Nat.lt_trans hlt t.size_lt)
  have hlen : (UInt64.ofNat t.data.length).toNat = t.data.length :=
    UInt64.toNat_ofNat_of_lt' t.size_lt
  obtain ⟨frame, henc, hparse⟩ := parseChunk_encodeChunk id (UInt64.ofNat t.offset)
    (UInt64.ofNat t.data.length) (slice t.offset (t.chunkSize chunk) t.data)
    (by rw [hslice]; exact Nat.le_trans (Nat.min_le_left _ _) hchunk)
    (by rw [hslice, hoffset, hlen]; omega)
  refine ⟨frame, ?_, by rw [hparse, hid]⟩
  rw [nextFrame, if_neg (by omega), if_pos hlt, ← hid, henc]

theorem accepted_toBlobData (chunk : Nat) :
    (t.accepted chunk).toBlobData = t.toBlobData := by
  unfold accepted
  split <;> rfl

/-- After an accepted chunk the transfer is finished, or it is pending
further on. -/
theorem accepted_cases {t : BlobTransfer} (ht : t.Pending) (chunk : Nat) :
    ((t.accepted chunk).nextFrame chunk = none ∧
        t.offset + t.chunkSize chunk = t.data.length) ∨
      ((t.accepted chunk).Pending ∧ (t.accepted chunk).offset = t.offset + t.chunkSize chunk ∧
        t.offset + t.chunkSize chunk < t.data.length ∧ t.data ≠ []) := by
  have hle := t.chunkSize_le chunk
  obtain ⟨hempty, ⟨hnil, hoff⟩ | hlt⟩ := ht
  · left
    have hlen : t.data.length = 0 := by rw [hnil]; rfl
    refine ⟨?_, by omega⟩
    rw [accepted, if_pos ⟨hlen, hempty⟩]
    simp [nextFrame, hlen]
  rw [accepted, if_neg (by omega)]
  by_cases hend : t.offset + t.chunkSize chunk = t.data.length
  · left
    refine ⟨?_, hend⟩
    rw [nextFrame, if_neg (by dsimp only; omega), if_neg (by dsimp only; omega)]
  right
  refine ⟨⟨hempty, .inr ?_⟩, rfl, by omega, ?_⟩
  · dsimp only
    omega
  intro hnil
  rw [hnil] at hlt
  exact absurd hlt (Nat.not_lt_zero _)

end BlobTransfer

end Fjarr.Blob
