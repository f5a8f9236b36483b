/-
Fjarr.Blob.Assembler — the receive side (agent/src/core/blob.cpp,
BlobAssembler): chunks in offset order become whole blobs, in a store that
evicts its oldest other blobs while it is over its limit.

`onChunk_accept` is the one spec of `on_chunk` this development uses: a
chunk that starts a blob, or continues it where it stands, is stored
behind what is there, and no other entry is changed but by eviction.
-/
import Fjarr.Blob.Codec

namespace Fjarr.Blob

open Fjarr.Lib

/-- Milliseconds of the steady clock. -/
abbrev Time := Int

structure Entry where
  data : Bytes := []
  len : UInt64
  complete : Bool := false
  first : Time
  last : Time
  deriving DecidableEq, Repr

structure BlobAssembler where
  maxBlob : Nat
  limit : Nat
  entries : Std.ExtTreeMap String Entry compare := ∅
  bytes : Nat := 0
  dropped : Nat := 0

namespace BlobAssembler

def erase (a : BlobAssembler) (id : String) : BlobAssembler :=
  match a.entries[id]? with
  | none => a
  | some e => { a with bytes := a.bytes - e.data.length, entries := a.entries.erase id }

def drop (a : BlobAssembler) : BlobAssembler := { a with dropped := a.dropped + 1 }

/-- The older of two entries, the first when they are of one age; `id` is
passed over. -/
def older (id : String) (oldest : Option (String × Entry)) (j : String × Entry) :
    Option (String × Entry) :=
  if j.1 = id then oldest
  else
    match oldest with
    | none => some j
    | some o => if j.2.first < o.2.first then some j else oldest

/-- The oldest entry but `id`. -/
def oldestOther (id : String) (entries : List (String × Entry)) : Option (String × Entry) :=
  entries.foldl (older id) none

/-- The eviction loop, at most once per entry. -/
def evict (id : String) : Nat → BlobAssembler → BlobAssembler
  | 0, a => a
  | n + 1, a =>
    if a.bytes > a.limit ∧ a.entries.size > 1 then
      match oldestOther id a.entries.toList with
      | none => a
      | some j => evict id n (a.drop.erase j.1)
    else a

/-- The entry a chunk belongs to, made when the chunk starts a blob. -/
def entryFor (a : BlobAssembler) (chunk : BlobChunk) (now : Time) : Option Entry :=
  match a.entries[chunk.blobId]? with
  | some e => some e
  | none =>
    -- a blob that starts mid-way was already discarded, or never seen
    if chunk.offset ≠ 0 then none else some { len := chunk.blobLen, first := now, last := now }

/-- `BlobAssembler::on_chunk`: the id when this chunk completed it. -/
def onChunk (a : BlobAssembler) (chunk : BlobChunk) (now : Time) : BlobAssembler × Option String :=
  if chunk.blobLen.toNat > a.maxBlob then (a.drop, none)
  else
    match a.entryFor chunk now with
    | none => (a.drop, none)
    | some e =>
      if e.complete ∨ chunk.blobLen ≠ e.len ∨ chunk.offset.toNat ≠ e.data.length then
        -- a gap or a changed length: the blob is discarded
        (a.drop.erase chunk.blobId, none)
      else
        let data := e.data ++ chunk.payload
        let e := { e with data, last := now, complete := data.length == e.len.toNat }
        let a := { a with
          entries := a.entries.insert chunk.blobId e
          bytes := a.bytes + chunk.payload.length }
        (evict chunk.blobId a.entries.size a, if e.complete then some chunk.blobId else none)

/-- `BlobAssembler::take`. -/
def take (a : BlobAssembler) (id : String) : BlobAssembler × Option Bytes :=
  match a.entries[id]? with
  | none => (a, none)
  | some e =>
    if !e.complete then (a, none)
    else
      ({ a with bytes := a.bytes - e.data.length, entries := a.entries.erase id }, some e.data)

/-! ## Eviction -/

variable {id : String} {a : BlobAssembler}

theorem foldl_older_ne {entries : List (String × Entry)}
    {oldest : Option (String × Entry)} (ho : ∀ o, oldest = some o → o.1 ≠ id)
    {j : String × Entry} (h : entries.foldl (older id) oldest = some j) : j.1 ≠ id := by
  induction entries generalizing oldest with
  | nil => exact ho j h
  | cons e entries ih =>
    refine ih ?_ h
    intro o heq
    unfold older at heq
    split at heq
    · exact ho o heq
    rename_i hne
    split at heq
    · exact Option.some.inj heq ▸ hne
    split at heq
    · exact Option.some.inj heq ▸ hne
    · exact ho o heq

theorem oldestOther_ne {entries : List (String × Entry)} {j : String × Entry}
    (h : oldestOther id entries = some j) : j.1 ≠ id :=
  foldl_older_ne (by simp) h

@[simp] theorem erase_maxBlob (a : BlobAssembler) (id : String) :
    (a.erase id).maxBlob = a.maxBlob := by
  unfold erase
  split <;> rfl

theorem erase_entries (a : BlobAssembler) (id j : String) :
    (a.erase id).entries[j]? = if id = j then none else a.entries[j]? := by
  unfold erase
  cases h : a.entries[id]? with
  | none =>
    by_cases hj : id = j
    · simp [hj, ← h]
    · simp [hj]
  | some e => simp [Std.ExtTreeMap.getElem?_erase]

@[simp] theorem evict_maxBlob (id : String) (n : Nat) (a : BlobAssembler) :
    (evict id n a).maxBlob = a.maxBlob := by
  induction n generalizing a with
  | zero => rfl
  | succ n ih =>
    rw [evict]
    split
    · split
      · rfl
      · rw [ih, erase_maxBlob]
        rfl
    · rfl

theorem evict_self (id : String) (n : Nat) (a : BlobAssembler) :
    (evict id n a).entries[id]? = a.entries[id]? := by
  induction n generalizing a with
  | zero => rfl
  | succ n ih =>
    rw [evict]
    split
    · split
      · rfl
      rename_i j hj
      rw [ih, erase_entries, if_neg (oldestOther_ne hj)]
      rfl
    · rfl

theorem evict_entries {n : Nat} {j : String}
    (h : a.entries[j]? = none) : (evict id n a).entries[j]? = none := by
  induction n generalizing a with
  | zero => exact h
  | succ n ih =>
    rw [evict]
    split
    · split
      · exact h
      refine ih ?_
      rw [erase_entries]
      split
      · rfl
      · exact h
    · exact h

/-! ## Storing and taking -/

/-- The bytes stored for an id. -/
def stored (a : BlobAssembler) (id : String) : Bytes :=
  match a.entries[id]? with
  | none => []
  | some e => e.data

/-- The assembler is ready for a chunk: the blob is new and the chunk
starts it, or it stands exactly at the chunk's offset. -/
def Expects (a : BlobAssembler) (chunk : BlobChunk) : Prop :=
  chunk.offset.toNat = (a.stored chunk.blobId).length ∧
    ∀ e, a.entries[chunk.blobId]? = some e → e.complete = false ∧ e.len = chunk.blobLen

/-- **An expected chunk is stored** behind what is there; it completes the
blob exactly when nothing is missing. -/
theorem onChunk_accept {chunk : BlobChunk} (now : Time)
    (hmax : chunk.blobLen.toNat ≤ a.maxBlob) (h : a.Expects chunk) :
    ∃ e, (a.onChunk chunk now).1.entries[chunk.blobId]? = some e ∧
      e.data = a.stored chunk.blobId ++ chunk.payload ∧ e.len = chunk.blobLen ∧
      e.complete = (e.data.length == chunk.blobLen.toNat) ∧
      (a.onChunk chunk now).2 = (if e.complete then some chunk.blobId else none) ∧
      (a.onChunk chunk now).1.maxBlob = a.maxBlob ∧
      ∀ j, j ≠ chunk.blobId → a.entries[j]? = none →
        (a.onChunk chunk now).1.entries[j]? = none := by
  obtain ⟨hoff, hentry⟩ := h
  obtain ⟨e, hfor, hdata, hlen, hopen⟩ : ∃ e, a.entryFor chunk now = some e ∧
      e.data = a.stored chunk.blobId ∧ e.len = chunk.blobLen ∧ e.complete = false := by
    unfold entryFor stored
    cases he : a.entries[chunk.blobId]? with
    | some e =>
      obtain ⟨hc, hl⟩ := hentry e he
      exact ⟨e, rfl, rfl, hl, hc⟩
    | none =>
      have hzero : chunk.offset = 0 := by
        rw [stored, he] at hoff
        exact UInt64.toNat_inj.mp hoff
      refine ⟨_, by simp [hzero]; rfl, rfl, rfl, rfl⟩
  have hgood : ¬ (e.complete = true ∨ chunk.blobLen ≠ e.len ∨
      chunk.offset.toNat ≠ e.data.length) := by
    rw [hopen, hlen, hdata, hoff]
    simp
  unfold onChunk
  rw [if_neg (by omega), hfor]
  dsimp only
  rw [if_neg hgood]
  refine ⟨{ e with
    data := e.data ++ chunk.payload
    last := now
    complete := (e.data ++ chunk.payload).length == e.len.toNat }, ?_, ?_, hlen, ?_, rfl, ?_, ?_⟩
  · rw [evict_self, Std.ExtTreeMap.getElem?_insert_self]
  · rw [hdata]
  · rw [hlen]
  · rw [evict_maxBlob]
  intro j hj hnone
  refine evict_entries ?_
  rw [Std.ExtTreeMap.getElem?_insert, if_neg, hnone]
  simpa using Ne.symm hj

theorem take_complete {e : Entry}
    (he : a.entries[id]? = some e) (hc : e.complete = true) :
    (a.take id).2 = some e.data ∧ (a.take id).1.maxBlob = a.maxBlob ∧
      ∀ j, (a.take id).1.entries[j]? = if id = j then none else a.entries[j]? := by
  unfold take
  rw [he]
  simp [hc, Std.ExtTreeMap.getElem?_erase]

end BlobAssembler

end Fjarr.Blob
