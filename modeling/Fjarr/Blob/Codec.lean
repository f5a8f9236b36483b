/-
Fjarr.Blob.Codec — the blob frame (agent/src/core/blob.cpp): UUIDs as text
and as header bytes, `encode_chunk` and `parse_chunk`.

    version(1)  id(16)  offset(8)  blob_len(8)  payload_len(4)  payload

Offsets and lengths are 64-bit machine integers: `encode_chunk` adds them
with wrap-around, `parse_chunk` subtracts after a comparison. An id is
text; the frame carries its sixteen bytes, and parsing spells them in
lowercase. `parseChunk_encodeChunk` is the round trip for an id in that
canonical spelling; `codec_exact` goes both ways, for anything accepted. A
chunk whose end wraps around is encoded and cannot be parsed
(`wrapped_end`).
-/
import Fjarr.Lib.Bytes

namespace Fjarr.Blob

open Fjarr.Lib List
open Fjarr.Lib.Bytes

/-- `FjarrError`: a protocol error code and a message. -/
structure FjarrError where
  code : String
  message : String
  deriving DecidableEq, Repr

def version : UInt8 := 1

/-- version(1) id(16) offset(8) len(8) payload_len(4) -/
def headerBytes : Nat := 37

def maxChunkPayload : Nat := 256 * 1024

/-! ## UUIDs -/

/-- The sixteen bytes of a UUID. -/
structure Uuid where
  bytes : Bytes
  size : bytes.length = 16

def hexValue (c : Char) : Option Nat :=
  if '0' ≤ c ∧ c ≤ '9' then some (c.toNat - '0'.toNat)
  else if 'a' ≤ c ∧ c ≤ 'f' then some (c.toNat - 'a'.toNat + 10)
  else if 'A' ≤ c ∧ c ≤ 'F' then some (c.toNat - 'A'.toNat + 10)
  else none

/-- The positions of the dashes in 8-4-4-4-12. -/
def dashAt (i : Nat) : Bool := i == 8 || i == 13 || i == 18 || i == 23

/-- The loop of `uuid_bytes` at position `i` with the bytes read so far. -/
def uuidBytesLoop : Nat → List Char → Bytes → Option Bytes
  | _, [], out => some out
  | i, c :: rest, out =>
    if dashAt i then
      if c ≠ '-' then none else uuidBytesLoop (i + 1) rest out
    else
      match rest with
      | [] => none
      | c' :: rest =>
        match hexValue c, hexValue c' with
        | some hi, some lo =>
          if out.length ≥ 16 then none
          else uuidBytesLoop (i + 2) rest (out ++ [UInt8.ofNat (hi * 16 + lo)])
        | _, _ => none

/-- `uuid_bytes`. -/
def uuidBytes (text : String) : Option Uuid :=
  if text.length ≠ 36 then none
  else
    match uuidBytesLoop 0 text.toList [] with
    | none => none
    | some out => if h : out.length = 16 then some ⟨out, h⟩ else none

/-- `"0123456789abcdef"[n]` -/
def hexDigit (n : Nat) : Char :=
  if n < 10 then Char.ofNat ('0'.toNat + n) else Char.ofNat ('a'.toNat + (n - 10))

/-- The bytes before which `uuid_text` puts a dash. -/
def dashBefore (k : Nat) : Bool := k == 4 || k == 6 || k == 8 || k == 10

/-- The loop of `uuid_text` from byte `k` on. -/
def uuidTextLoop : Nat → Bytes → List Char
  | _, [] => []
  | k, b :: rest =>
    (if dashBefore k then ['-'] else []) ++
      hexDigit (b.toNat / 16) :: hexDigit (b.toNat % 16) :: uuidTextLoop (k + 1) rest

/-- `uuid_text`. -/
def uuidText (id : Uuid) : String := String.ofList (uuidTextLoop 0 id.bytes)

/-- A UUID in its canonical lowercase spelling. -/
def Canonical (text : String) : Prop := ∃ id, uuidText id = text

/-! ## Frames -/

/-- One chunk of a blob. -/
structure BlobChunk where
  blobId : String
  offset : UInt64
  blobLen : UInt64
  payload : Bytes
  deriving DecidableEq, Repr

/-- `encode_chunk`. -/
def encodeChunk (blobId : String) (offset blobLen : UInt64) (payload : Bytes) :
    Except FjarrError Bytes :=
  match uuidBytes blobId with
  | none => .error ⟨"payload-invalid", "blob id is not a uuid: " ++ blobId⟩
  | some id =>
    if payload.length > maxChunkPayload then
      .error ⟨"payload-invalid", "blob chunk above 256 KiB (docs/08)"⟩
    else if offset + UInt64.ofNat payload.length > blobLen then
      .error ⟨"payload-invalid", "blob chunk overruns blob_len"⟩
    else
      .ok ([version] ++ (id.bytes ++ (toBE 8 offset.toNat ++ (toBE 8 blobLen.toNat ++
        (toBE 4 payload.length ++ payload)))))

/-- The id field of a frame that has a whole header. -/
def frameId (frame : Bytes) : Option Uuid :=
  if h : (slice 1 16 frame).length = 16 then some ⟨slice 1 16 frame, h⟩ else none

/-- `parse_chunk`. -/
def parseChunk (frame : Bytes) : Option BlobChunk :=
  if frame.length < headerBytes then none
  else if frame.head? ≠ some version then none
  else
    match frameId frame with
    | none => none
    | some id =>
      let offset := UInt64.ofNat (fromBE (slice 17 8 frame))
      let blobLen := UInt64.ofNat (fromBE (slice 25 8 frame))
      let payloadLen := fromBE (slice 33 4 frame)
      if payloadLen ≠ frame.length - headerBytes then none
      else if payloadLen > maxChunkPayload then none
      else if offset > blobLen ∨ UInt64.ofNat payloadLen > blobLen - offset then none
      else some ⟨uuidText id, offset, blobLen, frame.drop headerBytes⟩

/-! ## Round trips -/

theorem hexValue_hexDigit : ∀ n < 16, hexValue (hexDigit n) = some n := by
  decide

/-- The position in the text where byte `k` begins, its dash included. -/
def textPosition (k : Nat) : Nat :=
  2 * k + (if 4 < k then 1 else 0) + (if 6 < k then 1 else 0) + (if 8 < k then 1 else 0) +
    (if 10 < k then 1 else 0)

theorem dashAt_textPosition : ∀ k < 16, dashAt (textPosition k) = dashBefore k ∧
    dashAt (textPosition k + (if dashBefore k then 1 else 0)) = false ∧
    textPosition (k + 1) = textPosition k + (if dashBefore k then 1 else 0) + 2 := by
  decide

theorem uuidBytesLoop_textLoop {k : Nat} {bytes out : Bytes} (hout : out.length = k)
    (hsize : k + bytes.length = 16) :
    uuidBytesLoop (textPosition k) (uuidTextLoop k bytes) out = some (out ++ bytes) := by
  induction bytes generalizing k out with
  | nil => simp [uuidTextLoop, uuidBytesLoop]
  | cons b rest ih =>
    rw [length_cons] at hsize
    obtain ⟨hdash, hpair, hnext⟩ := dashAt_textPosition k (by omega)
    have hb : b.toNat < 256 := b.toNat_lt
    have hbyte : UInt8.ofNat (b.toNat / 16 * 16 + b.toNat % 16) = b := by
      rw [show b.toNat / 16 * 16 + b.toNat % 16 = b.toNat by omega]
      exact UInt8.ofNat_toNat
    have hrest : uuidBytesLoop (textPosition (k + 1)) (uuidTextLoop (k + 1) rest) (out ++ [b]) =
        some (out ++ [b] ++ rest) :=
      ih (by rw [length_append, hout, length_singleton]) (by omega)
    -- the two digits, once the dash is behind
    have hdigits : ∀ i, dashAt i = false → i + 2 = textPosition (k + 1) →
        uuidBytesLoop i (hexDigit (b.toNat / 16) :: hexDigit (b.toNat % 16) ::
          uuidTextLoop (k + 1) rest) out = some (out ++ b :: rest) := by
      intro i hi hi2
      rw [uuidBytesLoop, hi, if_neg (by simp)]
      rw [hexValue_hexDigit _ (by omega), hexValue_hexDigit _ (by omega)]
      dsimp only
      rw [if_neg (by omega), hi2, hbyte, hrest, append_assoc]
      rfl
    rw [uuidTextLoop]
    cases hd : dashBefore k with
    | false =>
      rw [hd] at hdash hnext
      simp only [Bool.false_eq_true, if_false, nil_append]
      exact hdigits _ hdash hnext.symm
    | true =>
      rw [hd] at hdash hpair hnext
      simp only [if_true, singleton_append]
      rw [uuidBytesLoop, hdash, if_pos rfl, if_neg (by simp)]
      exact hdigits _ hpair hnext.symm

theorem length_uuidTextLoop {k : Nat} {bytes : Bytes} (hsize : k + bytes.length = 16) :
    (uuidTextLoop k bytes).length + textPosition k = 36 := by
  induction bytes generalizing k with
  | nil =>
    obtain rfl : k = 16 := by simpa using hsize
    decide
  | cons b rest ih =>
    rw [length_cons] at hsize
    have hrest : (uuidTextLoop (k + 1) rest).length + textPosition (k + 1) = 36 := ih (by omega)
    have hnext := (dashAt_textPosition k (by omega)).2.2
    rw [uuidTextLoop]
    cases hd : dashBefore k <;> simp [hd] at hnext ⊢ <;> omega

theorem uuidBytes_uuidText (id : Uuid) : uuidBytes (uuidText id) = some id := by
  have hlen : (uuidText id).length = 36 := by
    have h : (uuidTextLoop 0 id.bytes).length + textPosition 0 = 36 :=
      length_uuidTextLoop (by rw [id.size])
    rw [uuidText, String.length_ofList]
    simpa [textPosition] using h
  have hloop : uuidBytesLoop 0 (uuidText id).toList [] = some id.bytes := by
    rw [uuidText, String.toList_ofList]
    have h : uuidBytesLoop (textPosition 0) (uuidTextLoop 0 id.bytes) [] =
        some ([] ++ id.bytes) := uuidBytesLoop_textLoop rfl (by rw [id.size])
    exact h
  rw [uuidBytes, if_neg (by omega), hloop]
  simp [id.size]

theorem hexDigit_hexValue {c : Char} {n : Nat} (h : hexValue c = some n) :
    n < 16 ∧ hexDigit n = c.toLower := by
  have hascii : ∀ k < 128, ∀ n, hexValue (Char.ofNat k) = some n →
      n < 16 ∧ hexDigit n = (Char.ofNat k).toLower := by decide
  have hlt : c.toNat < 128 := by
    unfold hexValue at h
    simp only [Char.le_def, UInt32.le_iff_toNat_le] at h
    change c.val.toNat < 128
    split_ifs at h with h1 h2 h3
    · exact h1.2.trans_lt (by decide)
    · exact h2.2.trans_lt (by decide)
    · exact h3.2.trans_lt (by decide)
  rw [← Char.ofNat_toNat c] at h ⊢
  exact hascii c.toNat hlt n h

theorem uuidBytesLoop_digits {i : Nat} {text : List Char} {out res : Bytes} (hi : dashAt i = false)
    (hne : text ≠ []) (h : uuidBytesLoop i text out = some res) :
    ∃ c c' rest b, text = c :: c' :: rest ∧ hexDigit (b.toNat / 16) = c.toLower ∧
      hexDigit (b.toNat % 16) = c'.toLower ∧ uuidBytesLoop (i + 2) rest (out ++ [b]) = some res := by
  match text with
  | [] => exact absurd rfl hne
  | [_] => simp [uuidBytesLoop, hi] at h
  | c :: c' :: rest =>
    rw [uuidBytesLoop, hi, if_neg (by simp)] at h
    cases hhi : hexValue c with
    | none => simp [hhi] at h
    | some hi =>
    cases hlo : hexValue c' with
    | none => simp [hhi, hlo] at h
    | some lo =>
      rw [hhi, hlo] at h
      obtain ⟨h1, h1'⟩ := hexDigit_hexValue hhi
      obtain ⟨h2, h2'⟩ := hexDigit_hexValue hlo
      have hb : (UInt8.ofNat (hi * 16 + lo)).toNat = hi * 16 + lo :=
        UInt8.toNat_ofNat_of_lt' (by simp [UInt8.size]; omega)
      refine ⟨c, c', rest, _, rfl, ?_, ?_, (Option.ite_none_left_eq_some.mp h).2⟩
      · rw [hb, show (hi * 16 + lo) / 16 = hi by omega, h1']
      · rw [hb, show (hi * 16 + lo) % 16 = lo by omega, h2']

/-- Spelling what was read of the rest of a text gives it in lowercase. -/
theorem uuidTextLoop_bytesLoop {n k : Nat} {text : List Char} {out res : Bytes}
    (hout : out.length = k) (hk : k + n = 16) (hlen : text.length + textPosition k = 36)
    (h : uuidBytesLoop (textPosition k) text out = some res) :
    ∃ bytes, res = out ++ bytes ∧ uuidTextLoop k bytes = text.map Char.toLower := by
  induction n generalizing k text out with
  | zero =>
    obtain rfl : k = 16 := hk
    obtain rfl := eq_nil_of_length_eq_zero (Nat.add_right_cancel (m := 36) hlen)
    exact ⟨[], by simpa [uuidBytesLoop] using h.symm, rfl⟩
  | succ n ih =>
    obtain ⟨hdash, hpair, hnext⟩ := dashAt_textPosition k (by omega)
    have hle : ∀ k < 16, textPosition (k + 1) ≤ 36 := by decide
    have hfits := hle k (by omega)
    -- the two digits, once the dash is behind
    have hdigits : ∀ i text, dashAt i = false → i + 2 = textPosition (k + 1) →
        text.length + i = 36 → uuidBytesLoop i text out = some res →
        ∃ b bytes, res = out ++ b :: bytes ∧
          hexDigit (b.toNat / 16) :: hexDigit (b.toNat % 16) :: uuidTextLoop (k + 1) bytes =
            text.map Char.toLower := by
      intro i text hi hi2 htext h
      have hne : text ≠ [] := by
        rintro rfl
        rw [length_nil] at htext
        omega
      obtain ⟨c, c', rest, b, rfl, h1, h2, h⟩ := uuidBytesLoop_digits hi hne h
      rw [hi2] at h
      obtain ⟨bytes, hres, hbytes⟩ := ih (by simp [hout]) (by omega)
        (by simp only [length_cons] at htext; omega) h
      refine ⟨b, bytes, by simpa using hres, ?_⟩
      rw [h1, h2, hbytes]
      rfl
    cases hd : dashBefore k with
    | false =>
      rw [hd] at hdash hnext
      obtain ⟨b, bytes, hres, hbytes⟩ := hdigits _ text hdash hnext.symm hlen h
      exact ⟨b :: bytes, hres, by simpa [uuidTextLoop, hd] using hbytes⟩
    | true =>
      rw [hd] at hdash hpair hnext
      cases text with
      | nil =>
        rw [length_nil] at hlen
        omega
      | cons c text =>
        rw [uuidBytesLoop.eq_def] at h
        simp only [hdash, if_true] at h
        obtain ⟨hc, h⟩ := Option.ite_none_left_eq_some.mp h
        obtain ⟨b, bytes, hres, hbytes⟩ := hdigits _ text hpair hnext.symm
          (by simp only [length_cons] at hlen; simp; omega) h
        refine ⟨b :: bytes, hres, ?_⟩
        rw [not_not.mp hc]
        simpa [uuidTextLoop, hd] using hbytes

theorem uuidText_of_uuidBytes {text : String} {id : Uuid} (h : uuidBytes text = some id) :
    uuidText id = text.toLower := by
  unfold uuidBytes at h
  split at h
  · cases h
  rename_i hlen
  rw [not_not, ← String.length_toList] at hlen
  split at h
  · cases h
  rename_i out hloop
  split at h
  · cases h
    obtain ⟨bytes, rfl, htext⟩ :=
      uuidTextLoop_bytesLoop (n := 16) (k := 0) length_nil rfl hlen hloop
    rw [uuidText, htext, String.toLower, String.map_eq_internal]
  · cases h

/-- The frames that are accepted: the header is there, says version 1 and
how many bytes follow, and they lie in the blob. -/
def Accepted (frame : Bytes) : Prop :=
  frame.head? = some version ∧ headerBytes + fromBE (slice 33 4 frame) = frame.length ∧
    fromBE (slice 33 4 frame) ≤ maxChunkPayload ∧
      fromBE (slice 17 8 frame) + fromBE (slice 33 4 frame) ≤ fromBE (slice 25 8 frame)

theorem field_lt (i : Nat) (frame : Bytes) : fromBE (slice i 8 frame) < 2 ^ 64 :=
  fromBE_lt (w := 8) (length_take_le ..)

theorem toNat_field (i : Nat) (frame : Bytes) :
    (UInt64.ofNat (fromBE (slice i 8 frame))).toNat = fromBE (slice i 8 frame) :=
  UInt64.toNat_ofNat_of_lt' (field_lt i frame)

/-- The chunk in an accepted frame. -/
theorem parseChunk_eq_some_iff {frame : Bytes} {c : BlobChunk} :
    parseChunk frame = some c ↔ Accepted frame ∧ ∃ id : Uuid, id.bytes = slice 1 16 frame ∧
      c = ⟨uuidText id, UInt64.ofNat (fromBE (slice 17 8 frame)),
        UInt64.ofNat (fromBE (slice 25 8 frame)), frame.drop headerBytes⟩ := by
  by_cases hlen : frame.length < headerBytes
  · rw [parseChunk, if_pos hlen]
    refine ⟨nofun, fun ⟨⟨_, hp, _⟩, _⟩ => ?_⟩
    omega
  have hsize : (slice 1 16 frame).length = 16 := by
    rw [headerBytes] at hlen
    exact length_slice (by omega)
  have hpl : fromBE (slice 33 4 frame) < 256 ^ 4 := fromBE_lt (length_take_le ..)
  have hbl := field_lt 25 frame
  have hover :
      (UInt64.ofNat (fromBE (slice 17 8 frame)) > UInt64.ofNat (fromBE (slice 25 8 frame)) ∨
      UInt64.ofNat (fromBE (slice 33 4 frame)) > UInt64.ofNat (fromBE (slice 25 8 frame)) -
        UInt64.ofNat (fromBE (slice 17 8 frame))) ↔
      fromBE (slice 25 8 frame) < fromBE (slice 17 8 frame) + fromBE (slice 33 4 frame) := by
    rw [gt_iff_lt, gt_iff_lt, UInt64.lt_iff_toNat_lt, UInt64.lt_iff_toNat_lt, UInt64.toNat_sub,
      toNat_field, toNat_field, UInt64.toNat_ofNat_of_lt' (hpl.trans (by decide))]
    omega
  rw [parseChunk, if_neg hlen, frameId, dif_pos hsize]
  simp only [hover]
  constructor
  · intro h
    split_ifs at h with hv hp hmax hsum
    exact ⟨⟨not_not.mp hv, by omega, by omega, by omega⟩, _, rfl, (Option.some.inj h).symm⟩
  · rintro ⟨⟨hv, hp, hmax, hsum⟩, ⟨bytes, _⟩, rfl, rfl⟩
    rw [if_neg (not_not.mpr hv), if_neg (by omega), if_neg (by omega), if_neg (by omega)]

/-- The header fields of a frame, read back where they were put. -/
theorem parseChunk_frame (id : Uuid) (offset blobLen : UInt64) {payload : Bytes}
    (hpay : payload.length ≤ maxChunkPayload)
    (hfit : offset.toNat + payload.length ≤ blobLen.toNat) :
    parseChunk ([version] ++ (id.bytes ++ (toBE 8 offset.toNat ++ (toBE 8 blobLen.toNat ++
      (toBE 4 payload.length ++ payload))))) =
      some ⟨uuidText id, offset, blobLen, payload⟩ := by
  generalize hf : [version] ++ (id.bytes ++ (toBE 8 offset.toNat ++ (toBE 8 blobLen.toNat ++
    (toBE 4 payload.length ++ payload)))) = frame
  have hlen : frame.length = headerBytes + payload.length := by
    rw [← hf]
    simp only [length_append, length_singleton, id.size, length_toBE, headerBytes]
    omega
  have hid : slice 1 16 frame = id.bytes := by
    rw [← hf]
    exact slice_at [version] id.bytes _ rfl id.size
  have hoff : slice 17 8 frame = toBE 8 offset.toNat := by
    rw [← hf, ← append_assoc]
    refine slice_at _ _ _ ?_ (length_toBE _ _)
    rw [length_append, id.size, length_singleton]
  have hbl : slice 25 8 frame = toBE 8 blobLen.toNat := by
    rw [← hf, ← append_assoc, ← append_assoc]
    refine slice_at _ _ _ ?_ (length_toBE _ _)
    simp only [length_append, id.size, length_singleton, length_toBE]
  have hpl : slice 33 4 frame = toBE 4 payload.length := by
    rw [← hf, ← append_assoc, ← append_assoc, ← append_assoc]
    refine slice_at _ _ _ ?_ (length_toBE _ _)
    simp only [length_append, id.size, length_singleton, length_toBE]
  have hdrop : frame.drop headerBytes = payload := by
    rw [← hf, ← append_assoc, ← append_assoc, ← append_assoc, ← append_assoc]
    refine drop_left' ?_
    simp only [length_append, id.size, length_singleton, length_toBE, headerBytes]
  have hhead : frame.head? = some version := by
    rw [← hf]
    rfl
  have hofs : fromBE (slice 17 8 frame) = offset.toNat := by
    rw [hoff, fromBE_toBE_of_lt (show offset.toNat < 256 ^ 8 from offset.toNat_lt)]
  have hbls : fromBE (slice 25 8 frame) = blobLen.toNat := by
    rw [hbl, fromBE_toBE_of_lt (show blobLen.toNat < 256 ^ 8 from blobLen.toNat_lt)]
  have hple : fromBE (slice 33 4 frame) = payload.length := by
    rw [maxChunkPayload] at hpay
    rw [hpl, fromBE_toBE_of_lt (by omega)]
  refine parseChunk_eq_some_iff.mpr ⟨⟨hhead, by omega, by omega, by omega⟩, id, hid.symm, ?_⟩
  rw [hofs, hbls, hdrop, UInt64.ofNat_toNat, UInt64.ofNat_toNat]

/-- What encodes, and to which frame: the end of the chunk wraps around. -/
theorem encodeChunk_eq_ok_iff {blobId : String} {offset blobLen : UInt64} {payload frame : Bytes} :
    encodeChunk blobId offset blobLen payload = .ok frame ↔
      ∃ id, uuidBytes blobId = some id ∧ payload.length ≤ maxChunkPayload ∧
        (offset.toNat + payload.length) % 2 ^ 64 ≤ blobLen.toNat ∧
        [version] ++ (id.bytes ++ (toBE 8 offset.toNat ++ (toBE 8 blobLen.toNat ++
          (toBE 4 payload.length ++ payload)))) = frame := by
  unfold encodeChunk
  cases uuidBytes blobId with
  | none => simp
  | some id =>
    by_cases hmax : payload.length > maxChunkPayload
    · simp [hmax]
    have hover : offset + UInt64.ofNat payload.length > blobLen ↔
        blobLen.toNat < (offset.toNat + payload.length) % 2 ^ 64 := by
      rw [maxChunkPayload] at hmax
      rw [gt_iff_lt, UInt64.lt_iff_toNat_lt, UInt64.toNat_add,
        UInt64.toNat_ofNat_of_lt' (show payload.length < UInt64.size by rw [UInt64.size]; omega)]
    simp only [hmax, hover, if_false]
    split_ifs with hsum
    · exact ⟨nofun, fun ⟨_, _, _, h, _⟩ => absurd hsum h.not_gt⟩
    · simpa [Nat.le_of_not_lt hmax] using fun _ => Nat.le_of_not_lt hsum

/-- **Round trip.** A chunk that fits its blob encodes, and the frame parses
to that chunk. -/
theorem parseChunk_encodeChunk (id : Uuid) (offset blobLen : UInt64) (payload : Bytes)
    (hpay : payload.length ≤ maxChunkPayload)
    (hfit : offset.toNat + payload.length ≤ blobLen.toNat) :
    ∃ frame, encodeChunk (uuidText id) offset blobLen payload = .ok frame ∧
      parseChunk frame = some ⟨uuidText id, offset, blobLen, payload⟩ := by
  refine ⟨_, ?_, parseChunk_frame id offset blobLen hpay hfit⟩
  have hlt := blobLen.toNat_lt
  exact encodeChunk_eq_ok_iff.mpr ⟨id, uuidBytes_uuidText id, hpay, by omega, rfl⟩

/-- An accepted frame is the one its chunk encodes to. -/
theorem encodeChunk_parseChunk {frame : Bytes} {c : BlobChunk} (h : parseChunk frame = some c) :
    encodeChunk c.blobId c.offset c.blobLen c.payload = .ok frame := by
  obtain ⟨⟨hv, hp, hmax, hsum⟩, id, hid, rfl⟩ := parseChunk_eq_some_iff.mp h
  have hpayload : (frame.drop headerBytes).length = fromBE (slice 33 4 frame) := by
    rw [length_drop]
    omega
  have hfield : ∀ i n, i + n ≤ 37 → toBE n (fromBE (slice i n frame)) = slice i n frame := by
    intro i n hn
    have hlen : (slice i n frame).length = n := by
      rw [headerBytes] at hp
      exact length_slice (by omega)
    conv_rhs => rw [← toBE_fromBE (slice i n frame), hlen]
  have hframe : [version] ++ (slice 1 16 frame ++ (slice 17 8 frame ++ (slice 25 8 frame ++
      (slice 33 4 frame ++ frame.drop headerBytes)))) = frame := by
    rw [headerBytes, slice_append_drop 33, slice_append_drop 25, slice_append_drop 17,
      slice_append_drop 1]
    cases frame with
    | nil => cases hv
    | cons b rest => exact congrArg (· :: rest) (Option.some.inj hv).symm
  have hbl := field_lt 25 frame
  refine encodeChunk_eq_ok_iff.mpr ⟨id, uuidBytes_uuidText id, ?_, ?_, ?_⟩
  · rw [hpayload]
    exact hmax
  · simp only [toNat_field, hpayload]
    omega
  · simp only [toNat_field, hpayload, hid, hfield 17 8 (by decide), hfield 25 8 (by decide),
      hfield 33 4 (by decide), hframe]

/-- **The codec.** What is encoded parses to what it was made of, with the id
in lowercase, exactly if the chunk's end is below 2^64; what is accepted
encodes to itself; and what is accepted. -/
theorem codec_exact (blobId : String) (offset blobLen : UInt64) (payload frame : Bytes) :
    (encodeChunk blobId offset blobLen payload = .ok frame →
      (parseChunk frame = some ⟨blobId.toLower, offset, blobLen, payload⟩ ↔
        offset.toNat + payload.length < 2 ^ 64)) ∧
    (∀ c, parseChunk frame = some c →
      encodeChunk c.blobId c.offset c.blobLen c.payload = .ok frame) ∧
    ((parseChunk frame).isSome ↔ Accepted frame) := by
  refine ⟨fun henc => ⟨fun hparse => ?_, fun hend => ?_⟩, fun c => encodeChunk_parseChunk, ?_⟩
  · obtain ⟨⟨-, hp, -, hsum⟩, id, -, hc⟩ := parseChunk_eq_some_iff.mp hparse
    obtain ⟨-, rfl, -, rfl⟩ := BlobChunk.mk.inj hc
    have hbl := field_lt 25 frame
    rw [toNat_field, length_drop]
    omega
  · obtain ⟨id, hid, hmax, hsum, rfl⟩ := encodeChunk_eq_ok_iff.mp henc
    rw [← uuidText_of_uuidBytes hid]
    rw [Nat.mod_eq_of_lt hend] at hsum
    exact parseChunk_frame id offset blobLen hmax hsum
  · rw [Option.isSome_iff_exists]
    refine ⟨fun ⟨c, hc⟩ => (parseChunk_eq_some_iff.mp hc).1, fun h => ?_⟩
    have hsize : (slice 1 16 frame).length = 16 := by
      have hp := h.2.1
      rw [headerBytes] at hp
      exact length_slice (by omega)
    exact ⟨_, parseChunk_eq_some_iff.mpr ⟨h, ⟨_, hsize⟩, rfl, rfl⟩⟩

/-- Two bytes at the offset 2^64 - 1 end at 1, which is in a blob of five:
the chunk is encoded, and no receiver accepts it. -/
theorem wrapped_end :
    (encodeChunk "00000000-0000-0000-0000-000000000000" (2 ^ 64 - 1) 5 [0, 0]).toOption.map
      parseChunk = some none := by
  decide +kernel

end Fjarr.Blob
