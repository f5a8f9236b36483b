/-
Fjarr.Desktop.Utf8 — `decode_utf8` and `encode_utf8` of
`agent/src/desktop/keymap.cpp`, which text to type goes through.

The decoder reads a lead byte and as many continuation bytes as it asks for,
and writes U+FFFD for a byte that starts no such sequence. It takes overlong
forms, surrogates and values up to 0x1fffff, so it can give back more than
it was given; but what it gives, the encoder writes in a form that it reads
again (`decodeFrom_encodeUtf8`).
-/
import Fjarr.Lib.Bytes

namespace Fjarr.Desktop

open Lib

/-- How many continuation bytes a lead byte asks for, and its own bits. -/
def lead (b : Nat) : Option (Nat × Nat) :=
  if b < 0x80 then some (0, b)
  else if b >>> 5 = 0x6 then some (1, b &&& 0x1F)
  else if b >>> 4 = 0xE then some (2, b &&& 0x0F)
  else if b >>> 3 = 0x1E then some (3, b &&& 0x07)
  else none

/-- The loop over `n` continuation bytes. -/
def continued (cp : Nat) : Nat → Bytes → Option Nat
  | 0, _ => some cp
  | _ + 1, [] => none
  | n + 1, c :: s =>
    if c.toNat >>> 6 = 0x2 then continued (cp <<< 6 ||| c.toNat &&& 0x3F) n s else none

/-- `decode_utf8`, with `skip` bytes still to pass over. -/
def decodeFrom : Nat → Bytes → List Nat
  | _, [] => []
  | skip + 1, _ :: s => decodeFrom skip s
  | 0, b :: s =>
    match (lead b.toNat).bind fun p => (continued p.2 p.1 s).map (p.1, ·) with
    | some (n, cp) => cp :: decodeFrom n s
    | none => 0xFFFD :: decodeFrom 0 s

def decodeUtf8 (s : Bytes) : List Nat := decodeFrom 0 s

def encodeUtf8 (cp : Nat) : Bytes :=
  if cp < 0x80 then [.ofNat cp]
  else if cp < 0x800 then [.ofNat (0xC0 ||| cp >>> 6), .ofNat (0x80 ||| cp &&& 0x3F)]
  else if cp < 0x10000 then
    [.ofNat (0xE0 ||| cp >>> 12), .ofNat (0x80 ||| cp >>> 6 &&& 0x3F),
      .ofNat (0x80 ||| cp &&& 0x3F)]
  else
    [.ofNat (0xF0 ||| cp >>> 18), .ofNat (0x80 ||| cp >>> 12 &&& 0x3F),
      .ofNat (0x80 ||| cp >>> 6 &&& 0x3F), .ofNat (0x80 ||| cp &&& 0x3F)]

variable {cp n v x : Nat} {s : Bytes}

/-! ## Bits -/

/-- Low bits beside high ones add up. -/
theorem or_eq_add (a : Nat) {i : Nat} (h : x < 2 ^ i) : a <<< i ||| x = a * 2 ^ i + x := by
  rw [← Nat.shiftLeft_add_eq_or_of_lt h, Nat.shiftLeft_eq]

theorem and_low (x i : Nat) : x &&& (2 ^ i - 1) = x % 2 ^ i :=
  Nat.and_two_pow_sub_one_eq_mod x i

theorem continued_cons : continued cp (n + 1) (.ofNat (0x80 ||| x &&& 0x3F) :: s) =
    continued (cp * 64 + x % 64) n s := by
  have hlow : x &&& 0x3F = x % 64 := and_low x 6
  have hbyte : 0x80 ||| x % 64 = 0x80 + x % 64 := or_eq_add 2 (i := 6) (by omega)
  have hnat : (UInt8.ofNat (0x80 + x % 64)).toNat = 0x80 + x % 64 := by
    rw [UInt8.toNat_ofNat', Nat.mod_eq_of_lt (by omega)]
  have htop : (0x80 + x % 64) >>> 6 = 0x2 := by
    rw [Nat.shiftRight_eq_div_pow]
    omega
  have hbits : (0x80 + x % 64) &&& 0x3F = x % 64 := by
    rw [show 0x3F = 2 ^ 6 - 1 from rfl, and_low]
    omega
  have hvalue : cp <<< 6 ||| x % 64 = cp * 64 + x % 64 := or_eq_add cp (i := 6) (by omega)
  rw [hlow, hbyte, continued, hnat, if_pos htop, hbits, hvalue]

theorem continued_lt (h : continued cp n s = some v) : v < (cp + 1) * 64 ^ n := by
  induction n generalizing cp s with
  | zero =>
    rw [continued, Option.some.injEq] at h
    omega
  | succ n ih =>
    cases s with
    | nil => cases h
    | cons c s =>
      rw [continued, Option.ite_none_right_eq_some] at h
      have hlow : c.toNat &&& 0x3F < 64 := by
        rw [show 0x3F = 2 ^ 6 - 1 from rfl, and_low]
        omega
      have hlt := ih h.2
      rw [or_eq_add cp (i := 6) hlow] at hlt
      calc v < (cp * 2 ^ 6 + (c.toNat &&& 0x3F) + 1) * 64 ^ n := hlt
        _ ≤ (cp + 1) * 64 * 64 ^ n := Nat.mul_le_mul_right _ (by omega)
        _ = (cp + 1) * 64 ^ (n + 1) := by ring

/-! ## One sequence -/

/-- A lead byte with its bits, and the bytes it asks for. -/
theorem decodeFrom_lead {b : Nat} {t : Bytes} (hb : b < 256) (hlead : lead b = some (t.length, x))
    (ht : continued x t.length (t ++ s) = some v) :
    decodeFrom 0 (.ofNat b :: (t ++ s)) = v :: decodeFrom 0 s := by
  have hskip : ∀ t : Bytes, decodeFrom t.length (t ++ s) = decodeFrom 0 s := by
    intro t
    induction t with
    | nil => rfl
    | cons c t ih => exact ih
  have hnat : (UInt8.ofNat b).toNat = b := by
    rw [UInt8.toNat_ofNat', Nat.mod_eq_of_lt hb]
  rw [decodeFrom, hnat, hlead, Option.bind_some, ht]
  exact congrArg (v :: ·) (hskip t)

theorem lead_mark : (∀ x < 32, 0xC0 ||| x < 256 ∧ lead (0xC0 ||| x) = some (1, x)) ∧
    (∀ x < 16, 0xE0 ||| x < 256 ∧ lead (0xE0 ||| x) = some (2, x)) ∧
    ∀ x < 8, 0xF0 ||| x < 256 ∧ lead (0xF0 ||| x) = some (3, x) := by
  decide

/-- **One code point** that fits in four bytes is read back, whatever follows. -/
theorem decodeFrom_encodeUtf8 (h : cp < 0x200000) :
    decodeFrom 0 (encodeUtf8 cp ++ s) = cp :: decodeFrom 0 s := by
  have hdiv : ∀ i, cp >>> i = cp / 2 ^ i := Nat.shiftRight_eq_div_pow cp
  obtain ⟨htwo, hthree, hfour⟩ := lead_mark
  unfold encodeUtf8
  split
  · exact decodeFrom_lead (t := []) (by omega) (if_pos ‹_›) rfl
  split
  · obtain ⟨hb, hlead⟩ := htwo (cp >>> 6) (by rw [hdiv]; omega)
    refine decodeFrom_lead (t := [_]) hb hlead ?_
    change continued _ 1 (_ :: s) = _
    rw [continued_cons, continued, hdiv]
    exact congrArg some (by omega)
  split
  · obtain ⟨hb, hlead⟩ := hthree (cp >>> 12) (by rw [hdiv]; omega)
    refine decodeFrom_lead (t := [_, _]) hb hlead ?_
    change continued _ 2 (_ :: _ :: s) = _
    rw [continued_cons, continued_cons, continued, hdiv, hdiv]
    exact congrArg some (by omega)
  · obtain ⟨hb, hlead⟩ := hfour (cp >>> 18) (by rw [hdiv]; omega)
    refine decodeFrom_lead (t := [_, _, _]) hb hlead ?_
    change continued _ 3 (_ :: _ :: _ :: s) = _
    rw [continued_cons, continued_cons, continued_cons, continued, hdiv, hdiv, hdiv]
    exact congrArg some (by omega)

theorem decodeUtf8_encode {cps : List Nat} (h : ∀ cp ∈ cps, cp < 0x200000) :
    decodeUtf8 (cps.flatMap encodeUtf8) = cps := by
  induction cps with
  | nil => rfl
  | cons cp cps ih =>
    rw [decodeUtf8, List.flatMap_cons, decodeFrom_encodeUtf8 (h cp (.head _))]
    exact congrArg (cp :: ·) (ih fun c hc => h c (.tail _ hc))

/-! ## What is decoded -/

/-- No sequence has more than 21 bits. -/
theorem lead_bits : ∀ b < 256, ∀ p ∈ lead b, (p.2 + 1) * 64 ^ p.1 ≤ 0x200000 := by
  decide +kernel

theorem decodeFrom_lt (skip : Nat) (s : Bytes) : ∀ cp ∈ decodeFrom skip s, cp < 0x200000 := by
  fun_induction decodeFrom skip s with
  | case1 => exact fun _ hcp => absurd hcp List.not_mem_nil
  | case2 skip b s ih => exact ih
  | case3 b s n cp hread ih =>
    obtain ⟨p, hp, hcp⟩ := Option.bind_eq_some_iff.mp hread
    obtain ⟨v, hv, heq⟩ := Option.map_eq_some_iff.mp hcp
    cases heq
    exact List.forall_mem_cons.mpr ⟨(continued_lt hv).trans_le (lead_bits _ b.toNat_lt p hp), ih⟩
  | case4 b s hread ih => exact List.forall_mem_cons.mpr ⟨by decide, ih⟩

/-- **Text survives**: code points come back as they were, and what was
decoded from any bytes at all comes back as it was decoded. -/
theorem utf8_survives :
    (∀ cps : List Nat, (∀ cp ∈ cps, cp < 0x110000) → decodeUtf8 (cps.flatMap encodeUtf8) = cps) ∧
      ∀ s : Bytes, decodeUtf8 ((decodeUtf8 s).flatMap encodeUtf8) = decodeUtf8 s := by
  refine ⟨fun cps h => decodeUtf8_encode fun cp hcp => ?_, fun s => ?_⟩
  · exact (h cp hcp).trans (by decide)
  · exact decodeUtf8_encode (decodeFrom_lt 0 s)

theorem utf8_survives_euro :
    decodeUtf8 ([0x41, 0x20AC, 0x10FFFF].flatMap encodeUtf8) = [0x41, 0x20AC, 0x10FFFF] :=
  utf8_survives.1 _ (by decide)

end Fjarr.Desktop
