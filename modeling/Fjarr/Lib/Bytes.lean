/-
Fjarr.Lib.Bytes — byte strings: big-endian integers and fields at fixed
positions.

An integer of `w` bytes is written most significant byte first (`toBE`)
and read back by shifting (`fromBE`). A field is read with `slice`, which
`slice_at` finds behind any framing of the right length.
-/
import Mathlib

namespace Fjarr.Lib

abbrev Bytes := List UInt8

namespace Bytes

/-! ## Big-endian integers -/

/-- The low `w` bytes of `n`, most significant first. -/
def toBE : Nat → Nat → Bytes
  | 0, _ => []
  | w + 1, n => toBE w (n / 256) ++ [UInt8.ofNat n]

/-- The integer a byte string spells. -/
def fromBE (bytes : Bytes) : Nat :=
  bytes.foldl (fun v b => v * 256 + b.toNat) 0

@[simp] theorem length_toBE (w n : Nat) : (toBE w n).length = w := by
  induction w generalizing n with
  | zero => rfl
  | succ w ih => rw [toBE, List.length_append, ih, List.length_singleton]

theorem fromBE_concat (bytes : Bytes) (b : UInt8) :
    fromBE (bytes ++ [b]) = fromBE bytes * 256 + b.toNat := by
  simp [fromBE]

theorem fromBE_toBE (w n : Nat) : fromBE (toBE w n) = n % 256 ^ w := by
  induction w generalizing n with
  | zero => simp [toBE, fromBE, Nat.mod_one]
  | succ w ih =>
    have hmod : n % 256 ^ (w + 1) = n / 256 % 256 ^ w * 256 + n % 256 := by
      rw [Nat.pow_succ', Nat.mod_mul]
      ring
    rw [toBE, fromBE_concat, ih, hmod]
    simp

theorem fromBE_toBE_of_lt {w n : Nat} (h : n < 256 ^ w) : fromBE (toBE w n) = n := by
  rw [fromBE_toBE, Nat.mod_eq_of_lt h]

/-- A byte string is what is written for the integer it spells. -/
theorem toBE_fromBE (bytes : Bytes) : toBE bytes.length (fromBE bytes) = bytes := by
  induction bytes using List.reverseRecOn with
  | nil => rfl
  | append_singleton bytes b ih =>
    have hb := b.toNat_lt
    rw [List.length_append, List.length_singleton, toBE, fromBE_concat,
      show (fromBE bytes * 256 + b.toNat) / 256 = fromBE bytes by omega, ih]
    simp

theorem fromBE_lt {bytes : Bytes} {w : Nat} (h : bytes.length ≤ w) : fromBE bytes < 256 ^ w := by
  have hmod := fromBE_toBE bytes.length (fromBE bytes)
  rw [toBE_fromBE] at hmod
  rw [hmod]
  exact (Nat.mod_lt _ (by positivity)).trans_le (Nat.pow_le_pow_right (by decide) h)

/-! ## Fields -/

/-- The `n` bytes from position `i` on. -/
def slice (i n : Nat) (bytes : Bytes) : Bytes := (bytes.drop i).take n

/-- A field stands where the framing before it ends. -/
theorem slice_at (before field after : Bytes) {i n : Nat} (hi : before.length = i)
    (hn : field.length = n) : slice i n (before ++ (field ++ after)) = field := by
  rw [slice, List.drop_left' hi, List.take_left' hn]

theorem length_slice {i n : Nat} {bytes : Bytes} (h : i + n ≤ bytes.length) :
    (slice i n bytes).length = n := by
  rw [slice, List.length_take, List.length_drop]
  omega

theorem slice_append_drop (i n : Nat) (bytes : Bytes) :
    slice i n bytes ++ bytes.drop (i + n) = bytes.drop i := by
  rw [slice, ← List.drop_drop, List.take_append_drop]

end Bytes

end Fjarr.Lib
