/-
Fjarr.Lib.Binary64 — IEEE 754 double arithmetic on positive numbers.

A double is the rational number it stands for, and an operation is the
exact one followed by `round`: to nearest with 53 significant bits, ties to
even. Exponents are unbounded, as they are for numbers that are neither
subnormal nor near overflow.

* `near_round` — the relative error is at most `2 ^ (-53)`.
* `round_natCast` — integers below `2 ^ 53` are doubles.
* `floor_round_div` — the integer part of a quotient of such integers is
  the exact one.
* `Near` — relative errors along a chain of operations, and
  `floor_of_near`, what is left of them in an integer part.
-/
import Mathlib

namespace Fjarr.Lib.Binary64

/-! ## Rounding -/

/-- The exponent of a positive number: `2 ^ exponent x ≤ x`. -/
def exponent (x : ℚ) : ℤ :=
  let e := (Nat.log2 x.num.toNat : ℤ) - Nat.log2 x.den
  if (2 : ℚ) ^ e ≤ x then e else e - 1

/-- The integer nearest to `m`, the even one of two. -/
def nearestEven (m : ℚ) : ℤ :=
  let f := m - ⌊m⌋
  if f < 1 / 2 then ⌊m⌋
  else if 1 / 2 < f then ⌊m⌋ + 1
  else if ⌊m⌋ % 2 = 0 then ⌊m⌋ else ⌊m⌋ + 1

/-- The distance of neighbouring doubles at `x`. -/
def ulp (x : ℚ) : ℚ := 2 ^ (exponent x - 52)

/-- The double nearest to a positive number. -/
def round (x : ℚ) : ℚ := nearestEven (x / ulp x) * ulp x

theorem ulp_pos (x : ℚ) : 0 < ulp x := by
  rw [ulp]
  positivity

/-- The exponent is that of the number's leading bit, or the one below. -/
theorem two_zpow_exponent_le {x : ℚ} (hx : 0 < x) : (2 : ℚ) ^ exponent x ≤ x := by
  unfold exponent
  dsimp only
  split
  · assumption
  have hnum : 0 < x.num := Rat.num_pos.mpr hx
  have hnat : (x.num.toNat : ℤ) = x.num := Int.toNat_of_nonneg hnum.le
  have hlow : (2 : ℚ) ^ (Nat.log2 x.num.toNat : ℤ) ≤ x.num := by
    have hself := Nat.log2_self_le (n := x.num.toNat) (by omega)
    rw [zpow_natCast, ← hnat]
    exact_mod_cast hself
  have hhigh : (x.den : ℚ) ≤ 2 ^ ((Nat.log2 x.den : ℤ) + 1) := by
    have hlt := Nat.lt_log2_self (n := x.den)
    exact_mod_cast hlt.le
  have hden : (0 : ℚ) < x.den := by exact_mod_cast x.den_pos
  calc (2 : ℚ) ^ ((Nat.log2 x.num.toNat : ℤ) - Nat.log2 x.den - 1)
      = 2 ^ (Nat.log2 x.num.toNat : ℤ) / 2 ^ ((Nat.log2 x.den : ℤ) + 1) := by
        rw [← zpow_sub₀ two_ne_zero]
        congr 1
        ring
    _ ≤ x.num / x.den := div_le_div₀ (by exact_mod_cast hnum.le) hlow hden hhigh
    _ = x := Rat.num_div_den x

theorem abs_nearestEven_sub_le (m : ℚ) : |(nearestEven m : ℚ) - m| ≤ 1 / 2 := by
  have hfloor := Int.floor_le m
  have hlt := Int.lt_floor_add_one m
  unfold nearestEven
  dsimp only
  split
  · rw [abs_le]
    constructor <;> linarith
  split
  · push_cast
    rw [abs_le]
    constructor <;> linarith
  split
  · rw [abs_le]
    constructor <;> linarith
  push_cast
  rw [abs_le]
  constructor <;> linarith

theorem nearestEven_intCast (n : ℤ) : nearestEven n = n := by
  simp [nearestEven]

/-! ## Relative errors -/

/-- `y` is `x` up to the relative error `k`. -/
def Near (k x y : ℚ) : Prop := x * (1 - k) ≤ y ∧ y ≤ x * (1 + k)

/-- The error of one rounding. -/
def unit : ℚ := 1 / 2 ^ 53

theorem near_round {x : ℚ} (hx : 0 < x) : Near unit x (round x) := by
  have hulp := ulp_pos x
  have hsmall : ulp x ≤ x * (1 / 2 ^ 52) := by
    have hle := two_zpow_exponent_le hx
    rw [ulp, zpow_sub₀ two_ne_zero]
    have h52 : (2 : ℚ) ^ (52 : ℤ) = 2 ^ 52 := rfl
    rw [h52, div_eq_mul_one_div]
    exact mul_le_mul_of_nonneg_right hle (by positivity)
  have herr := abs_le.mp (abs_nearestEven_sub_le (x / ulp x))
  have hxu : x / ulp x * ulp x = x := div_mul_cancel₀ x hulp.ne'
  have hlow : -(1 / 2) * ulp x ≤ round x - x := by
    have hmul := mul_le_mul_of_nonneg_right herr.1 hulp.le
    rw [sub_mul, hxu] at hmul
    exact hmul
  have hhigh : round x - x ≤ 1 / 2 * ulp x := by
    have hmul := mul_le_mul_of_nonneg_right herr.2 hulp.le
    rw [sub_mul, hxu] at hmul
    exact hmul
  unfold Near unit
  constructor
  · have hunit : x * (1 - 1 / 2 ^ 53) = x - 1 / 2 * (x * (1 / 2 ^ 52)) := by ring
    rw [hunit]
    linarith
  have hunit : x * (1 + 1 / 2 ^ 53) = x + 1 / 2 * (x * (1 / 2 ^ 52)) := by ring
  rw [hunit]
  linarith

namespace Near

variable {k l x y z c : ℚ}

theorem trans (h : Near k x y) (h' : Near l y z) (hx : 0 ≤ x) (hk : 0 ≤ k) (hl : 0 ≤ l)
    (hl1 : l ≤ 1) : Near (k + l + k * l) x z := by
  obtain ⟨h₁, h₂⟩ := h
  obtain ⟨h₁', h₂'⟩ := h'
  constructor
  · have hmul := mul_le_mul_of_nonneg_right h₁ (by linarith : 0 ≤ 1 - l)
    have hxkl : 0 ≤ x * (k * l) := by positivity
    nlinarith
  · have hmul := mul_le_mul_of_nonneg_right h₂ (by linarith : 0 ≤ 1 + l)
    nlinarith

theorem pos (h : Near k x y) (hx : 0 < x) (hk : k < 1) : 0 < y :=
  lt_of_lt_of_le (mul_pos hx (by linarith)) h.1

theorem mono (h : Near k x y) (hx : 0 ≤ x) (hkl : k ≤ l) : Near l x y := by
  obtain ⟨h₁, h₂⟩ := h
  have hmul := mul_le_mul_of_nonneg_left hkl hx
  constructor <;> linarith

/-- One more rounding, the errors counted in units. -/
theorem rounded (h : Near (k * unit) x y) (hx : 0 < x) (hk : 0 ≤ k) (hk' : k ≤ 100) :
    Near ((k + 2) * unit) x (round y) := by
  have hunit : 0 < unit := by norm_num [unit]
  have hsmall : k * unit ≤ 100 * unit := mul_le_mul_of_nonneg_right hk' hunit.le
  have hlt : 100 * unit < 1 := by norm_num [unit]
  have hround := near_round (h.pos hx (by linarith))
  refine (h.trans hround hx.le (by positivity) hunit.le (by linarith)).mono hx.le ?_
  have hmul := mul_le_mul_of_nonneg_right (hsmall.trans hlt.le) hunit.le
  linarith

theorem div_const (h : Near k x y) (hc : 0 < c) : Near k (x / c) (y / c) := by
  obtain ⟨h₁, h₂⟩ := h
  constructor
  · rw [div_mul_eq_mul_div]
    exact div_le_div_of_nonneg_right h₁ hc.le
  · rw [div_mul_eq_mul_div]
    exact div_le_div_of_nonneg_right h₂ hc.le

/-- Subtracting no more than half doubles the error. -/
theorem sub_const (h : Near k x y) (hk : 0 ≤ k) (hc : 2 * c ≤ x) :
    Near (2 * k) (x - c) (y - c) := by
  obtain ⟨h₁, h₂⟩ := h
  have hmul := mul_le_mul_of_nonneg_right hc hk
  constructor <;> nlinarith

/-- So does dividing by it. -/
theorem const_div (h : Near k x y) (hx : 0 < x) (hk : 0 ≤ k) (hk4 : k ≤ 1 / 4) (hc : 0 ≤ c) :
    Near (2 * k) (c / x) (c / y) := by
  obtain ⟨h₁, h₂⟩ := h
  have hlow : 0 < x * (1 - k) := mul_pos hx (by linarith)
  have hy : 0 < y := lt_of_lt_of_le hlow h₁
  have hcx : 0 ≤ c / x := div_nonneg hc hx.le
  constructor
  · rw [le_div_iff₀ hy]
    calc c / x * (1 - 2 * k) * y ≤ c / x * (1 - 2 * k) * (x * (1 + k)) :=
          mul_le_mul_of_nonneg_left h₂ (mul_nonneg hcx (by linarith))
      _ = c * ((1 - 2 * k) * (1 + k)) := by field_simp
      _ ≤ c * 1 := mul_le_mul_of_nonneg_left (by nlinarith) hc
      _ = c := mul_one c
  rw [div_le_iff₀ hy]
  calc c = c * 1 := (mul_one c).symm
    _ ≤ c * ((1 + 2 * k) * (1 - k)) := mul_le_mul_of_nonneg_left (by nlinarith) hc
    _ = c / x * (1 + 2 * k) * (x * (1 - k)) := by field_simp
    _ ≤ c / x * (1 + 2 * k) * y :=
        mul_le_mul_of_nonneg_left h₁ (mul_nonneg hcx (by linarith))

end Near

/-! ## Integer parts -/

theorem floor_of_near {N D : Nat} {k y : ℚ} (hD : 0 < D) (hnot : ¬ D ∣ N) (hk : (N : ℚ) * k < 1)
    (h : Near k ((N : ℚ) / D) y) : ⌊y⌋ = (N / D : Nat) := by
  have hDq : (0 : ℚ) < D := by exact_mod_cast hD
  have hmod : 0 < N % D := Nat.pos_of_ne_zero fun h0 => hnot (Nat.dvd_of_mod_eq_zero h0)
  have hlt := Nat.mod_lt N hD
  have hsplit : (N : ℚ) / D = (N / D : Nat) + (N % D : Nat) / D := by
    rw [add_div' _ _ _ hDq.ne', div_left_inj' hDq.ne']
    exact_mod_cast (Nat.div_add_mod' N D).symm
  have herr : (N : ℚ) / D * k < 1 / D := by
    rw [div_mul_eq_mul_div]
    exact div_lt_div_of_pos_right hk hDq
  have hone : 1 / (D : ℚ) ≤ (N % D : Nat) / D :=
    div_le_div_of_nonneg_right (by exact_mod_cast hmod) hDq.le
  have hlast : ((N % D : Nat) : ℚ) / D + 1 / D ≤ 1 := by
    rw [← add_div, div_le_one hDq]
    exact_mod_cast hlt
  obtain ⟨h₁, h₂⟩ := h
  rw [Int.floor_eq_iff, Int.cast_natCast]
  constructor <;> nlinarith

/-- Integers below `2 ^ 53` are doubles. -/
theorem round_natCast {n : Nat} (hn : 0 < n) (hlt : n < 2 ^ 53) : round n = n := by
  have hnq : (0 : ℚ) < n := by exact_mod_cast hn
  have hexp : exponent n ≤ 52 := by
    by_contra hbig
    have hle := two_zpow_exponent_le hnq
    have hpow : (2 : ℚ) ^ (53 : ℤ) ≤ 2 ^ exponent (n : ℚ) :=
      zpow_le_zpow_right₀ one_le_two (by omega)
    have hlt' : (n : ℚ) < 2 ^ (53 : ℤ) := by exact_mod_cast hlt
    linarith
  obtain ⟨j, hj⟩ : ∃ j : Nat, exponent (n : ℚ) - 52 = -(j : ℤ) :=
    ⟨(52 - exponent (n : ℚ)).toNat, by omega⟩
  have hscaled : (n : ℚ) / ulp n = ((n * 2 ^ j : Nat) : ℤ) := by
    rw [ulp, hj, zpow_neg, div_inv_eq_mul, zpow_natCast]
    push_cast
    rfl
  rw [round, hscaled, nearestEven_intCast, ← hscaled, div_mul_cancel₀ _ (ulp_pos _).ne']

/-- The integer part of a quotient. -/
theorem floor_round_div {N D : Nat} (hN : 0 < N) (hlt : N < 2 ^ 53) (hD : 0 < D) :
    ⌊round ((N : ℚ) / D)⌋ = (N / D : Nat) := by
  have hDq : (0 : ℚ) < D := by exact_mod_cast hD
  have hNq : (0 : ℚ) < N := by exact_mod_cast hN
  by_cases hdvd : D ∣ N
  · obtain ⟨q, rfl⟩ := hdvd
    have hq : 0 < q := Nat.pos_of_mul_pos_left hN
    have hexact : ((D * q : Nat) : ℚ) / D = q := by
      push_cast
      exact mul_div_cancel_left₀ _ hDq.ne'
    have hq53 : q < 2 ^ 53 := lt_of_le_of_lt (Nat.le_mul_of_pos_left q hD) hlt
    rw [hexact, round_natCast hq hq53, Nat.mul_div_cancel_left q hD]
    exact Int.floor_natCast q
  refine floor_of_near hD hdvd ?_ (near_round (div_pos hNq hDq))
  rw [unit, mul_one_div, div_lt_one (by positivity)]
  exact_mod_cast hlt

end Fjarr.Lib.Binary64
