/-
Fjarr.Setup.Edid — a ghost screen's mode and the EDID written for it
(fjarr-setup, display.rs).

`cvtRb` computes its timing in doubles; `cvtRb_eq` says that for every mode
`Mode.parse` accepts it is the timing of exact arithmetic. `edid` lays it
out in the 18 bytes of a detailed timing descriptor, whose fields are 12
bits wide for the active and blank sizes, 10 and 6 for the porches and
syncs, and 16 for the clock in units of 10 kHz. `decode_detailed` says what
is left of any timing in them.

Text is a list of characters. An error of `Mode.parse` is its text after
the mode it quotes.
-/
import Fjarr.Lib.Binary64
import Fjarr.Lib.Bytes
import Fjarr.Lib.Text

namespace Fjarr.Setup

open Lib Lib.Bytes Lib.Text List Binary64

/-! ## Modes -/

structure Mode where
  width : Nat
  height : Nat
  refresh : Nat
  deriving DecidableEq, Repr

namespace Mode

/-- What a ghost can have. -/
def Supported (m : Mode) : Prop :=
  (640 ≤ m.width ∧ m.width ≤ 4096) ∧ (480 ≤ m.height ∧ m.height ≤ 2304) ∧
    (24 ≤ m.refresh ∧ m.refresh ≤ 120)

instance (m : Mode) : Decidable m.Supported := inferInstanceAs (Decidable (_ ∧ _ ∧ _))

/-- `Mode::parse`. -/
def parse (s : List Char) : Except String Mode :=
  let parts := (splitOnce '@' s).getD (s, "60".toList)
  match splitOnce 'x' parts.1 with
  | none => .error "WIDTHxHEIGHT[@HZ]"
  | some (w, h) =>
    match parseU32 w with
    | none => .error "width"
    | some width =>
      match parseU32 h with
      | none => .error "height"
      | some height =>
        match parseU32 parts.2 with
        | none => .error "refresh"
        | some refresh =>
          if Supported { width, height, refresh } then .ok { width, height, refresh }
          else .error "a ghost is 640x480 to 4096x2304, 24 to 120 Hz"

theorem supported_of_parse {s : List Char} {m : Mode} (h : parse s = .ok m) : m.Supported := by
  unfold parse at h
  dsimp only at h
  split at h
  · cases h
  split at h
  · cases h
  split at h
  · cases h
  split at h
  · cases h
  split at h
  · rename_i hm
    cases h
    exact hm
  · cases h

end Mode

/-! ## Timings -/

/-- A detailed timing. -/
structure Timing where
  pixelKhz : Nat
  hActive : Nat
  hBlank : Nat
  hFront : Nat
  hSync : Nat
  vActive : Nat
  vBlank : Nat
  vFront : Nat
  vSync : Nat
  deriving DecidableEq, Repr

/-- The vsync width, which says the aspect ratio. -/
def vSync (m : Mode) : Nat :=
  if m.width * 3 = m.height * 4 then 4
  else if m.width * 9 = m.height * 16 then 5
  else if m.width * 10 = m.height * 16 then 6
  else if m.width * 4 = m.height * 5 ∨ m.width * 9 = m.height * 15 then 7
  else 10

/-- `h_period_us`, the time of one line. -/
def hPeriodUs (m : Mode) : ℚ :=
  let frame := Binary64.round (1000000 / m.refresh)
  Binary64.round (Binary64.round (frame - 460) / m.height)

/-- The lines that take the 460 µs of the vertical blank, rounded down. -/
def vbiLines (m : Mode) : Nat := ⌊Binary64.round (460 / hPeriodUs m)⌋.toNat

/-- The clock's 0.25 MHz steps for so many columns and lines, rounded down. -/
def clockSteps (refresh totalH totalV : Nat) : Nat :=
  let perSecond := Binary64.round (Binary64.round (refresh * totalH) * totalV)
  ⌊Binary64.round (perSecond / 250000)⌋.toNat

/-- `cvt_rb`: VESA CVT 1.2, reduced blanking. -/
def cvtRb (m : Mode) : Timing :=
  let vbi := max (vbiLines m + 1) (3 + vSync m + 6)
  { pixelKhz := clockSteps m.refresh (m.width + 160) (m.height + vbi) * 250
    hActive := m.width
    hBlank := 160
    hFront := 48
    hSync := 32
    vActive := m.height
    vBlank := vbi
    vFront := 3
    vSync := vSync m }

/-! ## Bytes -/

def toLE (w n : Nat) : Bytes := (toBE w n).reverse

def ascii (s : List Char) : Bytes := s.map fun c => UInt8.ofNat c.toNat

/-- `descriptor_text`. -/
def descriptorText (tag : UInt8) (text : Bytes) : Bytes :=
  let n := min text.length 13
  [0, 0, 0, tag, 0] ++ text.take n ++ (if n < 13 then 10 :: List.replicate (12 - n) 32 else [])

/-- A size at 96 dpi, in cm. -/
def cm (pixels : Nat) : UInt8 :=
  let inches := Binary64.round (Binary64.round (pixels * Binary64.round (127 / 50)) / 96)
  UInt8.ofNat (min ⌊inches + 1 / 2⌋.toNat 255)

/-- Descriptor 1: the preferred detailed timing. -/
def detailed (t : Timing) (wMm hMm : Nat) : Bytes :=
  toLE 2 (t.pixelKhz / 10) ++
    [UInt8.ofNat (t.hActive &&& 0xFF),
     UInt8.ofNat (t.hBlank &&& 0xFF),
     UInt8.ofNat ((t.hActive >>> 8 &&& 0xF) <<< 4 ||| (t.hBlank >>> 8 &&& 0xF)),
     UInt8.ofNat (t.vActive &&& 0xFF),
     UInt8.ofNat (t.vBlank &&& 0xFF),
     UInt8.ofNat ((t.vActive >>> 8 &&& 0xF) <<< 4 ||| (t.vBlank >>> 8 &&& 0xF)),
     UInt8.ofNat (t.hFront &&& 0xFF),
     UInt8.ofNat (t.hSync &&& 0xFF),
     UInt8.ofNat ((t.vFront &&& 0xF) <<< 4 ||| (t.vSync &&& 0xF)),
     UInt8.ofNat ((t.hFront >>> 8 &&& 0x3) <<< 6 ||| (t.hSync >>> 8 &&& 0x3) <<< 4 |||
       (t.vFront >>> 4 &&& 0x3) <<< 2 ||| (t.vSync >>> 4 &&& 0x3)),
     UInt8.ofNat (wMm &&& 0xFF),
     UInt8.ofNat (hMm &&& 0xFF),
     UInt8.ofNat ((wMm >>> 8 &&& 0xF) <<< 4 ||| (hMm >>> 8 &&& 0xF)),
     0, 0, 0x1A]

/-- Descriptor 2: the range limits around the mode. -/
def rangeLimits (refresh : Nat) (t : Timing) : Bytes :=
  let hKhz := t.pixelKhz / (t.hActive + t.hBlank)
  [0, 0, 0, 0xFD, 0,
   UInt8.ofNat (max (refresh - 1) 1),
   UInt8.ofNat (refresh + 1),
   UInt8.ofNat (max (hKhz - 1) 1),
   UInt8.ofNat (min (hKhz + 1) 255),
   UInt8.ofNat (min (t.pixelKhz / 10000 + 1) 255),
   0x01, 10] ++ List.replicate 6 32

/-- What stands before the first descriptor. -/
def edidHead (number : Nat) (mode : Mode) : Bytes :=
  let letter (c : Char) : Nat := c.toNat - 'A'.toNat + 1
  ([0x00, 0xFF, 0xFF, 0xFF, 0xFF, 0xFF, 0xFF, 0x00] : Bytes) ++
    toBE 2 (letter 'F' <<< 10 ||| letter 'J' <<< 5 ||| letter 'R') ++
    toLE 2 (0x4700 + number) ++
    toLE 4 number ++
    [0, UInt8.ofNat (2026 - 1990), 1, 4, 0x80, cm mode.width, cm mode.height, 120, 0x06] ++
    [0xEE, 0x91, 0xA3, 0x54, 0x4C, 0x99, 0x26, 0x0F, 0x50, 0x54] ++
    [0, 0, 0] ++
    List.replicate 16 0x01

/-- What stands after it. -/
def edidTail (number : Nat) (mode : Mode) : Bytes :=
  rangeLimits mode.refresh (cvtRb mode) ++
    descriptorText 0xFC (ascii ("Fjarr Ghost ".toList ++ decimal number)) ++
    descriptorText 0xFF (ascii ("FJGHOST".toList ++ decimal number)) ++
    [0]

/-- `edid`. The product code wraps at 16 bits, as it does without overflow
checks. -/
def edid (number : Nat) (mode : Mode) : Bytes :=
  let timing := detailed (cvtRb mode) ((cm mode.width).toNat * 10) ((cm mode.height).toNat * 10)
  let e := edidHead number mode ++ (timing ++ edidTail number mode)
  e ++ [0 - e.sum]

/-! ## Reading it -/

/-- A detailed timing descriptor by the field layout of EDID 1.4. -/
def decodeDetailed (descriptor : Bytes) : Timing :=
  let d (i : Nat) : Nat := (descriptor.getD i 0).toNat
  { pixelKhz := 10 * (d 0 + 256 * d 1)
    hActive := d 2 + 256 * (d 4 / 16)
    hBlank := d 3 + 256 * (d 4 % 16)
    vActive := d 5 + 256 * (d 7 / 16)
    vBlank := d 6 + 256 * (d 7 % 16)
    hFront := d 8 + 256 * (d 11 / 64)
    hSync := d 9 + 256 * (d 11 / 16 % 4)
    vFront := d 10 / 16 + 16 * (d 11 / 4 % 4)
    vSync := d 10 % 16 + 16 * (d 11 % 4) }

/-- The first descriptor of an EDID. -/
def decodeTiming (e : Bytes) : Timing := decodeDetailed (slice 54 18 e)

theorem toNat_low (n : Nat) : (UInt8.ofNat (n &&& 0xFF)).toNat = n % 256 := by
  rw [UInt8.toNat_ofNat', show (0xFF : Nat) = 2 ^ 8 - 1 from rfl, Nat.and_two_pow_sub_one_eq_mod]
  omega

theorem and_nibble (n : Nat) : n &&& 0xF = n % 16 := Nat.and_two_pow_sub_one_eq_mod n 4

theorem and_pair (n : Nat) : n &&& 0x3 = n % 4 := Nat.and_two_pow_sub_one_eq_mod n 2

theorem toNat_nibbles (a b : Nat) :
    (UInt8.ofNat ((a &&& 0xF) <<< 4 ||| (b &&& 0xF))).toNat = a % 16 * 16 + b % 16 := by
  rw [and_nibble, and_nibble, ← Nat.shiftLeft_add_eq_or_of_lt (Nat.mod_lt b (by decide)),
    Nat.shiftLeft_eq, UInt8.toNat_ofNat']
  omega

theorem toNat_pairs (a b c d : Nat) :
    (UInt8.ofNat ((a &&& 0x3) <<< 6 ||| (b &&& 0x3) <<< 4 ||| (c &&& 0x3) <<< 2 |||
      (d &&& 0x3))).toNat = a % 4 * 64 + b % 4 * 16 + c % 4 * 4 + d % 4 := by
  have hall : ∀ a < 4, ∀ b < 4, ∀ c < 4, ∀ d < 4,
      (UInt8.ofNat (a <<< 6 ||| b <<< 4 ||| c <<< 2 ||| d)).toNat =
        a * 64 + b * 16 + c * 4 + d := by
    decide
  have hlt (n : Nat) : n % 4 < 4 := Nat.mod_lt n (by decide)
  simp only [and_pair]
  exact hall _ (hlt a) _ (hlt b) _ (hlt c) _ (hlt d)

/-- What the descriptor's fields keep of any timing. -/
theorem decode_detailed (t : Timing) (wMm hMm : Nat) :
    decodeDetailed (detailed t wMm hMm) =
      { pixelKhz := t.pixelKhz / 10 % 65536 * 10
        hActive := t.hActive % 4096
        hBlank := t.hBlank % 4096
        hFront := t.hFront % 1024
        hSync := t.hSync % 1024
        vActive := t.vActive % 4096
        vBlank := t.vBlank % 4096
        vFront := t.vFront % 64
        vSync := t.vSync % 64 } := by
  have hclock : toLE 2 (t.pixelKhz / 10) =
      [UInt8.ofNat (t.pixelKhz / 10), UInt8.ofNat (t.pixelKhz / 10 / 256)] := rfl
  simp only [decodeDetailed, detailed, hclock, cons_append, nil_append,
    getD_cons_zero, getD_cons_succ, toNat_low, toNat_nibbles, toNat_pairs]
  simp only [UInt8.toNat_ofNat', Nat.shiftRight_eq_div_pow, Timing.mk.injEq]
  refine ⟨?_, ?_, ?_, ?_, ?_, ?_, ?_, ?_, ?_⟩ <;> omega

/-! ## The timing in exact arithmetic -/

namespace Mode

/-- The lines of the vertical blank. -/
def blankLines (m : Mode) : Nat :=
  max (460 * m.height * m.refresh / (1000000 - 460 * m.refresh) + 1) (9 + vSync m)

/-- The pixels of a second, blanks included. -/
def pixelRate (m : Mode) : Nat := m.refresh * (m.width + 160) * (m.height + m.blankLines)

end Mode

variable {m : Mode}

/-- The four roundings on the way to the lines of the vertical blank. -/
theorem near_vbi (hm : m.Supported) :
    Binary64.Near (14 * Binary64.unit)
      ((460 * m.height * m.refresh : Nat) / (1000000 - 460 * m.refresh : Nat))
      (Binary64.round (460 / hPeriodUs m)) := by
  obtain ⟨-, ⟨hh, -⟩, hr, hr'⟩ := hm
  have hrq : (0 : ℚ) < m.refresh := by exact_mod_cast (by omega : 0 < m.refresh)
  have hrq' : (m.refresh : ℚ) ≤ 120 := by exact_mod_cast hr'
  have hhq : (0 : ℚ) < m.height := by exact_mod_cast (by omega : 0 < m.height)
  have hframe : (8000 : ℚ) ≤ 1000000 / m.refresh := by
    rw [le_div_iff₀ hrq]
    linarith
  have hactive : (0 : ℚ) < 1000000 / m.refresh - 460 := by linarith
  have hline : (0 : ℚ) < (1000000 / m.refresh - 460) / m.height := div_pos hactive hhq
  have hlines : (0 : ℚ) < 460 / ((1000000 / m.refresh - 460) / m.height) :=
    div_pos (by norm_num) hline
  have hunit : 0 < unit := by norm_num [unit]
  have hrefresh := (near_round (by linarith : (0 : ℚ) < 1000000 / m.refresh)).sub_const
    hunit.le (by linarith : 2 * 460 ≤ (1000000 : ℚ) / m.refresh)
  have hperiod := ((hrefresh.rounded hactive (by norm_num) (by norm_num)).div_const hhq).rounded
    hline (by norm_num) (by norm_num)
  have hvbi := hperiod.const_div hline (by positivity) (by norm_num [unit])
    (by norm_num : (0 : ℚ) ≤ 460)
  rw [← mul_assoc] at hvbi
  have hround := hvbi.rounded hlines (by norm_num) (by norm_num)
  have hexact : (460 : ℚ) / ((1000000 / m.refresh - 460) / m.height) =
      (460 * m.height * m.refresh : Nat) / (1000000 - 460 * m.refresh : Nat) := by
    have hne : (1000000 : ℚ) - 460 * m.refresh ≠ 0 := by linarith
    have hne' : (1000000 : ℚ) - m.refresh * 460 ≠ 0 := by linarith
    rw [Nat.cast_sub (by omega)]
    push_cast
    field_simp
  rw [← hexact]
  exact hround.mono hlines.le (by linarith)

/-- The least height at which the lines take exactly the vertical blank. -/
def evenHeight (refresh : Nat) : Nat :=
  (1000000 - 460 * refresh) / (1000000 - 460 * refresh).gcd (460 * refresh)

/-- Where they do, a rounding could lose a line: these few modes are
computed. -/
theorem vbi_even : ∀ refresh < 121, 24 ≤ refresh → 461 ≤ evenHeight refresh ∧ ∀ j < 5,
    480 ≤ evenHeight refresh * j → evenHeight refresh * j ≤ 2304 →
      vbiLines { width := 0, height := evenHeight refresh * j, refresh } =
        460 * (evenHeight refresh * j) * refresh / (1000000 - 460 * refresh) := by
  decide +kernel

theorem evenHeight_dvd {height refresh : Nat} (hr : refresh ≤ 120)
    (h : 1000000 - 460 * refresh ∣ 460 * height * refresh) : evenHeight refresh ∣ height := by
  have hpos : 0 < 1000000 - 460 * refresh := by omega
  have hcop := Nat.coprime_div_gcd_div_gcd (Nat.gcd_pos_of_pos_left (460 * refresh) hpos)
  refine hcop.dvd_of_dvd_mul_left ?_
  rw [Nat.div_mul_right_comm (Nat.gcd_dvd_right _ _)]
  refine Nat.div_dvd_div (Nat.gcd_dvd_left _ _) ?_
  rwa [mul_right_comm]

theorem vbiLines_eq (hm : m.Supported) :
    vbiLines m = 460 * m.height * m.refresh / (1000000 - 460 * m.refresh) := by
  have hnear := near_vbi hm
  obtain ⟨-, ⟨hh, hh'⟩, hr, hr'⟩ := hm
  by_cases hdvd : 1000000 - 460 * m.refresh ∣ 460 * m.height * m.refresh
  · obtain ⟨j, hj⟩ := evenHeight_dvd hr' hdvd
    obtain ⟨hbig, hall⟩ := vbi_even m.refresh (by omega) hr
    have hj5 : j < 5 := by
      by_contra hge
      have hmul := Nat.mul_le_mul hbig (by omega : 5 ≤ j)
      omega
    have heven := hall j hj5 (by omega) (by omega)
    rw [← hj] at heven
    exact heven
  have hsmall : ((460 * m.height * m.refresh : Nat) : ℚ) * (14 * unit) < 1 := by
    have hle : 460 * m.height * m.refresh ≤ 460 * 2304 * 120 :=
      Nat.mul_le_mul (Nat.mul_le_mul_left 460 hh') hr'
    have hleq : ((460 * m.height * m.refresh : Nat) : ℚ) ≤ 460 * 2304 * 120 := by
      exact_mod_cast hle
    have hunit : (460 * 2304 * 120 : ℚ) * (14 * unit) < 1 := by norm_num [unit]
    have hpos : (0 : ℚ) ≤ 14 * unit := by norm_num [unit]
    exact lt_of_le_of_lt (mul_le_mul_of_nonneg_right hleq hpos) hunit
  rw [vbiLines, floor_of_near (by omega) hdvd hsmall hnear]
  exact Int.toNat_natCast _

/-- Products of integers are exact, so only the quotient is rounded. -/
theorem clockSteps_eq {refresh totalH totalV : Nat} (hpos : 0 < refresh * totalH * totalV)
    (hlt : refresh * totalH * totalV < 2 ^ 53) :
    clockSteps refresh totalH totalV = refresh * totalH * totalV / 250000 := by
  have hV : 0 < totalV := Nat.pos_of_mul_pos_left hpos
  have hrH : 0 < refresh * totalH := Nat.pos_of_mul_pos_right hpos
  have hrow : Binary64.round ((refresh : ℚ) * totalH) = (refresh * totalH : Nat) := by
    rw [← Nat.cast_mul]
    exact Binary64.round_natCast hrH (lt_of_le_of_lt (Nat.le_mul_of_pos_right _ hV) hlt)
  have hall : Binary64.round ((refresh * totalH : Nat) * totalV) =
      (refresh * totalH * totalV : Nat) := by
    rw [← Nat.cast_mul]
    exact Binary64.round_natCast hpos hlt
  have hdiv := floor_round_div hpos hlt (by decide : 0 < 250000)
  rw [clockSteps, hrow, hall, show (250000 : ℚ) = (250000 : Nat) from rfl, hdiv]
  exact Int.toNat_natCast _

theorem vSync_le (m : Mode) : vSync m ≤ 10 := by
  unfold vSync
  split_ifs <;> decide

theorem Mode.blankLines_le (hm : m.Supported) : m.blankLines ≤ 135 := by
  obtain ⟨-, ⟨-, hh'⟩, -, hr'⟩ := hm
  have hsync := vSync_le m
  have hle : 460 * m.height * m.refresh ≤ 460 * 2304 * 120 :=
    Nat.mul_le_mul (Nat.mul_le_mul_left 460 hh') hr'
  have hdiv : 460 * m.height * m.refresh / (1000000 - 460 * m.refresh) ≤ 134 :=
    (Nat.div_le_div hle (by omega : 1000000 - 460 * 120 ≤ _) (by omega)).trans (by decide)
  unfold Mode.blankLines
  omega

/-- The doubles do not show. -/
theorem cvtRb_eq (hm : m.Supported) :
    cvtRb m =
      { pixelKhz := m.pixelRate / 250000 * 250
        hActive := m.width
        hBlank := 160
        hFront := 48
        hSync := 32
        vActive := m.height
        vBlank := m.blankLines
        vFront := 3
        vSync := vSync m } := by
  have hvbi : max (vbiLines m + 1) (3 + vSync m + 6) = m.blankLines := by
    rw [vbiLines_eq hm, Mode.blankLines]
    omega
  have hblank := m.blankLines_le hm
  obtain ⟨⟨hw, hw'⟩, ⟨hh, hh'⟩, hr, hr'⟩ := hm
  have hpos : 0 < m.refresh * (m.width + 160) * (m.height + m.blankLines) :=
    Nat.mul_pos (Nat.mul_pos (by omega) (by omega)) (by omega)
  have hlt : m.refresh * (m.width + 160) * (m.height + m.blankLines) ≤ 120 * 4256 * 2439 :=
    Nat.mul_le_mul (Nat.mul_le_mul hr' (by omega)) (by omega)
  unfold cvtRb
  dsimp only
  rw [hvbi, clockSteps_eq hpos (lt_of_le_of_lt hlt (by norm_num)), Mode.pixelRate]

/-! ## What an EDID says -/

theorem length_detailed (t : Timing) (wMm hMm : Nat) : (detailed t wMm hMm).length = 18 := rfl

theorem length_edidHead (number : Nat) (mode : Mode) : (edidHead number mode).length = 54 := by
  simp [edidHead, toLE]

theorem length_descriptorText (tag : UInt8) (text : Bytes) :
    (descriptorText tag text).length = 18 := by
  unfold descriptorText
  dsimp only
  split
  · simp only [length_append, length_take, length_cons, length_nil,
      length_replicate]
    omega
  · simp only [length_append, length_take, length_cons, length_nil]
    omega

theorem length_edid (number : Nat) (mode : Mode) : (edid number mode).length = 128 := by
  have htail : (edidTail number mode).length = 55 := by
    simp [edidTail, rangeLimits, length_descriptorText]
  simp [edid, length_edidHead, length_detailed, htail]

/-- The last byte makes the sum zero. -/
theorem sum_edid (number : Nat) (mode : Mode) : (edid number mode).sum = 0 := by
  unfold edid
  dsimp only
  rw [sum_append, sum_singleton, add_sub_cancel]

theorem decodeTiming_edid (number : Nat) (mode : Mode) :
    decodeTiming (edid number mode) =
      decodeDetailed (detailed (cvtRb mode) ((cm mode.width).toNat * 10)
        ((cm mode.height).toNat * 10)) := by
  unfold decodeTiming edid
  dsimp only
  rw [append_assoc, append_assoc,
    slice_at _ _ _ (length_edidHead number mode) (length_detailed _ _ _)]

/-- The EDID of a mode that `Mode.parse` accepts says the mode's timing, if
its width and its clock fit their fields. -/
theorem edid_says_mode {s : List Char} {mode : Mode} (number : Nat)
    (hmode : Mode.parse s = .ok mode) :
    (decodeTiming (edid number mode) =
        { cvtRb mode with pixelKhz := (cvtRb mode).pixelKhz / 10 * 10 } ∧
      (edid number mode).length = 128 ∧ (edid number mode).sum = 0) ↔
    mode.width < 4096 ∧ mode.pixelRate < 655500000 := by
  have hm := Mode.supported_of_parse hmode
  have hblank := mode.blankLines_le hm
  have hsync := vSync_le mode
  rw [and_iff_left ⟨length_edid number mode, sum_edid number mode⟩, decodeTiming_edid,
    decode_detailed, cvtRb_eq hm]
  obtain ⟨⟨-, hw⟩, ⟨-, hh⟩, -⟩ := hm
  simp only [Timing.mk.injEq]
  constructor
  · rintro ⟨hclock, hwidth, -⟩
    omega
  · rintro ⟨hwidth, hclock⟩
    refine ⟨?_, ?_, trivial, trivial, trivial, ?_, ?_, trivial, ?_⟩ <;> omega

/-- The mode a ghost has unless another is asked for. -/
theorem edid_says_mode_full_hd :
    decodeTiming (edid 1 { width := 1920, height := 1080, refresh := 60 }) =
      { cvtRb { width := 1920, height := 1080, refresh := 60 } with pixelKhz := 138500 } := by
  have hclock : (cvtRb { width := 1920, height := 1080, refresh := 60 }).pixelKhz = 138500 := by
    decide +kernel
  have hparse : Mode.parse "1920x1080".toList =
      .ok { width := 1920, height := 1080, refresh := 60 } := by decide +kernel
  have hsays := ((edid_says_mode 1 hparse).mpr (by decide)).1
  rwa [hclock] at hsays

/-- The largest ghost advertises no columns, and one of 3840x2160 at 120 Hz
a clock that is 655.36 MHz too slow. -/
theorem edid_wraps :
    (∃ mode, Mode.parse "4096x2304".toList = .ok mode ∧
      (cvtRb mode).hActive = 4096 ∧ (decodeTiming (edid 1 mode)).hActive = 0) ∧
    ∃ mode, Mode.parse "3840x2160@120".toList = .ok mode ∧
      (cvtRb mode).pixelKhz = (decodeTiming (edid 1 mode)).pixelKhz + 655360 := by
  refine ⟨⟨{ width := 4096, height := 2304, refresh := 60 }, ?_⟩,
    { width := 3840, height := 2160, refresh := 120 }, ?_⟩ <;> decide +kernel

end Fjarr.Setup
