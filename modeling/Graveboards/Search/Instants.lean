import Mathlib.Tactic.NormNum
import Graveboards.Library.Rounding
import Graveboards.Search.Encoding

/-!
The instant of a datetime on its way through the bytes: local clock, a float of seconds, whole
milliseconds, and back to a clock without an offset.
-/

namespace Graveboards.Search

open Graveboards.Library

/-! Doubles. -/

theorem abs_nearestDouble_sub_le {k : Int} {q : Rat} (hk : -1021 ≤ k) (h : |q| < 2 ^ k) :
    |nearestDouble q - q| ≤ 2 ^ (k - 53) / 2 := by
  have hexponent : k - 1 - (52 : Nat) = k - 53 := by omega
  have hsmallest : (-1074 : Int) ≤ k - 1 - (52 : Nat) := by omega
  have hbound : |Rounding.nearest 52 (-1074) q - q| ≤ 2 ^ (k - 1 - (52 : Nat)) / 2 :=
    Rounding.abs_nearest_sub_le_of_lt h hsmallest
  rwa [hexponent] at hbound

theorem lastBit_nonpos {q : Rat} (h : |q| < 2 ^ (53 : Int)) :
    Rounding.lastBit 52 (-1074) q ≤ 0 := by
  by_cases hne : q = 0
  · rw [hne]
    decide +kernel
  · exact Rounding.lastBit_le hne h (by omega)

theorem le_nearestDouble {n : Int} {q : Rat} (h : |q| < 2 ^ (53 : Int)) (hle : (n : Rat) ≤ q) :
    n ≤ nearestDouble q :=
  Rounding.le_nearest (lastBit_nonpos h) hle

theorem nearestDouble_le {n : Int} {q : Rat} (h : |q| < 2 ^ (53 : Int)) (hle : q ≤ n) :
    nearestDouble q ≤ n :=
  Rounding.nearest_le (lastBit_nonpos h) hle

/-- A double below an integer stays below it when both are multiplied by 1000. -/
theorem thousandfold_lt {q : Rat} {n : Int} (hsmall : |q| < 2 ^ (53 : Int))
    (h : nearestDouble q < n) :
    nearestDouble (nearestDouble q * 1000) < n * 1000 :=
  Rounding.nearest_mul_lt (j := 10) (by norm_num) (by norm_num) (lastBit_nonpos hsmall) h

/-! The numbers on the way, for `s` seconds and `u` microseconds. -/

/-- `datetime.timestamp` of a local clock. -/
def clockFloat (s u : Int) : Rat := nearestDouble (s + nearestDouble (u / 10 ^ 6))

/-- The milliseconds that are written. -/
def sentMillis (s u : Int) : Int := truncate (nearestDouble (clockFloat s u * 1000))

/-- The microseconds that are found in a float. -/
def floatMicros (t : Rat) : Int :=
  ⌊t⌋ * 10 ^ 6 + Rounding.roundHalfEven (nearestDouble ((t - ⌊t⌋) * 10 ^ 6))

/-- The microseconds that are read. -/
def readMicros (millis : Nat) : Int := floatMicros (nearestDouble (millis / 1000))

theorem abs_fraction_lt (t : Rat) : |(t - ⌊t⌋) * 10 ^ 6| < 2 ^ (20 : Int) := by
  have hpower : (2 : Rat) ^ (20 : Int) = 1048576 := by norm_num
  rw [abs_of_nonneg (by linarith [Int.floor_le t]), hpower]
  linarith [Int.lt_floor_add_one t]

theorem fraction_double_near (t : Rat) :
    |nearestDouble ((t - ⌊t⌋) * 10 ^ 6) - (t - ⌊t⌋) * 10 ^ 6| ≤ 1 / 2 ^ 34 := by
  have hpower : (2 : Rat) ^ ((20 : Int) - 53) / 2 = 1 / 2 ^ 34 := by norm_num
  exact hpower ▸ abs_nearestDouble_sub_le (by norm_num) (abs_fraction_lt t)

theorem floatMicros_near (t : Rat) : |(floatMicros t : Rat) - t * 10 ^ 6| ≤ 1 / 2 + 1 / 2 ^ 34 := by
  have hround := abs_le.mp (Rounding.abs_roundHalfEven_sub_le (nearestDouble ((t - ⌊t⌋) * 10 ^ 6)))
  have hdouble := abs_le.mp (fraction_double_near t)
  rw [floatMicros, abs_le]
  push_cast
  constructor <;> linarith

/-- A float that is near enough to a number of microseconds is read as that number. -/
theorem floatMicros_eq {t : Rat} {n : Int} (h : |t * 10 ^ 6 - n| ≤ 12 / 25) :
    floatMicros t = n := by
  have hdouble := abs_le.mp (fraction_double_near t)
  have hnear := abs_le.mp h
  have hround : Rounding.roundHalfEven (nearestDouble ((t - ⌊t⌋) * 10 ^ 6)) = n - ⌊t⌋ * 10 ^ 6 := by
    apply Rounding.roundHalfEven_eq
    rw [abs_lt]
    push_cast
    constructor <;> linarith
  rw [floatMicros, hround]
  ring

theorem le_floatMicros {t : Rat} {n : Int} (h : (n : Rat) ≤ t) : n * 10 ^ 6 ≤ floatMicros t := by
  have hfloor : n ≤ ⌊t⌋ := Int.le_floor.mpr h
  have hdouble : ((0 : Int) : Rat) ≤ nearestDouble ((t - ⌊t⌋) * 10 ^ 6) := by
    apply le_nearestDouble
    · exact (abs_fraction_lt t).trans_le (zpow_le_zpow_right₀ one_le_two (by norm_num))
    · rw [Int.cast_zero]
      linarith [Int.floor_le t]
  have hround := Rounding.le_roundHalfEven hdouble
  rw [floatMicros]
  linarith

section Read

variable {millis : Nat}

theorem abs_millis_lt {k : Nat} (h : millis < 2 ^ k * 1000) :
    |(millis : Rat) / 1000| < 2 ^ (k : Int) := by
  rw [abs_of_nonneg (by positivity), div_lt_iff₀ (by norm_num), zpow_natCast]
  exact_mod_cast h

/-- What is read is close to the number of milliseconds, and in the same second. -/
theorem readMicros_spec (h : millis < 2 ^ 38 * 1000) :
    |readMicros millis - 1000 * millis| ≤ 16 ∧ readMicros millis / 10 ^ 6 = millis / 1000 := by
  have hdouble := abs_le.mp (abs_nearestDouble_sub_le (by norm_num) (abs_millis_lt h))
  have hmicros := abs_le.mp (floatMicros_near (nearestDouble (millis / 1000)))
  norm_num at hdouble hmicros
  have hlow : (-16 : Rat) ≤ readMicros millis - 1000 * millis := by
    rw [readMicros]
    linarith
  have hhigh : (readMicros millis - 1000 * millis : Rat) ≤ 16 := by
    rw [readMicros]
    linarith
  have hlow' : -16 ≤ readMicros millis - 1000 * millis := by exact_mod_cast hlow
  have hhigh' : readMicros millis - 1000 * millis ≤ 16 := by exact_mod_cast hhigh
  have hsecond : ((millis / 1000 : Nat) : Int) * 10 ^ 6 ≤ readMicros millis := by
    apply le_floatMicros
    apply le_nearestDouble
    · exact (abs_millis_lt h).trans_le (zpow_le_zpow_right₀ one_le_two (by norm_num))
    · rw [Int.cast_natCast]
      exact Nat.cast_div_le
  refine ⟨abs_le.mpr ⟨hlow', hhigh'⟩, ?_⟩
  omega

/-- Before 2242 the milliseconds come out exactly. -/
theorem readMicros_eq (h : millis < 2 ^ 33 * 1000) : readMicros millis = 1000 * millis := by
  have hdouble := abs_le.mp (abs_nearestDouble_sub_le (by norm_num) (abs_millis_lt h))
  norm_num at hdouble
  apply floatMicros_eq
  rw [abs_le]
  push_cast
  constructor <;> linarith

end Read

section Send

variable {s u : Int}

/-- The fraction of a second as a double. -/
theorem fraction_spec (hu : 0 ≤ u) (hu' : u < 10 ^ 6) :
    0 ≤ nearestDouble (u / 10 ^ 6) ∧ nearestDouble (u / 10 ^ 6) < 1 ∧
      |nearestDouble (u / 10 ^ 6) - (u : Rat) / 10 ^ 6| ≤ 1 / 2 ^ 54 := by
  have hu₀ : (0 : Rat) ≤ u := by exact_mod_cast hu
  have hu₁ : (u : Rat) ≤ 10 ^ 6 - 1 := by exact_mod_cast (show u ≤ 10 ^ 6 - 1 by omega)
  have hsmall : |(u : Rat) / 10 ^ 6| < 2 ^ (0 : Int) := by
    rw [abs_of_nonneg (by positivity), zpow_zero, div_lt_one (by norm_num)]
    linarith
  have hpower : (2 : Rat) ^ ((0 : Int) - 53) / 2 = 1 / 2 ^ 54 := by norm_num
  have hnear : |nearestDouble (u / 10 ^ 6) - (u : Rat) / 10 ^ 6| ≤ 1 / 2 ^ 54 :=
    hpower ▸ abs_nearestDouble_sub_le (by norm_num) hsmall
  have hnonneg : ((0 : Int) : Rat) ≤ nearestDouble (u / 10 ^ 6) := by
    apply le_nearestDouble
    · exact hsmall.trans_le (zpow_le_zpow_right₀ one_le_two (by norm_num))
    · rw [Int.cast_zero]
      positivity
  rw [Int.cast_zero] at hnonneg
  refine ⟨hnonneg, ?_, hnear⟩
  have hbelow := (abs_le.mp hnear).2
  have hdiv : (u : Rat) / 10 ^ 6 ≤ (10 ^ 6 - 1) / 10 ^ 6 :=
    div_le_div_of_nonneg_right hu₁ (by norm_num)
  norm_num at hdiv hbelow ⊢
  linarith

theorem clockFloat_near {k : Int} (hu : 0 ≤ u) (hu' : u < 10 ^ 6) (hk : -1021 ≤ k)
    (h : |(s : Rat) + nearestDouble (u / 10 ^ 6)| < 2 ^ k) :
    |clockFloat s u - (s + (u : Rat) / 10 ^ 6)| ≤ 2 ^ (k - 53) / 2 + 1 / 2 ^ 54 := by
  have hsum := abs_nearestDouble_sub_le hk h
  have hfraction := (fraction_spec hu hu').2.2
  calc |clockFloat s u - (s + (u : Rat) / 10 ^ 6)|
      = |(clockFloat s u - (s + nearestDouble (u / 10 ^ 6))) +
          (nearestDouble (u / 10 ^ 6) - (u : Rat) / 10 ^ 6)| := by ring_nf
    _ ≤ |clockFloat s u - (s + nearestDouble (u / 10 ^ 6))| +
          |nearestDouble (u / 10 ^ 6) - (u : Rat) / 10 ^ 6| := abs_add_le _ _
    _ ≤ _ := add_le_add hsum hfraction

theorem truncate_of_nonneg {q : Rat} (h : 0 ≤ q) : truncate q = ⌊q⌋ := if_neg (not_lt.mpr h)

theorem truncate_of_neg {q : Rat} (h : q < 0) : truncate q = ⌈q⌉ := if_pos h

theorem abs_clock_lt {k : Nat} (hu : 0 ≤ u) (hu' : u < 10 ^ 6) (hs : 0 ≤ s) (hk : s < 2 ^ k) :
    |(s : Rat) + nearestDouble (u / 10 ^ 6)| < 2 ^ (k : Int) := by
  obtain ⟨hnonneg, hlt, -⟩ := fraction_spec hu hu'
  have hs₀ : (0 : Rat) ≤ s := by exact_mod_cast hs
  have hs₁ : (s : Rat) + 1 ≤ 2 ^ k := by exact_mod_cast hk
  rw [abs_of_nonneg (by linarith), zpow_natCast]
  linarith

/-- The seconds as a float, and a thousand times as many. -/
theorem clockFloat_bounds {k : Nat} (hk : k ≤ 43) (hu : 0 ≤ u) (hu' : u < 10 ^ 6) (hs : 0 ≤ s)
    (hsmall : s < 2 ^ k) :
    0 ≤ clockFloat s u ∧ |clockFloat s u * 1000| < 2 ^ ((k : Int) + 10) := by
  have hclock := abs_clock_lt hu hu' hs hsmall
  have hclock53 : |(s : Rat) + nearestDouble (u / 10 ^ 6)| < 2 ^ (53 : Int) :=
    hclock.trans_le (zpow_le_zpow_right₀ one_le_two (by omega))
  obtain ⟨hnonneg, -, -⟩ := fraction_spec hu hu'
  have hs₀ : (0 : Rat) ≤ s := by exact_mod_cast hs
  have hlow : ((0 : Int) : Rat) ≤ clockFloat s u :=
    le_nearestDouble hclock53 (by rw [Int.cast_zero]; linarith)
  have hhigh : clockFloat s u ≤ ((2 ^ k : Int) : Rat) := by
    apply nearestDouble_le hclock53
    rw [zpow_natCast] at hclock
    exact_mod_cast (le_abs_self _).trans hclock.le
  rw [Int.cast_zero] at hlow
  refine ⟨hlow, ?_⟩
  have hpower : (0 : Rat) < 2 ^ k := by positivity
  push_cast at hhigh
  rw [abs_of_nonneg (by linarith), zpow_add₀ two_ne_zero, zpow_natCast]
  norm_num
  linarith

/-- The milliseconds that are sent are in the second of the float, and close to the clock. -/
theorem sentMillis_spec (hu : 0 ≤ u) (hu' : u < 10 ^ 6) (hs : 0 ≤ s) (hsmall : s < 2 ^ 38) :
    0 ≤ sentMillis s u ∧ sentMillis s u / 1000 = ⌊clockFloat s u⌋ ∧
      |1000 * sentMillis s u - (s * 10 ^ 6 + u)| ≤ 1031 := by
  have hclock := abs_clock_lt hu hu' hs hsmall
  have hclock53 : |(s : Rat) + nearestDouble (u / 10 ^ 6)| < 2 ^ (53 : Int) :=
    hclock.trans_le (zpow_le_zpow_right₀ one_le_two (by norm_num))
  obtain ⟨hnonneg, hproduct⟩ := clockFloat_bounds (by norm_num) hu hu' hs hsmall
  have hproduct53 : |clockFloat s u * 1000| < 2 ^ (53 : Int) :=
    hproduct.trans_le (zpow_le_zpow_right₀ one_le_two (by norm_num))
  have hlow : ((⌊clockFloat s u⌋ * 1000 : Int) : Rat) ≤ nearestDouble (clockFloat s u * 1000) := by
    apply le_nearestDouble hproduct53
    push_cast
    linarith [Int.floor_le (clockFloat s u)]
  have hhigh :
      nearestDouble (clockFloat s u * 1000) < (((⌊clockFloat s u⌋ + 1) * 1000 : Int) : Rat) := by
    have hfloor :
        nearestDouble (s + nearestDouble (u / 10 ^ 6)) < ((⌊clockFloat s u⌋ + 1 : Int) : Rat) := by
      push_cast
      exact Int.lt_floor_add_one (clockFloat s u)
    rw [Int.cast_mul, Int.cast_ofNat]
    exact thousandfold_lt hclock53 hfloor
  have hfloor : 0 ≤ ⌊clockFloat s u⌋ := Int.floor_nonneg.mpr hnonneg
  have hnonneg' : 0 ≤ nearestDouble (clockFloat s u * 1000) := by
    apply le_trans _ hlow
    exact_mod_cast (by omega : 0 ≤ ⌊clockFloat s u⌋ * 1000)
  have hsent : sentMillis s u = ⌊nearestDouble (clockFloat s u * 1000)⌋ :=
    truncate_of_nonneg hnonneg'
  have hsecond : ⌊clockFloat s u⌋ * 1000 ≤ sentMillis s u ∧
      sentMillis s u < (⌊clockFloat s u⌋ + 1) * 1000 := by
    rw [hsent]
    exact ⟨Int.le_floor.mpr hlow, Int.floor_lt.mpr hhigh⟩
  refine ⟨by omega, by omega, ?_⟩
  have hsum := abs_le.mp (clockFloat_near hu hu' (by norm_num) hclock)
  have hrounded := abs_le.mp (abs_nearestDouble_sub_le (by norm_num) hproduct)
  have hsentLow := Int.floor_le (nearestDouble (clockFloat s u * 1000))
  have hsentHigh := Int.lt_floor_add_one (nearestDouble (clockFloat s u * 1000))
  rw [← hsent] at hsentLow hsentHigh
  norm_num at hsum hrounded
  have habs :
      |((1000 * sentMillis s u - (s * 10 ^ 6 + u) : Int) : Rat)| ≤ ((1031 : Int) : Rat) := by
    rw [abs_le]
    push_cast
    constructor <;> linarith
  exact_mod_cast habs

/-- Less than a millisecond before 1970 is sent as 1970. -/
theorem sentMillis_eq_zero (hu : 10 ^ 6 - 1000 < u) (hu' : u < 10 ^ 6) :
    sentMillis (-1) u = 0 ∧ ⌊clockFloat (-1) u⌋ ≤ 0 := by
  have hu₀ : (10 : Rat) ^ 6 - 999 ≤ u := by exact_mod_cast (show (10 : Int) ^ 6 - 999 ≤ u by omega)
  have hu₁ : (u : Rat) ≤ 10 ^ 6 - 1 := by exact_mod_cast (show u ≤ 10 ^ 6 - 1 by omega)
  obtain ⟨hnonneg, hlt, -⟩ := fraction_spec (by omega : 0 ≤ u) hu'
  have hclock : |((-1 : Int) : Rat) + nearestDouble (u / 10 ^ 6)| < 2 ^ (1 : Int) := by
    rw [abs_lt]
    norm_num
    constructor <;> linarith
  have hsum := abs_le.mp (clockFloat_near (by omega) hu' (by norm_num) hclock)
  norm_num at hsum
  have hproduct : |clockFloat (-1) u * 1000| < 2 ^ (1 : Int) := by
    rw [abs_lt]
    norm_num
    constructor <;> linarith
  have hrounded := abs_le.mp (abs_nearestDouble_sub_le (by norm_num) hproduct)
  norm_num at hrounded
  constructor
  · rcases lt_or_ge (nearestDouble (clockFloat (-1) u * 1000)) 0 with hneg | hpos
    · rw [sentMillis, truncate_of_neg hneg, Int.ceil_eq_zero_iff, Set.mem_Ioc]
      exact ⟨by linarith, hneg.le⟩
    · rw [sentMillis, truncate_of_nonneg hpos, Int.floor_eq_zero_iff, Set.mem_Ico]
      exact ⟨hpos, by linarith⟩
  · rw [← Int.lt_add_one_iff, zero_add, Int.floor_lt, Int.cast_one]
    linarith

/-- The last millisecond before 1970, which is not sent as 1970. -/
theorem sentMillis_last : nearestDouble (clockFloat (-1) 999000 * 1000) ≤ -1 := by decide +kernel

/-- A millisecond before 1970 and earlier is negative. -/
theorem sentMillis_neg (hu : 0 ≤ u) (hu' : u < 10 ^ 6) (hearly : s * 10 ^ 6 + u ≤ -1000)
    (hs : -2 ^ 38 ≤ s) :
    sentMillis s u < 0 := by
  suffices hproduct : nearestDouble (clockFloat s u * 1000) ≤ ((-1 : Int) : Rat) by
    have hneg : nearestDouble (clockFloat s u * 1000) < 0 := hproduct.trans_lt (by norm_num)
    rw [sentMillis, truncate_of_neg hneg]
    have hceil : ⌈nearestDouble (clockFloat s u * 1000)⌉ ≤ -1 := Int.ceil_le.mpr hproduct
    omega
  obtain ⟨hnonneg, hlt, hfraction⟩ := fraction_spec hu hu'
  rcases lt_or_ge s (-1) with hearlier | hlast
  · -- A second or more: integers are not crossed on the way.
    have hs₀ : ((-2 ^ 38 : Int) : Rat) ≤ s := Int.cast_le.mpr hs
    have hs₁ : (s : Rat) ≤ -2 := by exact_mod_cast (show s ≤ -2 by omega)
    have hclock : |(s : Rat) + nearestDouble (u / 10 ^ 6)| < 2 ^ (53 : Int) := by
      rw [abs_lt]
      norm_num at hs₀ ⊢
      constructor <;> linarith
    have hlow : ((-2 ^ 38 : Int) : Rat) ≤ clockFloat s u :=
      le_nearestDouble hclock (hs₀.trans (le_add_of_nonneg_right hnonneg))
    have hhigh : clockFloat s u ≤ ((-1 : Int) : Rat) := by
      apply nearestDouble_le hclock
      push_cast
      linarith
    have hproduct : |clockFloat s u * 1000| < 2 ^ (53 : Int) := by
      rw [abs_lt]
      norm_num at hlow hhigh ⊢
      constructor <;> linarith
    apply nearestDouble_le hproduct
    push_cast at hhigh ⊢
    linarith
  · obtain rfl : s = -1 := by omega
    obtain rfl | hbefore : u = 999000 ∨ u ≤ 998999 := by omega
    · exact_mod_cast sentMillis_last
    · have hu₁ : (u : Rat) ≤ 998999 := by exact_mod_cast hbefore
      have hu₀ : (0 : Rat) ≤ u := by exact_mod_cast hu
      have hclock : |((-1 : Int) : Rat) + nearestDouble (u / 10 ^ 6)| < 2 ^ (1 : Int) := by
        rw [abs_lt]
        norm_num
        constructor <;> linarith
      have hsum := abs_le.mp (clockFloat_near hu hu' (by norm_num) hclock)
      norm_num at hsum
      have hproduct : |clockFloat (-1) u * 1000| < 2 ^ (10 : Int) := by
        rw [abs_lt]
        norm_num
        constructor <;> linarith
      have hrounded := abs_le.mp (abs_nearestDouble_sub_le (by norm_num) hproduct)
      norm_num at hrounded
      push_cast
      linarith

/-- Only a datetime later than a millisecond before 1970 has milliseconds that are not negative. -/
theorem late_of_sentMillis (hu : 0 ≤ u) (hu' : u < 10 ^ 6) (hs : -2 ^ 38 ≤ s)
    (hnonneg : 0 ≤ sentMillis s u) :
    -1000 < s * 10 ^ 6 + u := by
  by_contra hearly
  exact absurd hnonneg (not_le.mpr (sentMillis_neg hu hu' (not_lt.mp hearly) hs))

/-- Later than a millisecond before 1970, the milliseconds are in the second of the float or of
1970, and close to the clock. -/
theorem sentMillis_late (hu : 0 ≤ u) (hu' : u < 10 ^ 6) (hlate : -1000 < s * 10 ^ 6 + u)
    (hsmall : s < 2 ^ 38) :
    0 ≤ sentMillis s u ∧ sentMillis s u / 1000 = max ⌊clockFloat s u⌋ 0 ∧
      |1000 * sentMillis s u - (s * 10 ^ 6 + u)| ≤ 1031 := by
  rcases lt_or_ge s 0 with hneg | hs
  · obtain rfl : s = -1 := by omega
    obtain ⟨hzero, hfloor⟩ := sentMillis_eq_zero (by omega) hu'
    rw [hzero, max_eq_right hfloor, abs_le]
    omega
  · obtain ⟨hnonneg, hsecond, hnear⟩ := sentMillis_spec hu hu' hs hsmall
    rw [max_eq_left (by omega)]
    exact ⟨hnonneg, hsecond, hnear⟩

/-- Before 2242 the milliseconds of the clock are sent, unless it shows whole ones and the product
of doubles falls short of them. -/
theorem sentMillis_exact (hu : 0 ≤ u) (hu' : u < 10 ^ 6) (hs : 0 ≤ s) (hsmall : s < 2 ^ 33) :
    sentMillis s u ≤ (s * 10 ^ 6 + u) / 1000 ∧
      (sentMillis s u = (s * 10 ^ 6 + u) / 1000 ↔ ((s * 10 ^ 6 + u) % 1000 = 0 →
        (((s * 10 ^ 6 + u) / 1000 : Int) : Rat) ≤ nearestDouble (clockFloat s u * 1000))) := by
  have hclock := abs_clock_lt hu hu' hs hsmall
  obtain ⟨hnonneg, hproduct⟩ := clockFloat_bounds (by norm_num) hu hu' hs hsmall
  have hproduct53 : |clockFloat s u * 1000| < 2 ^ (53 : Int) :=
    hproduct.trans_le (zpow_le_zpow_right₀ one_le_two (by norm_num))
  have hnonneg' : ((0 : Int) : Rat) ≤ nearestDouble (clockFloat s u * 1000) := by
    apply le_nearestDouble hproduct53
    push_cast
    linarith
  have hsent : sentMillis s u = ⌊nearestDouble (clockFloat s u * 1000)⌋ :=
    truncate_of_nonneg (by exact_mod_cast hnonneg')
  have hsum := abs_le.mp (clockFloat_near hu hu' (by norm_num) hclock)
  have hrounded := abs_le.mp (abs_nearestDouble_sub_le (by norm_num) hproduct)
  norm_num at hsum hrounded
  generalize hm : (s * 10 ^ 6 + u) / 1000 = m
  generalize hr : (s * 10 ^ 6 + u) % 1000 = r
  have hvalue : s * 10 ^ 6 + u = 1000 * m + r := by omega
  have hr₀ : 0 ≤ r := by omega
  have hr₁ : r ≤ 999 := by omega
  have hvalue' : (s : Rat) * 10 ^ 6 + u = 1000 * m + r := by exact_mod_cast hvalue
  have hr₁' : (r : Rat) ≤ 999 := by exact_mod_cast hr₁
  have hhigh : nearestDouble (clockFloat s u * 1000) < m + 1 := by linarith
  rw [hsent, Int.floor_eq_iff]
  refine ⟨Int.lt_add_one_iff.mp (Int.floor_lt.mpr (by exact_mod_cast hhigh)), ?_⟩
  constructor
  · exact fun h _ => h.1
  · intro h
    refine ⟨?_, hhigh⟩
    by_cases hzero : r = 0
    · exact h hzero
    · have hr' : (1 : Rat) ≤ r := by exact_mod_cast (show 1 ≤ r by omega)
      apply le_nearestDouble hproduct53
      linarith

end Send

/-! Instants. -/

namespace DateTime

/-- The years from 1 to 9999. -/
def InRange (d : DateTime) : Prop := -62135596800 * 10 ^ 6 ≤ d.wall ∧ d.wall < 253402300800 * 10 ^ 6

/-- Microseconds of POSIX time. -/
def instant (P : Platform) (d : DateTime) : Except PyError Int :=
  match d.offset with
  | some offset => .ok (d.wall - offset)
  | none =>
      match P.mktime (d.wall / 10 ^ 6) with
      | .ok seconds => .ok (seconds * 10 ^ 6 + d.wall % 10 ^ 6)
      | .error e => .error e.raised

/-- A clock that shows the datetime at the instant. -/
def Denotes (P : Platform) (d : DateTime) (instant : Int) : Prop :=
  match d.offset with
  | some offset => instant = d.wall - offset
  | none =>
      P.localtime (instant / 10 ^ 6) = .ok (d.wall / 10 ^ 6) ∧ instant % 10 ^ 6 = d.wall % 10 ^ 6

/-- The datetime is naive, less than a millisecond before 1970 or later, and the clock shows the
second of its float. -/
structure Portable (P : Platform) (d : DateTime) : Prop where
  naive : d.offset = none
  sinceEpoch : ∃ instant, d.instant P = .ok instant ∧ -1000 < instant
  shown : ∃ t wall, d.timestamp P = .ok t ∧ P.localtime (max ⌊t⌋ 0) = .ok wall

/-- The datetime is not before 1970, and if it is a whole number of milliseconds, the product of
doubles does not fall short of it. -/
def Exact (P : Platform) (d : DateTime) : Prop :=
  ∃ instant t, d.instant P = .ok instant ∧ d.timestamp P = .ok t ∧ 0 ≤ instant ∧
    (instant % 1000 = 0 → ((instant / 1000 : Int) : Rat) ≤ nearestDouble (t * 1000))

end DateTime

/-- Local time is at most a day from UTC, and no clock is set back by less than two seconds. -/
structure Platform.Clock (P : Platform) : Prop where
  offset : ∀ wall seconds, P.mktime wall = .ok seconds → |seconds - wall| ≤ 86400
  back : ∀ a b wall, P.localtime a = .ok wall → P.localtime b = .ok wall → a = b ∨ 2 ≤ |a - b|

/-- At most a millisecond apart, to the nearest millisecond. -/
def WithinMillisecond (instant instant' : Int) : Prop := |instant' - instant| < 1500

def SameMillisecond (instant instant' : Int) : Prop := instant' / 1000 = instant / 1000

/-- The datetime is written, and read back as one that is naive or aware as it was, for the same
instant. -/
def KeepsInstant (P : Platform) (d : DateTime) (same : Int → Int → Prop) : Prop :=
  ∃ data d' instant instant', serializeConditionValue P (.datetime d) = .ok data ∧
    Decoder.Reads (deserializeConditionValue P) data (.ok (.datetime d')) ∧
    d'.offset.isSome = d.offset.isSome ∧ d.instant P = .ok instant ∧ d'.Denotes P instant' ∧
    same instant instant'

section

variable {P : Platform} {d : DateTime} {same : Int → Int → Prop}

namespace DateTime

theorem timestamp_naive {s : Int} (hnaive : d.offset = none)
    (hclock : P.mktime (d.wall / 10 ^ 6) = .ok s) :
    d.timestamp P = .ok (clockFloat s (d.wall % 10 ^ 6)) := by
  rw [timestamp, hnaive]
  dsimp only
  rw [hclock]
  rfl

theorem instant_naive {s : Int} (hnaive : d.offset = none)
    (hclock : P.mktime (d.wall / 10 ^ 6) = .ok s) :
    d.instant P = .ok (s * 10 ^ 6 + d.wall % 10 ^ 6) := by
  rw [instant, hnaive]
  dsimp only
  rw [hclock]

theorem mktime_of_instant {i : Int} (hnaive : d.offset = none) (h : d.instant P = .ok i) :
    ∃ s, P.mktime (d.wall / 10 ^ 6) = .ok s ∧ i = s * 10 ^ 6 + d.wall % 10 ^ 6 := by
  rw [instant, hnaive] at h
  dsimp only at h
  split at h
  case h_1 s hclock => exact ⟨s, hclock, (Except.ok.inj h).symm⟩
  case h_2 => cases h

theorem toMillis_naive {s : Int} (hnaive : d.offset = none)
    (hclock : P.mktime (d.wall / 10 ^ 6) = .ok s) :
    d.toMillis P = .ok (sentMillis s (d.wall % 10 ^ 6)) := by
  rw [toMillis, timestamp_naive hnaive hclock]
  rfl

theorem fromtimestamp_eq (P : Platform) (t : Rat) : fromtimestamp P t =
    if 2 ^ 63 ≤ floatMicros t / 10 ^ 6 then
    .error (.overflowError "timestamp out of range for platform time_t")
    else
      match P.localtime (floatMicros t / 10 ^ 6) with
      | .ok wall => .ok ⟨wall * 10 ^ 6 + floatMicros t % 10 ^ 6, none⟩
      | .error e => .error e.raised := rfl

/-- Milliseconds before the year 10680 are no number that Python cannot convert. -/
theorem ofMillis_eq (P : Platform) {millis : Nat} (h : millis < 2 ^ 38 * 1000) : ofMillis P millis =
    match P.localtime (millis / 1000) with
    | .ok wall => .ok ⟨wall * 10 ^ 6 + readMicros millis % 10 ^ 6, none⟩
    | .error e => .error e.raised := by
  have hsecond := (readMicros_spec h).2
  have hsmall : ¬ (2 : Rat) ^ 1024 ≤ nearestDouble (millis / 1000) := by
    rw [not_le]
    have hquotient := abs_millis_lt h
    have hdouble : nearestDouble (millis / 1000) ≤ ((2 ^ 38 : Int) : Rat) := by
      apply nearestDouble_le
      · exact hquotient.trans_le (zpow_le_zpow_right₀ one_le_two (by norm_num))
      · push_cast
        exact (le_abs_self _).trans hquotient.le
    rw [Int.cast_pow, Int.cast_ofNat] at hdouble
    have hpower : (2 : Rat) ^ 38 < 2 ^ 1024 := pow_lt_pow_right₀ (by norm_num) (by norm_num)
    exact hdouble.trans_lt hpower
  have hmicros : floatMicros (nearestDouble (millis / 1000)) = readMicros millis := rfl
  rw [ofMillis, if_neg hsmall, fromtimestamp_eq, hmicros, hsecond, if_neg (by omega)]

theorem naive_of_ofMillis {millis : Nat} (h : ofMillis P millis = .ok d) : d.offset = none := by
  unfold ofMillis at h
  dsimp only at h
  split at h
  · cases h
  · unfold fromtimestamp at h
    dsimp only at h
    split at h
    · cases h
    · split at h
      · obtain rfl := Except.ok.inj h
        rfl
      · cases h

theorem bounds_of_clock (hP : P.Clock) (hd : d.InRange) {s : Int}
    (hclock : P.mktime (d.wall / 10 ^ 6) = .ok s) :
    -2 ^ 37 ≤ s ∧ s < 2 ^ 38 - 1 := by
  have hoffset := abs_le.mp (hP.offset _ _ hclock)
  obtain ⟨hlow, hhigh⟩ := hd
  omega

end DateTime

/-- A datetime is read from the milliseconds that are written. -/
theorem reads_datetime_iff {d' : DateTime} :
    (∃ data, serializeConditionValue P (.datetime d) = .ok data ∧
      Decoder.Reads (deserializeConditionValue P) data (.ok (.datetime d'))) ↔
    ∃ millis, d.toMillis P = .ok millis ∧ 0 ≤ millis ∧
    DateTime.ofMillis P millis.toNat = .ok d' := by
  constructor
  · rintro ⟨data, hserialize, hreads⟩
    have htransport := transport_of_reads hserialize hreads
    obtain ⟨millis, hmillis, hserialize⟩ := bind_eq_ok hserialize
    rw [transport, hmillis, ok_bind] at htransport
    refine ⟨millis, hmillis, ?_, ?_⟩
    · by_contra hneg
      rw [encodeVarint, if_pos (not_le.mp hneg)] at hserialize
      cases hserialize
    · cases hread : DateTime.ofMillis P millis.toNat with
      | error e =>
          rw [hread] at htransport
          cases htransport
      | ok d'' =>
          rw [hread] at htransport
          rw [ConditionValue.datetime.inj (Except.ok.inj htransport)]
  · rintro ⟨millis, hmillis, hnonneg, hread⟩
    have hserialize : serializeConditionValue P (.datetime d) =
        .ok (ConditionValueId.datetime.byte :: Varint.encode millis.toNat) := by
      rw [serializeConditionValue, hmillis, ok_bind, encodeVarint_of_nonneg hnonneg]
      rfl
    refine ⟨_, hserialize, ?_⟩
    have hreads := reads_value hserialize
    rw [transport, hmillis, ok_bind, hread] at hreads
    exact hreads

theorem naive_of_keepsInstant (h : KeepsInstant P d same) : d.offset = none := by
  obtain ⟨data, d', instant, instant', hserialize, hreads, haware, -⟩ := h
  obtain ⟨millis, -, -, hread⟩ := reads_datetime_iff.mp ⟨data, hserialize, hreads⟩
  rw [DateTime.naive_of_ofMillis hread, Option.isSome_none] at haware
  exact Option.isSome_eq_false_iff.mp haware.symm |> Option.isNone_iff_eq_none.mp

/-- The instants of a naive datetime, on a clock that works, before and after. -/
theorem keepsInstant_naive_iff (hP : P.Clock) (hd : d.InRange) (hnaive : d.offset = none) {s : Int}
    (hclock : P.mktime (d.wall / 10 ^ 6) = .ok s) :
    KeepsInstant P d same ↔ 0 ≤ sentMillis s (d.wall % 10 ^ 6) ∧
      ∃ wall instant', P.localtime (sentMillis s (d.wall % 10 ^ 6) / 1000) = .ok wall ∧
        DateTime.Denotes P
          ⟨wall * 10 ^ 6 + readMicros (sentMillis s (d.wall % 10 ^ 6)).toNat % 10 ^ 6,
            none⟩ instant' ∧
        same (s * 10 ^ 6 + d.wall % 10 ^ 6) instant' := by
  have hmillis := DateTime.toMillis_naive hnaive hclock
  have hinstant := DateTime.instant_naive hnaive hclock
  obtain ⟨hs, hs'⟩ := DateTime.bounds_of_clock hP hd hclock
  have hu : 0 ≤ d.wall % 10 ^ 6 := by omega
  have hu' : d.wall % 10 ^ 6 < 10 ^ 6 := by omega
  generalize d.wall % 10 ^ 6 = u at hmillis hinstant hu hu' ⊢
  have hbound (hnonneg : 0 ≤ sentMillis s u) : (sentMillis s u).toNat < 2 ^ 38 * 1000 := by
    have hlate := late_of_sentMillis hu hu' (by omega) hnonneg
    have hnear := abs_le.mp (sentMillis_late hu hu' hlate (by omega)).2.2
    omega
  constructor
  · rintro ⟨data, d', instant, instant', hserialize, hreads, -, hbefore, hdenotes, hsame⟩
    obtain ⟨millis, hsent, hnonneg, hread⟩ := reads_datetime_iff.mp ⟨data, hserialize, hreads⟩
    obtain rfl : sentMillis s u = millis := Except.ok.inj (hmillis.symm.trans hsent)
    obtain rfl : s * 10 ^ 6 + u = instant := Except.ok.inj (hinstant.symm.trans hbefore)
    rw [DateTime.ofMillis_eq P (hbound hnonneg), Int.toNat_of_nonneg hnonneg] at hread
    split at hread
    case h_1 wall hwall =>
        obtain rfl := Except.ok.inj hread
        exact ⟨hnonneg, wall, instant', hwall, hdenotes, hsame⟩
    case h_2 => cases hread
  · rintro ⟨hnonneg, wall, instant', hwall, hdenotes, hsame⟩
    have hread : DateTime.ofMillis P (sentMillis s u).toNat =
        .ok ⟨wall * 10 ^ 6 + readMicros (sentMillis s u).toNat % 10 ^ 6, none⟩ := by
      rw [DateTime.ofMillis_eq P (hbound hnonneg), Int.toNat_of_nonneg hnonneg, hwall]
    obtain ⟨data, hserialize, hreads⟩ := reads_datetime_iff.mpr ⟨_, hmillis, hnonneg, hread⟩
    exact ⟨data, _, _, instant', hserialize, hreads, by rw [hnaive], hinstant, hdenotes, hsame⟩

/-- What is read denotes the microseconds that are read. -/
theorem denotes_readMicros {millis : Nat} {wall : Int} (hmillis : millis < 2 ^ 38 * 1000)
    (hwall : P.localtime (millis / 1000) = .ok wall) :
    DateTime.Denotes P ⟨wall * 10 ^ 6 + readMicros millis % 10 ^ 6, none⟩ (readMicros millis) := by
  have hsecond := (readMicros_spec hmillis).2
  have hclock : (wall * 10 ^ 6 + readMicros millis % 10 ^ 6) / 10 ^ 6 = wall := by omega
  have hmicros :
      readMicros millis % 10 ^ 6 = (wall * 10 ^ 6 + readMicros millis % 10 ^ 6) % 10 ^ 6 := by omega
  refine ⟨?_, hmicros⟩
  rw [hsecond, hclock, hwall]

/-- No other instant nearby is shown in the same way. -/
theorem eq_of_denotes (hP : P.Clock) {shown : DateTime} {a b : Int} (hnaive : shown.offset = none)
    (ha : shown.Denotes P a) (hb : shown.Denotes P b) (hnear : |a - b| < 2 * 10 ^ 6) : a = b := by
  rw [DateTime.Denotes, hnaive] at ha hb
  obtain ⟨hsecond, hmicros⟩ := ha
  obtain ⟨hsecond', hmicros'⟩ := hb
  rw [abs_lt] at hnear
  obtain heq | hback := hP.back _ _ _ hsecond hsecond'
  · omega
  · rw [le_abs] at hback
    omega

/-- A naive datetime arrives in the second of its float, at most a millisecond away. -/
theorem keepsInstant_within_iff (hP : P.Clock) (hd : d.InRange) (hnaive : d.offset = none) {s : Int}
    (hclock : P.mktime (d.wall / 10 ^ 6) = .ok s) :
    KeepsInstant P d WithinMillisecond ↔ -1000 < s * 10 ^ 6 + d.wall % 10 ^ 6 ∧
      ∃ wall, P.localtime (max ⌊clockFloat s (d.wall % 10 ^ 6)⌋ 0) = .ok wall := by
  rw [keepsInstant_naive_iff hP hd hnaive hclock]
  obtain ⟨hs, hs'⟩ := DateTime.bounds_of_clock hP hd hclock
  have hu : 0 ≤ d.wall % 10 ^ 6 := by omega
  have hu' : d.wall % 10 ^ 6 < 10 ^ 6 := by omega
  generalize d.wall % 10 ^ 6 = u at hu hu' ⊢
  constructor
  · rintro ⟨hnonneg, wall, -, hwall, -⟩
    have hlate := late_of_sentMillis hu hu' (by omega) hnonneg
    exact ⟨hlate, wall, (sentMillis_late hu hu' hlate (by omega)).2.1 ▸ hwall⟩
  · rintro ⟨hlate, wall, hwall⟩
    obtain ⟨hnonneg, hsecond, hnear⟩ := sentMillis_late hu hu' hlate (by omega)
    rw [abs_le] at hnear
    have hbound : (sentMillis s u).toNat < 2 ^ 38 * 1000 := by omega
    have hread := abs_le.mp (readMicros_spec hbound).1
    rw [← hsecond] at hwall
    refine ⟨hnonneg, wall, readMicros (sentMillis s u).toNat, hwall,
      denotes_readMicros hbound ?_, ?_⟩
    · rwa [Int.toNat_of_nonneg hnonneg]
    · rw [WithinMillisecond, abs_lt]
      omega

/-- Before 2242 it arrives in the same millisecond, if the doubles do not fall short. -/
theorem keepsInstant_same_iff (hP : P.Clock) (hd : d.InRange) (hnaive : d.offset = none) {s : Int}
    (hclock : P.mktime (d.wall / 10 ^ 6) = .ok s) (hbefore : s < 2 ^ 33) :
    KeepsInstant P d SameMillisecond ↔ 0 ≤ s * 10 ^ 6 + d.wall % 10 ^ 6 ∧
      ((s * 10 ^ 6 + d.wall % 10 ^ 6) % 1000 = 0 →
        (((s * 10 ^ 6 + d.wall % 10 ^ 6) / 1000 : Int) : Rat) ≤
        nearestDouble (clockFloat s (d.wall % 10 ^ 6) * 1000)) ∧
      ∃ wall, P.localtime (max ⌊clockFloat s (d.wall % 10 ^ 6)⌋ 0) = .ok wall := by
  rw [keepsInstant_naive_iff hP hd hnaive hclock]
  obtain ⟨hs, -⟩ := DateTime.bounds_of_clock hP hd hclock
  have hu : 0 ≤ d.wall % 10 ^ 6 := by omega
  have hu' : d.wall % 10 ^ 6 < 10 ^ 6 := by omega
  generalize d.wall % 10 ^ 6 = u at hu hu' ⊢
  constructor
  · rintro ⟨hnonneg, wall, instant', hwall, hdenotes, hsame⟩
    have hlate := late_of_sentMillis hu hu' (by omega) hnonneg
    obtain ⟨-, hsecond, hnear⟩ := sentMillis_late hu hu' hlate (by omega)
    rw [abs_le] at hnear
    have hbound : (sentMillis s u).toNat < 2 ^ 38 * 1000 := by omega
    have hread := abs_le.mp (readMicros_spec hbound).1
    have hshown : P.localtime ((sentMillis s u).toNat / 1000 : Int) = .ok wall := by
      rwa [Int.toNat_of_nonneg hnonneg]
    rw [SameMillisecond] at hsame
    -- Within a second, the instant that is shown is the one that is read.
    obtain rfl : instant' = readMicros (sentMillis s u).toNat := by
      apply eq_of_denotes hP rfl hdenotes (denotes_readMicros hbound hshown)
      rw [abs_lt]
      omega
    rcases lt_or_ge s 0 with hneg | hpos
    · obtain rfl : s = -1 := by omega
      have hzero := (sentMillis_eq_zero (by omega) hu').1
      have hread : readMicros (sentMillis (-1) u).toNat = 0 := by
        rw [hzero, readMicros_eq (by decide)]
        rfl
      omega
    · obtain ⟨hle, hexact⟩ := sentMillis_exact hu hu' hpos hbefore
      have hread : readMicros (sentMillis s u).toNat = 1000 * (sentMillis s u).toNat :=
        readMicros_eq (by omega)
      exact ⟨by omega, hexact.mp (by omega), wall, hsecond ▸ hwall⟩
  · rintro ⟨hepoch, hdouble, wall, hwall⟩
    have hlate : -1000 < s * 10 ^ 6 + u := by omega
    have hsent := (sentMillis_exact hu hu' (by omega) hbefore).2.mpr hdouble
    obtain ⟨hnonneg, hsecond, -⟩ := sentMillis_late hu hu' hlate (by omega)
    have hbound : (sentMillis s u).toNat < 2 ^ 33 * 1000 := by omega
    rw [← hsecond] at hwall
    refine ⟨hnonneg, wall, readMicros (sentMillis s u).toNat, hwall,
      denotes_readMicros (by omega) ?_, ?_⟩
    · rwa [Int.toNat_of_nonneg hnonneg]
    · rw [SameMillisecond, readMicros_eq hbound]
      omega

theorem clock_of_keepsInstant (h : KeepsInstant P d same) :
    d.offset = none ∧ ∃ s, P.mktime (d.wall / 10 ^ 6) = .ok s := by
  have hnaive := naive_of_keepsInstant h
  obtain ⟨-, -, instant, -, -, -, -, hinstant, -⟩ := h
  obtain ⟨s, hclock, -⟩ := DateTime.mktime_of_instant hnaive hinstant
  exact ⟨hnaive, s, hclock⟩

theorem DateTime.Portable.clock (h : d.Portable P) :
    d.offset = none ∧ ∃ s, P.mktime (d.wall / 10 ^ 6) = .ok s := by
  obtain ⟨instant, hinstant, -⟩ := h.sinceEpoch
  obtain ⟨s, hclock, -⟩ := mktime_of_instant h.naive hinstant
  exact ⟨h.naive, s, hclock⟩

theorem DateTime.portable_iff (hnaive : d.offset = none) {s : Int}
    (hclock : P.mktime (d.wall / 10 ^ 6) = .ok s) :
    d.Portable P ↔ -1000 < s * 10 ^ 6 + d.wall % 10 ^ 6 ∧
      ∃ wall, P.localtime (max ⌊clockFloat s (d.wall % 10 ^ 6)⌋ 0) = .ok wall := by
  have hinstant := instant_naive hnaive hclock
  have htimestamp := timestamp_naive hnaive hclock
  constructor
  · rintro ⟨-, ⟨instant, h, hlate⟩, ⟨t, wall, ht, hwall⟩⟩
    obtain rfl := Except.ok.inj (hinstant.symm.trans h)
    obtain rfl := Except.ok.inj (htimestamp.symm.trans ht)
    exact ⟨hlate, wall, hwall⟩
  · rintro ⟨hlate, wall, hwall⟩
    exact ⟨hnaive, ⟨_, hinstant, hlate⟩, ⟨_, wall, htimestamp, hwall⟩⟩

theorem DateTime.exact_iff (hnaive : d.offset = none) {s : Int}
    (hclock : P.mktime (d.wall / 10 ^ 6) = .ok s) :
    d.Exact P ↔ 0 ≤ s * 10 ^ 6 + d.wall % 10 ^ 6 ∧
      ((s * 10 ^ 6 + d.wall % 10 ^ 6) % 1000 = 0 →
        (((s * 10 ^ 6 + d.wall % 10 ^ 6) / 1000 : Int) : Rat) ≤
        nearestDouble (clockFloat s (d.wall % 10 ^ 6) * 1000)) := by
  have hinstant := instant_naive hnaive hclock
  have htimestamp := timestamp_naive hnaive hclock
  constructor
  · rintro ⟨instant, t, h, ht, hexact⟩
    obtain rfl := Except.ok.inj (hinstant.symm.trans h)
    obtain rfl := Except.ok.inj (htimestamp.symm.trans ht)
    exact hexact
  · exact fun hexact => ⟨_, _, hinstant, htimestamp, hexact⟩

/-- A datetime keeps its instant to a millisecond exactly if it is naive, hardly before 1970, and on
the clock; the very millisecond, before 2242, if moreover the doubles do not fall short of it. -/
theorem datetime_keeps_instant_iff (hP : P.Clock) (hd : d.InRange) :
    (KeepsInstant P d WithinMillisecond ↔ d.Portable P) ∧
      ((∀ instant, d.instant P = .ok instant → instant < 2 ^ 33 * 10 ^ 6) →
        (KeepsInstant P d SameMillisecond ↔ d.Portable P ∧ d.Exact P)) := by
  by_cases hnaive : d.offset = none ∧ ∃ s, P.mktime (d.wall / 10 ^ 6) = .ok s
  · obtain ⟨hnaive, s, hclock⟩ := hnaive
    refine ⟨(keepsInstant_within_iff hP hd hnaive hclock).trans
      (DateTime.portable_iff hnaive hclock).symm, ?_⟩
    intro hbefore
    have hinstant := hbefore _ (DateTime.instant_naive hnaive hclock)
    rw [keepsInstant_same_iff hP hd hnaive hclock (by omega), DateTime.portable_iff hnaive hclock,
      DateTime.exact_iff hnaive hclock]
    constructor
    · rintro ⟨hepoch, hdouble, hwall⟩
      exact ⟨⟨by omega, hwall⟩, hepoch, hdouble⟩
    · rintro ⟨⟨-, hwall⟩, hepoch, hdouble⟩
      exact ⟨hepoch, hdouble, hwall⟩
  · have hlost (same : Int → Int → Prop) : ¬ KeepsInstant P d same :=
      fun h => hnaive (clock_of_keepsInstant h)
    have hportable : ¬ d.Portable P := fun h => hnaive h.clock
    exact ⟨iff_of_false (hlost _) hportable, fun _ => iff_of_false (hlost _) fun h => hportable h.1⟩

theorem Platform.utc_clock : Platform.utc.Clock :=
  { offset := by
      intro wall seconds h
      obtain rfl := Except.ok.inj h
      rw [sub_self, abs_zero]
      decide
    back := by
      intro a b wall ha hb
      obtain rfl := Except.ok.inj ha
      exact .inl (Except.ok.inj hb).symm }

/-- A second in 2023, and some microseconds. -/
theorem keeps_instant_microseconds :
    KeepsInstant Platform.utc ⟨1700000000123456, none⟩ WithinMillisecond :=
  (datetime_keeps_instant_iff Platform.utc_clock ⟨by decide, by decide⟩).1.mpr
    ⟨rfl, ⟨_, rfl, by decide⟩, ⟨_, _, DateTime.timestamp_naive rfl rfl, rfl⟩⟩

/-- A datetime with an offset is read as a naive one. -/
theorem offset_not_kept : ¬ KeepsInstant Platform.utc ⟨0, some 0⟩ WithinMillisecond := by
  intro h
  have hnaive := naive_of_keepsInstant h
  cases hnaive

/-! The datetimes that come back as they were. -/

/-- The clock shows the naive datetime, not before 1970, and the doubles bring back its
microseconds. -/
structure DateTime.Preserved (P : Platform) (d : DateTime) : Prop where
  naive : d.offset = none
  shown : ∃ s, P.mktime (d.wall / 10 ^ 6) = .ok s ∧ 0 ≤ s ∧ P.localtime s = .ok (d.wall / 10 ^ 6) ∧
    readMicros (sentMillis s (d.wall % 10 ^ 6)).toNat = s * 10 ^ 6 + d.wall % 10 ^ 6

/-- Before 2242 the doubles bring back whole milliseconds of which they do not fall short. -/
theorem readMicros_sentMillis_iff {s u : Int} (hu : 0 ≤ u) (hu' : u < 10 ^ 6) (hs : 0 ≤ s)
    (hsmall : s < 2 ^ 33) :
    readMicros (sentMillis s u).toNat = s * 10 ^ 6 + u ↔ u % 1000 = 0 ∧
      (((s * 10 ^ 6 + u) / 1000 : Int) : Rat) ≤ nearestDouble (clockFloat s u * 1000) := by
  obtain ⟨hle, hexact⟩ := sentMillis_exact hu hu' hs hsmall
  have hnonneg := (sentMillis_spec hu hu' hs (by omega)).1
  have hread : readMicros (sentMillis s u).toNat = 1000 * (sentMillis s u).toNat :=
    readMicros_eq (by omega)
  rw [hread, Int.toNat_of_nonneg hnonneg]
  constructor
  · intro h
    have hwhole : (s * 10 ^ 6 + u) % 1000 = 0 := by omega
    exact ⟨by omega, hexact.mp (by omega) hwhole⟩
  · rintro ⟨hwhole, hdouble⟩
    have hsent := hexact.mpr fun _ => hdouble
    omega

theorem mktime_of_toMillis {millis : Int} (hnaive : d.offset = none)
    (h : d.toMillis P = .ok millis) :
    ∃ s, P.mktime (d.wall / 10 ^ 6) = .ok s := by
  rw [DateTime.toMillis, DateTime.timestamp, hnaive] at h
  dsimp only at h
  split at h
  case h_1 s hclock => exact ⟨s, hclock⟩
  case h_2 => cases h

theorem datetime_round_trips_iff (hP : P.Clock) (hd : d.InRange) :
    ValueRoundTrips P (.datetime d) ↔ d.Preserved P := by
  rw [ValueRoundTrips, reads_datetime_iff]
  constructor
  · rintro ⟨millis, hmillis, hnonneg, hread⟩
    have hnaive := DateTime.naive_of_ofMillis hread
    obtain ⟨s, hclock⟩ := mktime_of_toMillis hnaive hmillis
    obtain ⟨hs, hs'⟩ := DateTime.bounds_of_clock hP hd hclock
    obtain rfl := Except.ok.inj ((DateTime.toMillis_naive hnaive hclock).symm.trans hmillis)
    have hu : 0 ≤ d.wall % 10 ^ 6 := by omega
    have hu' : d.wall % 10 ^ 6 < 10 ^ 6 := by omega
    have hlate := late_of_sentMillis hu hu' (by omega) hnonneg
    obtain ⟨-, -, hnear⟩ := sentMillis_late hu hu' hlate (by omega)
    rw [abs_le] at hnear
    have hbound : (sentMillis s (d.wall % 10 ^ 6)).toNat < 2 ^ 38 * 1000 := by omega
    obtain ⟨hreadNear, hreadSecond⟩ := readMicros_spec hbound
    rw [abs_le] at hreadNear
    rw [DateTime.ofMillis_eq P hbound, ← hreadSecond] at hread
    split at hread
    case h_1 wall hwall =>
        have heq := congrArg DateTime.wall (Except.ok.inj hread)
        dsimp only at heq
        have hmicros : readMicros (sentMillis s (d.wall % 10 ^ 6)).toNat = s * 10 ^ 6 +
            d.wall % 10 ^ 6 := by omega
        have hsecond : (s * 10 ^ 6 + d.wall % 10 ^ 6) / 10 ^ 6 = s := by omega
        have hshown : wall = d.wall / 10 ^ 6 := by omega
        rw [hmicros, hsecond, hshown] at hwall
        refine ⟨hnaive, s, hclock, ?_, hwall, hmicros⟩
        rcases lt_or_ge s 0 with hneg | hpos
        · obtain rfl : s = -1 := by omega
          have hzero := (sentMillis_eq_zero (by omega) hu').1
          rw [hzero, readMicros_eq (by decide)] at hmicros
          omega
        · exact hpos
    case h_2 => cases hread
  · rintro ⟨hnaive, s, hclock, hs, hwall, hmicros⟩
    obtain ⟨-, hs'⟩ := DateTime.bounds_of_clock hP hd hclock
    have hu : 0 ≤ d.wall % 10 ^ 6 := by omega
    have hu' : d.wall % 10 ^ 6 < 10 ^ 6 := by omega
    obtain ⟨hnonneg, -, hnear⟩ := sentMillis_spec hu hu' hs (by omega)
    rw [abs_le] at hnear
    have hbound : (sentMillis s (d.wall % 10 ^ 6)).toNat < 2 ^ 38 * 1000 := by omega
    have hsecond : (s * 10 ^ 6 + d.wall % 10 ^ 6) / 10 ^ 6 = s := by omega
    refine ⟨_, DateTime.toMillis_naive hnaive hclock, hnonneg, ?_⟩
    rw [DateTime.ofMillis_eq P hbound, ← (readMicros_spec hbound).2, hmicros, hsecond, hwall]
    have hclockMicros :
        d.wall / 10 ^ 6 * 10 ^ 6 + (s * 10 ^ 6 + d.wall % 10 ^ 6) % 10 ^ 6 = d.wall := by omega
    dsimp only
    rw [hclockMicros, ← hnaive]

end

end Graveboards.Search
