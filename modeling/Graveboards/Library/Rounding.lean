import Mathlib.Algebra.Order.Field.Power
import Mathlib.Data.Int.Log
import Mathlib.Data.Rat.Floor
import Mathlib.Tactic.Linarith
import Mathlib.Tactic.NormNum
import Mathlib.Tactic.Positivity
import Mathlib.Tactic.Ring

/-!
Rounding to the nearest integer, and to the nearest number with so many bits: how far the
result is away, and that integers are never crossed.
-/

namespace Graveboards.Library.Rounding

/-- Round to the nearest integer, ties to even, as Python's `round` and its
fixed-point format codes do. -/
def roundHalfEven (q : Rat) : Int :=
  let low := q.floor
  let rest := q - low
  if rest < 1 / 2 then low
  else if 1 / 2 < rest then low + 1
  else if low % 2 = 0 then low else low + 1

theorem roundHalfEven_cases (q : Rat) :
    (roundHalfEven q = ⌊q⌋ ∧ q - ⌊q⌋ ≤ 1 / 2) ∨ (roundHalfEven q = ⌊q⌋ + 1 ∧ 1 / 2 ≤ q - ⌊q⌋) := by
  have hfloor : q.floor = ⌊q⌋ := rfl
  unfold roundHalfEven
  dsimp only
  rw [hfloor]
  split_ifs with hbelow habove heven
  · exact .inl ⟨rfl, hbelow.le⟩
  · exact .inr ⟨rfl, habove.le⟩
  · exact .inl ⟨rfl, not_lt.mp habove⟩
  · exact .inr ⟨rfl, not_lt.mp hbelow⟩

theorem abs_roundHalfEven_sub_le (q : Rat) : |(roundHalfEven q : Rat) - q| ≤ 1 / 2 := by
  rw [abs_le]
  have hle := Int.floor_le q
  have hlt := Int.lt_floor_add_one q
  obtain ⟨heq, hrest⟩ | ⟨heq, hrest⟩ := roundHalfEven_cases q
  · rw [heq]
    constructor <;> linarith
  · rw [heq, Int.cast_add, Int.cast_one]
    constructor <;> linarith

theorem le_roundHalfEven {n : Int} {q : Rat} (h : (n : Rat) ≤ q) : n ≤ roundHalfEven q := by
  have hfloor : n ≤ ⌊q⌋ := Int.le_floor.mpr h
  obtain ⟨heq, -⟩ | ⟨heq, -⟩ := roundHalfEven_cases q
  · omega
  · omega

theorem roundHalfEven_le {n : Int} {q : Rat} (h : q ≤ n) : roundHalfEven q ≤ n := by
  have hfloor : ⌊q⌋ ≤ n := Int.cast_le.mp ((Int.floor_le q).trans h)
  obtain ⟨heq, -⟩ | ⟨heq, hrest⟩ := roundHalfEven_cases q
  · omega
  · have hne : ⌊q⌋ ≠ n := by
      intro hn
      rw [hn] at hrest
      linarith
    omega

theorem roundHalfEven_eq {n : Int} {q : Rat} (h : |q - n| < 1 / 2) : roundHalfEven q = n := by
  have hdistance : |(roundHalfEven q : Rat) - n| < 1 := by
    calc |(roundHalfEven q : Rat) - n| ≤ |(roundHalfEven q : Rat) - q| + |q - n| := abs_sub_le _ _ _
      _ < 1 := by linarith [abs_roundHalfEven_sub_le q]
  rw [← Int.cast_sub, ← Int.cast_abs, ← Int.cast_one, Int.cast_lt, Int.abs_lt_one_iff] at hdistance
  omega

/-! Numbers with so many bits behind the first one, down to a smallest exponent. -/

section

variable (bits : Nat) (smallest : Int)

/-- The exponent of the last bit that a number near `q` may have. -/
def lastBit (q : Rat) : Int := max (Int.log 2 |q| - bits) smallest

def nearest (q : Rat) : Rat :=
  if q = 0 then 0 else roundHalfEven (q / 2 ^ lastBit bits smallest q) * 2 ^ lastBit bits smallest q

variable {bits smallest} {q : Rat}

theorem nearest_of_ne_zero (h : q ≠ 0) : nearest bits smallest q =
    roundHalfEven (q / 2 ^ lastBit bits smallest q) * 2 ^ lastBit bits smallest q := if_neg h

theorem nearest_zero : nearest bits smallest 0 = 0 := if_pos rfl

/-- A multiple of its last bit is kept. -/
theorem nearest_of_multiple {m : Int} (h : q = m * 2 ^ lastBit bits smallest q) :
    nearest bits smallest q = q := by
  by_cases hne : q = 0
  · rw [hne, nearest_zero]
  · have hpos : (0 : Rat) < 2 ^ lastBit bits smallest q := by positivity
    have hround : roundHalfEven (q / 2 ^ lastBit bits smallest q) = m := by
      rw [(div_eq_iff hpos.ne').mpr h]
      apply roundHalfEven_eq
      rw [sub_self, abs_zero]
      norm_num
    rw [nearest_of_ne_zero hne, hround]
    exact h.symm

theorem lastBit_le {k : Int} (hne : q ≠ 0) (hq : |q| < 2 ^ k) (hk : smallest ≤ k - 1 - bits) :
    lastBit bits smallest q ≤ k - 1 - bits := by
  have hlog : Int.log 2 |q| < k :=
    (Int.lt_zpow_iff_log_lt one_lt_two (abs_pos.mpr hne)).mp (by exact_mod_cast hq)
  exact max_le (by omega) hk

/-- The rounding error is at most half of the last bit. -/
theorem abs_nearest_sub_le (hne : q ≠ 0) :
    |nearest bits smallest q - q| ≤ 2 ^ lastBit bits smallest q / 2 := by
  have hpos : (0 : Rat) < 2 ^ lastBit bits smallest q := by positivity
  have hround := abs_roundHalfEven_sub_le (q / 2 ^ lastBit bits smallest q)
  have hfactor : nearest bits smallest q - q =
      (roundHalfEven (q / 2 ^ lastBit bits smallest q) - q / 2 ^ lastBit bits smallest q) *
        2 ^ lastBit bits smallest q := by
    rw [nearest_of_ne_zero hne, sub_mul, div_mul_cancel₀ q hpos.ne']
  rw [hfactor, abs_mul, abs_of_pos hpos]
  calc _ ≤ 1 / 2 * (2 : Rat) ^ lastBit bits smallest q := mul_le_mul_of_nonneg_right hround hpos.le
    _ = _ := by ring

theorem abs_nearest_sub_le_of_lt {k : Int} (hq : |q| < 2 ^ k) (hk : smallest ≤ k - 1 - bits) :
    |nearest bits smallest q - q| ≤ 2 ^ (k - 1 - bits) / 2 := by
  by_cases hne : q = 0
  · rw [hne, nearest_zero, sub_zero, abs_zero]
    positivity
  · apply (abs_nearest_sub_le hne).trans
    have hle : (2 : Rat) ^ lastBit bits smallest q ≤ 2 ^ (k - 1 - bits) :=
      zpow_le_zpow_right₀ one_le_two (lastBit_le hne hq hk)
    linarith

/-- An integer is a multiple of the last bit, unless that is beyond the units. -/
theorem exists_multiple {e : Int} (h : e ≤ 0) (n : Int) : ∃ m : Int, (n : Rat) = m * 2 ^ e := by
  refine ⟨n * 2 ^ (-e).toNat, ?_⟩
  have hexponent : ((-e).toNat : Int) = -e := Int.toNat_of_nonneg (by omega)
  rw [Int.cast_mul, Int.cast_pow, Int.cast_ofNat, ← zpow_natCast, hexponent, mul_assoc,
    ← zpow_add₀ two_ne_zero, neg_add_cancel, zpow_zero, mul_one]

/-- No multiple of the last bit is crossed. -/
theorem multiple_le_nearest {m : Int} (h : (m : Rat) * 2 ^ lastBit bits smallest q ≤ q) :
    (m : Rat) * 2 ^ lastBit bits smallest q ≤ nearest bits smallest q := by
  by_cases hne : q = 0
  · rw [hne, nearest_zero]
    rwa [hne] at h
  have hpos : (0 : Rat) < 2 ^ lastBit bits smallest q := by positivity
  rw [nearest_of_ne_zero hne]
  have hround : m ≤ roundHalfEven (q / 2 ^ lastBit bits smallest q) :=
    le_roundHalfEven ((le_div_iff₀ hpos).mpr h)
  exact mul_le_mul_of_nonneg_right (Int.cast_le.mpr hround) hpos.le

theorem nearest_le_multiple {m : Int} (h : q ≤ (m : Rat) * 2 ^ lastBit bits smallest q) :
    nearest bits smallest q ≤ (m : Rat) * 2 ^ lastBit bits smallest q := by
  by_cases hne : q = 0
  · rw [hne, nearest_zero]
    rwa [hne] at h
  have hpos : (0 : Rat) < 2 ^ lastBit bits smallest q := by positivity
  rw [nearest_of_ne_zero hne]
  have hround : roundHalfEven (q / 2 ^ lastBit bits smallest q) ≤ m :=
    roundHalfEven_le ((div_le_iff₀ hpos).mpr h)
  exact mul_le_mul_of_nonneg_right (Int.cast_le.mpr hround) hpos.le

/-- No integer is crossed, as long as the last bit is not beyond the units. -/
theorem le_nearest {n : Int} (hbit : lastBit bits smallest q ≤ 0) (h : (n : Rat) ≤ q) :
    n ≤ nearest bits smallest q := by
  obtain ⟨m, hm⟩ := exists_multiple hbit n
  rw [hm] at h ⊢
  exact multiple_le_nearest h

theorem nearest_le {n : Int} (hbit : lastBit bits smallest q ≤ 0) (h : q ≤ n) :
    nearest bits smallest q ≤ n := by
  obtain ⟨m, hm⟩ := exists_multiple hbit n
  rw [hm] at h ⊢
  exact nearest_le_multiple h

/-- A rounded number below an integer is so by a last bit. -/
theorem lastBit_le_of_nearest_lt {n : Int} (hne : q ≠ 0) (hbit : lastBit bits smallest q ≤ 0)
    (h : nearest bits smallest q < n) :
    nearest bits smallest q + 2 ^ lastBit bits smallest q ≤ n := by
  have hpos : (0 : Rat) < 2 ^ lastBit bits smallest q := by positivity
  obtain ⟨m, hm⟩ := exists_multiple hbit n
  rw [hm] at h ⊢
  rw [nearest_of_ne_zero hne] at h ⊢
  have hround := Int.cast_lt.mp (lt_of_mul_lt_mul_right h hpos.le)
  calc _ = ((roundHalfEven (q / 2 ^ lastBit bits smallest q) + 1 : Int) : Rat) *
    2 ^ lastBit bits smallest q := by
        rw [Int.cast_add, Int.cast_one]
        ring
    _ ≤ _ := mul_le_mul_of_nonneg_right (Int.cast_le.mpr hround) hpos.le

theorem abs_lt_lastBit (q : Rat) : |q| < 2 ^ (lastBit bits smallest q + bits + 1) := by
  have hlog : |q| < 2 ^ (Int.log 2 |q| + 1) := by
    exact_mod_cast Int.lt_zpow_succ_log_self one_lt_two |q|
  have hle : Int.log 2 |q| - bits ≤ lastBit bits smallest q := le_max_left _ _
  exact hlog.trans_le (zpow_le_zpow_right₀ one_le_two (by omega))

theorem two_zpow_split (bits : Nat) (e : Int) :
    (2 : Rat) ^ (e + bits + 1) = ((2 ^ (bits + 1) : Int) : Rat) * 2 ^ e := by
  rw [add_assoc, zpow_add₀ two_ne_zero, mul_comm]
  norm_cast

/-- The bits of a rounded number, which may reach the next power of two. -/
theorem abs_roundHalfEven_le (q : Rat) :
    |roundHalfEven (q / 2 ^ lastBit bits smallest q)| ≤ 2 ^ (bits + 1) := by
  have hpos : (0 : Rat) < 2 ^ lastBit bits smallest q := by positivity
  have hq : |q| < 2 ^ (lastBit bits smallest q + bits + 1) := abs_lt_lastBit q
  rw [two_zpow_split, ← div_lt_iff₀ hpos, ← abs_of_pos hpos, ← abs_div, abs_lt] at hq
  rw [abs_le]
  refine ⟨le_roundHalfEven ?_, roundHalfEven_le hq.2.le⟩
  rw [Int.cast_neg]
  exact hq.1.le

theorem abs_nearest_le (hne : q ≠ 0) :
    |nearest bits smallest q| ≤ 2 ^ (lastBit bits smallest q + bits + 1) := by
  have hpos : (0 : Rat) < 2 ^ lastBit bits smallest q := by positivity
  rw [two_zpow_split, nearest_of_ne_zero hne, abs_mul, abs_of_pos hpos, ← Int.cast_abs]
  exact mul_le_mul_of_nonneg_right (Int.cast_le.mpr (abs_roundHalfEven_le q)) hpos.le

/-- A rounded number that is below an integer stays so when both are multiplied by `c`, and the
product is rounded again. -/
theorem nearest_mul_lt {n : Int} {c : Rat} {j : Nat} (hlow : 2 ^ j < 2 * c) (hhigh : c < 2 ^ j)
    (hbit : lastBit bits smallest q ≤ 0) (h : nearest bits smallest q < n) :
    nearest bits smallest (nearest bits smallest q * c) < n * c := by
  have hc : 0 < c := by linarith [show (0 : Rat) < 2 ^ j by positivity]
  by_cases hzero : nearest bits smallest q = 0
  · rw [hzero] at h ⊢
    rw [zero_mul, nearest_zero]
    exact mul_pos h hc
  have hne : q ≠ 0 := by
    rintro rfl
    exact hzero nearest_zero
  have hpos : (0 : Rat) < 2 ^ lastBit bits smallest q := by positivity
  have hproduct : |nearest bits smallest q * c| < 2 ^ (lastBit bits smallest q + bits + 1 + j) := by
    rw [abs_mul, abs_of_pos hc, zpow_add₀ two_ne_zero, zpow_natCast]
    have hle : |nearest bits smallest q| ≤ 2 ^ (lastBit bits smallest q + bits + 1) :=
      abs_nearest_le hne
    calc _ ≤ 2 ^ (lastBit bits smallest q + bits + 1) * c := mul_le_mul_of_nonneg_right hle hc.le
      _ < _ := mul_lt_mul_of_pos_left hhigh (by positivity)
  have hsmallest : smallest ≤ lastBit bits smallest q := le_max_right _ _
  have hexponent :
      lastBit bits smallest q + bits + 1 + j - 1 - bits = lastBit bits smallest q + j := by omega
  have herror :
      |nearest bits smallest (nearest bits smallest q * c) - nearest bits smallest q * c| ≤
      2 ^ (lastBit bits smallest q + j) / 2 :=
    hexponent ▸ abs_nearest_sub_le_of_lt hproduct (by omega)
  rw [zpow_add₀ two_ne_zero, zpow_natCast] at herror
  have hgap := lastBit_le_of_nearest_lt hne hbit h
  calc nearest bits smallest (nearest bits smallest q * c)
      ≤ nearest bits smallest q * c + 2 ^ lastBit bits smallest q * 2 ^ j / 2 := by
        linarith [(abs_le.mp herror).2]
    _ < nearest bits smallest q * c + 2 ^ lastBit bits smallest q * c := by
        have := mul_lt_mul_of_pos_left hlow hpos
        linarith
    _ = (nearest bits smallest q + 2 ^ lastBit bits smallest q) * c := by ring
    _ ≤ n * c := mul_le_mul_of_nonneg_right hgap hc.le

end

/-! The numbers that rounding keeps. -/

/-- Rounding keeps the number. -/
def Rounded (bits : Nat) (smallest : Int) (q : Rat) : Prop := nearest bits smallest q = q

instance (bits : Nat) (smallest : Int) (q : Rat) : Decidable (Rounded bits smallest q) :=
  inferInstanceAs (Decidable (nearest bits smallest q = q))

section Rounded

variable {bits : Nat} {smallest : Int} {q v : Rat}

theorem rounded_zero : Rounded bits smallest 0 := nearest_zero

/-- It is a multiple of its last bit. -/
theorem Rounded.exists_multiple (h : Rounded bits smallest q) :
    ∃ m : Int, q = m * 2 ^ lastBit bits smallest q := by
  by_cases hne : q = 0
  · exact ⟨0, by rw [Int.cast_zero, zero_mul, hne]⟩
  · have hkept : nearest bits smallest q = q := h
    rw [nearest_of_ne_zero hne] at hkept
    exact ⟨_, hkept.symm⟩

theorem multiple_of_le {m : Int} {e f : Int} (h : e ≤ f) :
    ∃ k : Int, (m : Rat) * 2 ^ f = k * 2 ^ e := by
  obtain ⟨k, hk⟩ := exists_multiple (sub_nonpos.mpr h) m
  refine ⟨k, ?_⟩
  rw [hk, mul_assoc, ← zpow_add₀ two_ne_zero, sub_add_cancel]

/-- It is a whole number of the smallest ones. -/
theorem Rounded.exists_units {s : Nat} (h : Rounded bits (-s) q) : ∃ m : Int, q * 2 ^ s = m := by
  obtain ⟨m, hm⟩ := h.exists_multiple
  have hsmallest : (-s : Int) ≤ lastBit bits (-s) q := le_max_right _ _
  obtain ⟨k, hk⟩ := multiple_of_le (m := m) hsmallest
  refine ⟨k, ?_⟩
  rw [hm, hk, mul_assoc, ← zpow_natCast, ← zpow_add₀ two_ne_zero, neg_add_cancel,
    zpow_zero, mul_one]

/-- An integer stays one. -/
theorem nearest_intCast (n : Int) : ∃ m : Int, nearest bits smallest n = m := by
  rcases le_or_gt (lastBit bits smallest (n : Rat)) 0 with hle | hlt
  · obtain ⟨m, hm⟩ := Rounding.exists_multiple hle n
    exact ⟨n, nearest_of_multiple hm⟩
  · by_cases hne : (n : Rat) = 0
    · exact ⟨0, by rw [hne, nearest_zero, Int.cast_zero]⟩
    · obtain ⟨k, hk⟩ :=
        multiple_of_le (m := roundHalfEven ((n : Rat) / 2 ^ lastBit bits smallest (n : Rat)))
        hlt.le
      refine ⟨k, ?_⟩
      rw [nearest_of_ne_zero hne, hk, zpow_zero, mul_one]

theorem rounded_of_abs_lt {m e : Int} (hm : |m| < 2 ^ (bits + 1)) (he : smallest ≤ e) :
    Rounded bits smallest (m * 2 ^ e) := by
  by_cases hzero : m = 0
  · rw [hzero, Int.cast_zero, zero_mul]
    exact rounded_zero
  have hne : (m : Rat) * 2 ^ e ≠ 0 := mul_ne_zero (Int.cast_ne_zero.mpr hzero) (by positivity)
  have hlt : |(m : Rat) * 2 ^ e| < 2 ^ (e + bits + 1) := by
    rw [abs_mul, abs_of_pos (show (0 : Rat) < 2 ^ e by positivity), two_zpow_split, ← Int.cast_abs]
    exact mul_lt_mul_of_pos_right (Int.cast_lt.mpr hm) (by positivity)
  have hbit : lastBit bits smallest ((m : Rat) * 2 ^ e) ≤ e + bits + 1 - 1 - bits :=
    lastBit_le hne hlt (by omega)
  obtain ⟨k, hk⟩ := multiple_of_le (m := m)
    (show lastBit bits smallest ((m : Rat) * 2 ^ e) ≤ e by omega)
  exact nearest_of_multiple hk

/-- So many bits hold a number, or the next power of two. -/
theorem rounded_of_abs_le {m e : Int} (hm : |m| ≤ 2 ^ (bits + 1)) (he : smallest ≤ e) :
    Rounded bits smallest (m * 2 ^ e) := by
  rcases hm.lt_or_eq with hlt | heq
  · exact rounded_of_abs_lt hlt he
  · have hhalf : (m : Rat) * 2 ^ e = ((m / 2 : Int) : Rat) * 2 ^ (e + 1) := by
      have htwice : m = 2 * (m / 2) := by
        rcases abs_choice m with hm | hm <;> rw [hm, pow_succ] at heq <;> omega
      rw [zpow_add_one₀ two_ne_zero]
      conv_lhs => rw [htwice]
      push_cast
      ring
    rw [hhalf]
    apply rounded_of_abs_lt _ (by omega)
    have hpos : (0 : Int) < 2 ^ bits := by positivity
    rw [pow_succ] at heq ⊢
    rcases abs_cases m with ⟨hm, -⟩ | ⟨hm, -⟩ <;> rw [hm] at heq <;> rw [abs_lt] <;> omega

/-- What is rounded is kept by rounding again. -/
theorem rounded_nearest (q : Rat) : Rounded bits smallest (nearest bits smallest q) := by
  by_cases hne : q = 0
  · rw [hne, nearest_zero]
    exact rounded_zero
  rw [nearest_of_ne_zero hne]
  exact rounded_of_abs_le (abs_roundHalfEven_le q) (le_max_right _ _)

/-- A number that is kept is a multiple of the last bit of another, or below the power of two
that the other has reached. -/
theorem Rounded.multiple_or_lt (hv : Rounded bits smallest v) (hne : q ≠ 0) :
    (∃ k : Int, v = k * 2 ^ lastBit bits smallest q) ∨
      |v| < (2 ^ bits : Int) * 2 ^ lastBit bits smallest q ∧
        (2 ^ bits : Int) * 2 ^ lastBit bits smallest q ≤ |q| := by
  rcases le_or_gt (lastBit bits smallest q) (lastBit bits smallest v) with hle | hlt
  · obtain ⟨m, hm⟩ := hv.exists_multiple
    obtain ⟨k, hk⟩ := multiple_of_le (m := m) hle
    exact Or.inl ⟨k, hm.trans hk⟩
  · refine Or.inr ?_
    have hsmallest : smallest ≤ lastBit bits smallest v := le_max_right _ _
    have hlog : lastBit bits smallest q = Int.log 2 |q| - bits :=
      (max_choice _ _).resolve_right fun h => by
        have hsame : lastBit bits smallest q = smallest := h
        omega
    have hpower : ((2 ^ bits : Int) : Rat) * 2 ^ lastBit bits smallest q =
        2 ^ (lastBit bits smallest q + bits) := by
      rw [zpow_add₀ two_ne_zero, mul_comm, Int.cast_pow, Int.cast_ofNat, zpow_natCast]
    rw [hpower]
    constructor
    · have hexponent : lastBit bits smallest v + bits + 1 ≤ lastBit bits smallest q + bits := by
        omega
      exact (abs_lt_lastBit v).trans_le (zpow_le_zpow_right₀ one_le_two hexponent)
    · have hself : (2 : Rat) ^ Int.log 2 |q| ≤ |q| := by
        exact_mod_cast Int.zpow_log_le_self one_lt_two (abs_pos.mpr hne)
      rwa [hlog, sub_add_cancel]

/-- No number that is kept is crossed. -/
theorem Rounded.le_nearest (hv : Rounded bits smallest v) (h : v ≤ q) :
    v ≤ nearest bits smallest q := by
  by_cases hne : q = 0
  · rwa [hne, nearest_zero, ← hne]
  rcases hv.multiple_or_lt hne with ⟨k, rfl⟩ | ⟨hlt, hreached⟩
  · exact multiple_le_nearest h
  · have hq : 0 < q := by
      by_contra hnonpos
      have hsmaller : |q| ≤ |v| := abs_le_abs_of_nonpos (not_lt.mp hnonpos) h
      linarith
    rw [abs_of_pos hq] at hreached
    exact ((le_abs_self v).trans hlt.le).trans (multiple_le_nearest hreached)

theorem Rounded.nearest_le (hv : Rounded bits smallest v) (h : q ≤ v) :
    nearest bits smallest q ≤ v := by
  by_cases hne : q = 0
  · rwa [hne, nearest_zero, ← hne]
  rcases hv.multiple_or_lt hne with ⟨k, rfl⟩ | ⟨hlt, hreached⟩
  · exact nearest_le_multiple h
  · have hq : q < 0 := by
      by_contra hnonneg
      have hsmaller : |q| ≤ |v| := abs_le_abs_of_nonneg (not_lt.mp hnonneg) h
      linarith
    rw [abs_of_neg hq] at hreached
    have hmultiple : q ≤ ((-2 ^ bits : Int) : Rat) * 2 ^ lastBit bits smallest q := by
      rw [Int.cast_neg, neg_mul]
      linarith
    have hbelow := nearest_le_multiple hmultiple
    rw [Int.cast_neg, neg_mul] at hbelow
    linarith [neg_abs_le v]

end Rounded

end Graveboards.Library.Rounding
