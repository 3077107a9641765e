import Mathlib.Data.Int.Bitwise
import Mathlib.Tactic

/-!
Zigzag numbers over unbounded integers: a shift to the left makes room for the sign, which an
arithmetic shift to the right spreads over the other bits. The rules say for which integers the
sign fills all of them, so that decoding inverts encoding, and that negative integers keep
different codes in any case.
-/

namespace Graveboards.Library.Zigzag

/-- `width`: how far the sign is shifted. -/
def encode (width : Nat) (n : Int) : Int := Int.xor (n <<< (1 : Nat)) (n >>> width)

def decode (n : Int) : Int := Int.xor (n >>> (1 : Nat)) (-(Int.land n 1))

theorem encode_ofNat (width k : Nat) :
    encode width (Int.ofNat k) = ((2 * k) ^^^ (k >>> width) : Nat) := by
  have hleft : Int.ofNat k <<< (1 : Nat) = Int.ofNat (2 * k) := by
    rw [Int.shiftLeft_eq, Int.ofNat_eq_natCast, Int.ofNat_eq_natCast]
    omega
  rw [encode, hleft]
  rfl

theorem encode_negSucc (width k : Nat) :
    encode width (Int.negSucc k) = ((2 * k + 1) ^^^ (k >>> width) : Nat) := by
  have hleft : Int.negSucc k <<< (1 : Nat) = Int.negSucc (2 * k + 1) := by
    rw [Int.shiftLeft_eq]
    omega
  rw [encode, hleft]
  rfl

/-- The lowest bit is the sign of what is decoded. -/
theorem decode_natCast (m : Nat) :
    decode m = if m % 2 = 0 then Int.ofNat (m / 2) else Int.negSucc (m / 2) := by
  have hright : (m : Int) >>> (1 : Nat) = Int.ofNat (m / 2) := by
    rw [Int.shiftRight_eq_div_pow]
    rfl
  have hlow : Int.land m 1 = Int.ofNat (m % 2) := by
    rw [← Nat.and_one_is_mod]
    rfl
  rw [decode, hright, hlow]
  rcases Nat.mod_two_eq_zero_or_one m with h | h
  · rw [h, if_pos rfl]
    exact congrArg Int.ofNat (Nat.xor_zero _)
  · rw [h, if_neg (by decide)]
    exact congrArg Int.negSucc (Nat.xor_zero _)

theorem encode_nonneg (width : Nat) (n : Int) : 0 ≤ encode width n := by
  cases n with
  | ofNat k =>
      rw [encode_ofNat]
      exact Int.natCast_nonneg _
  | negSucc k =>
      rw [encode_negSucc]
      exact Int.natCast_nonneg _

theorem odd_div_two (k : Nat) : (2 * k + 1) / 2 = k := by omega

theorem eq_self_xor_iff {a b : Nat} : a ^^^ b = a ↔ b = 0 := by
  constructor
  · intro h
    have hcancel : a ^^^ (a ^^^ b) = a ^^^ a := by rw [h]
    rwa [← Nat.xor_assoc, Nat.xor_self, Nat.zero_xor] at hcancel
  · rintro rfl
    exact Nat.xor_zero a

theorem shiftRight_eq_zero_iff {k width : Nat} : k >>> width = 0 ↔ k < 2 ^ width := by
  rw [Nat.shiftRight_eq_div_pow, Nat.div_eq_zero_iff]
  have hpos := Nat.two_pow_pos width
  omega

/-- Decoding inverts encoding as long as the shifted sign is all zeros or all ones. -/
theorem decode_encode_iff (width : Nat) (n : Int) :
    decode (encode width n) = n ↔ -2 ^ width ≤ n ∧ n < 2 ^ width := by
  have hpow : ((2 ^ width : Nat) : Int) = 2 ^ width := by push_cast; rfl
  cases n with
  | ofNat k =>
      have hhalf : ((2 * k) ^^^ (k >>> width)) / 2 = k ^^^ (k >>> width / 2) := by
        rw [Nat.xor_div_two, Nat.mul_div_cancel_left k (by decide)]
      have hparity : ((2 * k) ^^^ (k >>> width)) % 2 = (k >>> width) % 2 := by
        rw [Nat.xor_mod_two_eq]
        omega
      have hsmall : (k >>> width) % 2 = 0 ∧ k >>> width / 2 = 0 ↔ k < 2 ^ width := by
        rw [← shiftRight_eq_zero_iff]
        omega
      rw [encode_ofNat, decode_natCast, hhalf, hparity]
      split
      case isTrue heven =>
          rw [Int.ofNat.injEq, eq_self_xor_iff, ← and_iff_right heven (b := _ / 2 = 0), hsmall,
            Int.ofNat_eq_natCast]
          omega
      case isFalse hodd =>
          refine ⟨nofun, ?_⟩
          rintro ⟨-, hlt⟩
          rw [Int.ofNat_eq_natCast] at hlt
          exact absurd (hsmall.mpr (by omega)).1 hodd
  | negSucc k =>
      have hhalf : ((2 * k + 1) ^^^ (k >>> width)) / 2 = k ^^^ (k >>> width / 2) := by
        rw [Nat.xor_div_two, odd_div_two k]
      have hparity : ((2 * k + 1) ^^^ (k >>> width)) % 2 = 0 ↔ (k >>> width) % 2 ≠ 0 := by
        rw [Nat.xor_mod_two_eq]
        omega
      have hsmall : (k >>> width) % 2 = 0 ∧ k >>> width / 2 = 0 ↔ k < 2 ^ width := by
        rw [← shiftRight_eq_zero_iff]
        omega
      rw [encode_negSucc, decode_natCast, hhalf]
      simp only [hparity]
      split
      case isTrue hodd =>
          refine ⟨nofun, ?_⟩
          rintro ⟨hle, -⟩
          exact absurd (hsmall.mpr (by omega)).1 hodd
      case isFalse heven =>
          rw [not_not] at heven
          rw [Int.negSucc.injEq, eq_self_xor_iff, ← and_iff_right heven (b := _ / 2 = 0), hsmall]
          omega

/-- A number is known from its exclusive or with its own upper bits. -/
theorem xor_shiftRight_injective {width : Nat} (hwidth : 0 < width) {a b : Nat}
    (h : a ^^^ (a >>> width) = b ^^^ (b >>> width)) : a = b := by
  -- The difference would be its own upper part, which is smaller unless it is zero.
  have hdiff : a ^^^ b = (a ^^^ b) >>> width := by
    rw [Nat.shiftRight_xor_distrib]
    calc a ^^^ b =
      a ^^^ b ^^^ ((a >>> width) ^^^ (b >>> width) ^^^ ((a >>> width) ^^^ (b >>> width))) := by
          rw [Nat.xor_self, Nat.xor_zero]
      _ = (a ^^^ (a >>> width)) ^^^ (b ^^^ (b >>> width)) ^^^
      ((a >>> width) ^^^ (b >>> width)) := by
          ac_rfl
      _ = (a >>> width) ^^^ (b >>> width) := by
          rw [h, Nat.xor_self, Nat.zero_xor]
  have hzero : a ^^^ b = 0 := by
    by_contra hne
    have hlt : (a ^^^ b) >>> width < a ^^^ b := by
      rw [Nat.shiftRight_eq_div_pow]
      exact Nat.div_lt_self (Nat.pos_of_ne_zero hne) (Nat.one_lt_two_pow hwidth.ne')
    omega
  rwa [Nat.xor_eq_zero_iff] at hzero

/-- Negative integers keep apart, whatever their size. -/
theorem encode_injective_neg {width : Nat} {m n : Int} (hm : m < 0) (hn : n < 0)
    (h : encode width m = encode width n) : m = n := by
  cases m with
  | ofNat k => exact absurd hm (not_lt.mpr (Int.natCast_nonneg k))
  | negSucc k =>
      cases n with
      | ofNat l => exact absurd hn (not_lt.mpr (Int.natCast_nonneg l))
      | negSucc l =>
          have hshift (j : Nat) : j >>> width = (2 * j + 1) >>> (width + 1) := by
            rw [Nat.shiftRight_eq_div_pow, Nat.shiftRight_eq_div_pow, Nat.pow_succ',
              ← Nat.div_div_eq_div_mul, odd_div_two j]
          rw [encode_negSucc, encode_negSucc, Int.natCast_inj, hshift k, hshift l] at h
          have hodd := xor_shiftRight_injective (Nat.succ_pos width) h
          congr 1
          omega

end Graveboards.Library.Zigzag
