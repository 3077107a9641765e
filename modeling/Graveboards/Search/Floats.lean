import Graveboards.Search.Values

/-!
The bits of floats: a number that a format holds exactly is read back from its bits, and they
fill no more than the bytes of the format.
-/

namespace Graveboards.Search

open Graveboards.Library

namespace FloatFormat

variable {f : FloatFormat}

/-- The three parts of the bits. -/
theorem split_bits (negative : Bool) {field fraction : Nat} (hfield : field < 2 ^ f.exponent)
    (hfraction : fraction < 2 ^ f.mantissa) :
    let bits := f.signBit negative + field * 2 ^ f.mantissa + fraction
    bits.testBit (f.mantissa + f.exponent) = negative ∧
    bits / 2 ^ f.mantissa % 2 ^ f.exponent = field ∧
      bits % 2 ^ f.mantissa = fraction := by
  intro bits
  have hsign : f.signBit negative = negative.toNat * 2 ^ f.exponent * 2 ^ f.mantissa := by
    cases negative
    · simp [signBit]
    · rw [signBit, if_pos rfl, Bool.toNat_true, Nat.one_mul, Nat.pow_add, Nat.mul_comm]
  have hbits : bits = fraction + 2 ^ f.mantissa * (field + 2 ^ f.exponent * negative.toNat) := by
    change f.signBit negative + field * 2 ^ f.mantissa + fraction = _
    rw [hsign]
    ring
  have hhigh : bits / 2 ^ f.mantissa = field + 2 ^ f.exponent * negative.toNat := by
    rw [hbits, Nat.add_mul_div_left _ _ (Nat.two_pow_pos _),
      Nat.div_eq_of_lt hfraction, Nat.zero_add]
  refine ⟨?_, ?_, ?_⟩
  · rw [Nat.testBit_eq_decide_div_mod_eq, Nat.pow_add, ← Nat.div_div_eq_div_mul, hhigh,
      Nat.add_mul_div_left _ _ (Nat.two_pow_pos _), Nat.div_eq_of_lt hfield, Nat.zero_add]
    cases negative <;> rfl
  · rw [hhigh, Nat.add_mul_mod_self_left, Nat.mod_eq_of_lt hfield]
  · rw [hbits, Nat.add_mul_mod_self_left, Nat.mod_eq_of_lt hfraction]

theorem bits_lt (negative : Bool) {field fraction : Nat} (hfield : field < 2 ^ f.exponent)
    (hfraction : fraction < 2 ^ f.mantissa) :
    f.signBit negative + field * 2 ^ f.mantissa + fraction < 2 ^ (f.mantissa + f.exponent + 1) := by
  have hsign : f.signBit negative ≤ 2 ^ (f.mantissa + f.exponent) := by
    cases negative <;> simp [signBit]
  have hrest : field * 2 ^ f.mantissa + fraction < 2 ^ (f.mantissa + f.exponent) :=
    calc field * 2 ^ f.mantissa + fraction < (field + 1) * 2 ^ f.mantissa := by
          rw [Nat.add_mul, Nat.one_mul]
          omega
      _ ≤ 2 ^ f.exponent * 2 ^ f.mantissa := Nat.mul_le_mul_right _ hfield
      _ = 2 ^ (f.mantissa + f.exponent) := by rw [Nat.pow_add, Nat.mul_comm]
  rw [Nat.pow_succ]
  omega

/-- What is left of a number without its low zeros fits into the mantissa and the bit before it. -/
theorem quotient_lt (m units : Nat) : units / 2 ^ (Nat.log2 units - m) < 2 ^ (m + 1) := by
  rw [Nat.div_lt_iff_lt_mul (Nat.two_pow_pos _), ← Nat.pow_add]
  exact Nat.lt_of_lt_of_le Nat.lt_log2_self (Nat.pow_le_pow_right (by decide) (by omega))

/-- Where zeros have been shifted out, the bit before the mantissa is set. -/
theorem le_quotient {m units : Nat} (h : 0 < Nat.log2 units - m) :
    2 ^ m ≤ units / 2 ^ (Nat.log2 units - m) := by
  have hne : units ≠ 0 := by
    rintro rfl
    simp at h
  rw [Nat.le_div_iff_mul_le (Nat.two_pow_pos _), ← Nat.pow_add]
  exact Nat.le_trans (Nat.pow_le_pow_right (by decide) (by omega)) (Nat.log2_self_le hne)

theorem unpack_pack {x : PyFloat} {bits : Nat} (h : f.pack x = some bits) :
    f.unpack bits = x ∧ bits < 2 ^ (f.mantissa + f.exponent + 1) := by
  cases x with
  | nan => cases h
  | infinite negative =>
      have hfield : 2 ^ f.exponent - 1 < 2 ^ f.exponent :=
        Nat.sub_lt (Nat.two_pow_pos _) Nat.one_pos
      have hparts := split_bits negative hfield (Nat.two_pow_pos f.mantissa)
      have hlt := bits_lt negative hfield (Nat.two_pow_pos f.mantissa)
      rw [Nat.add_zero] at hparts hlt
      obtain rfl := Option.some.inj h
      obtain ⟨hsign, he, hm⟩ := hparts
      refine ⟨?_, hlt⟩
      simp only [unpack, hsign, he, hm, if_true]
  | finite negative magnitude =>
      rw [pack] at h
      split at h
      case isFalse => cases h
      case isTrue hheld =>
          obtain rfl := Option.some.inj h
          obtain ⟨hdivides, hzeros, hrange⟩ := hheld
          generalize hunits : magnitude / 2 ^ (1074 - f.smallest) = units at hzeros hrange ⊢
          have hmagnitude : magnitude = units * 2 ^ (1074 - f.smallest) := by
            rw [← hunits, Nat.div_mul_cancel (Nat.dvd_of_mod_eq_zero hdivides)]
          have hlt := quotient_lt f.mantissa units
          have hle : 0 < Nat.log2 units - f.mantissa →
              2 ^ f.mantissa ≤ units / 2 ^ (Nat.log2 units - f.mantissa) :=
            le_quotient
          generalize hshift : Nat.log2 units - f.mantissa = shift at *
          have hquotient : units / 2 ^ shift * 2 ^ shift = units :=
            Nat.div_mul_cancel (Nat.dvd_of_mod_eq_zero hzeros)
          generalize units / 2 ^ shift = quotient at *
          rcases Nat.lt_or_ge quotient (2 ^ f.mantissa) with hsmall | hlarge
          · -- A subnormal number: nothing has been shifted out.
            obtain rfl : shift = 0 := by
              by_contra hne
              exact absurd (hle (Nat.pos_of_ne_zero hne)) (Nat.not_le.mpr hsmall)
            obtain ⟨hsign, he, hm⟩ := split_bits negative (Nat.two_pow_pos f.exponent) hsmall
            have hfield : (0 : Nat) ≠ 2 ^ f.exponent - 1 := by omega
            refine ⟨?_, bits_lt negative (Nat.two_pow_pos f.exponent) hsmall⟩
            rw [Nat.pow_zero, Nat.mul_one] at hquotient
            simp only [unpack, hsign, he, hm, if_neg hfield, if_true]
            rw [hmagnitude, hquotient]
          · -- The bit before the mantissa counts as one more in the exponent.
            have hbits : f.signBit negative + shift * 2 ^ f.mantissa + quotient =
                f.signBit negative + (shift + 1) * 2 ^ f.mantissa +
                (quotient - 2 ^ f.mantissa) := by
              rw [Nat.add_mul, Nat.one_mul]
              omega
            have hfraction : quotient - 2 ^ f.mantissa < 2 ^ f.mantissa := by
              rw [Nat.pow_succ] at hlt
              omega
            have hfield : shift + 1 < 2 ^ f.exponent := by omega
            obtain ⟨hsign, he, hm⟩ := split_bits negative hfield hfraction
            have hne : shift + 1 ≠ 2 ^ f.exponent - 1 := by omega
            refine ⟨?_, hbits ▸ bits_lt negative hfield hfraction⟩
            rw [hbits]
            simp only [unpack, hsign, he, hm, if_neg hne, if_neg (Nat.succ_ne_zero shift)]
            rw [Nat.add_sub_cancel' hlarge, Nat.add_sub_cancel, hquotient, ← hmagnitude]

/-- A double holds every number of a smaller format. -/
theorem isSome_pack_double {x : PyFloat} (hmantissa : f.mantissa ≤ 52)
    (hsmallest : f.smallest ≤ 1074)
    (hrange : 2 ^ f.exponent + f.mantissa + 1022 ≤ 2048 + f.smallest)
    (h : (f.pack x).isSome = true) :
    (double.pack x).isSome = true := by
  cases x with
  | nan => cases h
  | infinite negative => rfl
  | finite negative magnitude =>
      rw [pack] at h
      split at h
      case isFalse => cases h
      case isTrue hheld =>
          obtain ⟨hdivides, hzeros, hexponent⟩ := hheld
          generalize hunits : magnitude / 2 ^ (1074 - f.smallest) = units at hzeros hexponent
          have hmagnitude : magnitude = units * 2 ^ (1074 - f.smallest) := by
            rw [← hunits, Nat.div_mul_cancel (Nat.dvd_of_mod_eq_zero hdivides)]
          have hlog : Nat.log2 magnitude ≤ Nat.log2 units + (1074 - f.smallest) := by
            by_cases hzero : magnitude = 0
            · simp [hzero]
            · apply Nat.le_of_lt_succ
              rw [Nat.log2_lt hzero, hmagnitude, ← Nat.succ_add, Nat.pow_add]
              exact Nat.mul_lt_mul_of_pos_right Nat.lt_log2_self (Nat.two_pow_pos _)
          have hdvd : 2 ^ (Nat.log2 units - f.mantissa + (1074 - f.smallest)) ∣ magnitude := by
            rw [hmagnitude, Nat.pow_add]
            exact Nat.mul_dvd_mul_right (Nat.dvd_of_mod_eq_zero hzeros) _
          have hshift : Nat.log2 magnitude - 52 ≤ Nat.log2 units - f.mantissa +
              (1074 - f.smallest) := by omega
          have hunit : 2 ^ (1074 - double.smallest) = 1 := rfl
          have hdivided : magnitude % 2 ^ (Nat.log2 magnitude - double.mantissa) = 0 :=
            Nat.mod_eq_zero_of_dvd (Nat.dvd_trans (Nat.pow_dvd_pow 2 hshift) hdvd)
          have hinRange : Nat.log2 magnitude - double.mantissa + 3 ≤ 2 ^ double.exponent := by
            change Nat.log2 magnitude - 52 + 3 ≤ 2048
            omega
          rw [pack, hunit, Nat.div_one, if_pos ⟨Nat.mod_one _, hdivided, hinRange⟩,
            Option.isSome_some]

end FloatFormat

end Graveboards.Search
