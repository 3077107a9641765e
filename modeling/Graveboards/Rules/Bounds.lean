import Graveboards.Rules.Agreement

/-!
Which integers may stand as a bound where a double is stored. Python compares a
float with an integer exactly, and the schema stores the double nearest to the
integer, so the two bounds differ on a value between them, if one is measured.
-/

namespace Graveboards.Rules

open Library
open Library.Rounding (Rounded)

theorem num?_of_isStr {x : Json} (h : x.isStr = true) : x.num? = none := by
  cases x <;> simp_all [Json.isStr, Json.num?]

theorem below_of_isStr {raw : Json} (h : raw.isStr = true) (value : Rat) :
    below value raw = typeError := by
  have hne : raw ≠ .null := by
    rintro rfl
    cases h
  rw [below, if_neg hne, lessThan, num?_of_isStr h]

theorem above_of_isStr {raw : Json} (h : raw.isStr = true) (value : Rat) :
    above value raw = typeError := by
  have hne : raw ≠ .null := by
    rintro rfl
    cases h
  rw [above, if_neg hne, greaterThan, num?_of_isStr h]

namespace FloatSpells

variable {raw stored : Json}

/-- An integer that is no double is stored as the nearest one, and any other as itself. -/
theorem eq_of_int {n : Int} {x : Double} (h : FloatSpells (.int n) stored)
    (hx : Double.ofInt? n = some x) : stored = .float x := by
  cases h with
  | same hnum =>
      rename_i y
      have hvalue : (n : Rat) = y.value := Option.some.inj hnum
      have hnearest := Double.value_of_ofRat? hx
      rw [hvalue, y.rounded] at hnearest
      rw [Double.ext hnearest]
  | int hy =>
      rw [Option.some.inj (hy.symm.trans hx)]

/-- The stored form of a bound that is not null. -/
theorem stored_cases (h : FloatSpells raw stored) : stored = .null ∨ ∃ x, stored = .float x := by
  cases h with
  | null => exact Or.inl rfl
  | _ => exact Or.inr ⟨_, rfl⟩

end FloatSpells

/-- Bounds of doubles: an integer is not rounded down as the lower and not up as
the upper one, or else the lower one is text, where every comparison raises. -/
def FaithfulBounds (low high : Json) : Prop :=
  low.isStr = true ∨
    (∀ n x, low = .int n → Double.ofInt? n = some x → (n : Rat) ≤ x.value) ∧
      ∀ n x, high = .int n → Double.ofInt? n = some x → x.value ≤ n

/-- Bounds of whole seconds: an integer is a double, except that the lower one
may be rounded up where the upper one is text. -/
def FaithfulSeconds (low high : Json) : Prop :=
  low.isStr = true ∨
    (∀ n x, low = .int n → Double.ofInt? n = some x →
      (n : Rat) ≤ x.value ∧ (high.isStr = true ∨ x.value ≤ n)) ∧
      ∀ n x, high = .int n → Double.ofInt? n = some x → x.value = n

/-- Integers of 53 bits are. -/
theorem faithfulBounds_of_abs_le {low high : Json} (hlow : ∀ n, low = .int n → |n| ≤ 2 ^ 53)
    (hhigh : ∀ n, high = .int n → |n| ≤ 2 ^ 53) : FaithfulBounds low high := by
  refine Or.inr ⟨?_, ?_⟩
  · intro n x hn hx
    exact (Double.value_of_ofInt? (hlow n hn) hx).ge
  · intro n x hn hx
    exact (Double.value_of_ofInt? (hhigh n hn) hx).le

/-- The next integer is not: it is stored as the double below. -/
example : ¬ FaithfulBounds (.int (2 ^ 53 + 1)) .null := by
  have hstored : Double.ofInt? (2 ^ 53 + 1) = some (.ofInt (2 ^ 53) (by decide)) := by
    decide +kernel
  rintro (hstr | ⟨hmin, -⟩)
  · cases hstr
  · have hle := hmin _ _ rfl hstored
    rw [Double.ofInt_value, Int.cast_le] at hle
    omega

theorem faithfulBounds_null : FaithfulBounds .null .null := by
  refine Or.inr ⟨?_, ?_⟩
  · intro n x hn
    cases hn
  · intro n x hn
    cases hn

theorem faithfulSeconds_null : FaithfulSeconds .null .null := by
  refine Or.inr ⟨?_, ?_⟩
  · intro n x hn
    cases hn
  · intro n x hn
    cases hn

section Bounds

variable {low high low' high' : Json} (hlow : FloatSpells low low') (hhigh : FloatSpells high high')

theorem alike_of_isStr (h : low.isStr = true) (value : Rat) : Alike low high low' high' value := by
  refine Or.inl ⟨"TypeError", ?_⟩
  rw [side, below_of_isStr h]
  rfl

theorem side_of_below {value : Rat} (h : below value low = .ok true) :
    side low high value = .ok .lt := by
  rw [side, h]
  rfl

theorem side_of_above {value : Rat} (hlow : below value low = .ok false)
    (hhigh : above value high = .ok true) : side low high value = .ok .gt := by
  rw [side, hlow, ok_bind, hhigh]
  rfl

theorem side_of_within {value : Rat} (hlow : below value low = .ok false)
    (hhigh : above value high = .ok false) : side low high value = .ok .eq := by
  rw [side, hlow, ok_bind, hhigh]
  rfl

include hlow hhigh

/-- No double lies between an integer and the bound it is stored as, so only the
bound itself has to be on the right side. -/
theorem alike_of_faithfulBounds (h : FaithfulBounds low high) {value : Rat}
    (hvalue : Rounded 52 (-1074) value) : Alike low high low' high' value := by
  rcases h with htext | ⟨hmin, hmax⟩
  · exact alike_of_isStr htext value
  apply alike_of_comparisons
  · cases hlow with
    | null => exact Or.inr ⟨false, rfl, rfl⟩
    | same hnum => exact Or.inr ⟨_, below_of_num hnum value, below_of_num rfl value⟩
    | text s x => exact Or.inl (below_of_isStr rfl value)
    | @int n x hx =>
        refine Or.inr ⟨_, below_of_num rfl value, ?_⟩
        rw [below_of_num rfl, Except.ok.injEq, decide_eq_decide]
        exact ⟨Double.lt_value_of_ofInt? hx hvalue, fun hlt => hlt.trans_le (hmin n x rfl hx)⟩
  · cases hhigh with
    | null => exact Or.inr ⟨false, rfl, rfl⟩
    | same hnum => exact Or.inr ⟨_, above_of_num hnum value, above_of_num rfl value⟩
    | text s x => exact Or.inl (above_of_isStr rfl value)
    | @int n x hx =>
        refine Or.inr ⟨_, above_of_num rfl value, ?_⟩
        rw [above_of_num rfl, Except.ok.injEq, decide_eq_decide]
        exact ⟨Double.value_lt_of_ofInt? hx hvalue, fun hlt => (hmax n x rfl hx).trans_lt hlt⟩

theorem alike_of_faithfulSeconds (h : FaithfulSeconds low high) (value : Rat) :
    Alike low high low' high' value := by
  rcases h with htext | ⟨hmin, hmax⟩
  · exact alike_of_isStr htext value
  by_cases htext : high.isStr = true
  · -- What is not below the raw minimum makes the raw maximum raise.
    have hraises : above value high = typeError := above_of_isStr htext value
    cases hlow with
    | null => exact alike_of_comparisons (Or.inr ⟨false, rfl, rfl⟩) (Or.inl hraises)
    | same hnum =>
        exact alike_of_comparisons (Or.inr ⟨_, below_of_num hnum value, below_of_num rfl value⟩)
          (Or.inl hraises)
    | text s x => exact alike_of_isStr rfl value
    | @int n x hx =>
        unfold Alike side
        rw [below_of_num (show (Json.int n).num? = some (n : Rat) from rfl), hraises]
        by_cases hlt : value < n
        · refine Or.inr ⟨.lt, .lt, ?_, ?_, Iff.rfl⟩
          · rw [decide_eq_true hlt]
            rfl
          · rw [below_of_num (show (Json.float x).num? = some x.value from rfl),
              decide_eq_true (hlt.trans_le (hmin n x rfl hx).1)]
            rfl
        · refine Or.inl ⟨"TypeError", ?_⟩
          rw [decide_eq_false hlt]
          rfl
  · apply alike_of_comparisons
    · cases hlow with
      | null => exact Or.inr ⟨false, rfl, rfl⟩
      | same hnum => exact Or.inr ⟨_, below_of_num hnum value, below_of_num rfl value⟩
      | text s x => exact Or.inl (below_of_isStr rfl value)
      | @int n x hx =>
          obtain ⟨hle, hexact⟩ := hmin n x rfl hx
          have hsame : (n : Rat) = x.value := le_antisymm hle (hexact.resolve_left htext)
          exact Or.inr ⟨_, below_of_num (hsame ▸ rfl) value, below_of_num rfl value⟩
    · cases hhigh with
      | null => exact Or.inr ⟨false, rfl, rfl⟩
      | same hnum => exact Or.inr ⟨_, above_of_num hnum value, above_of_num rfl value⟩
      | text s x => exact Or.inl (above_of_isStr rfl value)
      | @int n x hx =>
          have hsame : x.value = n := hmax n x rfl hx
          exact Or.inr ⟨_, above_of_num (hsame ▸ rfl) value, above_of_num rfl value⟩

variable (hordered : ∀ x y, low' = .float x → high' = .float y → x.value ≤ y.value)

include hordered

omit hlow in
/-- The stored bounds admit the lower one. -/
theorem side_stored_low {x : Double} (hx : low' = .float x) :
    side low' high' x.value = .ok .eq := by
  apply side_of_within
  · rw [hx, below_of_num rfl, decide_eq_false (lt_irrefl _)]
  · rcases hhigh.stored_cases with hnull | ⟨y, hy⟩
    · rw [hnull]
      rfl
    · rw [hy, above_of_num rfl, decide_eq_false (not_lt.mpr (hordered x y hx hy))]

omit hhigh in
theorem side_stored_high {y : Double} (hy : high' = .float y) :
    side low' high' y.value = .ok .eq := by
  apply side_of_within
  · rcases hlow.stored_cases with hnull | ⟨x, hx⟩
    · rw [hnull]
      rfl
    · rw [hx, below_of_num rfl, decide_eq_false (not_lt.mpr (hordered x y hx hy))]
  · rw [hy, above_of_num rfl, decide_eq_false (lt_irrefl _)]

/-- Otherwise a stored bound is admitted by the stored bounds, and by the raw ones not. -/
theorem exists_unlike_of_not_faithfulBounds (h : ¬ FaithfulBounds low high) :
    ∃ n x a, Double.ofInt? n = some x ∧ side low high x.value = .ok a ∧ a ≠ .eq ∧
      side low' high' x.value = .ok .eq := by
  obtain ⟨htext, hsides⟩ := not_or.mp h
  rcases not_and_or.mp hsides with hmin | hmax
  · push Not at hmin
    obtain ⟨n, x, rfl, hx, hlt⟩ := hmin
    refine ⟨n, x, .lt, hx, side_of_below ?_, by decide,
      side_stored_low hhigh hordered (hlow.eq_of_int hx)⟩
    rw [below_of_num rfl, decide_eq_true hlt]
  · push Not at hmax
    obtain ⟨n, x, rfl, hx, hlt⟩ := hmax
    have hstored := side_stored_high hlow hordered (hhigh.eq_of_int hx)
    have habove : above x.value (.int n) = .ok true := by
      rw [above_of_num rfl, decide_eq_true hlt]
    have hbelow : ∃ b, below x.value low = .ok b := by
      cases hlow with
      | null => exact ⟨false, rfl⟩
      | same hnum => exact ⟨_, below_of_num hnum _⟩
      | text s y => exact absurd rfl htext
      | int hy => exact ⟨_, below_of_num rfl _⟩
    obtain ⟨b, hbelow⟩ := hbelow
    cases b
    · exact ⟨n, x, .gt, hx, side_of_above hbelow habove, by decide, hstored⟩
    · exact ⟨n, x, .lt, hx, side_of_below hbelow, by decide, hstored⟩

/-- A raw minimum that is rounded up is admitted by the raw bounds only. -/
theorem unlike_of_low_rounded_up (h : FaithfulBounds low high) (htext : ¬ low.isStr = true)
    {n : Int} {x : Double} (hn : low = .int n) (hx : Double.ofInt? n = some x)
    (hlt : (n : Rat) < x.value) (hhightext : ¬ high.isStr = true) :
    side low high n = .ok .eq ∧ side low' high' n = .ok .lt := by
  subst hn
  have hstored := hlow.eq_of_int hx
  obtain ⟨-, hmax⟩ := h.resolve_left htext
  refine ⟨side_of_within ?_ ?_, side_of_below ?_⟩
  · rw [below_of_num rfl, decide_eq_false (lt_irrefl _)]
  · cases hhigh with
    | null => rfl
    | @same raw y hnum =>
        have hle := hordered x y hstored rfl
        rw [above_of_num hnum, decide_eq_false (not_lt.mpr (hlt.le.trans hle))]
    | text s y => exact absurd rfl hhightext
    | @int m y hy =>
        have hle := (hordered x y hstored rfl).trans (hmax m y rfl hy)
        rw [above_of_num rfl, decide_eq_false (not_lt.mpr (hlt.le.trans hle))]
  · rw [hstored, below_of_num rfl, decide_eq_true hlt]

theorem unlike_of_high_rounded_down (h : FaithfulBounds low high) (htext : ¬ low.isStr = true)
    {n : Int} {x : Double} (hn : high = .int n) (hx : Double.ofInt? n = some x)
    (hlt : x.value < n) :
    side low high n = .ok .eq ∧ ∃ a, side low' high' n = .ok a ∧ a ≠ .eq := by
  subst hn
  have hstored := hhigh.eq_of_int hx
  obtain ⟨hmin, -⟩ := h.resolve_left htext
  refine ⟨side_of_within ?_ ?_, ?_⟩
  · cases hlow with
    | null => rfl
    | @same raw y hnum =>
        have hle := hordered y x rfl hstored
        rw [below_of_num hnum, decide_eq_false (not_lt.mpr (hle.trans hlt.le))]
    | text s y => exact absurd rfl htext
    | @int m y hy =>
        have hle := (hmin m y rfl hy).trans (hordered y x rfl hstored)
        rw [below_of_num rfl, decide_eq_false (not_lt.mpr (hle.trans hlt.le))]
  · rw [above_of_num rfl, decide_eq_false (lt_irrefl _)]
  · have habove : above n high' = .ok true := by
      rw [hstored, above_of_num rfl, decide_eq_true hlt]
    have hbelow : below n low' = .ok false := by
      rcases hlow.stored_cases with hnull | ⟨y, hy⟩
      · rw [hnull]
        rfl
      · rw [hy, below_of_num rfl,
          decide_eq_false (not_lt.mpr ((hordered y x hy hstored).trans hlt.le))]
    exact ⟨.gt, side_of_above hbelow habove, by decide⟩

/-- Otherwise a whole number of seconds is admitted by the bounds of one kind only. -/
theorem exists_unlike_of_not_faithfulSeconds (h : ¬ FaithfulSeconds low high) :
    ∃ (n : Int) (a b : Ordering), side low high n = .ok a ∧ side low' high' n = .ok b ∧
      ¬ (a = .eq ↔ b = .eq) := by
  by_cases hbounds : FaithfulBounds low high
  · obtain ⟨htext, hsides⟩ := not_or.mp h
    obtain ⟨hmin, hmax⟩ := hbounds.resolve_left htext
    rcases not_and_or.mp hsides with hlowSide | hhighSide
    · push Not at hlowSide
      obtain ⟨n, x, hn, hx, hside⟩ := hlowSide
      obtain ⟨hhightext, hlt⟩ := hside (hmin n x hn hx)
      obtain ⟨hraw, hstored⟩ :=
        unlike_of_low_rounded_up hlow hhigh hordered hbounds htext hn hx hlt hhightext
      exact ⟨n, .eq, .lt, hraw, hstored, by decide⟩
    · push Not at hhighSide
      obtain ⟨n, x, hn, hx, hne⟩ := hhighSide
      obtain ⟨hraw, a, hstored, ha⟩ :=
        unlike_of_high_rounded_down hlow hhigh hordered hbounds htext hn
        hx (lt_of_le_of_ne (hmax n x hn hx) hne)
      exact ⟨n, .eq, a, hraw, hstored, by simp [ha]⟩
  · obtain ⟨n, x, a, hx, hraw, ha, hstored⟩ :=
      exists_unlike_of_not_faithfulBounds hlow hhigh hordered hbounds
    obtain ⟨m, hm⟩ := Double.exists_int_of_ofInt? hx
    rw [hm] at hraw hstored
    exact ⟨m, a, .eq, hraw, hstored, by simp [ha]⟩

end Bounds

end Graveboards.Rules
