import Graveboards.Library.Rounding
import Graveboards.Library.Shortest

/-!
Finite doubles by the numbers they stand for; the sign of zero is left out. An
operation rounds its exact result. An infinite result is written as
`± 2 ^ 1024`, which compares with every finite double as it does.
-/

namespace Graveboards.Library

open Rounding (nearest Rounded)

/-- A number that 53 bits hold, down to the smallest exponent. -/
structure Double where
  value : Rat
  rounded : Rounded 52 (-1074) value
  finite : |value| < 2 ^ 1024
  deriving DecidableEq

namespace Double

@[ext] theorem ext {x y : Double} (h : x.value = y.value) : x = y := by
  cases x
  cases y
  cases h
  rfl

/-- The nearest double; `none`: there is no finite one. -/
def ofRat? (q : Rat) : Option Double :=
  if h : |nearest 52 (-1074) q| < 2 ^ 1024 then
    some ⟨nearest 52 (-1074) q, Rounding.rounded_nearest q, h⟩
  else none

/-- `float(n)`; `none`: OverflowError. -/
def ofInt? (n : Int) : Option Double := ofRat? n

theorem value_of_ofRat? {q : Rat} {x : Double} (h : ofRat? q = some x) :
    x.value = nearest 52 (-1074) q := by
  unfold ofRat? at h
  split at h
  · rw [← Option.some.inj h]
  · cases h

/-- Integers of 53 bits. -/
def ofInt (n : Int) (h : |n| ≤ 2 ^ 53) : Double where
  value := n
  rounded := by
    have hrounded : Rounded 52 (-1074) ((n : Rat) * 2 ^ (0 : Int)) :=
      Rounding.rounded_of_abs_le h (by decide)
    rwa [zpow_zero, mul_one] at hrounded
  finite := by
    rw [← Int.cast_abs]
    calc ((|n| : Int) : Rat) ≤ (2 ^ 53 : Int) := Int.cast_le.mpr h
      _ < 2 ^ 1024 := by
          rw [Int.cast_pow, Int.cast_ofNat]
          exact pow_lt_pow_right₀ one_lt_two (by norm_num)

@[simp] theorem ofInt_value (n : Int) (h : |n| ≤ 2 ^ 53) : (ofInt n h).value = n := rfl

theorem value_of_ofInt? {n : Int} (h : |n| ≤ 2 ^ 53) {x : Double} (hx : ofInt? n = some x) :
    x.value = n :=
  (value_of_ofRat? hx).trans (ofInt n h).rounded

def zero : Double := ofInt 0 (by decide)

def one : Double := ofInt 1 (by decide)

theorem abs_byte_le (n : UInt8) : |(n.toNat : Int)| ≤ 2 ^ 53 := by
  have hlt := n.toNat_lt
  rw [Nat.abs_cast]
  omega

/-- Integers of a byte. -/
def ofByte (n : UInt8) : Double := ofInt n.toNat (abs_byte_le n)

/-! Writing. -/

/-- The decimal reads back as the double, its sign apart. -/
def readsBack (x : Double) (q : Rat) : Bool := nearest 52 (-1074) q = |x.value|

/-- A double is a whole number of smallest doubles, so its decimal expansion ends. -/
theorem terminates (x : Double) : ∃ m : Nat, |x.value| * 10 ^ 1074 = m := by
  obtain ⟨m, hm⟩ := x.rounded.exists_units (s := 1074)
  refine ⟨m.natAbs * 5 ^ 1074, ?_⟩
  have hten : (10 : Rat) ^ 1074 = 2 ^ 1074 * 5 ^ 1074 := by
    rw [← mul_pow]
    congr 1
    norm_num
  have habs : |x.value| * 2 ^ 1074 = |(m : Rat)| := by
    rw [← hm, abs_mul, abs_of_pos (show (0 : Rat) < 2 ^ 1074 by positivity)]
  rw [hten, ← mul_assoc, habs, Nat.cast_mul, Nat.cast_natAbs, Int.cast_abs, Nat.cast_pow]
  rfl

/-- The decimal of `repr`, without its sign. -/
def shortest (x : Double) : Scientific :=
  Shortest.shortest x.readsBack |x.value|
    (x.terminates.elim fun _ hm => Shortest.exists_fits x.readsBack _ hm)

def repr (x : Double) : String :=
  let sign := if x.value < 0 then "-" else ""
  if x.value = 0 then "0.0" else sign ++ String.ofList x.shortest.text

/-! Arithmetic. -/

/-- The double that an operation gives for its exact result. -/
def round (q : Rat) : Rat :=
  if 2 ^ 1024 ≤ nearest 52 (-1074) q then 2 ^ 1024
  else if nearest 52 (-1074) q ≤ -2 ^ 1024 then -2 ^ 1024
  else nearest 52 (-1074) q

theorem rounded_round (q : Rat) : Rounded 52 (-1074) (round q) := by
  have hpower {m : Int} (hm : |m| ≤ 2 ^ (52 + 1)) :
      Rounded 52 (-1074) ((m : Rat) * 2 ^ (1024 : Int)) :=
    Rounding.rounded_of_abs_le hm (by decide)
  unfold round
  split
  · have hone := hpower (m := 1) (by decide)
    rwa [Int.cast_one, one_mul] at hone
  · split
    · have hone := hpower (m := -1) (by decide)
      rwa [Int.cast_neg, Int.cast_one, neg_one_mul] at hone
    · exact Rounding.rounded_nearest q

theorem round_value (x : Double) : round x.value = x.value := by
  have hvalue : nearest 52 (-1074) x.value = x.value := x.rounded
  obtain ⟨hlow, hhigh⟩ := abs_lt.mp x.finite
  rw [round, hvalue, if_neg (not_le.mpr hhigh), if_neg (not_le.mpr hlow)]

def isFinite (q : Rat) : Bool := |q| < 2 ^ 1024

/-- A sum and the errors of its additions so far. -/
structure CompensatedSum where
  hi : Rat
  lo : Rat

namespace CompensatedSum

/-- `cs_add`; an infinite sum stays as it is. -/
def add (total : CompensatedSum) (x : Rat) : CompensatedSum :=
  if !isFinite total.hi then total
  else
    let t := round (total.hi + x)
    let error := if |x| ≤ |total.hi| then round (round (total.hi - t) + x)
      else round (round (x - t) + total.hi)
    ⟨t, round (total.lo + error)⟩

/-- `cs_to_double`. -/
def toDouble (total : CompensatedSum) : Rat :=
  if total.lo ≠ 0 ∧ isFinite total.lo ∧ isFinite total.hi then round (total.hi + total.lo)
  else total.hi

theorem rounded_add {total : CompensatedSum} (h : Rounded 52 (-1074) total.hi) (x : Rat) :
    Rounded 52 (-1074) (total.add x).hi := by
  unfold add
  split
  · exact h
  · exact rounded_round _

theorem rounded_toDouble {total : CompensatedSum} (h : Rounded 52 (-1074) total.hi) :
    Rounded 52 (-1074) total.toDouble := by
  unfold toDouble
  split
  · exact rounded_round _
  · exact h

end CompensatedSum

/-- `sum` of floats, as the interpreter has it from version 3.12 on. -/
def sum : List Rat → Rat
  | [] => 0
  | x :: rest => (rest.foldl CompensatedSum.add ⟨x, 0⟩).toDouble

theorem rounded_sum {xs : List Rat} (h : ∀ x ∈ xs, Rounded 52 (-1074) x) :
    Rounded 52 (-1074) (sum xs) := by
  cases xs with
  | nil => exact Rounding.rounded_zero
  | cons x rest =>
      have hfold (total : CompensatedSum) (htotal : Rounded 52 (-1074) total.hi) :
          Rounded 52 (-1074) (rest.foldl CompensatedSum.add total).hi := by
        clear h
        induction rest generalizing total with
        | nil => exact htotal
        | cons y rest ih => exact ih _ (CompensatedSum.rounded_add htotal y)
      exact CompensatedSum.rounded_toDouble (hfold _ (h x List.mem_cons_self))

/-- `sum(xs) / len(xs)`. -/
def mean (xs : List Rat) : Rat :=
  if isFinite (sum xs) then round (sum xs / xs.length) else sum xs

theorem rounded_mean {xs : List Rat} (h : ∀ x ∈ xs, Rounded 52 (-1074) x) :
    Rounded 52 (-1074) (mean xs) := by
  unfold mean
  split
  · exact rounded_round _
  · exact rounded_sum h

theorem mean_singleton (x : Double) : mean [x.value] = x.value := by
  have hsum : sum [x.value] = x.value := by
    simp [sum, CompensatedSum.toDouble]
  have hfinite : isFinite x.value = true := decide_eq_true x.finite
  rw [mean, hsum, if_pos hfinite, List.length_singleton, Nat.cast_one, div_one,
    round_value]

/-! An integer and the double nearest to it. -/

/-- No double lies between. -/
theorem lt_value_of_ofInt? {n : Int} {x : Double} (h : ofInt? n = some x) {v : Rat}
    (hv : Rounded 52 (-1074) v) (hlt : v < x.value) : v < n := by
  by_contra hge
  rw [value_of_ofRat? h] at hlt
  exact absurd (hv.nearest_le (not_lt.mp hge)) (not_le.mpr hlt)

theorem value_lt_of_ofInt? {n : Int} {x : Double} (h : ofInt? n = some x) {v : Rat}
    (hv : Rounded 52 (-1074) v) (hlt : x.value < v) : (n : Rat) < v := by
  by_contra hge
  rw [value_of_ofRat? h] at hlt
  exact absurd (hv.le_nearest (not_lt.mp hge)) (not_le.mpr hlt)

/-- It is an integer. -/
theorem exists_int_of_ofInt? {n : Int} {x : Double} (h : ofInt? n = some x) :
    ∃ m : Int, x.value = m := by
  rw [value_of_ofRat? h]
  exact Rounding.nearest_intCast n

end Double

end Graveboards.Library
