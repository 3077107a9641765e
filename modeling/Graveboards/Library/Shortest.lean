import Mathlib.Data.Int.Log
import Mathlib.Data.List.DropRight
import Mathlib.Data.Rat.Floor
import Mathlib.Tactic.NormNum

/-!
The shortest decimal for a number: with one digit more at a time, the two decimals next to the
number are tried, the nearer one first, until one of them is accepted. A number with a finite
decimal expansion is reached itself in the end.
-/

namespace Graveboards.Library

/-- A decimal as an integer and a power of ten. -/
structure Scientific where
  digits : Nat
  exponent : Int
  deriving DecidableEq

def digitsOf (n : Nat) : List Char := (toString n).toList

/-- A sign and at least two digits. -/
def exponentText (e : Int) : List Char :=
  (if e < 0 then '-' else '+') :: (if e.natAbs < 10 then ['0'] else []) ++ digitsOf e.natAbs

/-- `format_float_short`: `0.ddd * 10 ^ point` with a point or an exponent. -/
def layout (digits : List Char) (point : Int) : List Char :=
  if point ≤ -4 ∨ 16 < point then
    digits.take 1 ++ (if digits.length = 1 then [] else '.' :: digits.drop 1) ++
      'e' :: exponentText (point - 1)
  else if point ≤ 0 then '0' :: '.' :: (List.replicate (-point).toNat '0' ++ digits)
  else if point < digits.length then digits.take point.toNat ++ '.' :: digits.drop point.toNat
  else digits ++ List.replicate (point.toNat - digits.length) '0' ++ ['.', '0']

namespace Scientific

def value (s : Scientific) : Rat := s.digits * 10 ^ s.exponent

/-- The text of `repr`, without zeros behind the last digit. -/
def text (s : Scientific) : List Char :=
  layout ((digitsOf s.digits).rdropWhile (· = '0')) ((digitsOf s.digits).length + s.exponent)

end Scientific

namespace Shortest

/-- The integers next to a number, the nearer one first, the even one of two as near. -/
def neighbours (q : Rat) : List Nat :=
  let low := ⌊q⌋.toNat
  let rest := q - ⌊q⌋
  if rest = 0 then [low]
  else if rest < 1 / 2 then [low, low + 1]
  else if 1 / 2 < rest then [low + 1, low]
  else if low % 2 = 0 then [low, low + 1]
  else [low + 1, low]

/-- The power of ten of the last of `n` digits. -/
def lastPlace (q : Rat) (n : Nat) : Int := Int.log 10 q + 1 - n

/-- The decimals with `n` digits next to the number. -/
def candidates (q : Rat) (n : Nat) : List Scientific :=
  (neighbours (q / 10 ^ lastPlace q n)).map fun digits => ⟨digits, lastPlace q n⟩

variable (accepts : Rat → Bool) (q : Rat)

def fits (s : Scientific) : Bool := accepts s.value || s.value = q

theorem neighbours_natCast (m : Nat) : neighbours m = [m] := by
  have hfloor : ⌊(m : Rat)⌋ = m := Int.floor_natCast m
  rw [neighbours, hfloor]
  simp

/-- A finite expansion is reached. -/
theorem exists_fits {k m : Nat} (h : q * 10 ^ k = m) :
    ∃ n, ∃ s ∈ candidates q n, fits accepts q s = true := by
  obtain ⟨n, hn⟩ : ∃ n : Nat, lastPlace q n ≤ -k :=
    ⟨(Int.log 10 q + 1 + k).toNat, by rw [lastPlace]; omega⟩
  refine ⟨n, ?_⟩
  obtain ⟨j, hj⟩ : ∃ j : Nat, lastPlace q n = -(k + j : Nat) :=
    ⟨(-lastPlace q n - k).toNat, by omega⟩
  have hscaled : q / 10 ^ lastPlace q n = ((m * 10 ^ j : Nat) : Rat) := by
    rw [hj, zpow_neg, zpow_natCast, div_inv_eq_mul, pow_add, ← mul_assoc, h,
      Nat.cast_mul, Nat.cast_pow]
    rfl
  have hplace : (10 : Rat) ^ lastPlace q n ≠ 0 := zpow_ne_zero _ (by norm_num)
  refine ⟨⟨m * 10 ^ j, lastPlace q n⟩, ?_, ?_⟩
  · rw [candidates, hscaled, neighbours_natCast]
    exact List.mem_singleton.mpr rfl
  · have hvalue : (⟨m * 10 ^ j, lastPlace q n⟩ : Scientific).value = q := by
      rw [Scientific.value, ← hscaled, div_mul_cancel₀ q hplace]
    rw [fits, hvalue, decide_eq_true rfl, Bool.or_true]

/-- The first candidate with the fewest digits. -/
def shortest (h : ∃ n, ∃ s ∈ candidates q n, fits accepts q s = true) : Scientific :=
  ((candidates q (Nat.find h)).find? (fits accepts q)).getD ⟨0, 0⟩

/-- What is found is accepted, if the number itself is. -/
theorem accepts_shortest {h : ∃ n, ∃ s ∈ candidates q n, fits accepts q s = true}
    (hq : accepts q = true) :
    accepts (shortest accepts q h).value = true := by
  obtain ⟨s, hs, hfits⟩ := Nat.find_spec h
  obtain ⟨t, hfind⟩ := Option.isSome_iff_exists.mp (List.find?_isSome.mpr ⟨s, hs, hfits⟩)
  have ht : fits accepts q t = true := List.find?_some hfind
  rw [shortest, hfind, Option.getD_some]
  rcases Bool.or_eq_true_iff.mp ht with hread | hexact
  · exact hread
  · rw [of_decide_eq_true hexact]
    exact hq

end Shortest

end Graveboards.Library
