import Graveboards.Library.Calendar

/-!
ISO 8601 texts of UTC datetimes, as Python's `isoformat` writes them and
`fromisoformat` reads them back: fixed-width decimal fields, the microseconds
left out when they are zero, and the offset of UTC.
-/

namespace Graveboards.Library

namespace Iso

open Calendar

/-! Fixed-width decimals. -/

/-- The last `width` decimal digits of a number. -/
def digits : Nat → Nat → List Char
  | 0, _ => []
  | width + 1, n => digits width (n / 10) ++ [Nat.digitChar (n % 10)]

/-- Read `width` digits, continuing a number. -/
def readDigits : Nat → Nat → List Char → Option (Nat × List Char)
  | 0, total, cs => some (total, cs)
  | _ + 1, _, [] => none
  | width + 1, total, c :: cs =>
      if c.isDigit then readDigits width (10 * total + (c.toNat - '0'.toNat)) cs else none

/-- Read one character that must be there. -/
def expect (c : Char) : List Char → Option (List Char)
  | [] => none
  | d :: cs => if d = c then some cs else none

@[simp] theorem expect_cons (c : Char) (cs : List Char) : expect c (c :: cs) = some cs := by
  simp [expect]

theorem readDigits_succ (width total : Nat) (cs : List Char) :
    readDigits (width + 1) total cs =
      (readDigits width total cs).bind (fun r => readDigits 1 r.1 r.2) := by
  induction width generalizing total cs with
  | zero => rfl
  | succ width ih =>
      cases cs with
      | nil => rfl
      | cons c cs =>
          rw [readDigits, readDigits]
          split
          · exact ih _ _
          · rfl

theorem readDigits_digits (width total n : Nat) (cs : List Char) :
    readDigits width total (digits width n ++ cs) =
      some (10 ^ width * total + n % 10 ^ width, cs) := by
  induction width generalizing n cs with
  | zero => simp [digits, readDigits, Nat.mod_one]
  | succ width ih =>
      have hlt : n % 10 < 10 := Nat.mod_lt _ (by decide)
      have hchar : (Nat.digitChar (n % 10)).toNat - '0'.toNat = n % 10 := by
        rw [Nat.toNat_digitChar_of_lt_ten hlt]
        simp
      rw [readDigits_succ, digits, List.append_assoc, ih, Option.bind_some, List.singleton_append,
        readDigits, Nat.isDigit_digitChar, if_pos (decide_eq_true hlt), hchar, readDigits]
      rw [Nat.pow_succ, Nat.mul_comm (10 ^ width) 10, Nat.mod_mul]
      congr 2
      ring

/-- A number that fits its width is read back. -/
theorem readDigits_of_lt {width n : Nat} (h : n < 10 ^ width) (cs : List Char) :
    readDigits width 0 (digits width n ++ cs) = some (n, cs) := by
  rw [readDigits_digits, Nat.mul_zero, Nat.zero_add, Nat.mod_eq_of_lt h]

/-! Datetimes. -/

def daysInMonth (year month : Nat) : Nat :=
  if month = 2 ∧ isLeap year then 29
  else [0, 31, 28, 31, 30, 31, 30, 31, 31, 30, 31, 30, 31].getD month 0

/-- The ranges Python's `datetime` enforces. -/
def isValid (t : DateTime) : Bool :=
  1 ≤ t.year && t.year < 10000 && 1 ≤ t.month && t.month ≤ 12 &&
    1 ≤ t.day && t.day ≤ daysInMonth t.year t.month &&
    t.hour < 24 && t.minute < 60 && t.second < 60 && t.microsecond < 1000000

/-- A datetime that Python can hold. -/
structure Moment where
  time : DateTime
  valid : isValid time = true
  deriving DecidableEq

def utc : List Char := ['+', '0', '0', ':', '0', '0']

/-- The microseconds and the offset. -/
def tail (microsecond : Nat) : List Char :=
  (if microsecond = 0 then [] else '.' :: digits 6 microsecond) ++ utc

def isoformat (m : Moment) : String :=
  String.ofList (digits 4 m.time.year ++ '-' :: (digits 2 m.time.month ++ '-' ::
    (digits 2 m.time.day ++ 'T' :: (digits 2 m.time.hour ++ ':' :: (digits 2 m.time.minute ++ ':' ::
      (digits 2 m.time.second ++ tail m.time.microsecond))))))

/-- The microseconds of a tail, if it is one. -/
def readTail (cs : List Char) : Option Nat :=
  if cs = utc then some 0
  else do
    let cs ← expect '.' cs
    let (microsecond, cs) ← readDigits 6 0 cs
    if cs = utc then some microsecond else none

/-- `fromisoformat` on the extended form with the offset of UTC. -/
def fromisoformat (text : String) : Option Moment := do
  let (year, cs) ← readDigits 4 0 text.toList
  let cs ← expect '-' cs
  let (month, cs) ← readDigits 2 0 cs
  let cs ← expect '-' cs
  let (day, cs) ← readDigits 2 0 cs
  let cs ← expect 'T' cs
  let (hour, cs) ← readDigits 2 0 cs
  let cs ← expect ':' cs
  let (minute, cs) ← readDigits 2 0 cs
  let cs ← expect ':' cs
  let (second, cs) ← readDigits 2 0 cs
  let microsecond ← readTail cs
  let time : DateTime := ⟨year, month, day, hour, minute, second, microsecond⟩
  if h : isValid time then some ⟨time, h⟩ else none

theorem readTail_tail {microsecond : Nat} (h : microsecond < 1000000) :
    readTail (tail microsecond) = some microsecond := by
  unfold tail readTail
  split
  · next hzero => simp [hzero]
  · have hne : '.' :: digits 6 microsecond ++ utc ≠ utc := by simp [utc]
    rw [if_neg hne, List.cons_append, expect_cons, Option.bind_eq_bind, Option.bind_some,
      readDigits_of_lt h]
    simp

theorem bind_of_eq_some {α β : Type} {x : Option α} {a : α} (h : x = some a) (f : α → Option β) :
    (x >>= f) = f a := by
  rw [h, Option.bind_eq_bind, Option.bind_some]

theorem fromisoformat_isoformat (m : Moment) : fromisoformat (isoformat m) = some m := by
  obtain ⟨⟨year, month, day, hour, minute, second, microsecond⟩, hvalid⟩ := m
  have hranges := hvalid
  simp only [isValid, Bool.and_eq_true, decide_eq_true_eq] at hranges
  obtain ⟨⟨⟨⟨⟨⟨⟨⟨⟨-, hyear⟩, -⟩, hmonth⟩, -⟩, hday⟩, hhour⟩, hminute⟩, hsecond⟩, hmicro⟩ := hranges
  have hday' : day < 100 := lt_of_le_of_lt hday (by
    unfold daysInMonth
    split
    · decide
    · interval_cases month <;> decide)
  unfold fromisoformat isoformat
  rw [String.toList_ofList]
  have hwide {n : Nat} (h : n < 100) (cs : List Char) :
      readDigits 2 0 (digits 2 n ++ cs) = some (n, cs) := readDigits_of_lt h cs
  have hfour (cs : List Char) : readDigits 4 0 (digits 4 year ++ cs) = some (year, cs) :=
    readDigits_of_lt hyear cs
  -- The parts are read one after the other, as they were written.
  refine (bind_of_eq_some (hfour _) _).trans ?_
  refine (bind_of_eq_some (expect_cons '-' _) _).trans ?_
  refine (bind_of_eq_some (hwide (lt_of_le_of_lt hmonth (by decide)) _) _).trans ?_
  refine (bind_of_eq_some (expect_cons '-' _) _).trans ?_
  refine (bind_of_eq_some (hwide hday' _) _).trans ?_
  refine (bind_of_eq_some (expect_cons 'T' _) _).trans ?_
  refine (bind_of_eq_some (hwide (hhour.trans (by decide)) _) _).trans ?_
  refine (bind_of_eq_some (expect_cons ':' _) _).trans ?_
  refine (bind_of_eq_some (hwide (hminute.trans (by decide)) _) _).trans ?_
  refine (bind_of_eq_some (expect_cons ':' _) _).trans ?_
  refine (bind_of_eq_some (hwide (hsecond.trans (by decide)) _) _).trans ?_
  refine (bind_of_eq_some (readTail_tail hmicro) _).trans ?_
  exact dif_pos hvalid

theorem isoformat_ne_empty (m : Moment) : isoformat m ≠ "" := by
  intro h
  have hlist := congrArg String.toList h
  rw [isoformat, String.toList_ofList] at hlist
  simp [digits] at hlist

/-- Noon of New Year's Day 2024. -/
def newYear : Moment := ⟨⟨2024, 1, 1, 12, 0, 0, 0⟩, rfl⟩

end Iso

end Graveboards.Library
