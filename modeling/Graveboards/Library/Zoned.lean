import Graveboards.Library.Iso

/-!
ISO 8601 texts of datetimes with an offset in minutes, or without one: what `isoformat`
writes, `fromisoformat` reads back. `Z` stands for the offset of UTC in texts from elsewhere.
-/

namespace Graveboards.Library

open Calendar Iso

/-- A datetime: the time on the wall, and its offset from UTC in minutes. -/
structure Zoned where
  moment : Moment
  offset : Option Int
  bounded : ∀ minutes ∈ offset, minutes.natAbs < 1440
  deriving DecidableEq

namespace Zoned

def date (t : DateTime) (rest : List Char) : List Char :=
  digits 4 t.year ++ '-' :: (digits 2 t.month ++ '-' :: (digits 2 t.day ++ rest))

/-- The time up to the seconds. -/
def clock (t : DateTime) (rest : List Char) : List Char :=
  digits 2 t.hour ++ ':' :: (digits 2 t.minute ++ ':' :: (digits 2 t.second ++ rest))

def wall (t : DateTime) (rest : List Char) : List Char := date t ('T' :: clock t rest)

def fraction (microsecond : Nat) (rest : List Char) : List Char :=
  (if microsecond = 0 then [] else '.' :: digits 6 microsecond) ++ rest

def sign (minutes : Int) : Char := if minutes < 0 then '-' else '+'

def offsetText : Option Int → List Char
  | none => []
  | some minutes =>
      sign minutes :: (digits 2 (minutes.natAbs / 60) ++ ':' :: digits 2 (minutes.natAbs % 60))

def isoformat (d : Zoned) : String :=
  String.ofList (wall d.moment.time (fraction d.moment.time.microsecond (offsetText d.offset)))

/-- The offset of UTC as `Z`, as pydantic writes it. -/
def isoformatZ (d : Zoned) : String :=
  String.ofList (wall d.moment.time (fraction d.moment.time.microsecond
    (if d.offset = some 0 then ['Z'] else offsetText d.offset)))

def readFraction : List Char → Option (Nat × List Char)
  | '.' :: cs => readDigits 6 0 cs
  | cs => some (0, cs)

def readOffset : List Char → Option (Option Int)
  | [] => some none
  | ['Z'] => some (some 0)
  | c :: cs => do
      let negative ← if c = '-' then some true else if c = '+' then some false else none
      let (hours, cs) ← readDigits 2 0 cs
      let cs ← expect ':' cs
      let (minutes, cs) ← readDigits 2 0 cs
      if cs = [] ∧ minutes < 60 then
        some (some (if negative then -((60 * hours + minutes : Nat) : Int)
            else ((60 * hours + minutes : Nat) : Int)))
      else none

def readDate (cs : List Char) : Option (Nat × Nat × Nat × List Char) := do
  let (year, cs) ← readDigits 4 0 cs
  let cs ← expect '-' cs
  let (month, cs) ← readDigits 2 0 cs
  let cs ← expect '-' cs
  let (day, cs) ← readDigits 2 0 cs
  return (year, month, day, cs)

def readClock (cs : List Char) : Option (Nat × Nat × Nat × List Char) := do
  let (hour, cs) ← readDigits 2 0 cs
  let cs ← expect ':' cs
  let (minute, cs) ← readDigits 2 0 cs
  let cs ← expect ':' cs
  let (second, cs) ← readDigits 2 0 cs
  return (hour, minute, second, cs)

/-- `fromisoformat` on the extended form. -/
def fromisoformat (text : String) : Option Zoned := do
  let (year, month, day, cs) ← readDate text.toList
  let cs ← expect 'T' cs
  let (hour, minute, second, cs) ← readClock cs
  let (microsecond, cs) ← readFraction cs
  let offset ← readOffset cs
  let time : DateTime := ⟨year, month, day, hour, minute, second, microsecond⟩
  if h : isValid time = true ∧ ∀ minutes ∈ offset, minutes.natAbs < 1440 then
    some ⟨⟨time, h.1⟩, offset, h.2⟩
  else none

/-- Hours and minutes are read behind either sign. -/
theorem readOffset_sign {n : Nat} (h : n < 1440) {c : Char} {negative : Bool}
    (hsign : (if c = '-' then some true else if c = '+' then some false else none) =
      some negative) :
    readOffset (c :: (digits 2 (n / 60) ++ ':' :: digits 2 (n % 60))) =
      some (some (if negative then -(n : Int) else (n : Int))) := by
  have hhours (cs : List Char) : readDigits 2 0 (digits 2 (n / 60) ++ cs) = some (n / 60, cs) := by
    apply readDigits_of_lt
    omega
  have hminutes : readDigits 2 0 (digits 2 (n % 60)) = some (n % 60, []) := by
    have hread := readDigits_of_lt (show n % 60 < 10 ^ 2 by omega) []
    rwa [List.append_nil] at hread
  have hsum : 60 * (n / 60) + n % 60 = n := Nat.div_add_mod n 60
  have hlt : n % 60 < 60 := Nat.mod_lt _ (by decide)
  have hne : digits 2 (n / 60) ++ ':' :: digits 2 (n % 60) ≠ [] := by simp [digits]
  rw [readOffset]
  · by_cases hminus : c = '-'
    · rw [if_pos hminus] at hsign
      cases hsign
      simp only [hminus, if_true, Option.bind_eq_bind, Option.bind_some, hhours, expect_cons,
        hminutes, hsum, hlt, and_self]
    · by_cases hplus : c = '+'
      · rw [if_neg hminus, if_pos hplus] at hsign
        cases hsign
        have hplain : ¬ '+' = '-' := by decide
        simp only [hplain, hplus, if_true, if_false, Bool.false_eq_true, Option.bind_eq_bind,
          Option.bind_some, hhours, expect_cons, hminutes, hsum, hlt, and_self]
      · rw [if_neg hminus, if_neg hplus] at hsign
        cases hsign
  · intro _ heq
    exact hne heq

theorem readOffset_offsetText {offset : Option Int}
    (h : ∀ minutes ∈ offset, minutes.natAbs < 1440) :
    readOffset (offsetText offset) = some offset := by
  cases offset with
  | none => rfl
  | some minutes =>
      have hbound := h minutes rfl
      by_cases hneg : minutes < 0
      · have hread := readOffset_sign hbound (show _ = some true from if_pos rfl)
        simp only [offsetText, sign, if_pos hneg, hread, if_true]
        congr 2
        omega
      · have hread :=
          readOffset_sign hbound (show _ = some false from (if_neg (by decide)).trans (if_pos rfl))
        simp only [offsetText, sign, if_neg hneg, hread]
        congr 2
        simp only [Bool.false_eq_true, if_false]
        omega

theorem readFraction_fraction {microsecond : Nat} (h : microsecond < 1000000) {rest : List Char}
    (hrest : rest.head? ≠ some '.') :
    readFraction (fraction microsecond rest) = some (microsecond, rest) := by
  unfold fraction
  split
  · next hzero =>
      subst hzero
      rw [List.nil_append]
      unfold readFraction
      split
      · exact absurd rfl hrest
      · rfl
  · rw [List.cons_append, readFraction, readDigits_of_lt h]

theorem day_lt {t : DateTime} (h : isValid t = true) : t.day < 100 := by
  simp only [isValid, Bool.and_eq_true, decide_eq_true_eq] at h
  obtain ⟨⟨⟨⟨⟨⟨⟨⟨⟨-, -⟩, hone⟩, hmonth⟩, -⟩, hday⟩, -⟩, -⟩, -⟩, -⟩ := h
  have hdays : daysInMonth t.year t.month < 100 := by
    unfold daysInMonth
    split
    · decide
    · generalize t.month = month at hone hmonth
      interval_cases month <;> decide
  omega

theorem readDate_date {t : DateTime} (h : isValid t = true) (rest : List Char) :
    readDate (date t rest) = some (t.year, t.month, t.day, rest) := by
  have hday := day_lt h
  simp only [isValid, Bool.and_eq_true, decide_eq_true_eq] at h
  obtain ⟨⟨⟨⟨⟨⟨⟨⟨⟨-, hyear⟩, -⟩, hmonth⟩, -⟩, -⟩, -⟩, -⟩, -⟩, -⟩ := h
  have hfour (cs : List Char) : readDigits 4 0 (digits 4 t.year ++ cs) = some (t.year, cs) :=
    readDigits_of_lt hyear cs
  have hwide {n : Nat} (h : n < 100) (cs : List Char) :
      readDigits 2 0 (digits 2 n ++ cs) = some (n, cs) := readDigits_of_lt h cs
  simp only [readDate, date, Option.bind_eq_bind, Option.bind_some, hfour, expect_cons,
    hwide (lt_of_le_of_lt hmonth (by decide)), hwide hday]
  rfl

theorem readClock_clock {t : DateTime} (h : isValid t = true) (rest : List Char) :
    readClock (clock t rest) = some (t.hour, t.minute, t.second, rest) := by
  simp only [isValid, Bool.and_eq_true, decide_eq_true_eq] at h
  obtain ⟨⟨⟨⟨-, hhour⟩, hminute⟩, hsecond⟩, -⟩ := h
  have hwide {n : Nat} (h : n < 100) (cs : List Char) :
      readDigits 2 0 (digits 2 n ++ cs) = some (n, cs) := readDigits_of_lt h cs
  simp only [readClock, clock, Option.bind_eq_bind, Option.bind_some, expect_cons,
    hwide (hhour.trans (by decide)), hwide (hminute.trans (by decide)),
    hwide (hsecond.trans (by decide))]
  rfl

/-- A time and an offset are read from their text. -/
theorem fromisoformat_wall (d : Zoned) {text : List Char} (hread : readOffset text = some d.offset)
    (hhead : text.head? ≠ some '.') :
    fromisoformat (String.ofList (wall d.moment.time (fraction d.moment.time.microsecond text))) =
      some d := by
  obtain ⟨⟨time, hvalid⟩, offset, hbounded⟩ := d
  have hmicro : time.microsecond < 1000000 := by
    simp only [isValid, Bool.and_eq_true, decide_eq_true_eq] at hvalid
    exact hvalid.2
  have hfraction := readFraction_fraction hmicro hhead
  unfold fromisoformat wall
  rw [String.toList_ofList, readDate_date hvalid]
  simp only [Option.bind_eq_bind, Option.bind_some, expect_cons, readClock_clock hvalid,
    hfraction, hread]
  rw [dif_pos ⟨hvalid, hbounded⟩]

theorem head_offsetText (offset : Option Int) : (offsetText offset).head? ≠ some '.' := by
  cases offset with
  | none => simp [offsetText]
  | some minutes =>
      simp only [offsetText, sign, List.head?_cons]
      split <;> decide

theorem fromisoformat_isoformat (d : Zoned) : fromisoformat (isoformat d) = some d :=
  fromisoformat_wall d (readOffset_offsetText d.bounded) (head_offsetText d.offset)

theorem fromisoformat_isoformatZ (d : Zoned) : fromisoformat (isoformatZ d) = some d := by
  apply fromisoformat_wall d
  · split
    · next hzero => rw [hzero]; rfl
    · exact readOffset_offsetText d.bounded
  · split
    · decide
    · exact head_offsetText d.offset

theorem isoformat_ne_empty (d : Zoned) : isoformat d ≠ "" := by
  intro h
  have hlist := congrArg String.toList h
  rw [isoformat, String.toList_ofList] at hlist
  simp [wall, date, digits] at hlist

end Zoned

end Graveboards.Library
