import Mathlib.Data.List.TakeWhile
import Graveboards.Library.Text

/-!
How Python reads a number from a text: `int(s)`, and the number that `float(s)` rounds
when the text is neither an infinity nor a nan. Decimal digits of every script count, and
single underscores may stand between digits.
-/

namespace Graveboards.Library.Numeral

open Text

/-- The zeros of the runs of ten decimal digits in Unicode 16. -/
def zeros : List Nat :=
  [0x30, 0x660, 0x6f0, 0x7c0, 0x966, 0x9e6, 0xa66, 0xae6, 0xb66, 0xbe6, 0xc66, 0xce6, 0xd66, 0xde6,
    0xe50, 0xed0, 0xf20, 0x1040, 0x1090, 0x17e0, 0x1810, 0x1946, 0x19d0, 0x1a80, 0x1a90, 0x1b50,
    0x1bb0, 0x1c40, 0x1c50, 0xa620, 0xa8d0, 0xa900, 0xa9d0, 0xa9f0, 0xaa50, 0xabf0, 0xff10, 0x104a0,
    0x10d30, 0x10d40, 0x11066, 0x110f0, 0x11136, 0x111d0, 0x112f0, 0x11450, 0x114d0, 0x11650,
    0x116c0, 0x116d0, 0x116da, 0x11730, 0x118e0, 0x11950, 0x11bf0, 0x11c50, 0x11d50, 0x11da0,
    0x11f50, 0x16130, 0x16a60, 0x16ac0, 0x16b50, 0x16d70, 0x1ccf0, 0x1d7ce, 0x1d7d8, 0x1d7e2,
    0x1d7ec, 0x1d7f6, 0x1e140, 0x1e2f0, 0x1e4f0, 0x1e5f1, 0x1e950, 0x1fbf0]

def digit (c : Char) : Option Nat :=
  (zeros.find? fun first => first ≤ c.toNat && c.toNat < first + 10).map (c.toNat - ·)

/-- What is stripped from a number: `str.isspace` without the four ASCII separators. -/
def isSpace (c : Char) : Bool :=
  let n := c.toNat
  (9 ≤ n && n ≤ 13) || n = 32 || n = 0x85 || n = 0xA0 || n = 0x1680 || (0x2000 ≤ n && n ≤ 0x200A) ||
    n = 0x2028 || n = 0x2029 || n = 0x202F || n = 0x205F || n = 0x3000

def strip (s : List Char) : List Char := ((s.dropWhile isSpace).reverse.dropWhile isSpace).reverse

/-- Whether the text starts with a minus, and what comes after its sign. -/
def signed : List Char → Bool × List Char
  | '-' :: rest => (true, rest)
  | '+' :: rest => (false, rest)
  | s => (false, s)

def digits : List Char → Option (List Nat)
  | [] => none
  | [c] => (digit c).map ([·])
  | c :: '_' :: rest => (digit c).bind fun d => (digits rest).map (d :: ·)
  | c :: c' :: rest => (digit c).bind fun d => (digits (c' :: rest)).map (d :: ·)

def value (ds : List Nat) : Nat := ds.foldl (fun total d => 10 * total + d) 0

def withSign (negative : Bool) (n : Nat) : Int := if negative then -n else n

/-- `sys.get_int_max_str_digits()`. -/
def maxDigits : Nat := 4300

/-- `int(s)`; `none`: ValueError. -/
def int (s : List Char) : Option Int :=
  (digits (signed (strip s)).2).bind fun ds =>
    if maxDigits < ds.length then none else some (withSign (signed (strip s)).1 (value ds))

/-- A side of the decimal point. -/
def side (s : List Char) : Option (List Nat) := if s = [] then some [] else digits s

/-- The exponent of a numeral, from its letter on. -/
def exponent : List Char → Option Int
  | [] => some 0
  | _ :: rest => (digits (signed rest).2).map fun ds => withSign (signed rest).1 (value ds)

/-- The sign and the magnitude of `s` as `float(s)` reads it; `none`: ValueError. -/
def decimal (s : List Char) : Option (Bool × Rat) :=
  let (negative, rest) := signed (strip s)
  let mantissa := rest.takeWhile fun c => c ≠ 'e' ∧ c ≠ 'E'
  let whole := mantissa.takeWhile (· ≠ '.')
  (side whole).bind fun high =>
    (side ((mantissa.drop whole.length).drop 1)).bind fun low =>
      if high ++ low = [] then none
      else (exponent (rest.drop mantissa.length)).map fun e =>
        (negative, (value (high ++ low) : Rat) * (10 : Rat) ^ (e - (low.length : Int)))

theorem range_of_isDigit {c : Char} (h : c.isDigit = true) : 48 ≤ c.toNat ∧ c.toNat ≤ 57 := by
  simp only [Char.isDigit, Bool.and_eq_true, decide_eq_true_eq] at h
  exact h

theorem digit_of_isDigit {c : Char} (h : c.isDigit = true) :
    digit c = some (c.toNat - '0'.toNat) := by
  have hrange := range_of_isDigit h
  have hfind : (decide (0x30 ≤ c.toNat) && decide (c.toNat < 0x30 + 10)) = true := by
    simp only [Bool.and_eq_true, decide_eq_true_eq]
    omega
  have hfirst : zeros.find? (fun first => first ≤ c.toNat && c.toNat < first + 10) = some 0x30 :=
    List.find?_cons_of_pos hfind
  rw [digit, hfirst]
  rfl

theorem not_isSpace_of_range {c : Char} (h : 33 ≤ c.toNat) (h' : c.toNat < 0x85) :
    isSpace c = false := by
  simp only [isSpace, Bool.or_eq_false_iff, Bool.and_eq_false_iff, decide_eq_false_iff_not]
  omega

theorem not_isSpace_of_isDigit {c : Char} (h : c.isDigit = true) : isSpace c = false := by
  have hrange := range_of_isDigit h
  exact not_isSpace_of_range (by omega) (by omega)

theorem strip_eq_self {s : List Char} (h : ∀ c ∈ s, isSpace c = false) : strip s = s := by
  have hkeep {s : List Char} (h : ∀ c ∈ s, isSpace c = false) : s.dropWhile isSpace = s := by
    cases s with
    | nil => rfl
    | cons c rest => rw [List.dropWhile_cons_of_neg (by simp [h c List.mem_cons_self])]
  rw [strip, hkeep h, hkeep fun c hc => h c (List.mem_reverse.mp hc), List.reverse_reverse]

theorem signed_of_isDigit {c : Char} (rest : List Char) (h : c.isDigit = true) :
    signed (c :: rest) = (false, c :: rest) := by
  unfold signed
  split
  · rename_i heq
    obtain ⟨rfl, -⟩ := List.cons_eq_cons.mp heq
    exact absurd h (by decide)
  · rename_i heq
    obtain ⟨rfl, -⟩ := List.cons_eq_cons.mp heq
    exact absurd h (by decide)
  · rfl

theorem digits_of_isDigit {s : List Char} (hne : s ≠ []) (h : ∀ c ∈ s, c.isDigit = true) :
    digits s = some (s.map fun c => c.toNat - '0'.toNat) := by
  induction s with
  | nil => exact absurd rfl hne
  | cons c rest ih =>
      have hc := digit_of_isDigit (h c List.mem_cons_self)
      cases rest with
      | nil => simp [digits, hc]
      | cons c' rest =>
          have hc' : c' ≠ '_' := by
            rintro rfl
            exact absurd (h '_' (by simp)) (by decide)
          have hrest := ih (by simp) fun d hd => h d (List.mem_cons_of_mem c hd)
          have hstep : digits (c :: c' :: rest) = (digit c).bind fun d =>
              (digits (c' :: rest)).map (d :: ·) := by
            rw [digits]
            exact fun heq => hc' heq
          rw [hstep, hc, Option.bind_some, hrest]
          rfl

theorem value_map_toString (n : Nat) :
    value ((toString n).toList.map fun c => c.toNat - '0'.toNat) = n := by
  have h := digitsValue_toString n
  rw [digitsValue] at h
  rw [value, List.foldl_map, h]

theorem isDigit_of_mem_toString {n : Nat} {c : Char} (h : c ∈ (toString n).toList) :
    c.isDigit = true := by
  rw [Nat.toString_eq_ofList_toDigits, String.toList_ofList] at h
  exact Nat.isDigit_of_mem_toDigits (by decide) (by decide) h

theorem toString_ne_nil (n : Nat) : (toString n).toList ≠ [] := by
  rw [Nat.toString_eq_ofList_toDigits, String.toList_ofList]
  exact Nat.toDigits_ne_nil

theorem signed_toString (n : Nat) (rest : List Char) :
    signed ((toString n).toList ++ rest) = (false, (toString n).toList ++ rest) := by
  cases htext : (toString n).toList with
  | nil => exact absurd htext (toString_ne_nil n)
  | cons c digits =>
      apply signed_of_isDigit
      apply isDigit_of_mem_toString (n := n)
      rw [htext]
      exact List.mem_cons_self

theorem digits_toString (n : Nat) :
    digits (toString n).toList = some ((toString n).toList.map fun c => c.toNat - '0'.toNat) :=
  digits_of_isDigit (toString_ne_nil n) fun _ => isDigit_of_mem_toString

/-- Decimal texts of integers are read back, up to the length that `int` admits. -/
theorem int_toString (n : Int) :
    int (toString n).toList = if maxDigits < (toString n.natAbs).length then none else some n := by
  have hlength (m : Nat) :
      ((toString m).toList.map fun c => c.toNat - '0'.toNat).length = (toString m).length := by
    rw [List.length_map, String.length_toList]
  cases n with
  | ofNat m =>
      have htext : (toString (Int.ofNat m)).toList = (toString m).toList := rfl
      have hstrip :=
        strip_eq_self fun c hc => not_isSpace_of_isDigit (isDigit_of_mem_toString (n := m) hc)
      have hsign := signed_toString m []
      rw [List.append_nil] at hsign
      rw [htext, int, hstrip, hsign, digits_toString, Option.bind_some, hlength, value_map_toString]
      rfl
  | negSucc m =>
      have htext : (toString (Int.negSucc m)).toList = '-' :: (toString (m + 1)).toList := by
        rw [show toString (Int.negSucc m) = "-" ++ toString (m + 1) from rfl, String.toList_append]
        rfl
      have hstrip :
          strip ('-' :: (toString (m + 1)).toList) = '-' :: (toString (m + 1)).toList := by
        apply strip_eq_self
        intro c hc
        rcases List.mem_cons.mp hc with rfl | hc
        · decide
        · exact not_isSpace_of_isDigit (isDigit_of_mem_toString hc)
      rw [htext, int, hstrip, signed, digits_toString, Option.bind_some, hlength,
        value_map_toString]
      rfl

/-- A decimal numeral with its point. -/
structure Fixed where
  negative : Bool
  whole : Nat
  fraction : List (Fin 10)
  deriving DecidableEq

namespace Fixed

def text (x : Fixed) : List Char :=
  (if x.negative then ['-'] else []) ++
    ((toString x.whole).toList ++ '.' :: x.fraction.map fun d => d.val.digitChar)

/-- The digits on both sides of the point. -/
def digits (x : Fixed) : List Nat :=
  ((toString x.whole).toList.map fun c => c.toNat - '0'.toNat) ++ x.fraction.map (·.val)

def magnitude (x : Fixed) : Rat :=
  (value x.digits : Rat) * (10 : Rat) ^ (0 - (x.fraction.length : Int))

theorem isDigit_digitChar (d : Fin 10) : d.val.digitChar.isDigit = true := by
  revert d
  decide

theorem toNat_digitChar (d : Fin 10) : d.val.digitChar.toNat - '0'.toNat = d.val := by
  revert d
  decide

theorem point_mem_text (x : Fixed) : '.' ∈ x.text := by simp [text]

theorem cases_of_mem_text (x : Fixed) {c : Char} (h : c ∈ x.text) :
    c.isDigit = true ∨ c = '-' ∨ c = '.' := by
  have hcases :
      c = '-' ∨ c ∈ (toString x.whole).toList ∨ c = '.' ∨ ∃ d : Fin 10, d.val.digitChar = c := by
    rw [text] at h
    split at h
    all_goals
      simp only [List.mem_append, List.mem_cons, List.mem_map, List.not_mem_nil,
        or_false, false_or] at h
      grind
  rcases hcases with rfl | hdigit | rfl | ⟨d, rfl⟩
  · exact .inr (.inl rfl)
  · exact .inl (isDigit_of_mem_toString hdigit)
  · exact .inr (.inr rfl)
  · exact .inl (isDigit_digitChar d)

theorem not_isSpace_of_mem_text {x : Fixed} {c : Char} (h : c ∈ x.text) : isSpace c = false := by
  rcases x.cases_of_mem_text h with hdigit | rfl | rfl
  · exact not_isSpace_of_isDigit hdigit
  · decide
  · decide

theorem signed_text (x : Fixed) :
    signed x.text = (x.negative, (toString x.whole).toList ++ '.' :: x.fraction.map fun d =>
      d.val.digitChar) := by
  rw [text]
  cases x.negative with
  | false => exact signed_toString x.whole _
  | true => rfl

theorem side_fraction (x : Fixed) :
    side (x.fraction.map fun d => d.val.digitChar) = some (x.fraction.map (·.val)) := by
  rw [side]
  split
  · rename_i hnil
    rw [List.map_eq_nil_iff.mp hnil, List.map_nil]
  · rename_i hne
    rw [digits_of_isDigit hne, List.map_map]
    · congr 2
      funext d
      exact toNat_digitChar d
    · intro c hc
      obtain ⟨d, -, rfl⟩ := List.mem_map.mp hc
      exact isDigit_digitChar d

/-- A numeral with a point is read as the number it writes. -/
theorem decimal_text (x : Fixed) : decimal x.text = some (x.negative, x.magnitude) := by
  have hletters :
      ∀ c ∈ (toString x.whole).toList ++ '.' :: x.fraction.map (fun d => d.val.digitChar),
      decide (c ≠ 'e' ∧ c ≠ 'E') = true := by
    intro c hc
    have hcases : c.isDigit = true ∨ c = '.' := by
      simp only [List.mem_append, List.mem_cons, List.mem_map] at hc
      rcases hc with hdigit | rfl | ⟨d, -, rfl⟩
      · exact .inl (isDigit_of_mem_toString hdigit)
      · exact .inr rfl
      · exact .inl (isDigit_digitChar d)
    rw [decide_eq_true_eq]
    constructor
    · rintro rfl
      revert hcases
      decide
    · rintro rfl
      revert hcases
      decide
  have hpoint :
      ((toString x.whole).toList ++ '.' :: x.fraction.map fun d => d.val.digitChar).takeWhile
      (· ≠ '.') =
      (toString x.whole).toList := by
    rw [List.takeWhile_append_of_pos, List.takeWhile_cons_of_neg, List.append_nil]
    · simp
    · intro c hc
      rw [decide_eq_true_eq]
      rintro rfl
      exact absurd (isDigit_of_mem_toString hc) (by decide)
  have hwhole : side (toString x.whole).toList =
      some ((toString x.whole).toList.map fun c => c.toNat - '0'.toNat) := by
    rw [side, if_neg (toString_ne_nil x.whole), digits_toString]
  have hne : x.digits ≠ [] := by
    intro hnil
    exact toString_ne_nil x.whole (List.map_eq_nil_iff.mp (List.append_eq_nil_iff.mp hnil).1)
  rw [decimal, strip_eq_self fun c => not_isSpace_of_mem_text, signed_text]
  dsimp only
  rw [List.takeWhile_eq_self_iff.mpr hletters, hpoint, hwhole, List.drop_left,
    Option.bind_some, List.drop_one, List.tail_cons, side_fraction, Option.bind_some,
    if_neg (by exact hne), List.drop_length, exponent,
    Option.map_some, List.length_map]
  rfl

end Fixed

end Graveboards.Library.Numeral
