import Graveboards.Library.Json

/-!
The parts of Python's text formatting that error messages and keys use:
`str.isdigit` with `int`, fixed-point format codes, and `repr` of JSON values.
Digits are the ASCII ones.
-/

namespace Graveboards.Library

/-- What a computation that came through has done first. -/
theorem bind_eq_ok {ε α β : Type} {x : Except ε α} {f : α → Except ε β} {b : β}
    (h : x >>= f = .ok b) : ∃ a, x = .ok a ∧ f a = .ok b := by
  cases x with
  | error e => cases h
  | ok a => exact ⟨a, rfl, h⟩

theorem ok_bind {ε α β : Type} (a : α) (f : α → Except ε β) : (.ok a >>= f) = f a := rfl

theorem error_bind {ε α β : Type} (e : ε) (f : α → Except ε β) : (.error e >>= f) = .error e := rfl

end Graveboards.Library

namespace Graveboards.Library.Text

def isDigits (s : String) : Bool := s != "" && s.toList.all Char.isDigit

/-- `int(s)` for a text of decimal digits. -/
def digitsValue (s : String) : Nat :=
  s.toList.foldl (fun total c => 10 * total + (c.toNat - '0'.toNat)) 0

theorem isDigits_toString (n : Nat) : isDigits (toString n) = true := by
  have hne : toString n ≠ "" := by
    intro h
    have hlist := congrArg String.toList h
    simp at hlist
  have hall : (toString n).toList.all Char.isDigit = true := by
    rw [Nat.toString_eq_ofList_toDigits, String.toList_ofList, List.all_eq_true]
    intro c hc
    exact Nat.isDigit_of_mem_toDigits (by decide) (by decide) hc
  simp only [isDigits, Bool.and_eq_true, bne_iff_ne]
  exact ⟨hne, hall⟩

theorem digitsValue_toString (n : Nat) : digitsValue (toString n) = n := by
  rw [digitsValue, Nat.toString_eq_ofList_toDigits, String.toList_ofList,
    ← Nat.ofDigitChars_eq_foldl, Nat.ofDigitChars_ten_toDigits]

theorem toString_nat_inj {m n : Nat} (h : toString m = toString n) : m = n := by
  rw [← digitsValue_toString m, h, digitsValue_toString]

theorem colon_not_mem_toString (n : Nat) : ':' ∉ (toString n).toList := by
  rw [Nat.toString_eq_ofList_toDigits, String.toList_ofList]
  intro hmem
  have hdigit : ':'.isDigit = true := Nat.isDigit_of_mem_toDigits (by decide) (by decide) hmem
  exact absurd hdigit (by decide)

/-- A text splits at its last colon in one way. -/
theorem append_colon_inj {a b x y : List Char} (hx : ':' ∉ x) (hy : ':' ∉ y)
    (h : a ++ ':' :: x = b ++ ':' :: y) : a = b ∧ x = y := by
  rcases List.append_eq_append_iff.mp h with ⟨c, rfl, hc⟩ | ⟨c, rfl, hc⟩
  · cases c with
    | nil => simpa using hc
    | cons d c =>
        obtain ⟨-, rfl⟩ := List.cons_eq_cons.mp hc
        simp at hx
  · cases c with
    | nil => simpa [eq_comm] using hc
    | cons d c =>
        obtain ⟨-, rfl⟩ := List.cons_eq_cons.mp hc
        simp at hy

def padLeft (width : Nat) (digits : String) : String :=
  String.ofList (List.replicate (width - digits.length) '0') ++ digits

/-- `format(q, ".kf")`. -/
def fixed (k : Nat) (q : Rat) : String :=
  let scaled := (Rounding.roundHalfEven (|q| * 10 ^ k)).toNat
  let sign := if q < 0 then "-" else ""
  let whole := sign ++ toString (scaled / 10 ^ k)
  if k = 0 then whole else whole ++ "." ++ padLeft k (toString (scaled % 10 ^ k))

/-- `repr(round(x, 2))` of a double. -/
def reprRounded (q : Rat) : String :=
  ((Double.ofRat? (Rounding.roundHalfEven (q * 100) / 100)).map Double.repr).getD ""

mutual

def repr : Json → String
  | .null => "None"
  | .bool b => if b then "True" else "False"
  | .int n => toString n
  | .float x => x.repr
  | .str s => "'" ++ s ++ "'"
  | .list items => "[" ++ reprItems items ++ "]"
  | .dict entries => "\x7b" ++ reprEntries entries ++ "\x7d"

def reprItems : List Json → String
  | [] => ""
  | [x] => repr x
  | x :: rest => repr x ++ ", " ++ reprItems rest

def reprEntries : List (String × Json) → String
  | [] => ""
  | [(k, v)] => "'" ++ k ++ "': " ++ repr v
  | (k, v) :: rest => "'" ++ k ++ "': " ++ repr v ++ ", " ++ reprEntries rest

end

/-- `str(value)`, which differs from `repr` on text only. -/
def display (j : Json) : String :=
  match j with
  | .str s => s
  | other => repr other

def reprList (items : List String) : String := "[" ++ String.intercalate ", " items ++ "]"

end Graveboards.Library.Text
