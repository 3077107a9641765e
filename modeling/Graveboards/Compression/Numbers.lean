import Mathlib.Data.List.DropRight
import Graveboards.Library.Rounding
import Graveboards.Library.Shortest
import Graveboards.Parameters.Filters
import Graveboards.Search.Floats

/-!
Numbers in JSON texts: the `repr` of a float has the fewest digits that are read back, and
texts of integers have at most 4300 digits.
-/

namespace Graveboards.Compression

open Graveboards.Library Graveboards.Search
open Graveboards.Parameters (toFloat)

/-- The number of a magnitude. -/
def magnitudeValue (magnitude : Nat) : Rat := magnitude / 2 ^ 1074

theorem magnitudeValue_mul (magnitude : Nat) : magnitudeValue magnitude * 2 ^ 1074 = magnitude :=
  div_mul_cancel₀ _ (pow_ne_zero _ two_ne_zero)

theorem log_magnitudeValue {magnitude : Nat} (h : magnitude ≠ 0) :
    Int.log 2 (magnitudeValue magnitude) = Nat.log2 magnitude - 1074 := by
  have hpos : 0 < magnitudeValue magnitude :=
    div_pos (Nat.cast_pos.mpr (Nat.pos_of_ne_zero h)) (pow_pos two_pos _)
  have hlow : (2 : Rat) ^ ((Nat.log2 magnitude : Int) - 1074) ≤ magnitudeValue magnitude := by
    rw [zpow_sub₀ two_ne_zero, zpow_natCast, magnitudeValue]
    have hle : (2 : Rat) ^ Nat.log2 magnitude ≤ magnitude := by exact_mod_cast Nat.log2_self_le h
    exact div_le_div_of_nonneg_right hle (zpow_nonneg zero_le_two _)
  have hhigh : magnitudeValue magnitude < (2 : Rat) ^ ((Nat.log2 magnitude : Int) - 1074 + 1) := by
    have hsplit :
        (Nat.log2 magnitude : Int) - 1074 + 1 = (Nat.log2 magnitude + 1 : Nat) - 1074 := by omega
    rw [hsplit, zpow_sub₀ two_ne_zero, zpow_natCast, magnitudeValue]
    have hlt : (magnitude : Rat) < 2 ^ (Nat.log2 magnitude + 1) := by
      exact_mod_cast Nat.lt_log2_self
    exact div_lt_div_of_pos_right hlt (pow_pos two_pos 1074)
  rw [← Nat.cast_ofNat] at hlow hhigh
  have hle := (Int.zpow_le_iff_le_log one_lt_two hpos).mp hlow
  have hlt := (Int.lt_zpow_iff_log_lt one_lt_two hpos).mp hhigh
  omega

theorem div_two_pow_lt {n a b : Nat} (h : Nat.log2 n + 1 ≤ a + b) : (n : Rat) / 2 ^ b < 2 ^ a := by
  have hlt : n < 2 ^ (a + b) := Nat.lt_log2_self.trans_le (Nat.pow_le_pow_right two_pos h)
  rw [div_lt_iff₀ (pow_pos two_pos _), ← pow_add]
  exact_mod_cast hlt

/-- Where a double holds the magnitude, its number is a multiple of its last bit. -/
theorem nearestDouble_magnitudeValue {negative : Bool} {magnitude : Nat}
    (h : (FloatFormat.double.pack (.finite negative magnitude)).isSome = true) :
    nearestDouble (magnitudeValue magnitude) = magnitudeValue magnitude ∧
    magnitudeValue magnitude < 2 ^ 1024 := by
  have hheld :
      magnitude % 2 ^ (Nat.log2 magnitude - 52) = 0 ∧ Nat.log2 magnitude - 52 + 3 ≤ 2048 := by
    rw [FloatFormat.pack] at h
    split at h
    case isFalse => cases h
    case isTrue hheld =>
        have hunits : magnitude / 2 ^ (1074 - FloatFormat.double.smallest) = magnitude :=
          Nat.div_one magnitude
        rw [hunits] at hheld
        exact hheld.2
  obtain ⟨hzeros, hrange⟩ := hheld
  by_cases hzero : magnitude = 0
  · rw [hzero, magnitudeValue, Nat.cast_zero, zero_div]
    exact ⟨if_pos rfl, pow_pos two_pos _⟩
  constructor
  · change Rounding.nearest 52 (-1074) _ = _
    obtain ⟨m, hm⟩ := Nat.dvd_of_mod_eq_zero hzeros
    have hnonneg : 0 ≤ magnitudeValue magnitude :=
      div_nonneg (Nat.cast_nonneg _) (pow_nonneg zero_le_two _)
    have hbit : Rounding.lastBit 52 (-1074) (magnitudeValue magnitude) =
        (Nat.log2 magnitude - 52 : Nat) - 1074 := by
      rw [Rounding.lastBit, abs_of_nonneg hnonneg, log_magnitudeValue hzero]
      omega
    apply Rounding.nearest_of_multiple (m := m)
    rw [hbit, zpow_sub₀ two_ne_zero, zpow_natCast, magnitudeValue]
    conv_lhs => rw [hm]
    rw [Nat.cast_mul, Nat.cast_pow, mul_comm, ← mul_div_assoc]
    rfl
  · exact div_two_pow_lt (by omega)

/-- A double is read from its exact number. -/
theorem toFloat_magnitudeValue {negative : Bool} {magnitude : Nat}
    (h : (FloatFormat.double.pack (.finite negative magnitude)).isSome = true) :
    toFloat (negative, magnitudeValue magnitude) = .finite negative magnitude := by
  obtain ⟨hnearest, hlt⟩ := nearestDouble_magnitudeValue h
  have hfloor : (magnitudeValue magnitude * 2 ^ 1074).floor.toNat = magnitude := by
    rw [magnitudeValue_mul]
    exact congrArg Int.toNat (Int.floor_natCast (R := Rat) magnitude)
  have hinRange : ¬ (2 : Rat) ^ 1024 ≤ magnitudeValue magnitude := not_le.mpr hlt
  simp only [toFloat, hnearest, hfloor, if_neg hinRange]

/-! Writing. -/

/-- A double is a whole number of smallest doubles, so its decimal expansion ends. -/
theorem magnitudeValue_terminates (magnitude : Nat) :
    magnitudeValue magnitude * 10 ^ 1074 = ((magnitude * 5 ^ 1074 : Nat) : Rat) := by
  have hten : (10 : Rat) ^ 1074 = 2 ^ 1074 * 5 ^ 1074 := by
    rw [← mul_pow]
    congr 1
    norm_num
  rw [hten, ← mul_assoc, magnitudeValue_mul, Nat.cast_mul, Nat.cast_pow]
  rfl

/-- The decimal reads back as the double of the magnitude. -/
def readsBack (magnitude : Nat) (q : Rat) : Bool := toFloat (false, q) = .finite false magnitude

/-- The decimal of `repr`. -/
def shortest (magnitude : Nat) : Scientific :=
  Shortest.shortest (readsBack magnitude) (magnitudeValue magnitude)
    (Shortest.exists_fits _ _ (magnitudeValue_terminates magnitude))

/-- `repr` of a positive or negative number, without its sign. -/
def reprMagnitude (magnitude : Nat) : List Char :=
  if magnitude = 0 then ['0', '.', '0']
  else (shortest magnitude).text

/-! Reading. -/

/-- What `json.loads` raises. -/
inductive LoadError where
  | decodeError
  | tooManyDigits (count : Nat)
  | recursion
  deriving DecidableEq

/-- How far a number has been read. -/
inductive Phase where
  | sign
  | zero
  | whole
  | point
  | fraction
  | letter
  | exponentSign
  | exponent
  deriving DecidableEq

structure NumberText where
  negative : Bool
  whole : List Nat
  fraction : List Nat
  exponentNegative : Bool
  exponent : List Nat

def digitOf (c : Char) : Nat := c.toNat - '0'.toNat

/-- The next character goes on with the number, stands behind it, or fails after it. -/
inductive Next where
  | more (phase : Phase) (text : NumberText)
  | stop
  | broken

namespace NumberText

def start (negative : Bool) : NumberText := ⟨negative, [], [], false, []⟩

def afterWhole (t : NumberText) (c : Char) : Next :=
  if c = '.' then .more .point t else if c = 'e' ∨ c = 'E' then .more .letter t else .stop

def next (t : NumberText) (phase : Phase) (c : Char) : Next :=
  match phase with
  | .sign =>
      if c = '0' then .more .zero { t with whole := [0] }
      else if c.isDigit then .more .whole { t with whole := [digitOf c] }
      else .broken
  | .zero => t.afterWhole c
  | .whole =>
      if c.isDigit then .more .whole { t with whole := t.whole ++ [digitOf c] } else t.afterWhole c
  | .point => if c.isDigit then .more .fraction { t with fraction := [digitOf c] } else .broken
  | .fraction =>
      if c.isDigit then .more .fraction { t with fraction := t.fraction ++ [digitOf c] }
      else if c = 'e' ∨ c = 'E' then .more .letter t
      else .stop
  | .letter =>
      if c = '+' then .more .exponentSign t
      else if c = '-' then .more .exponentSign { t with exponentNegative := true }
      else if c.isDigit then .more .exponent { t with exponent := [digitOf c] }
      else .broken
  | .exponentSign =>
      if c.isDigit then .more .exponent { t with exponent := [digitOf c] } else .broken
  | .exponent =>
      if c.isDigit then .more .exponent { t with exponent := t.exponent ++ [digitOf c] } else .stop

/-- The number that the text of a float writes. -/
def magnitude (t : NumberText) : Rat :=
  Numeral.value (t.whole ++ t.fraction) *
    10 ^ (Numeral.withSign t.exponentNegative (Numeral.value t.exponent) - t.fraction.length)

def int (t : NumberText) : Except LoadError JsonValue :=
  if Numeral.maxDigits < t.whole.length then .error (.tooManyDigits t.whole.length)
  else .ok (.int (Numeral.withSign t.negative (Numeral.value t.whole)))

/-- What ends before the number does: the number up to there is read, and what follows cannot
stand behind it. -/
def broken (t : NumberText) : LoadError :=
  match t.fraction, t.int with
  | [], .error e => e
  | _, _ => .decodeError

/-- The value of a text that ends in the phase. -/
def finish (t : NumberText) (phase : Phase) : Except LoadError JsonValue :=
  match phase with
  | .zero | .whole => t.int
  | .fraction | .exponent => .ok (.float (toFloat (t.negative, t.magnitude)))
  | .sign | .point | .letter | .exponentSign => .error t.broken

/-- The phase and the text after more characters of the number. -/
def feed (phase : Phase) (t : NumberText) : List Char → Option (Phase × NumberText)
  | [] => some (phase, t)
  | c :: rest =>
      match t.next phase c with
      | .more phase t => feed phase t rest
      | .stop | .broken => none

theorem feed_append {phase phase' : Phase} {t t' : NumberText} {cs : List Char} (rest : List Char)
    (h : feed phase t cs = some (phase', t')) :
    feed phase t (cs ++ rest) = feed phase' t' rest := by
  induction cs generalizing phase t with
  | nil =>
      obtain ⟨rfl, rfl⟩ := Prod.mk.inj (Option.some.inj h)
      rfl
  | cons c cs ih =>
      rw [List.cons_append, feed]
      rw [feed] at h
      split at h
      case h_1 => exact ih h
      all_goals cases h

/-- In a phase that takes digits they are collected. -/
theorem feed_digits {phase : Phase} (push : NumberText → List Nat → NumberText)
    (hnil : ∀ t, push t [] = t) (happend : ∀ t d ds, push (push t [d]) ds = push t (d :: ds))
    (hnext : ∀ t c, c.isDigit = true → next t phase c = .more phase (push t [digitOf c]))
    (t : NumberText) {cs : List Char} (h : ∀ c ∈ cs, c.isDigit = true) :
    feed phase t cs = some (phase, push t (cs.map digitOf)) := by
  induction cs generalizing t with
  | nil => rw [List.map_nil, hnil, feed]
  | cons c rest ih =>
      rw [feed, hnext t c (h c List.mem_cons_self)]
      dsimp only
      rw [ih _ fun d hd => h d (List.mem_cons_of_mem _ hd), happend, List.map_cons]

theorem feed_whole (t : NumberText) {cs : List Char} (h : ∀ c ∈ cs, c.isDigit = true) :
    feed .whole t cs = some (.whole, { t with whole := t.whole ++ cs.map digitOf }) := by
  apply feed_digits (fun t ds => { t with whole := t.whole ++ ds }) _ _ _ t h
  · simp
  · simp
  · intro t c hc
    rw [next, if_pos hc]

theorem feed_fraction (t : NumberText) {cs : List Char} (h : ∀ c ∈ cs, c.isDigit = true) :
    feed .fraction t cs =
      some (.fraction, { t with fraction := t.fraction ++ cs.map digitOf }) := by
  apply feed_digits (fun t ds => { t with fraction := t.fraction ++ ds }) _ _ _ t h
  · simp
  · simp
  · intro t c hc
    rw [next, if_pos hc]

theorem feed_exponent (t : NumberText) {cs : List Char} (h : ∀ c ∈ cs, c.isDigit = true) :
    feed .exponent t cs =
      some (.exponent, { t with exponent := t.exponent ++ cs.map digitOf }) := by
  apply feed_digits (fun t ds => { t with exponent := t.exponent ++ ds }) _ _ _ t h
  · simp
  · simp
  · intro t c hc
    rw [next, if_pos hc]

end NumberText

/-! Digits. -/

theorem value_append (ds es : List Nat) :
    Numeral.value (ds ++ es) = Numeral.value ds * 10 ^ es.length + Numeral.value es := by
  induction es using List.reverseRecOn with
  | nil => simp [Numeral.value]
  | append_singleton es d ih =>
      have hstep : ∀ fs : List Nat, Numeral.value (fs ++ [d]) = 10 * Numeral.value fs + d := by
        intro fs
        rw [Numeral.value, List.foldl_append]
        rfl
      rw [← List.append_assoc, hstep, hstep, ih, List.length_append,
        List.length_singleton, Nat.pow_succ]
      ring

theorem value_replicate_zero (n : Nat) : Numeral.value (List.replicate n 0) = 0 := by
  induction n with
  | zero => rfl
  | succ n ih =>
      rw [List.replicate_succ', value_append, ih]
      rfl

theorem value_digitsOf (n : Nat) : Numeral.value ((digitsOf n).map digitOf) = n :=
  Numeral.value_map_toString n

theorem isDigit_of_mem_digitsOf {n : Nat} {c : Char} (h : c ∈ digitsOf n) : c.isDigit = true :=
  Numeral.isDigit_of_mem_toString h

/-- No leading zero. -/
theorem head_digitsOf {n : Nat} (h : 0 < n) : ∃ c rest, digitsOf n = c :: rest ∧ c ≠ '0' := by
  induction n using Nat.strong_induction_on with
  | _ n ih =>
      have hdigits : ∀ m : Nat, digitsOf m = Nat.toDigits 10 m := by
        intro m
        rw [digitsOf, Nat.toString_eq_ofList_toDigits, String.toList_ofList]
      rcases Nat.lt_or_ge n 10 with hlt | hge
      · refine ⟨n.digitChar, [], ?_, ?_⟩
        · rw [hdigits, Nat.toDigits_of_lt_base hlt]
        · have hall : ∀ m < 10, 0 < m → m.digitChar ≠ '0' := by decide
          exact hall n hlt h
      · obtain ⟨c, rest, hrest, hc⟩ := ih (n / 10) (by omega) (by omega)
        refine ⟨c, rest ++ [(n % 10).digitChar], ?_, hc⟩
        rw [hdigits, Nat.toDigits_of_base_le (by decide) hge, ← hdigits, hrest]
        rfl

theorem value_append_zeros (ds : List Nat) (n : Nat) :
    Numeral.value (ds ++ List.replicate n 0) = Numeral.value ds * 10 ^ n := by
  rw [value_append, value_replicate_zero, List.length_replicate, Nat.add_zero]

theorem value_zeros_append (n : Nat) (ds : List Nat) :
    Numeral.value (List.replicate n 0 ++ ds) = Numeral.value ds := by
  rw [value_append, value_replicate_zero, Nat.zero_mul, Nat.zero_add]

theorem length_digitsOf_le_iff {n k : Nat} (h : 0 < k) : (digitsOf n).length ≤ k ↔ n < 10 ^ k := by
  rw [digitsOf, Nat.toString_eq_ofList_toDigits, String.toList_ofList]
  exact Nat.length_toDigits_le_iff (by decide) h

/-! What has been written is read. -/

namespace NumberText

theorem feed_zeros_digits (zeros : Nat) {digits : List Char} (h : ∀ c ∈ digits, c.isDigit = true) :
    ∀ c ∈ List.replicate zeros '0' ++ digits, c.isDigit = true := by
  intro c hc
  rcases List.mem_append.mp hc with hc | hc
  · rw [List.eq_of_mem_replicate hc]
    rfl
  · exact h c hc

/-- The digits before the point. -/
theorem feed_sign_digits (negative : Bool) {c : Char} {rest : List Char} (hc : c ≠ '0')
    (h : ∀ d ∈ c :: rest, d.isDigit = true) : feed .sign (start negative) (c :: rest) =
      some (.whole, { start negative with whole := (c :: rest).map digitOf }) := by
  rw [feed, next, if_neg hc, if_pos (h c List.mem_cons_self)]
  exact feed_whole _ fun d hd => h d (List.mem_cons_of_mem _ hd)

theorem withSign_natAbs (e : Int) : Numeral.withSign (decide (e < 0)) e.natAbs = e := by
  rw [Numeral.withSign]
  split
  case isTrue h =>
      have := of_decide_eq_true h
      omega
  case isFalse h =>
      have : ¬ e < 0 := fun hlt => h (decide_eq_true hlt)
      omega

theorem feed_exponentText (t : NumberText) (ht : t.exponentNegative = false) (e : Int) :
    ∃ ds, feed .letter t (exponentText e) =
        some (.exponent, { t with exponentNegative := decide (e < 0), exponent := ds }) ∧
      Numeral.value ds = e.natAbs := by
  have hdigits : ∃ c rest, (if e.natAbs < 10 then ['0'] else []) ++ digitsOf e.natAbs = c :: rest ∧
      (∀ d ∈ c :: rest, d.isDigit = true) ∧ Numeral.value ((c :: rest).map digitOf) = e.natAbs := by
    split
    · refine ⟨'0', digitsOf e.natAbs, rfl, ?_, ?_⟩
      · exact feed_zeros_digits 1 fun _ => isDigit_of_mem_digitsOf
      · exact (value_zeros_append 1 _).trans (value_digitsOf _)
    · obtain ⟨c, rest, hcons⟩ := List.exists_cons_of_ne_nil (Numeral.toString_ne_nil e.natAbs)
      refine ⟨c, rest, hcons, ?_, ?_⟩
      · rw [← hcons]
        exact fun _ => isDigit_of_mem_digitsOf
      · rw [← hcons]
        exact value_digitsOf _
  obtain ⟨c, rest, hcons, hall, hvalue⟩ := hdigits
  refine ⟨(c :: rest).map digitOf, ?_, hvalue⟩
  have hc : c.isDigit = true := hall c List.mem_cons_self
  have hrest : ∀ d ∈ rest, d.isDigit = true := fun d hd => hall d (List.mem_cons_of_mem _ hd)
  rw [exponentText, List.cons_append, hcons]
  by_cases he : e < 0
  · rw [if_pos he, decide_eq_true he, feed, next, if_neg (by decide), if_pos rfl]
    dsimp only
    rw [feed, next, if_pos hc]
    dsimp only
    rw [feed_exponent _ hrest]
    rfl
  · rw [if_neg he, decide_eq_false he, feed, next, if_pos rfl]
    dsimp only
    rw [feed, next, if_pos hc]
    dsimp only
    rw [feed_exponent _ hrest, ← ht]
    rfl

theorem feed_point {phase : Phase} (hphase : phase = .zero ∨ phase = .whole) (t : NumberText)
    {cs : List Char} (hne : cs ≠ []) (h : ∀ c ∈ cs, c.isDigit = true) :
    feed phase t ('.' :: cs) = some (.fraction, { t with fraction := cs.map digitOf }) := by
  obtain ⟨c, rest, rfl⟩ := List.exists_cons_of_ne_nil hne
  have hpoint : t.next phase '.' = .more .point t := by
    rcases hphase with rfl | rfl
    · rfl
    · rfl
  rw [feed, hpoint]
  dsimp only
  rw [feed, next, if_pos (h c List.mem_cons_self)]
  exact feed_fraction _ fun d hd => h d (List.mem_cons_of_mem _ hd)

theorem feed_letter {phase : Phase} (hphase : phase = .whole ∨ phase = .fraction) (t : NumberText)
    (cs : List Char) :
    feed phase t ('e' :: cs) = feed .letter t cs := by
  rcases hphase with rfl | rfl
  · rfl
  · rfl

/-- A float has been read to its end: the phase, the sign and the number. -/
def ReadsFloat (negative : Bool) (text : List Char) (q : Rat) : Prop :=
  ∃ phase t, feed .sign (start negative) text = some (phase, t) ∧
    (phase = .fraction ∨ phase = .exponent) ∧
    t.negative = negative ∧ t.magnitude = q

theorem readsFloat_fixed {negative : Bool} {text rest : List Char} {phase : Phase}
    {whole : List Nat} (hphase : phase = .zero ∨ phase = .whole)
    (hfeed : feed .sign (start negative) text =
      some (phase, { start negative with whole := whole }))
    (hne : rest ≠ []) (h : ∀ c ∈ rest, c.isDigit = true) :
    ReadsFloat negative (text ++ '.' :: rest)
      (Numeral.value (whole ++ rest.map digitOf) * 10 ^ (-(rest.length : Int))) := by
  refine ⟨.fraction, _, (feed_append _ hfeed).trans (feed_point hphase _ hne h), .inl rfl, rfl, ?_⟩
  have hexponent : Numeral.withSign false (Numeral.value []) - ((rest.map digitOf).length : Int) =
      -(rest.length : Int) := by
    rw [List.length_map]
    exact Int.zero_sub _
  rw [magnitude]
  exact congrArg (fun e : Int => (Numeral.value (whole ++ rest.map digitOf) : Rat) * 10 ^ e)
    hexponent

theorem readsFloat_exponent {negative : Bool} {text : List Char} {phase : Phase}
    {whole fraction : List Nat} (e : Int) (hphase : phase = .whole ∨ phase = .fraction)
    (hfeed : feed .sign (start negative) text =
      some (phase, { start negative with whole := whole, fraction := fraction })) :
    ReadsFloat negative (text ++ 'e' :: exponentText e)
      (Numeral.value (whole ++ fraction) * 10 ^ (e - fraction.length)) := by
  obtain ⟨ds, hexponent, hvalue⟩ :=
    feed_exponentText { start negative with whole := whole, fraction := fraction } rfl e
  refine ⟨.exponent, ⟨negative, whole, fraction, decide (e < 0), ds⟩, ?_, .inr rfl, rfl, ?_⟩
  · rw [feed_append _ hfeed, feed_letter hphase, hexponent]
    rfl
  · simp only [magnitude, hvalue, withSign_natAbs]

/-- The layout writes the number of its digits and its point. -/
theorem readsFloat_layout (negative : Bool) {digits : List Char}
    (hdigits : ∀ c ∈ digits, c.isDigit = true) (hhead : ∃ c rest, digits = c :: rest ∧ c ≠ '0')
    (point : Int) :
    ReadsFloat negative (layout digits point)
      (Numeral.value (digits.map digitOf) * 10 ^ (point - digits.length)) := by
  obtain ⟨c, rest, rfl, hc⟩ := hhead
  have hrest : ∀ d ∈ rest, d.isDigit = true := fun d hd => hdigits d (List.mem_cons_of_mem _ hd)
  rw [layout]
  split_ifs with hexponent hone hsmall hinside
  · -- one digit and an exponent
    have hnil : rest = [] := List.eq_nil_of_length_eq_zero (by rw [List.length_cons] at hone; omega)
    subst hnil
    have hread := readsFloat_exponent (point - 1) (.inl rfl) (feed_sign_digits negative hc hdigits)
    have hlength :
        point - 1 - ((start negative).fraction.length : Int) = point - ([c].length : Int) := by
      rw [List.length_singleton]
      exact Int.sub_zero _
    rw [hlength] at hread
    exact hread
  · -- a point after the first digit, and an exponent
    have hne : rest ≠ [] := by
      rintro rfl
      exact hone rfl
    have hfirst : feed .sign (start negative) [c] =
        some (.whole, { start negative with whole := [digitOf c] }) := by
      apply feed_sign_digits negative hc
      intro d hd
      rw [List.mem_singleton.mp hd]
      exact hdigits c List.mem_cons_self
    have hpoint := (feed_append ('.' :: rest) hfirst).trans (feed_point (.inr rfl) _ hne hrest)
    have hread := readsFloat_exponent (point - 1) (.inr rfl) hpoint
    have hlength :
        point - 1 - ((rest.map digitOf).length : Int) = point - ((c :: rest).length : Int) := by
      rw [List.length_map, List.length_cons]
      omega
    rw [hlength] at hread
    exact hread
  · -- zeros behind the point
    have hall := feed_zeros_digits (-point).toNat hdigits
    have hzero :
        feed .sign (start negative) ['0'] = some (.zero, { start negative with whole := [0] }) :=
      rfl
    have hread :=
      readsFloat_fixed (.inl rfl) hzero
        (List.append_ne_nil_of_right_ne_nil _ (List.cons_ne_nil c rest)) hall
    have hvalue :
        Numeral.value ([0] ++ (List.replicate (-point).toNat '0' ++ c :: rest).map digitOf) =
        Numeral.value ((c :: rest).map digitOf) := by
      rw [List.map_append, List.map_replicate, ← List.append_assoc]
      exact value_zeros_append ((-point).toNat + 1) _
    have hlength : -((List.replicate (-point).toNat '0' ++ c :: rest).length : Int) =
        point - ((c :: rest).length : Int) := by
      rw [List.length_append, List.length_replicate]
      omega
    rw [hvalue, hlength] at hread
    exact hread
  · -- the point between two digits
    have hpoint : 0 < point := not_le.mp hsmall
    obtain ⟨k, hk⟩ : ∃ k, point.toNat = k + 1 := ⟨point.toNat - 1, by omega⟩
    have htake : ∀ d ∈ (c :: rest).take point.toNat, d.isDigit = true :=
      fun d hd => hdigits d (List.mem_of_mem_take hd)
    have hdrop : ∀ d ∈ (c :: rest).drop point.toNat, d.isDigit = true :=
      fun d hd => hdigits d (List.mem_of_mem_drop hd)
    have hne : (c :: rest).drop point.toNat ≠ [] := by
      intro hnil
      have := List.drop_eq_nil_iff.mp hnil
      omega
    have hfirst : feed .sign (start negative) ((c :: rest).take point.toNat) =
        some (.whole,
          { start negative with whole := ((c :: rest).take point.toNat).map digitOf }) := by
      rw [hk, List.take_succ_cons] at htake ⊢
      exact feed_sign_digits negative hc htake
    have hread := readsFloat_fixed (.inr rfl) hfirst hne hdrop
    have hlength :
        -(((c :: rest).drop point.toNat).length : Int) = point - ((c :: rest).length : Int) := by
      rw [List.length_drop]
      omega
    rw [← List.map_append, List.take_append_drop, hlength] at hread
    exact hread
  · -- zeros before the point
    have hpoint : 0 < point := not_le.mp hsmall
    have hall : ∀ d ∈ c :: rest ++ List.replicate (point.toNat - (c :: rest).length) '0',
        d.isDigit = true := by
      intro d hd
      rcases List.mem_append.mp hd with hd | hd
      · exact hdigits d hd
      · rw [List.eq_of_mem_replicate hd]
        rfl
    have hlength : ((point.toNat - (c :: rest).length : Nat) : Int) =
        point - ((c :: rest).length : Int) := by omega
    generalize point.toNat - (c :: rest).length = zeros at hall hlength ⊢
    have hread : ReadsFloat negative (c :: rest ++ List.replicate zeros '0' ++ ['.', '0'])
        (Numeral.value ((c :: rest ++ List.replicate zeros '0').map digitOf ++ [0]) *
          10 ^ (-1 : Int)) :=
      readsFloat_fixed (.inr rfl) (feed_sign_digits negative hc hall) (List.cons_ne_nil '0' [])
        (List.forall_mem_singleton.mpr rfl)
    have hvalue : Numeral.value ((c :: rest ++ List.replicate zeros '0').map digitOf ++ [0]) =
        Numeral.value ((c :: rest).map digitOf) * 10 ^ zeros * 10 := by
      rw [List.map_append, List.map_replicate]
      exact (value_append_zeros _ 1).trans (congrArg (· * 10) (value_append_zeros _ zeros))
    have hnumber :
        ((Numeral.value ((c :: rest ++ List.replicate zeros '0').map digitOf ++ [0]) : Nat) : Rat) *
        10 ^ (-1 : Int) = Numeral.value ((c :: rest).map digitOf) * 10 ^ (zeros : Int) := by
      rw [hvalue, zpow_neg, zpow_one, zpow_natCast]
      push_cast
      ring
    rw [hnumber, hlength] at hread
    exact hread

/-- Trailing zeros move the point, not the number. -/
theorem exists_stripped {n : Nat} (h : 0 < n) : ∃ k c rest,
    (digitsOf n).rdropWhile (· = '0') = c :: rest ∧ c ≠ '0' ∧
    digitsOf n = c :: rest ++ List.replicate k '0' := by
  obtain ⟨c, rest, hdigits, hc⟩ := head_digitsOf h
  have hsplit :
      (digitsOf n).rdropWhile (· = '0') ++ (digitsOf n).rtakeWhile (· = '0') = digitsOf n :=
    List.rdropWhile_append_rtakeWhile
  have hzeros : (digitsOf n).rtakeWhile (· = '0') =
      List.replicate ((digitsOf n).rtakeWhile (· = '0')).length '0' :=
    List.eq_replicate_of_mem fun d hd =>
      of_decide_eq_true (List.mem_rtakeWhile_imp (p := fun x => x = '0') hd)
  cases hkept : (digitsOf n).rdropWhile (· = '0') with
  | nil =>
      have hall := List.rdropWhile_eq_nil_iff.mp hkept
      rw [hdigits] at hall
      exact absurd (of_decide_eq_true (hall c List.mem_cons_self)) hc
  | cons d kept =>
      rw [hkept, hzeros] at hsplit
      obtain ⟨rfl, -⟩ := List.cons_eq_cons.mp (hsplit.trans hdigits)
      exact ⟨_, d, kept, rfl, hc, hsplit.symm⟩

theorem toFloat_sign {magnitude : Nat} {q : Rat} (negative : Bool)
    (h : toFloat (false, q) = .finite false magnitude) :
    toFloat (negative, q) = .finite negative magnitude := by
  unfold toFloat at h ⊢
  dsimp only at h ⊢
  split at h
  case isTrue => cases h
  case isFalse hlt =>
      cases h
      rw [if_neg hlt]

/-- The `repr` of a double is read as the double. -/
theorem readsFloat_reprMagnitude {negative : Bool} {magnitude : Nat}
    (h : (FloatFormat.double.pack (.finite negative magnitude)).isSome = true) :
    ∃ q, ReadsFloat negative (reprMagnitude magnitude) q ∧
    toFloat (negative, q) = .finite negative magnitude := by
  have hzero : toFloat (false, 0) = .finite false 0 := by
    have hread : toFloat (false, magnitudeValue 0) = .finite false 0 :=
      toFloat_magnitudeValue (by decide)
    rwa [magnitudeValue, Nat.cast_zero, zero_div] at hread
  rw [reprMagnitude]
  split
  case isTrue hmagnitude =>
      subst hmagnitude
      have hfirst :
          feed .sign (start negative) ['0'] = some (.zero, { start negative with whole := [0] }) :=
        rfl
      have hread : ReadsFloat negative ['0', '.', '0'] _ :=
        readsFloat_fixed (.inl rfl) hfirst (List.cons_ne_nil '0' [])
          (List.forall_mem_singleton.mpr rfl)
      refine ⟨_, hread, toFloat_sign negative ?_⟩
      have hvalue : ((Numeral.value ([0] ++ ['0'].map digitOf) : Nat) : Rat) = 0 := rfl
      rw [hvalue, zero_mul]
      exact hzero
  case isFalse hmagnitude =>
      have hpack : (FloatFormat.double.pack (.finite false magnitude)).isSome = true := by
        rw [FloatFormat.pack] at h ⊢
        split at h
        case isTrue hheld => rw [if_pos hheld, Option.isSome_some]
        case isFalse => cases h
      have hback : toFloat (false, (shortest magnitude).value) = .finite false magnitude := by
        apply of_decide_eq_true
        exact Shortest.accepts_shortest (readsBack magnitude) _
          (decide_eq_true (toFloat_magnitudeValue hpack))
      have hpos : 0 < (shortest magnitude).digits := by
        apply Nat.pos_of_ne_zero
        intro hnone
        rw [Scientific.value, hnone, Nat.cast_zero, zero_mul, hzero] at hback
        cases hback
        exact hmagnitude rfl
      obtain ⟨k, c, rest, hstrip, hc, hdigits⟩ := exists_stripped hpos
      have hall : ∀ d ∈ c :: rest, d.isDigit = true := by
        intro d hd
        apply isDigit_of_mem_digitsOf (n := (shortest magnitude).digits)
        rw [hdigits]
        exact List.mem_append_left _ hd
      refine ⟨_, ?_, toFloat_sign negative hback⟩
      have hread := readsFloat_layout negative hall ⟨c, rest, rfl, hc⟩
        ((digitsOf (shortest magnitude).digits).length + (shortest magnitude).exponent)
      have hnumber : (Numeral.value ((c :: rest).map digitOf) : Rat) *
          10 ^ ((digitsOf (shortest magnitude).digits).length +
            (shortest magnitude).exponent - (c :: rest).length) =
            (shortest magnitude).value := by
        have hvalue :
            Numeral.value ((c :: rest).map digitOf) * 10 ^ k = (shortest magnitude).digits := by
          rw [← value_digitsOf (shortest magnitude).digits, hdigits, List.map_append,
            List.map_replicate]
          exact (value_append_zeros _ k).symm
        have hexponent :
            ((digitsOf (shortest magnitude).digits).length : Int) + (shortest magnitude).exponent -
            (c :: rest).length = k + (shortest magnitude).exponent := by
          rw [hdigits, List.length_append, List.length_replicate]
          omega
        rw [hexponent, zpow_add₀ (by norm_num), zpow_natCast, ← mul_assoc, Scientific.value,
          ← hvalue, Nat.cast_mul, Nat.cast_pow]
        rfl
      rw [Scientific.text]
      rw [hstrip, ← hnumber]
      exact hread

end NumberText

end Graveboards.Compression
