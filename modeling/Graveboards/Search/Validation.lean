import Mathlib.Order.Max
import Graveboards.Search.Clauses

/-!
Which JSON objects are conditions, and what their validation promises: values that can be
compared, bounds that leave room between them, and an `eq` that agrees with the operators
beside it.
-/

namespace Graveboards.Search

open Graveboards.Library

/-! JSON objects as conditions. -/

namespace ConditionField

/-- The key in JSON. -/
def key : ConditionField → String
  | eq => "eq"
  | neq => "neq"
  | lt => "lt"
  | lte => "lte"
  | gt => "gt"
  | gte => "gte"
  | in_ => "in"
  | notIn => "not_in"
  | isNull => "is_null"
  | regex => "regex"
  | notRegex => "not_regex"

end ConditionField

namespace JsonValue

/-- The value as `ConditionValue`. -/
def scalar? : JsonValue → Option ConditionValue
  | bool b => some (.bool b)
  | int n => some (.int n)
  | float x => some (.float x)
  | str s => some (.str s)
  | null | list _ | object _ => none

def affirmative : List String := ["1", "on", "t", "true", "y", "yes"]

def negative : List String := ["0", "off", "f", "false", "n", "no"]

/-- Without regard to the case of ASCII letters. -/
def isOneOf (words : List String) (s : PyStr) : Bool :=
  words.any fun word => (s.map fun
    | .char c => .char c.toLower
    | p => p) = PyStr.ofString word

/-- The value as pydantic's `bool`. -/
def bool? : JsonValue → Option Bool
  | bool b => some b
  | int n => if n = 0 then some false else if n = 1 then some true else none
  | float (.finite negative magnitude) =>
      if magnitude = 0 then some false else if !negative && magnitude = 2 ^ 1074 then
        some true else none
  | str s =>
      if isOneOf negative s then some false else if isOneOf affirmative s then some true else none
  | _ => none

/-- What is given for an operator. An entry of another kind stands for a value of the wrong type. -/
def entry (field : ConditionField) (v : JsonValue) : Entry :=
  match field, v with
  | _, null => .null
  | .isNull, v => ((bool? v).map .flag).getD (.values [])
  | .in_, list items | .notIn, list items => ((items.mapM scalar?).map .values).getD (.flag false)
  | .in_, _ | .notIn, _ => .flag false
  | _, v => (v.scalar?.map .value).getD (.flag false)

end JsonValue

namespace Conditions

/-- The keys that are no operators. -/
def extras (object : List (PyStr × JsonValue)) : List PyStr :=
  (object.map Prod.fst).filter fun name => !ConditionField.all.any fun field =>
    name = PyStr.ofString field.key

def rawOf (object : List (PyStr × JsonValue)) : RawConditions := fun field =>
  (object.lookup (PyStr.ofString field.key)).map (JsonValue.entry field)

/-- `Conditions.model_validate` of a JSON object. -/
def validateObject (P : Platform) (object : List (PyStr × JsonValue)) : Except PyError Conditions :=
  if extras object = [] then modelValidate P (rawOf object)
  else .error (.validationError [.unsupportedKeys (extras object)])

end Conditions

/-! What validation promises. -/

def ConditionValue.isNan : ConditionValue → Bool
  | .float .nan => true
  | _ => false

namespace Conditions

variable (c : Conditions)

def bounds : List ConditionValue := [c.gt, c.gte, c.lt, c.lte].reduceOption

/-- `self.gt if self.gt is not None else self.gte`. -/
def lowerBound : Option ConditionValue := c.gt.or c.gte

def upperBound : Option ConditionValue := c.lt.or c.lte

/-- The bounds may not meet. -/
def strict : Bool := c.gt.isSome || c.lt.isSome

/-- In every dense order without ends in which the bounds are placed as they compare, something lies
between them. Nothing compares with NaN. -/
def Admits : Prop :=
  (∀ bound ∈ c.bounds, bound.isNan = false) ∧
    ∀ (D : Type) [LinearOrder D] [DenselyOrdered D] [NoMinOrder D] [NoMaxOrder D] [Nonempty D]
      (place : ConditionValue → D),
      (∀ a ∈ c.bounds, ∀ b ∈ c.bounds, a.less b = .ok true ↔ place a < place b) →
      ∃ x, (∀ low ∈ c.gt, place low < x) ∧ (∀ low ∈ c.gte, place low ≤ x) ∧
        (∀ high ∈ c.lt, x < place high) ∧ ∀ high ∈ c.lte, x ≤ place high

structure Sound : Prop where
  comparable : ∀ a ∈ c.valuesForValidation, ∀ b ∈ c.valuesForValidation, ∃ less, a.less b = .ok less
  admits : c.Admits
  distinct : ∀ eq ∈ c.eq, ∀ neq ∈ c.neq, neq.equals eq = false
  member : ∀ eq ∈ c.eq, ∀ vs ∈ c.in_, ∃ v ∈ vs, v.equals eq = true
  excluded : ∀ eq ∈ c.eq, ∀ vs ∈ c.notIn, ∀ v ∈ vs, v.equals eq = false
  oneLower : c.gt = none ∨ c.gte = none
  oneUpper : c.lt = none ∨ c.lte = none

end Conditions

/-- A ValidationError, or sound conditions. -/
def SoundOutcome (outcome : Except PyError Conditions) : Prop :=
  (∃ found, outcome = .error (.validationError found)) ∨ ∃ c, outcome = .ok c ∧ c.Sound

/-! When it keeps the promise. -/

namespace Conditions

variable (c : Conditions)

/-- Nothing contradicts itself before the bounds are compared. -/
structure Consistent (given : Nat) : Prop where
  nonempty : given ≠ 0
  holds : ∃ field, (c.entry field).isSome = true
  types : ∀ base ∈ c.valuesForValidation.head?, ∀ v ∈ c.valuesForValidation,
      comparable base v = true
  alone : c.isNull = some true → given ≤ 1
  distinct : ∀ eq ∈ c.eq, ∀ neq ∈ c.neq, neq.equals eq = false
  member : ∀ eq ∈ c.eq, ∀ vs ∈ c.in_, vs = [] ∨ ∃ v ∈ vs, v.equals eq = true
  excluded : ∀ eq ∈ c.eq, ∀ vs ∈ c.notIn, ∀ v ∈ vs, v.equals eq = false
  oneLower : c.gt = none ∨ c.gte = none
  oneUpper : c.lt = none ∨ c.lte = none

/-- The bounds can be compared, and leave nothing between them. -/
def EmptyRange : Prop :=
  ∃ low ∈ c.lowerBound, ∃ high ∈ c.upperBound, low.exceeds high c.strict = .ok true

/-- Datetimes are all naive or all aware, no bound is NaN, and `eq` is not given beside an empty
`in`. -/
structure Sane : Prop where
  awareness : ∀ d d', .datetime d ∈ c.valuesForValidation → .datetime d' ∈ c.valuesForValidation →
    d.offset.isSome = d'.offset.isSome
  bounds : ∀ bound ∈ c.bounds, bound.isNan = false
  member : c.eq.isSome = true → c.in_ ≠ some []

/-- Malformed or contradictory in a way that is reported, or sane; and no pattern has a repetition
count that is too large for `re`. -/
def Meaningful (P : Platform) (object : List (PyStr × JsonValue)) : Prop :=
  extras object ≠ [] ∨
    (regexOverflow P ((rawOf object).text .regex)).or
    (regexOverflow P ((rawOf object).text .notRegex)) = none ∧
      ∀ c, fields P (rawOf object) = .ok c → ¬ c.Consistent (rawOf object).given ∨
      c.EmptyRange ∨ c.Sane

end Conditions

/-! Comparisons. -/

namespace Extended

theorem trichotomy {x y : Extended} (hx : x ≠ .nan) (hy : y ≠ .nan) (hxy : x.less y = false)
    (hne : x.same y = false) :
    y.less x = true := by
  cases x with
  | nan => exact absurd rfl hx
  | infinite negative =>
      cases y with
      | nan => exact absurd rfl hy
      | infinite negative' => cases negative <;> cases negative' <;> simp_all [less, same]
      | finite n => cases negative <;> simp_all [less]
  | finite m =>
      cases y with
      | nan => exact absurd rfl hy
      | infinite negative' => cases negative' <;> simp_all [less]
      | finite n =>
          simp only [less, same, decide_eq_false_iff_not, not_lt, Bool.and_eq_false_iff]
            at hxy hne ⊢
          rw [decide_eq_true_iff]
          have : m ≠ n := by
            rintro rfl
            simp at hne
          omega

theorem same_comm (x y : Extended) : x.same y = y.same x := by
  unfold same
  by_cases h : x = y
  · rw [h]
  · rw [decide_eq_false h, decide_eq_false (Ne.symm h), Bool.false_and, Bool.false_and]

end Extended

namespace ConditionValue

theorem less_number {a b : ConditionValue} {x y : Extended} (ha : a.number? = some x)
    (hb : b.number? = some y) :
    a.less b = .ok (x.less y) ∧ a.equals b = x.same y := by
  cases a with
  | str s => cases ha
  | datetime d => cases ha
  | _ =>
      cases b with
      | str s => cases hb
      | datetime d => cases hb
      | _ => simp only [less, equals, ha, hb, and_self]

theorem number_ne_nan {a : ConditionValue} {x : Extended} (ha : a.number? = some x)
    (hnan : a.isNan = false) :
    x ≠ .nan := by
  rintro rfl
  cases a with
  | float x =>
      cases x with
      | nan => cases hnan
      | infinite negative => cases ha
      | finite negative magnitude => cases ha
  | _ => cases ha

/-- What has no number is a text or a datetime. -/
theorem number_cases (a : ConditionValue) :
    (∃ x, a.number? = some x) ∨ (∃ s, a = .str s) ∨ ∃ d, a = .datetime d := by
  cases a with
  | str s => exact .inr (.inl ⟨s, rfl⟩)
  | datetime d => exact .inr (.inr ⟨d, rfl⟩)
  | float x => cases x <;> exact .inl ⟨_, rfl⟩
  | _ => exact .inl ⟨_, rfl⟩

/-- Both are datetimes, and only one has an offset. -/
def Mixed (a b : ConditionValue) : Prop :=
  ∃ d d', a = .datetime d ∧ b = .datetime d' ∧ d.offset.isSome ≠ d'.offset.isSome

/-- Two values that are comparable: two numbers, or two texts, or two datetimes. -/
theorem comparable_cases {a b : ConditionValue} (h : Conditions.comparable a b = true) :
    (∃ x y, a.number? = some x ∧ b.number? = some y) ∨ (∃ s t, a = .str s ∧ b = .str t) ∨
      ∃ d d', a = .datetime d ∧ b = .datetime d' := by
  unfold Conditions.comparable at h
  rw [Bool.or_eq_true, Bool.and_eq_true, isNumeric, isNumeric, Option.isSome_iff_exists,
    Option.isSome_iff_exists] at h
  obtain ⟨⟨x, hx⟩, y, hy⟩ | htype := h
  · exact .inl ⟨x, y, hx, hy⟩
  · rw [decide_eq_true_eq] at htype
    obtain ⟨x, hx⟩ | ⟨s, rfl⟩ | ⟨d, rfl⟩ := number_cases a
    · obtain ⟨y, hy⟩ | ⟨t, rfl⟩ | ⟨d', rfl⟩ := number_cases b
      · exact .inl ⟨x, y, hx, hy⟩
      · cases a <;> cases htype
        cases hx
      · cases a <;> cases htype
        cases hx
    · cases b <;> cases htype
      exact .inr (.inl ⟨s, _, rfl, rfl⟩)
    · cases b <;> cases htype
      exact .inr (.inr ⟨d, _, rfl, rfl⟩)

/-- Values of comparable types compare, unless they mix datetimes. -/
theorem exists_less_iff {a b : ConditionValue} (h : Conditions.comparable a b = true) :
    (∃ r, a.less b = .ok r) ↔ ¬ Mixed a b := by
  obtain ⟨x, y, hx, hy⟩ | ⟨s, t, rfl, rfl⟩ | ⟨⟨wall, offset⟩, ⟨wall', offset'⟩, rfl, rfl⟩ :=
    comparable_cases h
  · refine iff_of_true ⟨_, (less_number hx hy).1⟩ ?_
    rintro ⟨d, d', rfl, -⟩
    cases hx
  · refine iff_of_true ⟨_, rfl⟩ ?_
    rintro ⟨d, d', heq, -⟩
    cases heq
  · cases offset <;> cases offset' <;> simp [less, Mixed]

/-- A value is below, above, or equal. -/
theorem less_of_not_less {a b : ConditionValue} (hcomparable : Conditions.comparable a b = true)
    (ha : a.isNan = false) (hb : b.isNan = false) (h : b.less a = .ok false)
    (hne : a.equals b = false) :
    a.less b = .ok true := by
  obtain ⟨x, y, hx, hy⟩ | ⟨s, t, rfl, rfl⟩ | ⟨⟨wall, offset⟩, ⟨wall', offset'⟩, rfl, rfl⟩ :=
    comparable_cases hcomparable
  · rw [(less_number hy hx).1] at h
    rw [(less_number hx hy).2] at hne
    have hsym : y.same x = false := by
      rw [Extended.same_comm, hne]
    rw [(less_number hx hy).1,
      Extended.trichotomy (number_ne_nan hy hb) (number_ne_nan hx ha) (Except.ok.inj h) hsym]
  · have hnot : ¬ t.map PyStr.codePoint < s.map PyStr.codePoint :=
      of_decide_eq_false (Except.ok.inj h)
    have hst : s ≠ t := by
      simpa [equals] using hne
    have hlt : s.map PyStr.codePoint < t.map PyStr.codePoint := by
      obtain hlt | heq | hgt := lt_trichotomy (s.map PyStr.codePoint) (t.map PyStr.codePoint)
      · exact hlt
      · exact absurd (List.map_injective_iff.mpr PyStr.codePoint_injective heq) hst
      · exact absurd hgt hnot
    rw [less, decide_eq_true hlt]
  · cases offset <;> cases offset' <;> simp_all [less, equals] <;> omega

end ConditionValue

/-! The checks before the bounds are compared. -/

/-- Every error is a ValidationError. -/
def Reports {α : Type} (r : Except PyError α) : Prop :=
  ∀ e, r = .error e → ∃ found, e = .validationError found

section Reports

variable {α β : Type}

theorem reports_ok (a : α) : Reports (.ok a : Except PyError α) := nofun

theorem Reports.bind {x : Except PyError α} {f : α → Except PyError β} (hx : Reports x)
    (hf : ∀ a, Reports (f a)) :
    Reports (x >>= f) := by
  cases x with
  | error e =>
      intro e' he
      obtain rfl := Except.error.inj he
      exact hx e rfl
  | ok a => exact hf a

theorem reports_rejectIf (b : Bool) (fault : Fault) : Reports (Conditions.rejectIf b fault) := by
  cases b with
  | true =>
      intro e he
      exact ⟨_, (Except.error.inj he).symm⟩
  | false => exact reports_ok ()

theorem rejectIf_eq_ok_iff {b : Bool} {fault : Fault} {u : Unit} :
    Conditions.rejectIf b fault = .ok u ↔ b = false :=
  ⟨Conditions.rejectIf_eq_ok, fun h => by rw [h]; rfl⟩

/-- A check, and what comes after it. -/
theorem check_bind_eq_ok_iff {x : Except PyError Unit} {rest : Except PyError α} {a : α} :
    (x >>= fun _ => rest) = .ok a ↔ x = .ok () ∧ rest = .ok a := by
  cases x with
  | error e => exact iff_of_false nofun nofun
  | ok u => exact (and_iff_right rfl).symm

end Reports

namespace Conditions

variable {c : Conditions} {given : Nat}

/-- The checks of `validate_logic` before the ranges. -/
def checks (c : Conditions) (given : Nat) : Except PyError Unit := do
  rejectIf (given = 0 || c.eq.isNone && c.neq.isNone && c.lt.isNone && c.lte.isNone &&
    c.gt.isNone && c.gte.isNone &&
    c.in_.isNone && c.notIn.isNone && c.isNull.isNone && c.regex.isNone && c.notRegex.isNone)
    .noCondition
  ensureComparableTypes c.valuesForValidation
  rejectIf (c.isNull = some true && 1 < given) .nullWithOthers
  eqConflicts c
  rejectIf (c.gt.isSome && c.gte.isSome) .twoLowerBounds
  rejectIf (c.lt.isSome && c.lte.isSome) .twoUpperBounds

/-- The ranges of `validate_logic`. -/
def ranges (c : Conditions) : Except PyError Unit := do
  range .gt .lt c.gt c.lt true
  range .gt .lte c.gt c.lte true
  range .gte .lt c.gte c.lt true
  range .gte .lte c.gte c.lte false

theorem validateLogic_eq (c : Conditions) (given : Nat) :
    c.validateLogic given = (checks c given >>= fun _ => ranges c >>= fun _ => pure c) := by
  simp only [validateLogic, checks, ranges, bind_assoc]

theorem reports_ensureComparableTypes (values : List ConditionValue) :
    Reports (ensureComparableTypes values) := by
  unfold ensureComparableTypes
  split
  · exact reports_ok ()
  · split
    · exact reports_rejectIf true _
    · exact reports_ok ()

theorem reports_eqConflicts (c : Conditions) : Reports (eqConflicts c) := by
  unfold eqConflicts
  split
  · exact (reports_rejectIf _ _).bind fun _ => (reports_rejectIf _ _).bind fun _ =>
      reports_rejectIf _ _
  · exact reports_ok ()

theorem reports_checks (c : Conditions) (given : Nat) : Reports (checks c given) := by
  apply (reports_rejectIf _ _).bind
  intro _
  apply (reports_ensureComparableTypes _).bind
  intro _
  apply (reports_rejectIf _ _).bind
  intro _
  apply (reports_eqConflicts c).bind
  intro _
  exact (reports_rejectIf _ _).bind fun _ => reports_rejectIf _ _

theorem ensureComparableTypes_eq_ok_iff {values : List ConditionValue} :
    ensureComparableTypes values = .ok () ↔
      ∀ base ∈ values.head?, ∀ v ∈ values, comparable base v = true := by
  cases values with
  | nil => exact iff_of_true rfl nofun
  | cons base rest =>
      have hself : comparable base base = true := by
        rw [comparable, Bool.or_eq_true]
        exact .inr (decide_eq_true rfl)
      rw [ensureComparableTypes]
      cases hfind : rest.find? fun v => !comparable base v with
      | none =>
          refine iff_of_true rfl ?_
          intro base' hbase v hv
          obtain rfl := Option.some.inj hbase
          rcases List.mem_cons.mp hv with rfl | hv
          · exact hself
          · simpa using List.find?_eq_none.mp hfind v hv
      | some v =>
          refine iff_of_false nofun ?_
          intro h
          have hv := List.mem_of_find?_eq_some hfind
          have hnot := List.find?_some hfind
          rw [h base rfl v (List.mem_cons_of_mem base hv)] at hnot
          cases hnot

theorem holdsValue_eq_false_iff {x : Option (List ConditionValue)} {eq : ConditionValue} :
    holdsValue x eq = false ↔ ∀ vs ∈ x, ∀ v ∈ vs, v.equals eq = false := by
  cases x with
  | none => exact iff_of_true rfl nofun
  | some vs => simp [holdsValue]

theorem eqConflicts_eq_ok_iff : eqConflicts c = .ok () ↔
    (∀ eq ∈ c.eq, ∀ neq ∈ c.neq, neq.equals eq = false) ∧
      (∀ eq ∈ c.eq, ∀ vs ∈ c.in_, vs = [] ∨ ∃ v ∈ vs, v.equals eq = true) ∧
      ∀ eq ∈ c.eq, ∀ vs ∈ c.notIn, ∀ v ∈ vs, v.equals eq = false := by
  unfold eqConflicts
  cases c.eq with
  | none => exact iff_of_true rfl ⟨nofun, nofun, nofun⟩
  | some eq =>
      have hneq : c.neq.any (·.equals eq) = false ↔ ∀ neq ∈ c.neq, neq.equals eq = false := by
        cases c.neq with
        | none => exact iff_of_true rfl nofun
        | some neq => simp
      have hin : (!(c.in_.getD []).isEmpty && !holdsValue c.in_ eq) = false ↔
          ∀ vs ∈ c.in_, vs = [] ∨ ∃ v ∈ vs, v.equals eq = true := by
        cases c.in_ with
        | none => exact iff_of_true rfl nofun
        | some vs => simp [holdsValue, or_iff_not_imp_left]
      have hsome {p : ConditionValue → Prop} : (∀ eq' ∈ some eq, p eq') ↔ p eq := by simp
      rw [check_bind_eq_ok_iff, check_bind_eq_ok_iff, rejectIf_eq_ok_iff, rejectIf_eq_ok_iff,
        rejectIf_eq_ok_iff, hneq, hin, holdsValue_eq_false_iff, hsome, hsome, hsome]

/-- The checks pass exactly if nothing contradicts itself. -/
theorem checks_eq_ok_iff : checks c given = .ok () ↔ c.Consistent given := by
  have halone : (decide (c.isNull = some true) && decide (1 < given)) = false ↔
      (c.isNull = some true → given ≤ 1) := by
    rw [Bool.and_eq_false_iff, decide_eq_false_iff_not, decide_eq_false_iff_not, not_lt,
      imp_iff_not_or]
  have hone {x y : Option ConditionValue} :
      (x.isSome && y.isSome) = false ↔ x = none ∨ y = none := by
    rw [Bool.and_eq_false_iff, Option.isSome_eq_false_iff, Option.isSome_eq_false_iff,
      Option.isNone_iff_eq_none, Option.isNone_iff_eq_none]
  unfold checks
  rw [check_bind_eq_ok_iff, check_bind_eq_ok_iff, check_bind_eq_ok_iff, check_bind_eq_ok_iff,
    check_bind_eq_ok_iff, rejectIf_eq_ok_iff, rejectIf_eq_ok_iff, rejectIf_eq_ok_iff,
    rejectIf_eq_ok_iff, Bool.or_eq_false_iff, holds_iff,
    decide_eq_false_iff_not, ensureComparableTypes_eq_ok_iff, eqConflicts_eq_ok_iff,
    halone, hone, hone]
  constructor
  · rintro ⟨⟨hgiven, hholds⟩, htypes, halone, ⟨hdistinct, hmember, hexcluded⟩, hlower, hupper⟩
    exact ⟨hgiven, hholds, htypes, halone, hdistinct, hmember, hexcluded, hlower, hupper⟩
  · rintro ⟨hgiven, hholds, htypes, halone, hdistinct, hmember, hexcluded, hlower, hupper⟩
    exact ⟨⟨hgiven, hholds⟩, htypes, halone, ⟨hdistinct, hmember, hexcluded⟩, hlower, hupper⟩

/-! The bounds. -/

theorem range_of_none {lower upper : ConditionField} {low high : Option ConditionValue}
    {orEqual : Bool} (h : low = none ∨ high = none) :
    range lower upper low high orEqual = .ok () := by
  unfold range
  obtain rfl | rfl := h
  · rfl
  · cases low <;> rfl

theorem bind_ok_unit (x : Except PyError Unit) : (x >>= fun _ => Except.ok ()) = x := by
  cases x <;> rfl

/-- Without two bounds there is nothing to compare. -/
theorem ranges_of_none (h : c.lowerBound = none ∨ c.upperBound = none) : ranges c = .ok () := by
  unfold ranges
  rw [lowerBound, upperBound, Option.or_eq_none_iff, Option.or_eq_none_iff] at h
  rw [range_of_none (by tauto), range_of_none (by tauto), range_of_none (by tauto),
    range_of_none (by tauto)]
  rfl

/-- Two bounds are compared once. -/
theorem ranges_of_some (hlower : c.gt = none ∨ c.gte = none) (hupper : c.lt = none ∨ c.lte = none)
    {low high : ConditionValue} (hlow : c.lowerBound = some low)
    (hhigh : c.upperBound = some high) :
    ∃ fault, ranges c = (low.exceeds high c.strict >>= fun invalid => rejectIf invalid fault) := by
  unfold ranges strict
  rw [lowerBound, Option.or_eq_some_iff] at hlow
  rw [upperBound, Option.or_eq_some_iff] at hhigh
  obtain hgt | ⟨hgt, hgte⟩ := hlow
  · have hgte : c.gte = none := hlower.resolve_left (by rw [hgt]; nofun)
    obtain hlt | ⟨hlt, hlte⟩ := hhigh
    · have hlte : c.lte = none := hupper.resolve_left (by rw [hlt]; nofun)
      refine ⟨.invalidRange .gt .lt (low, high), ?_⟩
      rw [hgt, hgte, hlt, hlte, range_of_none (.inr rfl), range_of_none (.inl rfl),
        range_of_none (.inl rfl), ok_bind, ok_bind, bind_ok_unit]
      rfl
    · refine ⟨.invalidRange .gt .lte (low, high), ?_⟩
      rw [hgt, hgte, hlt, hlte, range_of_none (.inr rfl), range_of_none (.inl rfl),
        range_of_none (.inl rfl), ok_bind, ok_bind, bind_ok_unit]
      rfl
  · obtain hlt | ⟨hlt, hlte⟩ := hhigh
    · have hlte : c.lte = none := hupper.resolve_left (by rw [hlt]; nofun)
      refine ⟨.invalidRange .gte .lt (low, high), ?_⟩
      rw [hgt, hgte, hlt, hlte, range_of_none (.inl rfl), range_of_none (.inl rfl),
        range_of_none (.inr rfl), ok_bind, ok_bind, bind_ok_unit]
      rfl
    · refine ⟨.invalidRange .gte .lte (low, high), ?_⟩
      rw [hgt, hgte, hlt, hlte, range_of_none (.inl rfl), range_of_none (.inl rfl),
        range_of_none (.inr rfl), ok_bind, ok_bind, ok_bind]
      rfl

theorem mem_bounds {v : ConditionValue} :
    v ∈ c.bounds ↔ c.gt = some v ∨ c.gte = some v ∨ c.lt = some v ∨ c.lte = some v := by
  rw [bounds, List.reduceOption_mem_iff]
  simp only [List.mem_cons, List.not_mem_nil, or_false, eq_comm]

theorem mem_values_of_mem_bounds {v : ConditionValue} (h : v ∈ c.bounds) :
    v ∈ c.valuesForValidation := by
  rw [valuesForValidation, List.mem_append]
  left
  rw [List.reduceOption_mem_iff]
  simp only [List.mem_cons, List.not_mem_nil, or_false]
  rw [mem_bounds] at h
  obtain h | h | h | h := h <;> simp [h]

theorem mem_bounds_of_lowerBound {low : ConditionValue} (h : c.lowerBound = some low) :
    low ∈ c.bounds := by
  rw [lowerBound, Option.or_eq_some_iff] at h
  rw [mem_bounds]
  tauto

theorem mem_bounds_of_upperBound {high : ConditionValue} (h : c.upperBound = some high) :
    high ∈ c.bounds := by
  rw [upperBound, Option.or_eq_some_iff] at h
  rw [mem_bounds]
  tauto

theorem isNumeric_eq_of_type {a b : ConditionValue} (h : a.type = b.type) :
    a.isNumeric = b.isNumeric := by
  cases a with
  | float x =>
      cases b with
      | float y => cases x <;> cases y <;> rfl
      | _ => cases h
  | _ => cases b <;> first | rfl | cases h

theorem comparable_trans {base a b : ConditionValue} (ha : comparable base a = true)
    (hb : comparable base b = true) :
    comparable a b = true := by
  simp only [comparable, Bool.or_eq_true, Bool.and_eq_true, decide_eq_true_eq] at ha hb ⊢
  obtain ⟨hbase, ha⟩ | ha := ha
  · obtain ⟨-, hb⟩ | hb := hb
    · exact .inl ⟨ha, hb⟩
    · exact .inl ⟨ha, isNumeric_eq_of_type hb ▸ hbase⟩
  · obtain ⟨hbase, hb⟩ | hb := hb
    · exact .inl ⟨isNumeric_eq_of_type ha ▸ hbase, hb⟩
    · exact .inr (ha.symm.trans hb)

/-- Consistent conditions have values of comparable types only. -/
theorem Consistent.comparable (h : c.Consistent given) {a b : ConditionValue}
    (ha : a ∈ c.valuesForValidation) (hb : b ∈ c.valuesForValidation) :
    Conditions.comparable a b = true := by
  have htypes := h.types
  cases hvalues : c.valuesForValidation with
  | nil =>
      rw [hvalues] at ha
      cases ha
  | cons base rest =>
      rw [hvalues] at htypes ha hb
      exact comparable_trans (htypes base rfl a ha) (htypes base rfl b hb)

/-- The bounds do not exceed each other. -/
def InOrder (c : Conditions) : Prop :=
  ∀ low ∈ c.lowerBound, ∀ high ∈ c.upperBound, low.exceeds high c.strict = .ok false

theorem exceeds_eq_false {low high : ConditionValue} {orEqual : Bool}
    (h : low.exceeds high orEqual = .ok false) :
    high.less low = .ok false ∧ (orEqual = true → low.equals high = false) := by
  obtain ⟨greater, hless, h⟩ := bind_eq_ok h
  obtain ⟨rfl, hequal⟩ := Bool.or_eq_false_iff.mp (Except.ok.inj h)
  refine ⟨hless, ?_⟩
  rintro rfl
  rwa [Bool.true_and] at hequal

/-- Of two options of which one is empty, the other is the first that is not. -/
theorem eq_of_or {α : Type} {x y : Option α} {a : α} (h : x = none ∨ y = none)
    (hor : x.or y = some a) :
    (∀ b ∈ x, b = a) ∧ ∀ b ∈ y, b = a := by
  obtain rfl | rfl := h
  · rw [Option.none_or] at hor
    refine ⟨nofun, ?_⟩
    intro b hb
    exact Option.some.inj (hb.symm.trans hor)
  · rw [Option.or_none] at hor
    refine ⟨?_, nofun⟩
    intro b hb
    exact Option.some.inj (hb.symm.trans hor)

/-- Something lies between bounds that are in order. -/
theorem admits_of_inOrder (h : c.Consistent given) (horder : c.InOrder)
    (hnan : ∀ bound ∈ c.bounds, bound.isNan = false) : c.Admits := by
  refine ⟨hnan, ?_⟩
  intro D _ _ _ _ _ place hplace
  cases hlow : c.lowerBound with
  | none =>
      obtain ⟨hgt, hgte⟩ := Option.or_eq_none_iff.mp hlow
      rw [hgt, hgte]
      cases hhigh : c.upperBound with
      | none =>
          obtain ⟨hlt, hlte⟩ := Option.or_eq_none_iff.mp hhigh
          rw [hlt, hlte]
          exact ⟨Classical.arbitrary D, nofun, nofun, nofun, nofun⟩
      | some high =>
          obtain ⟨x, hx⟩ := exists_lt (place high)
          obtain ⟨hlt, hlte⟩ := eq_of_or h.oneUpper hhigh
          exact ⟨x, nofun, nofun, fun v hv => hlt v hv ▸ hx, fun v hv => hlte v hv ▸ hx.le⟩
  | some low =>
      obtain ⟨hgt, hgte⟩ := eq_of_or h.oneLower hlow
      cases hhigh : c.upperBound with
      | none =>
          obtain ⟨hlt, hlte⟩ := Option.or_eq_none_iff.mp hhigh
          rw [hlt, hlte]
          obtain ⟨x, hx⟩ := exists_gt (place low)
          exact ⟨x, fun v hv => hgt v hv ▸ hx, fun v hv => hgte v hv ▸ hx.le, nofun, nofun⟩
      | some high =>
          obtain ⟨hlt, hlte⟩ := eq_of_or h.oneUpper hhigh
          have hlowMem := mem_bounds_of_lowerBound hlow
          have hhighMem := mem_bounds_of_upperBound hhigh
          obtain ⟨hless, hequal⟩ := exceeds_eq_false (horder low hlow high hhigh)
          cases hstrict : c.strict with
          | true =>
              have hcomparable :=
                h.comparable (mem_values_of_mem_bounds hlowMem) (mem_values_of_mem_bounds hhighMem)
              have hlt' : low.less high = .ok true := ConditionValue.less_of_not_less hcomparable
                (hnan low hlowMem) (hnan high hhighMem) hless (hequal hstrict)
              obtain ⟨x, hx, hx'⟩ := exists_between ((hplace low hlowMem high hhighMem).mp hlt')
              exact ⟨x, fun v hv => hgt v hv ▸ hx, fun v hv => hgte v hv ▸ hx.le,
                fun v hv => hlt v hv ▸ hx', fun v hv => hlte v hv ▸ hx'.le⟩
          | false =>
              -- Both bounds may be met, so the lower one will do.
              obtain ⟨hgtNone, hltNone⟩ := Bool.or_eq_false_iff.mp hstrict
              have hle : place low ≤ place high := by
                rw [← not_lt, ← hplace high hhighMem low hlowMem, hless]
                nofun
              rw [Option.isSome_eq_false_iff, Option.isNone_iff_eq_none] at hgtNone hltNone
              rw [hgtNone, hltNone]
              exact ⟨place low, nofun, fun v hv => hgte v hv ▸ le_refl _, nofun,
                fun v hv => hlte v hv ▸ hle⟩

theorem sound_iff_sane (h : c.Consistent given) (horder : c.InOrder) : c.Sound ↔ c.Sane := by
  constructor
  · intro hsound
    refine ⟨?_, hsound.admits.1, ?_⟩
    · intro d d' hd hd'
      by_contra hne
      exact (ConditionValue.exists_less_iff (h.comparable hd hd')).mp (hsound.comparable _ hd _ hd')
        ⟨d, d', rfl, rfl, hne⟩
    · intro heq hempty
      obtain ⟨eq, heq⟩ := Option.isSome_iff_exists.mp heq
      obtain ⟨v, hv, -⟩ := hsound.member eq heq [] hempty
      cases hv
  · intro hsane
    refine ⟨?_, admits_of_inOrder h horder hsane.bounds, h.distinct, ?_, h.excluded,
      h.oneLower, h.oneUpper⟩
    · intro a ha b hb
      rw [ConditionValue.exists_less_iff (h.comparable ha hb)]
      rintro ⟨d, d', rfl, rfl, hne⟩
      exact hne (hsane.awareness d d' ha hb)
    · intro eq heq vs hvs
      obtain rfl | hmember := h.member eq heq vs hvs
      · exact absurd hvs (hsane.member (Option.isSome_of_mem heq))
      · exact hmember

theorem not_sound_error {e : PyError} (h : ∀ found, e ≠ .validationError found) :
    ¬ SoundOutcome (.error e : Except PyError Conditions) := by
  rintro (⟨found, he⟩ | ⟨c, hc, -⟩)
  · exact h found (Except.error.inj he)
  · cases hc

theorem sound_validationError (found : List Fault) :
    SoundOutcome (.error (.validationError found)) := .inl ⟨found, rfl⟩

theorem soundOutcome_ok_iff : SoundOutcome (.ok c) ↔ c.Sound := by
  constructor
  · rintro (⟨found, he⟩ | ⟨c', hc, hsound⟩)
    · cases he
    · exact Except.ok.inj hc ▸ hsound
  · exact fun h => .inr ⟨c, rfl, h⟩

/-- Values that do not compare raise a TypeError. -/
theorem less_error {a b : ConditionValue} {e : PyError} (h : a.less b = .error e) :
    ∃ message, e = .typeError message := by
  unfold ConditionValue.less at h
  split at h
  · cases h
  · cases h
  · cases h
  · exact ⟨_, (Except.error.inj h).symm⟩
  · split at h
    · cases h
    · exact ⟨_, (Except.error.inj h).symm⟩

theorem exceeds_of_less {low high : ConditionValue} {orEqual : Bool} {e : PyError}
    (h : high.less low = .error e) :
    low.exceeds high orEqual = .error e := by
  rw [ConditionValue.exceeds, h, error_bind]

/-- The outcome of consistent conditions depends on their bounds. -/
theorem soundOutcome_of_consistent (h : c.Consistent given) :
    SoundOutcome (c.validateLogic given) ↔ c.EmptyRange ∨ c.Sane := by
  rw [validateLogic_eq, checks_eq_ok_iff.mpr h, ok_bind]
  by_cases hnone : c.lowerBound = none ∨ c.upperBound = none
  · have hempty : ¬ c.EmptyRange := by
      rintro ⟨low, hlow, high, hhigh, -⟩
      rw [Option.mem_def] at hlow hhigh
      rw [hlow, hhigh] at hnone
      simp at hnone
    have horder : c.InOrder := by
      intro low hlow high hhigh
      rw [Option.mem_def] at hlow hhigh
      rw [hlow, hhigh] at hnone
      simp at hnone
    rw [ranges_of_none hnone, or_iff_right hempty, ← sound_iff_sane h horder]
    exact soundOutcome_ok_iff
  · obtain ⟨hlow, hhigh⟩ := not_or.mp hnone
    obtain ⟨low, hlow⟩ := Option.ne_none_iff_exists'.mp hlow
    obtain ⟨high, hhigh⟩ := Option.ne_none_iff_exists'.mp hhigh
    obtain ⟨fault, hranges⟩ := ranges_of_some h.oneLower h.oneUpper hlow hhigh
    have hrange : c.EmptyRange ↔ low.exceeds high c.strict = .ok true := by
      constructor
      · rintro ⟨low', hlow', high', hhigh', hexceeds⟩
        obtain rfl := Option.some.inj (hlow.symm.trans hlow')
        obtain rfl := Option.some.inj (hhigh.symm.trans hhigh')
        exact hexceeds
      · exact fun hexceeds => ⟨low, hlow, high, hhigh, hexceeds⟩
    rw [hranges, hrange]
    cases hless : high.less low with
    | error e =>
        obtain ⟨message, rfl⟩ := less_error hless
        rw [exceeds_of_less hless, error_bind, error_bind]
        refine iff_of_false (not_sound_error nofun) ?_
        rintro (hexceeds | hsane)
        · cases hexceeds
        · have hcomparable :=
            h.comparable (mem_values_of_mem_bounds (mem_bounds_of_upperBound hhigh))
            (mem_values_of_mem_bounds (mem_bounds_of_lowerBound hlow))
          have hmixed : ConditionValue.Mixed high low := by
            by_contra hnot
            obtain ⟨r, hr⟩ := (ConditionValue.exists_less_iff hcomparable).mpr hnot
            rw [hless] at hr
            cases hr
          obtain ⟨d, d', rfl, rfl, hne⟩ := hmixed
          exact hne
            (hsane.awareness d d' (mem_values_of_mem_bounds (mem_bounds_of_upperBound hhigh))
            (mem_values_of_mem_bounds (mem_bounds_of_lowerBound hlow)))
    | ok greater =>
        have hexceeds :
            low.exceeds high c.strict = .ok (greater || (c.strict && low.equals high)) := by
          rw [ConditionValue.exceeds, hless]
          rfl
        rw [hexceeds, ok_bind]
        cases hinvalid : greater || (c.strict && low.equals high) with
        | true => exact iff_of_true (sound_validationError [fault]) (.inl rfl)
        | false =>
            have horder : c.InOrder := by
              intro low' hlow' high' hhigh'
              obtain rfl := Option.some.inj (hlow.symm.trans hlow')
              obtain rfl := Option.some.inj (hhigh.symm.trans hhigh')
              rw [hexceeds, hinvalid]
            rw [or_iff_right nofun, ← sound_iff_sane h horder]
            exact soundOutcome_ok_iff

theorem soundOutcome_validateLogic_iff (c : Conditions) (given : Nat) :
    SoundOutcome (c.validateLogic given) ↔ ¬ c.Consistent given ∨ c.EmptyRange ∨ c.Sane := by
  by_cases h : c.Consistent given
  · rw [soundOutcome_of_consistent h, or_iff_right (not_not.mpr h)]
  · refine iff_of_true ?_ (.inl h)
    rw [validateLogic_eq]
    cases hchecks : checks c given with
    | ok u => exact absurd (checks_eq_ok_iff.mp hchecks) h
    | error e =>
        obtain ⟨found, rfl⟩ := reports_checks c given e hchecks
        exact sound_validationError found

end Conditions

section

variable {P : Platform}

theorem regexOverflow_error {text : Option PyStr} {e : PyError}
    (h : regexOverflow P text = some e) :
    e.isCaught = false := by
  obtain ⟨s, -, hs⟩ := Option.bind_eq_some_iff.mp h
  exact raised?_validateRegex hs

/-- Validation reports what is wrong with an object, or gives sound conditions, exactly if the
object is meaningful. -/
theorem validation_sound_iff (P : Platform) (object : List (PyStr × JsonValue)) :
    SoundOutcome (Conditions.validateObject P object) ↔ Conditions.Meaningful P object := by
  unfold Conditions.validateObject Conditions.Meaningful
  by_cases hextras : Conditions.extras object = []
  · have hraised := raised?_fields (P := P) (Conditions.rawOf object)
    rw [if_pos hextras, or_iff_right (not_not.mpr hextras), ← hraised, Conditions.modelValidate]
    cases hfields : Conditions.fields P (Conditions.rawOf object) with
    | ok c =>
        rw [Checked.toExcept, ok_bind, Conditions.soundOutcome_validateLogic_iff]
        constructor
        · intro h
          refine ⟨rfl, ?_⟩
          intro c' hc'
          obtain rfl := Checked.ok.inj hc'
          exact h
        · exact fun h => h.2 c rfl
    | faults found =>
        rw [Checked.toExcept, error_bind]
        refine iff_of_true (Conditions.sound_validationError found) ⟨rfl, ?_⟩
        intro c hc
        cases hc
    | raised e =>
        rw [hfields, Checked.raised?] at hraised
        rw [Checked.toExcept, error_bind, Checked.raised?]
        refine iff_of_false (Conditions.not_sound_error ?_) fun h => by cases h.1
        rintro found rfl
        obtain h | ⟨-, h⟩ := Option.or_eq_some_iff.mp hraised.symm
        · cases regexOverflow_error h
        · cases regexOverflow_error h
  · rw [if_neg hextras]
    exact iff_of_true (Conditions.sound_validationError _) (.inl hextras)

/-- A parser that knows two dates: one is naive, and the other has an offset. -/
def twoDates : Platform :=
  { Platform.utc with
    fromisoformat := fun s =>
      if s = PyStr.ofString "2024-01-02" then some ⟨1704153600000000, none⟩
      else if s = PyStr.ofString "2024-01-03T00:00:00+00:00" then some ⟨1704240000000000, some 0⟩
      else none }

/-- Bounds of which one is naive make the validator raise. -/
theorem mixed_bounds_raise : ¬ SoundOutcome (Conditions.validateObject twoDates
    [(PyStr.ofString "gt", .str (PyStr.ofString "2024-01-02")),
      (PyStr.ofString "lt", .str (PyStr.ofString "2024-01-03T00:00:00+00:00"))]) := by
  have houtcome : Conditions.validateObject twoDates
      [(PyStr.ofString "gt", .str (PyStr.ofString "2024-01-02")),
        (PyStr.ofString "lt", .str (PyStr.ofString "2024-01-03T00:00:00+00:00"))] =
      .error (.typeError "can't compare offset-naive and offset-aware datetimes") := by
    decide +kernel
  rw [houtcome]
  exact Conditions.not_sound_error nofun

end

end Graveboards.Search
