import Mathlib.Order.Defs.LinearOrder
import Mathlib.Tactic
import Graveboards.Library.ThreeValued

/-!
The filter operators as conditions of SQL: on the column of a row, and, where
the rows of a group are aggregated, on the array of its values. The two
translations agree where no null comes in their way, except that the aggregated
one does not look at the value of IS_NULL.
-/

namespace Graveboards.Search.Operators

open Library

/-- `FilterOperator` -/
inductive FilterOperator where
  | eq
  | neq
  | gt
  | lt
  | gte
  | lte
  | in_
  | notIn
  | isNull
  | regex
  | notRegex
  deriving DecidableEq

/-- The values that `Conditions` has for an operator. A condition that is given
as null comes with the value `None`. -/
abbrev FilterOperator.Value (α : Type) : FilterOperator → Type
  | .eq | .neq | .gt | .lt | .gte | .lte | .regex | .notRegex => Option α
  | .in_ | .notIn => Option (List (Option α))
  | .isNull => Option Bool

/-- What the conditions need to know of the values of a column: which of them
are Python's `True` and `False`, and when a text matches a pattern. -/
structure Column (α : Type) where
  isBool : α → Bool
  isMatch : α → α → Bool

inductive Comparison where
  | eq
  | ne
  | gt
  | lt
  | ge
  | le

namespace Comparison

/-- `operators.mirror` -/
def mirror : Comparison → Comparison
  | .eq => .eq
  | .ne => .ne
  | .gt => .lt
  | .lt => .gt
  | .ge => .le
  | .le => .ge

variable {α : Type} [LinearOrder α]

def holds : Comparison → α → α → Bool
  | .eq, a, b => a = b
  | .ne, a, b => a ≠ b
  | .gt, a, b => b < a
  | .lt, a, b => a < b
  | .ge, a, b => b ≤ a
  | .le, a, b => a ≤ b

@[simp] theorem holds_mirror (op : Comparison) (a b : α) : op.mirror.holds b a = op.holds a b := by
  cases op <;> simp [mirror, holds, eq_comm]

end Comparison

/-- A condition on the column of a row. -/
inductive Condition (α : Type) where
  | isNull
  | isNotNull
  | compare (op : Comparison) (value : Option α)
  | in_ (values : List (Option α))
  | matches (pattern : Option α)
  | notMatches (pattern : Option α)
  | not (condition : Condition α)

/-- A condition on a group: `value op ANY (array_agg(target))` and the like. -/
inductive AggregatedCondition (α : Type) where
  | any (value : Option α) (op : Comparison)
  | all (value : Option α) (op : Comparison)
  | overlaps (values : Option (List (Option α)))
  | not (condition : AggregatedCondition α)
  | boolAnd (condition : Condition α)
  | boolOr (condition : Condition α)

/-- The values of the column in the rows of a group, which is never empty. -/
structure Group (α : Type) where
  rows : List (Option α)
  nonempty : rows ≠ []

/-- SQLAlchemy's `ArgumentError`. -/
inductive ArgumentError where
  | onlyEquality
  | inList
  deriving DecidableEq

section Translation

variable {α : Type} (column : Column α)

/-- A comparison other than `==` and `!=` takes no `None`, `True` or `False`. -/
def order (op : Comparison) : Option α → Except ArgumentError (Condition α)
  | none => .error .onlyEquality
  | some a => if column.isBool a = true then .error .onlyEquality else .ok (.compare op (some a))

/-- `FilterOperator.method` -/
def FilterOperator.method : (op : FilterOperator) → op.Value α → Except ArgumentError (Condition α)
  | .eq, none => .ok .isNull
  | .eq, some a => .ok (.compare .eq (some a))
  | .neq, none => .ok .isNotNull
  | .neq, some a => .ok (.compare .ne (some a))
  | .gt, value => order column .gt value
  | .lt, value => order column .lt value
  | .gte, value => order column .ge value
  | .lte, value => order column .le value
  | .in_, none => .error .inList
  | .in_, some values => .ok (.in_ values)
  | .notIn, none => .error .inList
  | .notIn, some values => .ok (.not (.in_ values))
  | .isNull, value => .ok (if value = some true then .isNull else .isNotNull)
  | .regex, pattern => .ok (.matches pattern)
  | .notRegex, pattern => .ok (.notMatches pattern)

/-- The aggregated half of `get_filter_condition`. An operand `ANY (..)` on the
left is written on the right, with the operator mirrored. -/
def aggregatedCondition : (op : FilterOperator) → op.Value α → AggregatedCondition α
  | .eq, value => .any value .eq
  | .neq, value => .all value .ne
  | .gt, value => .any value Comparison.gt.mirror
  | .lt, value => .any value Comparison.lt.mirror
  | .gte, value => .any value Comparison.ge.mirror
  | .lte, value => .any value Comparison.le.mirror
  | .in_, values => .overlaps values
  | .notIn, values => .not (.overlaps values)
  | .isNull, _ => .boolAnd .isNull
  | .regex, pattern => .boolOr (.matches pattern)
  | .notRegex, pattern => .boolAnd (.not (.matches pattern))

/-- `get_filter_condition` -/
def getFilterCondition (op : FilterOperator) (value : op.Value α) (isAggregated : Bool) :
    Except ArgumentError (Condition α ⊕ AggregatedCondition α) :=
  if isAggregated then .ok (.inr (aggregatedCondition op value))
  else (op.method column value).map .inl

end Translation

section Meaning

variable {α : Type} [LinearOrder α] (column : Column α)

def Condition.eval : Condition α → Option α → Truth
  | .isNull, row => some row.isNone
  | .isNotNull, row => some row.isSome
  | .compare op value, row => Truth.compare op.holds row value
  | .in_ values, row => Truth.any (values.map (Truth.compare Comparison.eq.holds row))
  | .matches pattern, row => Truth.compare column.isMatch row pattern
  | .notMatches pattern, row =>
      Truth.compare (fun text pattern => !column.isMatch text pattern) row pattern
  | .not condition, row => (condition.eval row).not

/-- Nulls in two arrays are no common element. -/
def AggregatedCondition.eval : AggregatedCondition α → List (Option α) → Truth
  | .any value op, rows => Truth.any (rows.map (Truth.compare op.holds value))
  | .all value op, rows => Truth.all (rows.map (Truth.compare op.holds value))
  | .overlaps values, rows =>
      values.map fun values => rows.any fun row => row.isSome && decide (row ∈ values)
  | .not condition, rows => (condition.eval rows).not
  | .boolAnd condition, rows => Truth.boolAnd (rows.map (condition.eval column))
  | .boolOr condition, rows => Truth.boolOr (rows.map (condition.eval column))

/-- The row is selected. -/
def Selects (op : FilterOperator) (value : op.Value α) (row : Option α) : Prop :=
  ∃ condition, getFilterCondition column op value false = .ok (.inl condition) ∧
    condition.eval column row = some true

/-- The group is selected. -/
def SelectsGroup (op : FilterOperator) (value : op.Value α) (g : Group α) : Prop :=
  ∃ condition, getFilterCondition column op value true = .ok (.inr condition) ∧
    condition.eval column g.rows = some true

/-- The positive operator of a negative one, with the same value. -/
def FilterOperator.positive? :
    (op : FilterOperator) → op.Value α → Option ((op : FilterOperator) × op.Value α)
  | .neq, value => some ⟨.eq, value⟩
  | .notIn, values => some ⟨.in_, values⟩
  | .notRegex, pattern => some ⟨.regex, pattern⟩
  | _, _ => none

def FilterOperator.isOrdering : FilterOperator → Bool
  | .gt | .lt | .gte | .lte => true
  | _ => false

/-- The aggregated condition lifts the one on rows: to a group of one row, and, where there are no
nulls, as the negation of the positive operator or as the existence of a row. -/
structure Lifts (op : FilterOperator) (value : op.Value α) (g : Group α) : Prop where
  single : ∀ row, g.rows = [row] →
    (∃ condition, getFilterCondition column op value false = .ok condition) ∧
      (SelectsGroup column op value g ↔ Selects column op value row)
  negative : none ∉ g.rows → ∀ positive, op.positive? value = some positive →
    (SelectsGroup column op value g ↔ ¬ SelectsGroup column positive.1 positive.2 g)
  ordering : none ∉ g.rows → op.isOrdering = true →
    (SelectsGroup column op value g ↔ ∃ row ∈ g.rows, Selects column op value row)

/-- When an ordering condition does: a null has no order, and neither has a boolean. -/
def OrderLifts (op : Comparison) (value : Option α) (g : Group α) : Prop :=
  match value with
  | none => g.rows.length ≠ 1
  | some a => column.isBool a = true →
      g.rows.length ≠ 1 ∧ (none ∈ g.rows ∨ ∀ row, some row ∈ g.rows → op.holds row a = false)

/-- When the aggregated condition lifts the one on rows. -/
def LiftsWhen : (op : FilterOperator) → op.Value α → Group α → Prop
  | .eq, value, g => value ≠ none ∨ g.rows ≠ [none]
  | .neq, value, g => value ≠ none ∨ none ∈ g.rows
  | .gt, value, g => OrderLifts column .gt value g
  | .lt, value, g => OrderLifts column .lt value g
  | .gte, value, g => OrderLifts column .ge value g
  | .lte, value, g => OrderLifts column .le value g
  | .in_, values, g => values ≠ none ∨ g.rows.length ≠ 1
  | .notIn, none, g => none ∈ g.rows ∧ g.rows.length ≠ 1
  | .notIn, some values, g =>
      ∀ row, g.rows = [row] → values = [] ∨ row ≠ none ∧ (row ∈ values ∨ none ∉ values)
  | .isNull, value, g => value = some true ∨ g.rows.length ≠ 1
  | .regex, _, _ => True
  | .notRegex, pattern, g => pattern ≠ none ∨ none ∈ g.rows

/-! Which rows and groups the operators select. -/

variable {column} {row : Option α} {g : Group α}

attribute [local simp] FilterOperator.method aggregatedCondition Condition.eval
  AggregatedCondition.eval Comparison.holds

theorem selects_iff {op : FilterOperator} {value : op.Value α} :
    Selects column op value row ↔
      ∃ condition, op.method column value = .ok condition ∧
      condition.eval column row = some true := by
  unfold Selects getFilterCondition
  cases op.method column value with
  | ok condition => simp [Except.map]
  | error e => simp [Except.map]

omit [LinearOrder α] in
theorem exists_condition_iff {op : FilterOperator} {value : op.Value α} :
    (∃ condition, getFilterCondition column op value false = .ok condition) ↔
      ∃ condition, op.method column value = .ok condition := by
  unfold getFilterCondition
  cases op.method column value with
  | ok condition => simp [Except.map]
  | error e => simp [Except.map]

theorem selectsGroup_iff {op : FilterOperator} {value : op.Value α} :
    SelectsGroup column op value g ↔
      (aggregatedCondition op value).eval column g.rows = some true := by
  simp [SelectsGroup, getFilterCondition]

theorem selects_eq_some {a : α} : Selects column .eq (some a) row ↔ row = some a := by
  rw [selects_iff]
  cases row <;> simp [FilterOperator.method, Condition.eval, Comparison.holds]

theorem selects_neq_some {a : α} :
    Selects column .neq (some a) row ↔ row ≠ none ∧ row ≠ some a := by
  rw [selects_iff]
  cases row <;> simp [FilterOperator.method, Condition.eval, Comparison.holds]

/-- What `IN` compares a value with. -/
theorem compare_eq_holds_some {a : α} {value : Option α} :
    Truth.compare Comparison.eq.holds (some a) value = some true ↔ value = some a := by
  cases value <;> simp [Comparison.holds, eq_comm]

theorem compare_eq_fails_some {a : α} {value : Option α} :
    Truth.compare Comparison.eq.holds (some a) value = some false ↔
      value ≠ none ∧ value ≠ some a := by
  cases value <;> simp [Comparison.holds, eq_comm]

theorem selects_in_some {values : List (Option α)} :
    Selects column .in_ (some values) row ↔ row ≠ none ∧ row ∈ values := by
  rw [selects_iff]
  simp only [FilterOperator.method, Except.ok.injEq, exists_eq_left', Condition.eval,
    Truth.any_eq_true_iff, List.mem_map]
  cases row with
  | none => simp
  | some a => simp [compare_eq_holds_some]

theorem selects_notIn_some {values : List (Option α)} :
    Selects column .notIn (some values) row ↔ values = [] ∨ row ≠ none ∧ row ∉ values ∧
    none ∉ values := by
  rw [selects_iff]
  simp only [FilterOperator.method, Except.ok.injEq, exists_eq_left', Condition.eval,
    Truth.not_eq_true_iff, Truth.any_eq_false_iff, List.forall_mem_map]
  cases row with
  | none =>
      simp only [Truth.compare_none_left, reduceCtorEq, ne_eq, not_true_eq_false,
        false_and, or_false]
      exact List.eq_nil_iff_forall_not_mem.symm
  | some a =>
      simp only [compare_eq_fails_some]
      constructor
      · intro h
        exact Or.inr
          ⟨Option.some_ne_none a, fun hmem => (h _ hmem).2 rfl, fun hmem => (h _ hmem).1 rfl⟩
      · rintro (rfl | ⟨-, hvalue, hnull⟩) value hmem
        · cases hmem
        · refine ⟨?_, ?_⟩
          · rintro rfl
            exact hnull hmem
          · rintro rfl
            exact hvalue hmem

theorem selectsGroup_eq {value : Option α} :
    SelectsGroup column .eq value g ↔ value ≠ none ∧ value ∈ g.rows := by
  rw [selectsGroup_iff]
  cases value with
  | none => simp [aggregatedCondition, AggregatedCondition.eval]
  | some a =>
      simp [aggregatedCondition, AggregatedCondition.eval, Truth.compare_eq_some_iff,
        Comparison.holds]

theorem selectsGroup_neq {value : Option α} :
    SelectsGroup column .neq value g ↔ value ≠ none ∧ none ∉ g.rows ∧ value ∉ g.rows := by
  rw [selectsGroup_iff]
  simp only [aggregatedCondition, AggregatedCondition.eval, Truth.all_eq_true_iff,
    List.forall_mem_map, Truth.compare_eq_some_iff]
  constructor
  · intro h
    obtain ⟨row, hrow⟩ := List.exists_mem_of_ne_nil _ g.nonempty
    obtain ⟨a, b, rfl, -, -⟩ := h row hrow
    refine ⟨Option.some_ne_none a, ?_, ?_⟩
    · intro hnone
      obtain ⟨_, _, -, heq, -⟩ := h none hnone
      cases heq
    · intro hvalue
      obtain ⟨x, y, hx, hy, hne⟩ := h _ hvalue
      obtain rfl := Option.some.inj hx
      obtain rfl := Option.some.inj hy
      simp [Comparison.holds] at hne
  · rintro ⟨hvalue, hnone, hmem⟩ row hrow
    obtain ⟨a, rfl⟩ := Option.ne_none_iff_exists'.mp hvalue
    cases row with
    | none => exact absurd hrow hnone
    | some b =>
        refine ⟨a, b, rfl, rfl, ?_⟩
        rw [Comparison.holds, decide_eq_true_iff]
        rintro rfl
        exact hmem hrow

theorem overlap_iff {rows values : List (Option α)} :
    (rows.any fun row => row.isSome && decide (row ∈ values)) = true ↔ ∃ a, some a ∈ rows ∧
    some a ∈ values := by
  rw [List.any_eq_true]
  constructor
  · rintro ⟨_ | a, hrow, h⟩
    · cases h
    · exact ⟨a, hrow, of_decide_eq_true h⟩
  · rintro ⟨a, hrow, hvalue⟩
    exact ⟨some a, hrow, decide_eq_true hvalue⟩

theorem selectsGroup_in {values : Option (List (Option α))} :
    SelectsGroup column .in_ values g ↔ ∃ vs, values = some vs ∧ ∃ a, some a ∈ g.rows ∧
    some a ∈ vs := by
  rw [selectsGroup_iff]
  cases values with
  | none => simp [aggregatedCondition, AggregatedCondition.eval]
  | some vs =>
      simp only [aggregatedCondition, AggregatedCondition.eval, Option.map_some, Option.some.injEq,
        exists_eq_left', overlap_iff]

theorem selectsGroup_notIn {values : Option (List (Option α))} :
    SelectsGroup column .notIn values g ↔ ∃ vs, values = some vs ∧ ¬ ∃ a, some a ∈ g.rows ∧
    some a ∈ vs := by
  rw [selectsGroup_iff]
  cases values with
  | none => simp [aggregatedCondition, AggregatedCondition.eval]
  | some vs =>
      simp only [aggregatedCondition, AggregatedCondition.eval, Option.map_some,
        Truth.not_eq_true_iff, Option.some.injEq, exists_eq_left', ← overlap_iff, Bool.not_eq_true]

theorem selectsGroup_isNull {value : Option Bool} :
    SelectsGroup column .isNull value g ↔ ∀ row ∈ g.rows, row = none := by
  rw [selectsGroup_iff]
  simp only [aggregatedCondition, AggregatedCondition.eval, Truth.boolAnd_eq_true_iff,
    Condition.eval]
  obtain ⟨first, hfirst⟩ := List.exists_mem_of_ne_nil _ g.nonempty
  rw [and_iff_right ⟨first.isNone, List.mem_map_of_mem hfirst⟩]
  simp [List.mem_map, Option.isSome_iff_ne_none]

theorem selectsGroup_regex {pattern : Option α} :
    SelectsGroup column .regex pattern g ↔
      ∃ p, pattern = some p ∧ ∃ text, some text ∈ g.rows ∧ column.isMatch text p = true := by
  rw [selectsGroup_iff]
  simp only [aggregatedCondition, AggregatedCondition.eval, Truth.boolOr_eq_true_iff, List.mem_map,
    Condition.eval, Truth.compare_eq_some_iff]
  constructor
  · rintro ⟨_, hrow, text, p, rfl, rfl, hmatch⟩
    exact ⟨p, rfl, text, hrow, hmatch⟩
  · rintro ⟨p, rfl, text, hrow, hmatch⟩
    exact ⟨some text, hrow, text, p, rfl, rfl, hmatch⟩

theorem selectsGroup_notRegex {pattern : Option α} :
    SelectsGroup column .notRegex pattern g ↔
      ∃ p, pattern = some p ∧ (∃ text, some text ∈ g.rows) ∧
        ∀ text, some text ∈ g.rows → column.isMatch text p = false := by
  rw [selectsGroup_iff]
  simp only [aggregatedCondition, AggregatedCondition.eval, Truth.boolAnd_eq_true_iff, List.mem_map,
    Condition.eval]
  cases pattern with
  | none => simp [Truth.not]
  | some p =>
      simp only [Option.some.injEq, exists_eq_left']
      have htruth (row : Option α) (b : Bool) :
          (Truth.compare column.isMatch row (some p)).not = some b ↔
            ∃ text, row = some text ∧ column.isMatch text p = !b := by
        cases row <;> cases b <;> simp [Truth.not]
      simp only [htruth]
      constructor
      · rintro ⟨⟨b, _, hrow, text, rfl, -⟩, hfalse⟩
        refine ⟨⟨text, hrow⟩, ?_⟩
        intro text hrow
        by_contra hmatch
        exact hfalse ⟨some text, hrow, text, rfl, by simpa using hmatch⟩
      · rintro ⟨⟨text, hrow⟩, hall⟩
        refine ⟨⟨true, some text, hrow, text, rfl, hall text hrow⟩, ?_⟩
        rintro ⟨_, hrow, text, rfl, hmatch⟩
        rw [hall text hrow] at hmatch
        cases hmatch

/-- An ordering on a group: some row that is not null satisfies it. -/
theorem any_mirror_iff {op : Comparison} {value : Option α} {rows : List (Option α)} :
    (AggregatedCondition.any value op.mirror).eval column rows = some true ↔
      ∃ a, value = some a ∧ ∃ b, some b ∈ rows ∧ op.holds b a = true := by
  simp only [AggregatedCondition.eval, Truth.any_eq_true_iff, List.mem_map,
    Truth.compare_eq_some_iff]
  constructor
  · rintro ⟨_, hrow, a, b, rfl, rfl, hholds⟩
    exact ⟨a, rfl, b, hrow, (Comparison.holds_mirror op b a) ▸ hholds⟩
  · rintro ⟨a, rfl, b, hrow, hholds⟩
    exact ⟨some b, hrow, a, b, rfl, rfl, (Comparison.holds_mirror op b a).symm ▸ hholds⟩

theorem selects_regex {pattern : Option α} :
    Selects column .regex pattern row ↔
      ∃ p, pattern = some p ∧ ∃ text, row = some text ∧ column.isMatch text p = true := by
  rw [selects_iff]
  cases row <;> cases pattern <;> simp [FilterOperator.method, Condition.eval]

theorem selects_notRegex {pattern : Option α} :
    Selects column .notRegex pattern row ↔
      ∃ p, pattern = some p ∧ ∃ text, row = some text ∧ column.isMatch text p = false := by
  rw [selects_iff]
  cases row <;> cases pattern <;> simp [FilterOperator.method, Condition.eval]

theorem selects_isNull {value : Option Bool} :
    Selects column .isNull value row ↔ (value = some true ↔ row = none) := by
  rw [selects_iff]
  by_cases hvalue : value = some true <;> cases row <;>
    simp [FilterOperator.method, Condition.eval, hvalue]

/-! When the conditions are lifted. -/

/-- An operator without a positive one that is no ordering has to agree on single rows. -/
theorem lifts_iff_single {op : FilterOperator} {value : op.Value α}
    (hpositive : op.positive? value = none) (hordering : op.isOrdering = false) :
    Lifts column op value g ↔ ∀ row, g.rows = [row] →
      (∃ condition, op.method column value = .ok condition) ∧
        (SelectsGroup column op value g ↔ Selects column op value row) := by
  constructor
  · intro h row hrow
    obtain ⟨hcondition, hselects⟩ := h.single row hrow
    exact ⟨exists_condition_iff.mp hcondition, hselects⟩
  · intro h
    refine ⟨?_, ?_, ?_⟩
    · intro row hrow
      obtain ⟨hcondition, hselects⟩ := h row hrow
      exact ⟨exists_condition_iff.mpr hcondition, hselects⟩
    · intro _ positive hsome
      rw [hpositive] at hsome
      cases hsome
    · intro _ htrue
      rw [hordering] at htrue
      cases htrue

/-- A negative operator has to agree on single rows, and to be the negation where there are no
nulls. -/
theorem lifts_iff_negative {op : FilterOperator} {value : op.Value α}
    {positive : (op : FilterOperator) × op.Value α} (hpositive : op.positive? value = some positive)
    (hordering : op.isOrdering = false) :
    Lifts column op value g ↔
      (∀ row, g.rows = [row] → (∃ condition, op.method column value = .ok condition) ∧
        (SelectsGroup column op value g ↔ Selects column op value row)) ∧
      (none ∉ g.rows →
        (SelectsGroup column op value g ↔ ¬ SelectsGroup column positive.1 positive.2 g)) := by
  constructor
  · intro h
    refine ⟨?_, fun hnone => h.negative hnone positive hpositive⟩
    intro row hrow
    obtain ⟨hcondition, hselects⟩ := h.single row hrow
    exact ⟨exists_condition_iff.mp hcondition, hselects⟩
  · rintro ⟨hsingle, hnegative⟩
    refine ⟨?_, ?_, ?_⟩
    · intro row hrow
      obtain ⟨hcondition, hselects⟩ := hsingle row hrow
      exact ⟨exists_condition_iff.mpr hcondition, hselects⟩
    · intro hnone positive' hsome
      obtain rfl := Option.some.inj (hpositive.symm.trans hsome)
      exact hnegative hnone
    · intro _ htrue
      rw [hordering] at htrue
      cases htrue

omit [LinearOrder α] in
theorem exists_rows_iff : g.rows.length ≠ 1 ↔ ∀ row, g.rows ≠ [row] := by
  rw [Ne, List.length_eq_one_iff, not_exists]

theorem lifts_eq_iff {value : Option α} :
    Lifts column .eq value g ↔ value ≠ none ∨ g.rows ≠ [none] := by
  rw [lifts_iff_single rfl rfl]
  cases value with
  | none =>
      simp only [ne_eq, not_true_eq_false, false_or]
      constructor
      · intro h hrows
        have hselects := (h none hrows).2
        rw [selectsGroup_eq] at hselects
        exact (hselects.mpr ⟨_, rfl, rfl⟩).1 rfl
      · intro h row hrow
        refine ⟨⟨_, rfl⟩, ?_⟩
        rw [selectsGroup_eq, selects_iff]
        cases row with
        | none => exact absurd hrow h
        | some a => simp [FilterOperator.method, Condition.eval]
  | some a =>
      refine iff_of_true ?_ (Or.inl (Option.some_ne_none _))
      intro row hrow
      refine ⟨⟨_, rfl⟩, ?_⟩
      rw [selectsGroup_eq, selects_eq_some, hrow]
      simp [eq_comm]

theorem lifts_neq_iff {value : Option α} :
    Lifts column .neq value g ↔ value ≠ none ∨ none ∈ g.rows := by
  rw [lifts_iff_negative rfl rfl]
  rw [selectsGroup_neq, selectsGroup_eq]
  cases value with
  | none =>
      simp only [ne_eq, not_true_eq_false, false_and, false_or, not_false_eq_true, iff_true,
        imp_false, not_not]
      refine and_iff_right_of_imp ?_
      intro hnone row hrow
      refine ⟨⟨_, rfl⟩, ?_⟩
      rw [hrow, List.mem_singleton] at hnone
      rw [selects_iff, ← hnone]
      simp [FilterOperator.method, Condition.eval]
  | some a =>
      refine iff_of_true ⟨?_, ?_⟩ (Or.inl (Option.some_ne_none _))
      · intro row hrow
        refine ⟨⟨_, rfl⟩, ?_⟩
        rw [selects_neq_some, hrow]
        simp [eq_comm]
      · intro hnone
        simp [hnone]

theorem lifts_in_iff {values : Option (List (Option α))} :
    Lifts column .in_ values g ↔ values ≠ none ∨ g.rows.length ≠ 1 := by
  rw [lifts_iff_single rfl rfl]
  cases values with
  | none =>
      rw [exists_rows_iff]
      simp [FilterOperator.method]
  | some vs =>
      refine iff_of_true ?_ (Or.inl (Option.some_ne_none _))
      intro row hrow
      refine ⟨⟨_, rfl⟩, ?_⟩
      rw [selectsGroup_in, selects_in_some, hrow]
      cases row <;> simp

theorem lifts_isNull_iff {value : Option Bool} :
    Lifts column .isNull value g ↔ value = some true ∨ g.rows.length ≠ 1 := by
  rw [lifts_iff_single rfl rfl, exists_rows_iff]
  by_cases hvalue : value = some true
  · refine iff_of_true ?_ (Or.inl hvalue)
    intro row hrow
    refine ⟨⟨_, rfl⟩, ?_⟩
    rw [selectsGroup_isNull, selects_isNull, hrow]
    simp [hvalue]
  · rw [or_iff_right hvalue]
    refine forall_congr' fun row => imp_congr_right fun hrow => ?_
    refine iff_of_false ?_ (fun h => h.elim)
    rintro ⟨-, h⟩
    rw [selectsGroup_isNull, selects_isNull, hrow] at h
    simp [hvalue] at h

theorem lifts_regex {pattern : Option α} : Lifts column .regex pattern g := by
  rw [lifts_iff_single rfl rfl]
  intro row hrow
  refine ⟨⟨_, rfl⟩, ?_⟩
  rw [selectsGroup_regex, selects_regex, hrow]
  simp only [List.mem_singleton, @eq_comm _ row]

theorem lifts_notRegex_iff {pattern : Option α} :
    Lifts column .notRegex pattern g ↔ pattern ≠ none ∨ none ∈ g.rows := by
  rw [lifts_iff_negative rfl rfl]
  have hsingle : ∀ row, g.rows = [row] →
      (∃ condition, FilterOperator.notRegex.method column pattern = .ok condition) ∧
        (SelectsGroup column .notRegex pattern g ↔ Selects column .notRegex pattern row) := by
    intro row hrow
    refine ⟨⟨_, rfl⟩, ?_⟩
    rw [selectsGroup_notRegex, selects_notRegex, hrow]
    cases row <;> simp
  rw [and_iff_right hsingle, selectsGroup_notRegex, selectsGroup_regex]
  cases pattern with
  | none => simp
  | some p =>
      refine iff_of_true ?_ (Or.inl (Option.some_ne_none _))
      intro hnone
      obtain ⟨first, hfirst⟩ := List.exists_mem_of_ne_nil _ g.nonempty
      obtain ⟨text, rfl⟩ := Option.ne_none_iff_exists'.mp fun h => hnone (h ▸ hfirst)
      have hsome : ∃ text, some text ∈ g.rows := ⟨text, hfirst⟩
      simp [hsome]

theorem lifts_notIn_iff {values : Option (List (Option α))} :
    Lifts column .notIn values g ↔ LiftsWhen column .notIn values g := by
  rw [lifts_iff_negative rfl rfl, selectsGroup_notIn, selectsGroup_in]
  cases values with
  | none =>
      rw [LiftsWhen, exists_rows_iff, and_comm]
      simp [FilterOperator.method]
  | some vs =>
      have hnegative : none ∉ g.rows →
          ((∃ values, some vs = some values ∧ ¬ ∃ a, some a ∈ g.rows ∧ some a ∈ values) ↔
            ¬ ∃ values, some vs = some values ∧ ∃ a, some a ∈ g.rows ∧ some a ∈ values) := by
        simp
      rw [LiftsWhen, and_iff_left hnegative]
      refine forall_congr' fun row => imp_congr_right fun hrow => ?_
      rw [and_iff_right ⟨_, rfl⟩, selects_notIn_some, hrow]
      cases row with
      | none => simp
      | some a =>
          by_cases hmem : some a ∈ vs
          · simp [hmem, List.ne_nil_of_mem hmem]
          · simp [hmem]

omit [LinearOrder α] in
theorem order_eq_ok_iff {op : Comparison} {bound : Option α} {condition : Condition α} :
    order column op bound = .ok condition ↔
      ∃ a, bound = some a ∧ column.isBool a = false ∧ condition = .compare op (some a) := by
  cases bound with
  | none => simp [order]
  | some a =>
      rw [order]
      cases hbool : column.isBool a with
      | true => simp [hbool]
      | false =>
          simp only [Bool.false_eq_true, if_false, Except.ok.injEq]
          constructor
          · rintro rfl
            exact ⟨a, rfl, hbool, rfl⟩
          · rintro ⟨b, hb, -, rfl⟩
            rw [hb]

/-- The four orderings. -/
theorem lifts_iff_order {op : FilterOperator} {ordering : Comparison} {value : op.Value α}
    {bound : Option α} (hmethod : op.method column value = order column ordering bound)
    (haggregated : aggregatedCondition op value = .any bound ordering.mirror)
    (hpositive : op.positive? value = none) (hordering : op.isOrdering = true) :
    Lifts column op value g ↔ OrderLifts column ordering bound g := by
  have hcondition : (∃ condition, getFilterCondition column op value false = .ok condition) ↔
      ∃ a, bound = some a ∧ column.isBool a = false := by
    rw [exists_condition_iff, hmethod]
    simp [order_eq_ok_iff]
  have hgroup : SelectsGroup column op value g ↔
      ∃ a, bound = some a ∧ ∃ b, some b ∈ g.rows ∧ ordering.holds b a = true := by
    rw [selectsGroup_iff, haggregated, any_mirror_iff]
  have hrow (row : Option α) : Selects column op value row ↔
      ∃ a, bound = some a ∧ column.isBool a = false ∧ ∃ b, row = some b ∧
      ordering.holds b a = true := by
    rw [selects_iff, hmethod]
    simp only [order_eq_ok_iff]
    constructor
    · rintro ⟨condition, ⟨a, rfl, hbool, rfl⟩, heval⟩
      obtain ⟨b, a', rfl, ha, hholds⟩ := Truth.compare_eq_some_iff.mp heval
      obtain rfl := Option.some.inj ha
      exact ⟨a, rfl, hbool, b, rfl, hholds⟩
    · rintro ⟨a, rfl, hbool, b, rfl, hholds⟩
      refine ⟨_, ⟨a, rfl, hbool, rfl⟩, ?_⟩
      rw [Condition.eval, Truth.compare_some, hholds]
  cases bound with
  | none =>
      rw [OrderLifts, exists_rows_iff]
      constructor
      · intro h row hrows
        obtain ⟨a, hnone, -⟩ := hcondition.mp (h.single row hrows).1
        cases hnone
      · intro h
        refine ⟨fun row hrows => absurd hrows (h row), fun _ positive hsome => ?_, fun _ _ => ?_⟩
        · rw [hpositive] at hsome
          cases hsome
        · rw [hgroup]
          simp [hrow]
  | some a =>
      rw [OrderLifts]
      constructor
      · intro h hbool
        rw [exists_rows_iff]
        constructor
        · intro row hrows
          obtain ⟨a', ha, hbool'⟩ := hcondition.mp (h.single row hrows).1
          obtain rfl := Option.some.inj ha
          rw [hbool] at hbool'
          cases hbool'
        · by_cases hnone : none ∈ g.rows
          · exact Or.inl hnone
          · refine Or.inr fun b hb => ?_
            by_contra hholds
            obtain ⟨row, -, hselects⟩ := (h.ordering hnone hordering).mp
              (hgroup.mpr ⟨a, rfl, b, hb, by simpa using hholds⟩)
            obtain ⟨a', ha, hbool', -⟩ := (hrow row).mp hselects
            obtain rfl := Option.some.inj ha
            rw [hbool] at hbool'
            cases hbool'
      · intro h
        refine ⟨?_, fun _ positive hsome => ?_, ?_⟩
        · intro row hrows
          cases hbool : column.isBool a with
          | true =>
              have hlength : g.rows.length = 1 := by rw [hrows, List.length_singleton]
              exact absurd hlength (h hbool).1
          | false =>
              refine ⟨hcondition.mpr ⟨a, rfl, hbool⟩, ?_⟩
              rw [hgroup, hrow, hrows]
              simp only [Option.some.injEq, exists_eq_left', List.mem_singleton, hbool, true_and,
                @eq_comm _ row]
        · rw [hpositive] at hsome
          cases hsome
        · intro hnone _
          rw [hgroup]
          simp only [hrow, Option.some.injEq, exists_eq_left']
          cases hbool : column.isBool a with
          | true =>
              have hfalse := (h hbool).2.resolve_left hnone
              refine iff_of_false ?_ ?_
              · rintro ⟨b, hb, hholds⟩
                rw [hfalse b hb] at hholds
                cases hholds
              · rintro ⟨row, -, h, -⟩
                cases h
          | false =>
              constructor
              · rintro ⟨b, hb, hholds⟩
                exact ⟨some b, hb, rfl, b, rfl, hholds⟩
              · rintro ⟨_, hb, -, b, rfl, hholds⟩
                exact ⟨b, hb, hholds⟩

/-- The aggregated condition lifts the one on rows exactly when no null, no boolean that is to be
ordered, and no `is_null: false` is in the way. -/
theorem lifts_iff (column : Column α) (op : FilterOperator) (value : op.Value α) (g : Group α) :
    Lifts column op value g ↔ LiftsWhen column op value g := by
  cases op with
  | eq => exact lifts_eq_iff
  | neq => exact lifts_neq_iff
  | gt => exact lifts_iff_order rfl rfl rfl rfl
  | lt => exact lifts_iff_order rfl rfl rfl rfl
  | gte => exact lifts_iff_order rfl rfl rfl rfl
  | lte => exact lifts_iff_order rfl rfl rfl rfl
  | in_ => exact lifts_in_iff
  | notIn => exact lifts_notIn_iff
  | isNull => exact lifts_isNull_iff
  | regex => exact iff_of_true lifts_regex trivial
  | notRegex => exact lifts_notRegex_iff

/-- `is_null: false` on a group of one row that is not null. -/
theorem isNull_not_lifts :
    ¬ ∀ (column : Column Int) (op : FilterOperator) (value : op.Value Int) (g : Group Int),
    Lifts column op value g := by
  intro h
  have hselects :=
    ((h ⟨fun _ => false, fun _ _ => false⟩ .isNull (some false) ⟨[some 1], by simp⟩).single
    (some 1) rfl).2
  rw [selectsGroup_isNull, selects_isNull] at hselects
  exact absurd hselects (by decide)

end Meaning

end Graveboards.Search.Operators
