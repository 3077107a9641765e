import Graveboards.Engine.World
import Graveboards.Library.Pages

/-!
The filters of a search. Each filtered field is joined as a table on the id of
the root and its conditions go to the WHERE clause, or, where the rows of a
root are grouped, to the HAVING clause of the table. What a table holds of a
root differs by category: a row for each joined row, one row that stands for
all of them, or one of them that the database picks.
-/

namespace Graveboards.Engine

open Library Library.Relational Library.Selection Search Search.Operators

variable {α : Type}

/-- The items of `conditions.model_dump(exclude_unset=True, by_alias=True)`. -/
abbrev FieldConditions (α : Type) := List ((op : FilterOperator) × op.Value α)

/-- A field with its conditions. -/
structure FieldFilter (α : Type) where
  field : ModelField
  conditions : FieldConditions α

section Factories

variable (w : World α) (scope : Scope) (field : ModelField)

/-- The values of the field in the rows that a root leads to. -/
def filterTargets : Joins (Option α) :=
  (w.filteringRows scope field.row.category).map fun x => (x.1, w.value field x.2)

/-- `SELECT id, target` -/
def projected (targets : Joins (Option α)) : Joins (Columns α) :=
  targets.map fun x => (x.1, .target x.2)

def profileFilteringCteFactory : Joins (Columns α) := projected (filterTargets w scope field)

/-- For a parent scope the conditions are those of the HAVING clause. -/
def bmSsFilteringCteFactory (having : Option (List (List (Option α) → Truth))) :
    Joins (Columns α) :=
  match having with
  | none => projected (filterTargets w scope field)
  | some conditions =>
      ((groupBy (filterTargets w scope field) id).filter fun row =>
        conditions.all fun condition => condition row.2 = some true).map fun row =>
          (row.1, .array row.2)

def bmsSsFilteringCteFactory : Joins (Columns α) := projected (filterTargets w scope field)

def queueFilteringCteFactory (choice : Choice (Option α)) : Joins (Columns α) :=
  projected (distinctOn choice (filterTargets w scope field))

def requestFilteringCteFactory (choice : Choice (Option α)) : Joins (Columns α) :=
  if scope = .requests then projected (filterTargets w scope field)
  else projected (distinctOn choice (filterTargets w scope field))

end Factories

section Apply

variable [LinearOrder α] (column : Column α) (w : World α) (choice : ModelField → Choice (Option α))
  (scope : Scope) (filter : FieldFilter α)

/-- A clause on the columns of a joined table. -/
def clauseHolds : Condition α ⊕ AggregatedCondition α → Columns α → Truth
  | .inl condition, columns => condition.eval column columns.value
  | .inr condition, columns => condition.eval column columns.targets

omit [LinearOrder α] in
/-- `clause_generator` -/
def clauseGenerator (isAggregated : Bool) :
    Except ArgumentError (List (Condition α ⊕ AggregatedCondition α)) :=
  filter.conditions.mapM fun x => getFilterCondition column x.1 x.2 isAggregated

/-- `apply_filter_conditions` for one field. -/
def applyFilterConditions : Except ArgumentError (Joined Int (Columns α)) := do
  let onTable (clauses : List (Condition α ⊕ AggregatedCondition α)) :=
    clauses.map fun clause (_ : Int) columns => clauseHolds column clause columns
  match filter.field.row.category with
  | .profile =>
      return ⟨profileFilteringCteFactory w scope filter.field,
        onTable (← clauseGenerator column filter false)⟩
  | .beatmap =>
      if scope = .beatmaps then
        let clauses ← clauseGenerator column filter false
        -- the target is the column of the root, not that of the table
        return ⟨bmSsFilteringCteFactory w scope filter.field none,
          clauses.map fun clause root _ =>
            clauseHolds column clause (.target (w.value filter.field root))⟩
      else
        let clauses ← clauseGenerator column filter true
        return ⟨bmSsFilteringCteFactory w scope filter.field
          (some (clauses.map fun clause targets => clauseHolds column clause (.array targets))), []⟩
  | .beatmapset =>
      return ⟨bmsSsFilteringCteFactory w scope filter.field,
        onTable (← clauseGenerator column filter false)⟩
  | .queue =>
      return ⟨queueFilteringCteFactory w scope filter.field (choice filter.field),
        onTable (← clauseGenerator column filter false)⟩
  | .request =>
      return ⟨requestFilteringCteFactory w scope filter.field (choice filter.field),
        onTable (← clauseGenerator column filter false)⟩

/-! What a filter asks of a root. -/

instance (op : FilterOperator) (value : op.Value α) (row : Option α) :
    Decidable (Selects column op value row) :=
  match h : op.method column value with
  | .ok condition =>
      decidable_of_iff (condition.eval column row = some true) (by simp [selects_iff, h])
  | .error _ => .isFalse (by simp [selects_iff, h])

instance (op : FilterOperator) (value : op.Value α) (g : Operators.Group α) :
    Decidable (SelectsGroup column op value g) :=
  decidable_of_iff _ selectsGroup_iff.symm

/-- The value meets all conditions of the field. -/
def Meets (value : Option α) : Prop := ∀ x ∈ filter.conditions, Selects column x.1 x.2 value

/-- The group meets all conditions of the field. -/
def MeetsGrouped (g : Operators.Group α) : Prop :=
  ∀ x ∈ filter.conditions, SelectsGroup column x.1 x.2 g

instance (value : Option α) : Decidable (Meets column filter value) :=
  inferInstanceAs (Decidable (∀ x ∈ filter.conditions, Selects column x.1 x.2 value))

instance (g : Operators.Group α) : Decidable (MeetsGrouped column filter g) :=
  inferInstanceAs (Decidable (∀ x ∈ filter.conditions, SelectsGroup column x.1 x.2 g))

/-- How a category is filtered in a scope. -/
inductive Mode where
  | each
  | grouped
  | picked
  deriving DecidableEq

def mode : Scope → SearchableFieldCategory → Mode
  | .beatmaps, .beatmap => .each
  | _, .beatmap => .grouped
  | .requests, .request => .each
  | _, .queue | _, .request => .picked
  | _, _ => .each

/-- The values of the field that a root leads to. -/
def valuesOf (root : Int) : List (Option α) := group (filterTargets w scope filter.field) root

/-- A root passes a filter if one of its values meets the conditions, or its values
together, or the value that is picked. -/
def Passes (root : Int) : Prop :=
  match mode scope filter.field.row.category with
  | .each => ∃ value ∈ valuesOf w scope filter root, Meets column filter value
  | .grouped =>
      ∃ g : Operators.Group α, g.rows = valuesOf w scope filter root ∧ MeetsGrouped column filter g
  | .picked => ∃ value, (choice filter.field).pick (valuesOf w scope filter root) = some value ∧
      Meets column filter value

/-- How often it does. -/
def passings (root : Int) : Nat :=
  match mode scope filter.field.row.category with
  | .each => (valuesOf w scope filter root).countP fun value => Meets column filter value
  | .grouped =>
      if h : valuesOf w scope filter root = [] then 0
      else if MeetsGrouped column filter ⟨valuesOf w scope filter root, h⟩ then 1 else 0
  | .picked =>
      ((choice filter.field).pick (valuesOf w scope filter root)).toList.countP fun value =>
      Meets column filter value

variable {column w choice scope filter}

/-- The clauses of a field hold of a value that meets its conditions. -/
theorem clauses_hold_iff {clauses : List (Condition α ⊕ AggregatedCondition α)}
    (h : clauseGenerator column filter false = .ok clauses) (columns : Columns α) :
    (clauses.all fun clause => clauseHolds column clause columns = some true) = true ↔
      Meets column filter columns.value := by
  rw [Meets, List.all_eq_true]
  have hforall := Pages.mapM_eq_ok_iff.mp h
  clear h
  generalize filter.conditions = conditions at hforall ⊢
  induction hforall with
  | nil => simp
  | @cons x clause rest clauses hclause _ ih =>
      rw [List.forall_mem_cons, List.forall_mem_cons, decide_eq_true_eq]
      refine and_congr ?_ ih
      have hsel : Selects column x.1 x.2 columns.value ↔ ∃ condition,
          getFilterCondition column x.1 x.2 false = .ok (.inl condition) ∧
            condition.eval column columns.value = some true := Iff.rfl
      rw [hsel, hclause]
      cases clause with
      | inl condition => simp [clauseHolds]
      | inr condition =>
          rw [getFilterCondition, if_neg Bool.false_ne_true] at hclause
          cases hmethod : x.1.method column x.2 with
          | ok condition' => rw [hmethod] at hclause; cases hclause
          | error e => rw [hmethod] at hclause; cases hclause

/-- The clauses of a HAVING hold of a group that meets the conditions. -/
theorem having_holds_iff {clauses : List (Condition α ⊕ AggregatedCondition α)}
    (h : clauseGenerator column filter true = .ok clauses) (g : Operators.Group α) :
    (clauses.all fun clause => clauseHolds column clause (.array g.rows) = some true) = true ↔
      MeetsGrouped column filter g := by
  rw [MeetsGrouped, List.all_eq_true]
  have hforall := Pages.mapM_eq_ok_iff.mp h
  clear h
  generalize filter.conditions = conditions at hforall ⊢
  induction hforall with
  | nil => simp
  | @cons x clause rest clauses hclause _ ih =>
      rw [List.forall_mem_cons, List.forall_mem_cons, decide_eq_true_eq]
      refine and_congr ?_ ih
      obtain rfl : .inr (aggregatedCondition x.1 x.2) = clause := by
        rw [getFilterCondition, if_pos rfl] at hclause
        exact Except.ok.inj hclause
      rw [selectsGroup_iff]
      rfl

/-- Rows of a projected table that pass the clauses. -/
theorem countP_projected {targets : Joins (Option α)} {table : Joined Int (Columns α)}
    (h : (do
      let clauses ← clauseGenerator column filter false
      return ⟨projected targets, clauses.map fun clause (_ : Int) columns =>
        clauseHolds column clause columns⟩) =
        Except.ok table) (root : Int) :
    (group table.rows root).countP (table.passes root) =
      (group targets root).countP fun value => Meets column filter value := by
  cases hgenerator : clauseGenerator column filter false with
  | error e =>
      rw [hgenerator] at h
      cases h
  | ok clauses =>
      rw [hgenerator] at h
      obtain rfl := Except.ok.inj h
      rw [projected, group_map, List.countP_map]
      refine List.countP_congr (fun value _ => ?_)
      rw [Function.comp_apply, Joined.passes, List.all_map, decide_eq_true_eq]
      exact clauses_hold_iff hgenerator (.target value)

omit [LinearOrder α] in
/-- The value that a root of the beatmaps scope leads to is its own. -/
theorem valuesOf_beatmap (hcategory : filter.field.row.category = .beatmap) (root : Int) :
    ∀ value ∈ valuesOf w .beatmaps filter root, value = w.value filter.field root := by
  intro value hvalue
  rw [valuesOf, mem_group, filterTargets, hcategory, List.mem_map] at hvalue
  obtain ⟨⟨root', id⟩, hrow, h⟩ := hvalue
  obtain ⟨rfl, rfl⟩ := Prod.mk.inj h
  rw [((w.mem_roots).mp hrow).1]

/-- A root has one row for all of its values, if it has values and they pass. -/
theorem countP_having {clauses : List (Condition α ⊕ AggregatedCondition α)}
    (h : clauseGenerator column filter true = .ok clauses) (root : Int) :
    let rows := bmSsFilteringCteFactory w scope filter.field
      (some (clauses.map fun clause values => clauseHolds column clause (.array values)))
    (group rows root).countP (Joined.passes ⟨rows, []⟩ root) =
      if h : valuesOf w scope filter root = [] then 0
      else if MeetsGrouped column filter ⟨valuesOf w scope filter root, h⟩ then 1 else 0 := by
  intro rows
  have hrows :
      group rows root = ((group (groupBy (filterTargets w scope filter.field) id) root).filter
      fun values => clauses.all fun clause =>
        clauseHolds column clause (.array values) = some true).map
        .array := by
    rw [← group_filter, ← group_map]
    simp only [rows, bmSsFilteringCteFactory, List.all_map, Function.comp_def]
  have hpasses : Joined.passes ⟨rows, []⟩ root = fun _ => true := rfl
  rw [hrows, hpasses, List.countP_true, List.length_map, group_groupBy, ← valuesOf]
  by_cases hnil : valuesOf w scope filter root = []
  · rw [if_pos hnil, dif_pos hnil, List.filter_nil, List.length_nil]
  · have hholds := having_holds_iff h ⟨valuesOf w scope filter root, hnil⟩
    rw [if_neg hnil, dif_neg hnil, id_eq, ← List.countP_eq_length_filter, List.countP_singleton]
    exact if_congr hholds rfl rfl

/-- A root has as many passing rows in the table of a filter. -/
theorem countP_applyFilterConditions {table : Joined Int (Columns α)}
    (h : applyFilterConditions column w choice scope filter = .ok table) (root : Int) :
    (group table.rows root).countP (table.passes root) =
      passings column w choice scope filter root := by
  rw [applyFilterConditions] at h
  cases hcategory : filter.field.row.category with
  | profile =>
      have hmode : mode scope filter.field.row.category = .each := by
        rw [hcategory]
        cases scope <;> rfl
      simp only [hcategory] at h
      simp only [passings, hmode]
      exact countP_projected h root
  | beatmap =>
      simp only [hcategory] at h
      by_cases hscope : scope = .beatmaps
      · subst hscope
        rw [if_pos rfl] at h
        cases hgenerator : clauseGenerator column filter false with
        | error e =>
            rw [hgenerator] at h
            cases h
        | ok clauses =>
            rw [hgenerator] at h
            obtain rfl := Except.ok.inj h
            simp only [passings, hcategory, mode, bmSsFilteringCteFactory, projected]
            rw [group_map, List.countP_map]
            refine List.countP_congr (fun value hvalue => ?_)
            rw [Function.comp_apply, Joined.passes, List.all_map, decide_eq_true_eq,
              valuesOf_beatmap hcategory root value hvalue]
            exact clauses_hold_iff hgenerator (.target (w.value filter.field root))
      · rw [if_neg hscope] at h
        have hmode : mode scope filter.field.row.category = .grouped := by
          rw [hcategory]
          cases scope with
          | beatmaps => exact absurd rfl hscope
          | _ => rfl
        cases hgenerator : clauseGenerator column filter true with
        | error e =>
            rw [hgenerator] at h
            cases h
        | ok clauses =>
            rw [hgenerator] at h
            obtain rfl := Except.ok.inj h
            simp only [passings, hmode]
            exact countP_having hgenerator root
  | beatmapset =>
      have hmode : mode scope filter.field.row.category = .each := by
        rw [hcategory]
        cases scope <;> rfl
      simp only [hcategory] at h
      simp only [passings, hmode]
      exact countP_projected h root
  | queue =>
      have hmode : mode scope filter.field.row.category = .picked := by
        rw [hcategory]
        cases scope <;> rfl
      simp only [hcategory, queueFilteringCteFactory] at h
      simp only [passings, hmode]
      rw [countP_projected h root, group_distinctOn]
      rfl
  | request =>
      simp only [hcategory, requestFilteringCteFactory] at h
      by_cases hscope : scope = .requests
      · subst hscope
        rw [if_pos rfl] at h
        simp only [passings, hcategory, mode]
        exact countP_projected h root
      · have hmode : mode scope filter.field.row.category = .picked := by
          rw [hcategory]
          cases scope with
          | requests => exact absurd rfl hscope
          | _ => rfl
        rw [if_neg hscope] at h
        simp only [passings, hmode]
        rw [countP_projected h root, group_distinctOn]
        rfl

theorem passes_iff {root : Int} :
    Passes column w choice scope filter root ↔ 0 < passings column w choice scope filter root := by
  rw [Passes, passings]
  cases mode scope filter.field.row.category with
  | each => simp [List.countP_pos_iff]
  | grouped =>
      simp only
      constructor
      · rintro ⟨⟨rows, hne⟩, rfl, hmeets⟩
        rw [dif_neg hne, if_pos hmeets]
        exact Nat.one_pos
      · intro h
        split at h
        case isTrue => exact absurd h (Nat.lt_irrefl 0)
        case isFalse hne =>
            split at h
            case isTrue hmeets => exact ⟨_, rfl, hmeets⟩
            case isFalse => exact absurd h (Nat.lt_irrefl 0)
  | picked => simp [List.countP_pos_iff]

/-- The filters that find a root once for each of several rows that it leads to. -/
def Repeats (scope : Scope) (category : SearchableFieldCategory) : Prop :=
  (scope, category) = (.beatmaps, .profile) ∨ (scope, category) = (.beatmaps, .beatmapset) ∨
    (scope, category) = (.queues, .beatmapset)

omit [LinearOrder α] in
/-- The others lead to one row at most, where they do not take rows together. -/
theorem length_group_filteringRows_le (hw : w.Constrained) {category : SearchableFieldCategory}
    (hmode : mode scope category = .each) (hrepeats : ¬ Repeats scope category) (root : Int) :
    (group (w.filteringRows scope category) root).length ≤ 1 := by
  have hprofile (rows : Joins Int) (user : Int → Int) (hrows : (group rows root).length ≤ 1) :
      (group (w.userProfile rows user) root).length ≤ 1 := by
    refine Joins.length_group_follow_le hrows
      (fun b => World.length_filter_le (w.nodup_ids .profile) ?_)
    intro p hp p' hp' h h'
    exact hw.profiles p hp p' hp' ((of_decide_eq_true h).trans (of_decide_eq_true h').symm)
  have hroots (category : SearchableFieldCategory) := w.length_group_roots_le category root
  cases scope with
  | beatmaps =>
      cases category with
      | profile => exact absurd (.inl rfl) hrepeats
      | beatmap => exact hroots .beatmap
      | beatmapset => exact absurd (.inr (.inl rfl)) hrepeats
      | queue => cases hmode
      | request => cases hmode
  | beatmapsets =>
      cases category with
      | profile => exact hprofile _ _ (hroots .beatmapset)
      | beatmapset => exact hroots .beatmapset
      | _ => cases hmode
  | scores => exact Nat.zero_le 1
  | queues =>
      cases category with
      | profile => exact hprofile _ _ (hroots .queue)
      | beatmapset => exact absurd (.inr (.inr rfl)) hrepeats
      | _ => cases hmode
  | requests =>
      cases category with
      | profile => exact hprofile _ _ (hroots .request)
      | beatmapset =>
          rw [World.filteringRows, World.snapshotOfRequests]
          refine Joins.length_group_follow_le (hroots .request)
            (fun r => World.length_filter_le (w.nodup_ids .beatmapset) ?_)
          intro s _ s' _ h h'
          exact (of_decide_eq_true h).trans (of_decide_eq_true h').symm
      | request => exact hroots .request
      | _ => cases hmode

theorem passings_le_one (hw : w.Constrained) (hrepeats : ¬ Repeats scope filter.field.row.category)
    (root : Int) : passings column w choice scope filter root ≤ 1 := by
  rw [passings]
  cases hmode : mode scope filter.field.row.category with
  | each =>
      refine Nat.le_trans List.countP_le_length ?_
      rw [valuesOf, filterTargets, group_map, List.length_map]
      exact length_group_filteringRows_le hw hmode hrepeats root
  | grouped =>
      simp only
      split
      · exact Nat.zero_le 1
      · split
        · exact Nat.le_refl 1
        · exact Nat.zero_le 1
  | picked =>
      refine Nat.le_trans List.countP_le_length ?_
      cases (choice filter.field).pick (valuesOf w scope filter root) with
      | none => exact Nat.zero_le 1
      | some value => exact Nat.le_refl 1

end Apply

end Graveboards.Engine
