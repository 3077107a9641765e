import Graveboards.Engine.World
import Graveboards.Paging.Walk
import Graveboards.Search.Filters

/-!
The sorting of a search. Each option is joined as a table of ranked rows, of
which `DISTINCT ON` keeps any one for each root, and asks for the row with rank
one. A root stays if the row that is kept has that rank; it is then sorted by the
first of its values in the order of the option. A root without related rows is
not found any more.
-/

namespace Graveboards.Engine

open Std
open Library Library.Relational Library.Selection Search

variable {α : Type} [LinearOrder α]

/-- `SortingOrder.sort_func` -/
def sortFunc : SortingOrder → Option α → Option α → Ordering
  | .ascending => ascending
  | .descending => descending

instance (order : SortingOrder) : TransCmp (sortFunc (α := α) order) := by
  cases order with
  | ascending => exact inferInstanceAs (TransCmp ascending)
  | descending => exact inferInstanceAs (TransCmp descending)

variable (α) in
/-- Which rows the database takes where the statement leaves it open. -/
structure Plan where
  /-- `DISTINCT ON` of the filters. -/
  picked : ModelField → Choice (Option α)
  /-- `ROW_NUMBER` of the sorting options, among equals. -/
  numbered : ModelField → (order : SortingOrder) → Numbering fun a b : Option α =>
      (sortFunc order a b).isLE = true
  /-- `DISTINCT ON` of the sorting options. -/
  kept : ModelField → SortingOrder → Choice (Option α × Nat)

namespace Plan

/-- The row that is numbered one is kept. -/
def KeepsFirst (plan : Plan α) : Prop := ∀ field order, (plan.kept field order).KeepsFirst

end Plan

section Factories

variable (plan : Plan α) (w : World α) (scope : Scope) (field : ModelField) (order : SortingOrder)

/-- `SELECT DISTINCT ON (id) id, target, row_number() AS rank` -/
def rankedCte (rows : Joins Int) : Joins (Columns α) :=
  let targets := rows.map fun x => (x.1, w.value field x.2)
  (distinctOn (plan.kept field order) (rowNumber (plan.numbered field order) targets)).map fun x =>
    (x.1, .ranked x.2.1 x.2.2)

def profileSortingCteFactory : Joins (Columns α) :=
  rankedCte plan w field order (w.sortingRows scope .profile)

def bmSsSortingCteFactory : Joins (Columns α) :=
  rankedCte plan w field order (w.sortingRows scope .beatmap)

def bmsSsSortingCteFactory : Joins (Columns α) :=
  rankedCte plan w field order (w.sortingRows scope .beatmapset)

def queueSortingCteFactory : Joins (Columns α) :=
  rankedCte plan w field order (w.sortingRows scope .queue)

def requestSortingCteFactory : Joins (Columns α) :=
  rankedCte plan w field order (w.sortingRows scope .request)

end Factories

section Options

variable (plan : Plan α) (w : World α) (scope : Scope)

/-- `apply_sorting_option`, with the clause of `apply_sorting_cte`. -/
def applySortingOption (option : SortingOption) : Except EngineError (Joined Int (Columns α)) :=
  match option.order with
  | none => .error .attributeError
  | some order =>
      let cte := match option.field.row.category with
        | .profile => profileSortingCteFactory plan w scope option.field order
        | .beatmap => bmSsSortingCteFactory plan w scope option.field order
        | .beatmapset => bmsSsSortingCteFactory plan w scope option.field order
        | .queue => queueSortingCteFactory plan w scope option.field order
        | .request => requestSortingCteFactory plan w scope option.field order
      .ok ⟨cte, [fun _ columns => some (decide (columns.rank = 1))]⟩

variable {plan w scope}

/-- The values of a field that a root can be sorted by. -/
def sortValues (w : World α) (scope : Scope) (field : ModelField) (root : Int) : List (Option α) :=
  (group (w.sortingRows scope field.row.category) root).map (w.value field)

/-- The row that `DISTINCT ON` keeps of a root has rank one. -/
def Kept (plan : Plan α) (w : World α) (scope : Scope) (field : ModelField) (order : SortingOrder)
    (root : Int) : Prop :=
  ∃ a, (plan.kept field order).pick
    (((plan.numbered field order).arrange (sortValues w scope field root)).zipIdx 1) = some (a, 1)

/-- The first of the values in the order. -/
def Best (order : SortingOrder) (values : List (Option α)) (a : Option α) : Prop :=
  a ∈ values ∧ ∀ b ∈ values, (sortFunc order a b).isLE = true

/-- The table of an option has one row of a root at most. -/
theorem applySortingOption_rows {option : SortingOption} {table : Joined Int (Columns α)}
    (h : applySortingOption plan w scope option = .ok table) :
    ∃ order, option.order = some order ∧
    table.clauses = [fun _ columns => some (decide (columns.rank = 1))] ∧
      ∀ root, group table.rows root = ((plan.kept option.field order).pick
        (((plan.numbered option.field order).arrange (sortValues w scope option.field root)).zipIdx
          1)).toList.map
          fun x => .ranked x.1 x.2 := by
  rw [applySortingOption] at h
  cases horder : option.order with
  | none =>
      rw [horder] at h
      cases h
  | some order =>
      rw [horder] at h
      obtain rfl := Except.ok.inj h
      refine ⟨order, rfl, rfl, fun root => ?_⟩
      have hranked :
          group (rankedCte plan w option.field order
            (w.sortingRows scope option.field.row.category)) root =
          ((plan.kept option.field order).pick
            (((plan.numbered option.field order).arrange
              (sortValues w scope option.field root)).zipIdx 1)).toList.map
              fun x => .ranked x.1 x.2 := by
        have hmap := group_map (distinctOn (plan.kept option.field order)
          (rowNumber (plan.numbered option.field order)
            ((w.sortingRows scope option.field.row.category).map fun x =>
              (x.1, w.value option.field x.2))))
          (fun x => Columns.ranked x.1 x.2) root
        rw [rankedCte, hmap, group_distinctOn, group_rowNumber, group_map]
        rfl
      rw [← hranked]
      cases hcategory : option.field.row.category <;> rfl

omit [LinearOrder α] in
theorem passes_ranked {table : Joined Int (Columns α)} {root : Int} {a : Option α} {rank : Nat}
    (hclauses : table.clauses = [fun _ columns => some (decide (columns.rank = 1))]) :
    table.passes root (.ranked a rank) = true ↔ rank = 1 := by
  rw [Joined.passes, hclauses, List.all_cons, List.all_nil, Bool.and_true, decide_eq_true_eq,
    Option.some.injEq, decide_eq_true_eq]
  rfl

theorem countP_applySortingOption {option : SortingOption} {table : Joined Int (Columns α)}
    (h : applySortingOption plan w scope option = .ok table) (root : Int) :
    (group table.rows root).countP (table.passes root) ≤ 1 := by
  obtain ⟨order, -, -, hrows⟩ := applySortingOption_rows h
  refine Nat.le_trans List.countP_le_length ?_
  rw [hrows, List.length_map, Option.length_toList]
  split
  · exact Nat.le_refl 1
  · exact Nat.zero_le 1

/-- A root passes if the kept row has rank one. -/
theorem exists_applySortingOption {option : SortingOption} {table : Joined Int (Columns α)}
    (h : applySortingOption plan w scope option = .ok table) (root : Int) :
    (∃ columns, (root, columns) ∈ table.rows ∧ table.passes root columns = true) ↔
      ∀ order ∈ option.order, Kept plan w scope option.field order root := by
  obtain ⟨order, horder, hclauses, hrows⟩ := applySortingOption_rows h
  simp only [horder, Option.mem_def, Option.some.injEq, forall_eq', Kept, ← mem_group,
    hrows, List.mem_map, Option.mem_toList, Prod.exists]
  constructor
  · rintro ⟨_, ⟨a, rank, hpick, rfl⟩, hrank⟩
    obtain rfl := (passes_ranked hclauses).mp hrank
    exact ⟨a, hpick⟩
  · rintro ⟨a, hpick⟩
    exact ⟨_, ⟨a, 1, hpick, rfl⟩, (passes_ranked hclauses).mpr rfl⟩

/-- The column to sort by holds the first value of the root. -/
theorem best_of_passes {option : SortingOption} {order : SortingOrder}
    {table : Joined Int (Columns α)} (h : applySortingOption plan w scope option = .ok table)
    (horder : option.order = some order) {root : Int} {columns : Columns α}
    (hrow : (root, columns) ∈ table.rows) (hpasses : table.passes root columns = true) :
    Best order (sortValues w scope option.field root) columns.value := by
  obtain ⟨order', horder', hclauses, hrows⟩ := applySortingOption_rows h
  obtain rfl := Option.some.inj (horder.symm.trans horder')
  rw [← mem_group, hrows, List.mem_map] at hrow
  obtain ⟨⟨a, rank⟩, hpick, rfl⟩ := hrow
  obtain rfl := (passes_ranked hclauses).mp hpasses
  have hmem := (plan.kept option.field order).mem_of_pick (Option.mem_toList.mp hpick)
  exact le_of_number_one _ (fun a => ReflCmp.isLE_rfl) hmem

theorem sortValues_ne_nil {field : ModelField} {order : SortingOrder} {root : Int}
    (h : Kept plan w scope field order root) : sortValues w scope field root ≠ [] := by
  obtain ⟨a, hpick⟩ := h
  have hmem :=
    (le_of_number_one _ (fun a => ReflCmp.isLE_rfl) ((plan.kept field order).mem_of_pick hpick)).1
  exact List.ne_nil_of_mem hmem

theorem kept_iff (hplan : plan.KeepsFirst) {field : ModelField}
    {order : SortingOrder} {root : Int} :
    Kept plan w scope field order root ↔ sortValues w scope field root ≠ [] := by
  refine ⟨sortValues_ne_nil, fun hne => ?_⟩
  have hperm := (plan.numbered field order).perm (sortValues w scope field root)
  rw [Kept]
  cases harrange : (plan.numbered field order).arrange (sortValues w scope field root) with
  | nil =>
      rw [harrange] at hperm
      exact absurd (List.nil_perm.mp hperm) hne
  | cons a rest => exact ⟨a, hplan field order a rest⟩

end Options

end Graveboards.Engine
