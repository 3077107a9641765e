import Mathlib.Algebra.BigOperators.Group.List.Basic
import Mathlib.Data.List.Sort
import Mathlib.Order.Compare
import Mathlib.Order.WithBot
import Graveboards.Library.Relational
import Graveboards.Library.ThreeValued

/-!
Selecting from roots joined with tables on the id of the root. A root is found
once for each way of taking a row that passes from every table, so how often it
is found is a product over the tables. `DISTINCT ON` without an order keeps any
row of an id, and `ROW_NUMBER` counts the rows of an id in any order that its
clause allows; both choices are parameters.
-/

namespace Graveboards.Library.Selection

open Relational

variable {κ α V : Type}

/-- A table joined on the id of the root, and the clauses on its columns. -/
structure Joined (κ V : Type) where
  rows : List (κ × V)
  clauses : List (κ → V → Truth)

def Joined.passes (table : Joined κ V) (key : κ) (columns : V) : Bool :=
  table.clauses.all fun clause => clause key columns = some true

section Select

variable [DecidableEq κ]

/-- `JOIN table ON table.id = root.id`; its columns stand last. -/
def joinOn (rows : List (κ × List V)) (table : List (κ × V)) : List (κ × List V) :=
  (join rows table fun row other => other.1 = row.1).map fun x => (x.1.1, x.1.2 ++ [x.2.2])

/-- `FROM base JOIN … WHERE …` -/
def select (base : List κ) (tables : List (Joined κ V)) : List (κ × List V) :=
  ((tables.map Joined.rows).foldl joinOn (base.map fun key => (key, []))).filter fun row =>
    (tables.zip row.2).all fun x => x.1.passes row.1 x.2

/-- The columns that a root is found with: in each table those of a row that passes. -/
def found (key : κ) : List (Joined κ V) → List (List V)
  | [] => [[]]
  | table :: rest =>
      ((group table.rows key).filter (table.passes key)).flatMap fun columns =>
        (found key rest).map (columns :: ·)

/-- And before the clauses are applied. -/
def combined (key : κ) : List (List (κ × V)) → List (List V)
  | [] => [[]]
  | table :: rest =>
      (group table key).flatMap fun columns => (combined key rest).map (columns :: ·)

theorem joinOn_eq (rows : List (κ × List V)) (table : List (κ × V)) :
    joinOn rows table = rows.flatMap fun row =>
      (group table row.1).map fun columns => (row.1, row.2 ++ [columns]) := by
  rw [joinOn, join, List.map_flatMap]
  refine List.flatMap_congr (fun row _ => ?_)
  rw [group, List.map_map, List.map_map]
  rfl

theorem foldl_joinOn (tables : List (List (κ × V))) (rows : List (κ × List V)) :
    tables.foldl joinOn rows = rows.flatMap fun row =>
      (combined row.1 tables).map fun columns => (row.1, row.2 ++ columns) := by
  induction tables generalizing rows with
  | nil =>
      simp [combined]
  | cons table rest ih =>
      rw [List.foldl_cons, ih, joinOn_eq, List.flatMap_assoc]
      refine List.flatMap_congr (fun row _ => ?_)
      rw [combined, List.map_flatMap, List.flatMap_map]
      refine List.flatMap_congr (fun columns _ => ?_)
      rw [List.map_map]
      exact List.map_congr_left (fun others _ => by simp)

theorem filter_combined (key : κ) (tables : List (Joined κ V)) :
    ((combined key (tables.map Joined.rows)).filter fun columns =>
      (tables.zip columns).all fun x => x.1.passes key x.2) = found key tables := by
  induction tables with
  | nil => rfl
  | cons table rest ih =>
      rw [List.map_cons, combined, found, List.filter_flatMap, ← ih]
      induction group table.rows key with
      | nil => rfl
      | cons columns others ihothers =>
          rw [List.flatMap_cons, ihothers, List.filter_cons]
          have hfirst :
              ((combined key (rest.map Joined.rows)).map (columns :: ·)).filter (fun columns =>
              ((table :: rest).zip columns).all fun x => x.1.passes key x.2) =
              if table.passes key columns then
                ((combined key (rest.map Joined.rows)).filter fun columns =>
                  (rest.zip columns).all fun x => x.1.passes key x.2).map (columns :: ·)
              else [] := by
            rw [List.filter_map]
            cases hpasses : table.passes key columns <;> simp [Function.comp_def, hpasses]
          rw [hfirst]
          split
          · rw [List.flatMap_cons]
          · rfl

/-- A root is found with any combination of passing rows, in the order of the roots. -/
theorem select_eq (base : List κ) (tables : List (Joined κ V)) :
    select base tables = base.flatMap fun key => (found key tables).map fun columns =>
      (key, columns) := by
  rw [select, foldl_joinOn, List.flatMap_map, List.filter_flatMap]
  refine List.flatMap_congr (fun key _ => ?_)
  rw [List.filter_map, ← filter_combined key tables]
  rfl

theorem length_found (key : κ) (tables : List (Joined κ V)) :
    (found key tables).length =
      (tables.map fun table => (group table.rows key).countP (table.passes key)).prod := by
  induction tables with
  | nil => rfl
  | cons table rest ih =>
      rw [found, List.length_flatMap, List.map_cons, List.prod_cons,
        List.countP_eq_length_filter, ← ih]
      simp [List.map_const']

theorem map_fst_select (base : List κ) (tables : List (Joined κ V)) :
    (select base tables).map Prod.fst =
      base.flatMap fun key => List.replicate (found key tables).length key := by
  rw [select_eq, List.map_flatMap]
  refine List.flatMap_congr (fun key _ => ?_)
  rw [List.map_map]
  exact List.map_const' ..

/-- How often a root is found: the product of the numbers of passing rows. -/
theorem count_select (base : List κ) (tables : List (Joined κ V)) (key : κ) :
    ((select base tables).map Prod.fst).count key = base.count key *
      (tables.map fun table => (group table.rows key).countP (table.passes key)).prod := by
  rw [map_fst_select, ← length_found]
  induction base with
  | nil => simp
  | cons first rest ih =>
      rw [List.flatMap_cons, List.count_append, ih, List.count_replicate,
        List.count_cons, Nat.add_mul, Nat.add_comm]
      by_cases h : first = key
      · simp [h]
      · simp [h]

theorem mem_group {rows : List (κ × α)} {key : κ} {value : α} :
    value ∈ group rows key ↔ (key, value) ∈ rows := by
  rw [group, List.mem_map]
  constructor
  · rintro ⟨row, hrow, rfl⟩
    obtain ⟨hmem, hkey⟩ := List.mem_filter.mp hrow
    rw [← of_decide_eq_true hkey]
    exact hmem
  · exact fun h => ⟨(key, value), List.mem_filter.mpr ⟨h, decide_eq_true rfl⟩, rfl⟩

theorem group_map {β : Type} (rows : List (κ × α)) (f : α → β) (key : κ) :
    group (rows.map fun row => (row.1, f row.2)) key = (group rows key).map f := by
  rw [group, group, List.filter_map, List.map_map, List.map_map]
  rfl

theorem mem_found {key : κ} {tables : List (Joined κ V)} {columns : List V} :
    columns ∈ found key tables ↔
      List.Forall₂ (fun table value => (key, value) ∈ table.rows ∧ table.passes key value = true)
      tables
        columns := by
  induction tables generalizing columns with
  | nil => simp [found]
  | cons table rest ih =>
      rw [found, List.mem_flatMap, List.forall₂_cons_left_iff]
      constructor
      · rintro ⟨value, hvalue, hrest⟩
        obtain ⟨others, hothers, rfl⟩ := List.mem_map.mp hrest
        obtain ⟨hmem, hpasses⟩ := List.mem_filter.mp hvalue
        exact ⟨value, others, ⟨mem_group.mp hmem, hpasses⟩, ih.mp hothers, rfl⟩
      · rintro ⟨value, others, ⟨hmem, hpasses⟩, hothers, rfl⟩
        exact ⟨value, List.mem_filter.mpr ⟨mem_group.mpr hmem, hpasses⟩,
          List.mem_map_of_mem (ih.mpr hothers)⟩

theorem mem_select {base : List κ} {tables : List (Joined κ V)} {key : κ} {columns : List V} :
    (key, columns) ∈ select base tables ↔ key ∈ base ∧ columns ∈ found key tables := by
  rw [select_eq, List.mem_flatMap]
  constructor
  · rintro ⟨key', hkey, hmem⟩
    obtain ⟨columns', hcolumns, h⟩ := List.mem_map.mp hmem
    obtain ⟨rfl, rfl⟩ := Prod.mk.inj h
    exact ⟨hkey, hcolumns⟩
  · rintro ⟨hkey, hcolumns⟩
    exact ⟨key, hkey, List.mem_map_of_mem hcolumns⟩

theorem exists_found {key : κ} {tables : List (Joined κ V)} :
    (∃ columns, columns ∈ found key tables) ↔ ∀ table ∈ tables, ∃ value,
      (key, value) ∈ table.rows ∧ table.passes key value = true := by
  simp only [mem_found]
  induction tables with
  | nil => simp
  | cons table rest ih =>
      rw [List.forall_mem_cons, ← ih]
      constructor
      · rintro ⟨columns, hcolumns⟩
        obtain ⟨value, others, hvalue, hothers, rfl⟩ := List.forall₂_cons_left_iff.mp hcolumns
        exact ⟨⟨value, hvalue⟩, others, hothers⟩
      · rintro ⟨⟨value, hvalue⟩, others, hothers⟩
        exact ⟨value :: others, .cons hvalue hothers⟩

/-- A root is found if every table has a row of it that passes. -/
theorem mem_map_fst_select {base : List κ} {tables : List (Joined κ V)} {key : κ} :
    key ∈ (select base tables).map Prod.fst ↔ key ∈ base ∧ ∀ table ∈ tables, ∃ value,
      (key, value) ∈ table.rows ∧ table.passes key value = true := by
  rw [← exists_found, List.mem_map]
  constructor
  · rintro ⟨⟨key', columns⟩, hmem, rfl⟩
    exact ⟨(mem_select.mp hmem).1, columns, (mem_select.mp hmem).2⟩
  · rintro ⟨hbase, columns, hcolumns⟩
    exact ⟨(key, columns), mem_select.mpr ⟨hbase, hcolumns⟩, rfl⟩

/-- A root is found by a table as soon as one row of it passes. -/
theorem exists_passes_iff {table : Joined κ V} {key : κ} :
    (∃ value, (key, value) ∈ table.rows ∧ table.passes key value = true) ↔
      0 < (group table.rows key).countP (table.passes key) := by
  simp [List.countP_pos_iff, mem_group]

/-! `OUTER JOIN` -/

/-- Rows without a partner are kept with a null. -/
def outerJoin {ρ : Type} (rows : List ρ) (table : List (κ × V)) (on : ρ → κ) :
    List (ρ × Option V) :=
  rows.flatMap fun row =>
    match group table (on row) with
    | [] => [(row, none)]
    | found => found.map fun columns => (row, some columns)

/-- Every row is kept once where the table has no key twice. -/
theorem outerJoin_eq {ρ : Type} {table : List (κ × V)} (hone : ∀ key, (group table key).length ≤ 1)
    (rows : List ρ) (on : ρ → κ) :
    outerJoin rows table on = rows.map fun row => (row, scalar table (on row)) := by
  rw [outerJoin, List.map_eq_flatMap]
  refine List.flatMap_congr (fun row _ => ?_)
  rw [scalar_eq_head?]
  have hlength := hone (on row)
  match hgroup : group table (on row) with
  | [] => rfl
  | [columns] => rfl
  | columns :: other :: rest =>
      rw [hgroup] at hlength
      exact absurd hlength (by simp)

/-! `DISTINCT ON`. -/

/-- Any of the rows of a group. -/
structure Choice (α : Type) where
  pick : List α → Option α
  pick_nil : pick [] = none
  exists_pick : ∀ rows, rows ≠ [] → ∃ a ∈ rows, pick rows = some a

def Choice.first (α : Type) : Choice α where
  pick := List.head?
  pick_nil := rfl
  exists_pick rows h := by
    cases rows with
    | nil => exact absurd rfl h
    | cons a rest => exact ⟨a, List.mem_cons_self, rfl⟩

theorem Choice.mem_of_pick (choice : Choice α) {rows : List α} {a : α}
    (h : choice.pick rows = some a) :
    a ∈ rows := by
  have hne : rows ≠ [] := by
    rintro rfl
    rw [choice.pick_nil] at h
    cases h
  obtain ⟨b, hb, hpick⟩ := choice.exists_pick rows hne
  obtain rfl := Option.some.inj (h.symm.trans hpick)
  exact hb

/-- `SELECT DISTINCT ON (id) …` -/
def distinctOn (choice : Choice α) (rows : List (κ × α)) : List (κ × α) :=
  (keys rows).flatMap fun key => (choice.pick (group rows key)).toList.map fun a => (key, a)

theorem group_distinctOn (choice : Choice α) (rows : List (κ × α)) (key : κ) :
    group (distinctOn choice rows) key = (choice.pick (group rows key)).toList := by
  rw [distinctOn, group_flatMap_pair _ (nodup_keys rows)]
  split
  case isTrue => rfl
  case isFalse hmem =>
      rw [mem_keys_iff, not_not] at hmem
      rw [hmem, choice.pick_nil]
      rfl

/-! `ROW_NUMBER() OVER (PARTITION BY id ORDER BY …)` -/

/-- The rows of a group in an order that the clause allows. -/
structure Numbering (le : α → α → Prop) where
  arrange : List α → List α
  perm : ∀ rows, (arrange rows).Perm rows
  sorted : ∀ rows, (arrange rows).Pairwise le

/-- Equal rows in the order they have. -/
def Numbering.stable (cmp : α → α → Ordering) [h : Std.TransCmp cmp] :
    Numbering fun a b => (cmp a b).isLE = true where
  arrange := List.insertionSort fun a b => (cmp a b).isLE = true
  perm := List.perm_insertionSort _
  sorted rows := by
    have : Std.Total fun a b => (cmp a b).isLE = true := ⟨fun a b => by
      rw [h.eq_swap (a := b)]
      cases cmp a b <;> simp⟩
    have : IsTrans α fun a b => (cmp a b).isLE = true := ⟨fun a b c => h.isLE_trans⟩
    exact List.pairwise_insertionSort _ rows

variable {le : α → α → Prop}

def rowNumber (numbering : Numbering le) (rows : List (κ × α)) : List (κ × (α × Nat)) :=
  window rows fun values => (numbering.arrange values).zipIdx 1

theorem group_rowNumber (numbering : Numbering le) (rows : List (κ × α)) (key : κ) :
    group (rowNumber numbering rows) key = (numbering.arrange (group rows key)).zipIdx 1 := by
  refine group_window ?_ key
  rw [List.perm_nil.mp (numbering.perm [])]
  rfl

/-- The row with the number one is the first in the order of the clause. -/
theorem le_of_number_one (numbering : Numbering le) (hrefl : ∀ a, le a a) {rows : List α} {a : α}
    (h : (a, 1) ∈ (numbering.arrange rows).zipIdx 1) : a ∈ rows ∧ ∀ b ∈ rows, le a b := by
  have hperm := numbering.perm rows
  have hsorted := numbering.sorted rows
  cases harrange : numbering.arrange rows with
  | nil =>
      rw [harrange] at h
      cases h
  | cons first rest =>
      rw [harrange] at h hperm hsorted
      obtain rfl : a = first := by
        cases List.mem_cons.mp h with
        | inl heq => exact (Prod.mk.inj heq).1
        | inr hrest =>
            have hle := List.le_snd_of_mem_zipIdx hrest
            omega
      refine ⟨hperm.mem_iff.mp List.mem_cons_self, fun b hb => ?_⟩
      cases List.mem_cons.mp (hperm.mem_iff.mpr hb) with
      | inl heq => exact heq ▸ hrefl a
      | inr hrest => exact (List.pairwise_cons.mp hsorted).1 b hrest

/-- The choice keeps the row that has the number one. -/
def Choice.KeepsFirst (choice : Choice (α × Nat)) : Prop :=
  ∀ (a : α) (rest : List α), choice.pick ((a :: rest).zipIdx 1) = some (a, 1)

theorem Choice.keepsFirst_first : (Choice.first (α × Nat)).KeepsFirst := fun _ _ => rfl

end Select

/-! The order of SQL. -/

section Order

open Std

variable [LinearOrder α]

/-- `a ASC`, where NULL is the largest. -/
def ascending : Option α → Option α → Ordering := (compare : WithTop α → WithTop α → Ordering)

/-- `a DESC` -/
def descending (a b : Option α) : Ordering := ascending b a

instance : TransCmp (ascending (α := α)) :=
  inferInstanceAs (TransCmp (compare : WithTop α → WithTop α → Ordering))

instance : TransCmp (descending (α := α)) :=
  inferInstanceAs (TransCmp fun a b : Option α => ascending b a)

end Order

end Graveboards.Library.Selection
