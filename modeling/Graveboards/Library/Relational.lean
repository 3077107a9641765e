import Mathlib.Data.List.Dedup

/-!
Joins, groups and windows over lists of rows. A grouped table has one row for each key
that occurs, so a scalar subquery on the key reads the aggregate of the group, and is
null where there is no row.
-/

namespace Graveboards.Library.Relational

variable {α β κ ν : Type}

/-- `JOIN … ON`. -/
def join (rows : List α) (table : List β) (on : α → β → Bool) : List (α × β) :=
  rows.flatMap fun a => (table.filter (on a)).map fun b => (a, b)

theorem mem_join {rows : List α} {table : List β} {on : α → β → Bool} {a : α} {b : β} :
    (a, b) ∈ join rows table on ↔ a ∈ rows ∧ b ∈ table ∧ on a b = true := by
  simp [join]

section Keyed

variable [DecidableEq κ]

/-- The values of the rows with the key. -/
def group (rows : List (κ × α)) (key : κ) : List α :=
  (rows.filter fun row => row.1 = key).map Prod.snd

def keys (rows : List (κ × α)) : List κ := (rows.map Prod.fst).dedup

/-- `GROUP BY` the key, with an aggregate. -/
def groupBy (rows : List (κ × α)) (aggregate : List α → ν) : List (κ × ν) :=
  (keys rows).map fun key => (key, aggregate (group rows key))

/-- A window function over the partitions by the key. -/
def window (rows : List (κ × α)) (f : List α → List ν) : List (κ × ν) :=
  (keys rows).flatMap fun key => (f (group rows key)).map fun value => (key, value)

/-- A scalar subquery: the value of the row with the key, null if there is none. -/
def scalar (rows : List (κ × ν)) (key : κ) : Option ν :=
  (rows.find? fun row => row.1 = key).map Prod.snd

theorem nodup_keys (rows : List (κ × α)) : (keys rows).Nodup := List.nodup_dedup _

theorem mem_keys_iff {rows : List (κ × α)} {key : κ} : key ∈ keys rows ↔ group rows key ≠ [] := by
  rw [keys, List.mem_dedup, group, Ne, List.map_eq_nil_iff, List.filter_eq_nil_iff]
  simp

theorem group_append (rows others : List (κ × α)) (key : κ) :
    group (rows ++ others) key = group rows key ++ group others key := by
  rw [group, List.filter_append, List.map_append]
  rfl

theorem group_map_pair (values : List α) (key key' : κ) :
    group (values.map fun value => (key', value)) key = if key' = key then values else [] := by
  induction values with
  | nil => rw [ite_self]; rfl
  | cons value rest ih =>
      rw [List.map_cons, ← List.singleton_append, group_append, ih]
      by_cases h : key' = key
      · simp [group, h]
      · simp [group, h]

/-- Only the part of the key contributes to its group. -/
theorem group_flatMap_pair (ks : List κ) (hnodup : ks.Nodup) (f : κ → List α) (key : κ) :
    group (ks.flatMap fun k => (f k).map fun value => (k, value)) key = if key ∈ ks then
    f key else [] := by
  induction ks with
  | nil => rfl
  | cons k rest ih =>
      rw [List.nodup_cons] at hnodup
      rw [List.flatMap_cons, group_append, group_map_pair, ih hnodup.2]
      by_cases hk : k = key
      · subst hk
        simp [hnodup.1]
      · have hne : key ≠ k := fun h => hk h.symm
        simp [hk, hne]

theorem group_window {rows : List (κ × α)} {f : List α → List ν} (hnil : f [] = []) (key : κ) :
    group (window rows f) key = f (group rows key) := by
  rw [window, group_flatMap_pair _ (nodup_keys rows)]
  split
  case isTrue => rfl
  case isFalse hmem =>
      rw [mem_keys_iff, not_not] at hmem
      rw [hmem, hnil]

theorem groupBy_eq_window (rows : List (κ × α)) (aggregate : List α → ν) :
    groupBy rows aggregate = window rows fun values => [aggregate values] := by
  rw [groupBy, window, List.flatMap_def, List.map_eq_flatMap, List.flatMap_def]
  rfl

theorem scalar_eq_head? (rows : List (κ × ν)) (key : κ) :
    scalar rows key = (group rows key).head? := by
  rw [scalar, group, List.head?_map, List.head?_filter]

/-- A grouped table has at most one row for a key. -/
theorem group_groupBy (rows : List (κ × α)) (aggregate : List α → ν) (key : κ) :
    group (groupBy rows aggregate) key = if group rows key = [] then []
    else [aggregate (group rows key)] := by
  rw [groupBy_eq_window, window, group_flatMap_pair _ (nodup_keys rows)]
  by_cases h : group rows key = []
  · rw [if_pos h, if_neg (fun hmem => mem_keys_iff.mp hmem h)]
  · rw [if_neg h, if_pos (mem_keys_iff.mpr h)]

/-- A subquery on a grouped table reads the aggregate of the group. -/
theorem scalar_groupBy (rows : List (κ × α)) (aggregate : List α → ν) (key : κ) :
    scalar (groupBy rows aggregate) key =
      if group rows key = [] then none else some (aggregate (group rows key)) := by
  rw [scalar_eq_head?, group_groupBy]
  split
  · rfl
  · rfl

theorem group_filter (rows : List (κ × α)) (test : α → Bool) (key : κ) :
    group (rows.filter fun row => test row.2) key = (group rows key).filter test := by
  rw [group, group, List.filter_map, List.filter_filter, List.filter_filter]
  congr 1
  apply List.filter_congr
  intro row _
  exact Bool.and_comm _ _

/-- Joining on the key repeats each row for every partner. -/
theorem group_join (rows : List (κ × α)) (table : List (κ × β)) (key : κ) :
    group ((join rows table fun row other => row.1 = other.1).map Prod.fst) key =
      (group rows key).flatMap fun value => List.replicate (group table key).length value := by
  induction rows with
  | nil => rfl
  | cons row rest ih =>
      have hpartners :
          ((table.filter fun other => decide (row.1 = other.1)).map fun other => (row, other)).map
          Prod.fst = (List.replicate (group table row.1).length row.2).map fun value =>
            (row.1, value) := by
        rw [List.map_map, List.map_replicate, group, List.length_map, List.eq_replicate_iff]
        constructor
        · rw [List.length_map]
          congr 1
          apply List.filter_congr
          intro other _
          rw [decide_eq_decide]
          exact eq_comm
        · intro b hb
          obtain ⟨other, -, rfl⟩ := List.mem_map.mp hb
          rfl
      have hcons : join (row :: rest) table (fun row other => row.1 = other.1) =
          ((table.filter fun other => decide (row.1 = other.1)).map fun other => (row, other)) ++
            join rest table fun row other => row.1 = other.1 := rfl
      have hgroup :
          group (row :: rest) key = (if row.1 = key then [row.2] else []) ++ group rest key := by
        by_cases h : row.1 = key
        · simp [group, h]
        · simp [group, h]
      rw [hcons, List.map_append, group_append, hpartners, group_map_pair, ih, hgroup,
        List.flatMap_append]
      congr 1
      by_cases h : row.1 = key
      · rw [if_pos h, if_pos h, List.flatMap_singleton, h]
      · rw [if_neg h, if_neg h]
        rfl

/-- Joining with the groups that pass a test keeps the rows of these groups. -/
theorem group_join_having (rows : List (κ × α)) (aggregate : List α → ν)
    (having : ν → Bool) (key : κ) :
    group ((join rows ((groupBy rows aggregate).filter fun g => having g.2) fun row g =>
      row.1 = g.1).map Prod.fst)
        key =
      if having (aggregate (group rows key)) then group rows key else [] := by
  rw [group_join, group_filter, group_groupBy]
  by_cases hnil : group rows key = []
  · rw [hnil, ite_self]
    rfl
  · rw [if_neg hnil]
    by_cases h : having (aggregate (group rows key)) = true
    · simp [h]
    · simp [h]

end Keyed

end Graveboards.Library.Relational
