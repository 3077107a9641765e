import Mathlib.Data.List.Basic
import Mathlib.Data.List.ReduceOption

/-!
The truth values of SQL, where null stands for unknown: negation, comparisons,
`ANY` and `ALL` over an array, and the aggregates over a group, which leave
nulls out. A condition selects a row or a group only if it is true.
-/

namespace Graveboards.Library

/-- `none` is NULL. -/
abbrev Truth := Option Bool

namespace Truth

variable {α : Type} {ts : List Truth}

/-- `NOT t`. -/
def not (t : Truth) : Truth := t.map Bool.not

/-- A comparison with a null on one side is null. -/
def compare (r : α → α → Bool) (a b : Option α) : Truth := a.bind fun a => b.map (r a)

/-- `OR` of all: a true one decides, and then a null. -/
def any (ts : List Truth) : Truth :=
  if some true ∈ ts then some true else if none ∈ ts then none else some false

/-- `AND` of all: a false one decides, and then a null. -/
def all (ts : List Truth) : Truth :=
  if some false ∈ ts then some false else if none ∈ ts then none else some true

/-- `bool_or`: nulls are left out, and nothing at all gives null. -/
def boolOr (ts : List Truth) : Truth :=
  match ts.reduceOption with
  | [] => none
  | bs => some (bs.any id)

def boolAnd (ts : List Truth) : Truth :=
  match ts.reduceOption with
  | [] => none
  | bs => some (bs.all id)

@[simp] theorem not_eq_true_iff {t : Truth} : t.not = some true ↔ t = some false := by
  obtain _ | _ | _ := t <;> decide

@[simp] theorem compare_none_left (r : α → α → Bool) (b : Option α) : compare r none b = none := rfl

@[simp] theorem compare_none_right (r : α → α → Bool) (a : Option α) : compare r a none = none := by
  cases a <;> rfl

@[simp] theorem compare_some (r : α → α → Bool) (a b : α) :
    compare r (some a) (some b) = some (r a b) := rfl

theorem compare_eq_some_iff {r : α → α → Bool} {a b : Option α} {t : Bool} :
    compare r a b = some t ↔ ∃ x y, a = some x ∧ b = some y ∧ r x y = t := by
  cases a <;> cases b <;> simp

@[simp] theorem any_eq_true_iff : any ts = some true ↔ some true ∈ ts := by
  unfold any
  split
  · next h => exact iff_of_true rfl h
  · next h =>
      split
      · simpa using h
      · simpa using h

theorem any_eq_false_iff : any ts = some false ↔ ∀ t ∈ ts, t = some false := by
  unfold any
  constructor
  · intro h t ht
    split at h
    · cases h
    · next htrue =>
        split at h
        · cases h
        · next hnone =>
            obtain _ | _ | _ := t
            · exact absurd ht hnone
            · rfl
            · exact absurd ht htrue
  · intro h
    have htrue : some true ∉ ts := fun ht => by cases h _ ht
    have hnone : none ∉ ts := fun ht => by cases h _ ht
    rw [if_neg htrue, if_neg hnone]

@[simp] theorem all_eq_true_iff : all ts = some true ↔ ∀ t ∈ ts, t = some true := by
  unfold all
  constructor
  · intro h t ht
    split at h
    · cases h
    · next hfalse =>
        split at h
        · cases h
        · next hnone =>
            obtain _ | _ | _ := t
            · exact absurd ht hnone
            · exact absurd ht hfalse
            · rfl
  · intro h
    have hfalse : some false ∉ ts := fun ht => by cases h _ ht
    have hnone : none ∉ ts := fun ht => by cases h _ ht
    rw [if_neg hfalse, if_neg hnone]

@[simp] theorem boolOr_eq_true_iff : boolOr ts = some true ↔ some true ∈ ts := by
  have hmem : some true ∈ ts ↔ true ∈ ts.reduceOption := List.reduceOption_mem_iff.symm
  rw [hmem, boolOr]
  split
  · next h => simp [h]
  · simp

@[simp] theorem boolAnd_eq_true_iff :
    boolAnd ts = some true ↔ (∃ b, some b ∈ ts) ∧ some false ∉ ts := by
  have hmem (b : Bool) : some b ∈ ts ↔ b ∈ ts.reduceOption := List.reduceOption_mem_iff.symm
  simp only [hmem]
  unfold boolAnd
  split
  · next h => simp [h]
  · next bs hne =>
      rw [Option.some.injEq, List.all_eq_true]
      have hsome : ∃ b, b ∈ ts.reduceOption := List.exists_mem_of_ne_nil _ hne
      rw [and_iff_right hsome]
      constructor
      · exact fun h hfalse => by cases h false hfalse
      · intro h b hb
        cases b with
        | false => exact absurd hb h
        | true => rfl

end Truth

end Graveboards.Library
