import Mathlib.Tactic
import Graveboards.Library.Double

/-!
Parsed JSON as a Python program sees it: the result of `json.loads`, with the
dictionary lookup, truth value and numeric comparison the interpreter gives
it.
-/

namespace Graveboards.Library

inductive Json where
  | null
  | bool (b : Bool)
  | int (n : Int)
  | float (x : Double)
  | str (s : String)
  | list (items : List Json)
  | dict (entries : List (String × Json))

namespace Json

mutual

def decEq : (a b : Json) → Decidable (a = b)
  | .null, b => by cases b <;> first | exact isTrue rfl | exact isFalse (by simp)
  | .bool x, b => by
      cases b <;> first | exact decidable_of_iff (x = _) (by simp; rfl) | exact isFalse (by simp)
  | .int x, b => by
      cases b <;> first | exact decidable_of_iff (x = _) (by simp; rfl) | exact isFalse (by simp)
  | .float x, b => by
      cases b <;> first | exact decidable_of_iff (x = _) (by simp; rfl) | exact isFalse (by simp)
  | .str x, b => by
      cases b <;> first | exact decidable_of_iff (x = _) (by simp; rfl) | exact isFalse (by simp)
  | .list xs, .list ys =>
      match decEqList xs ys with
      | isTrue h => isTrue (by rw [h])
      | isFalse h => isFalse (by simpa using h)
  | .list _, .null | .list _, .bool _ | .list _, .int _ | .list _, .float _ | .list _, .str _
  | .list _, .dict _ => isFalse (by simp)
  | .dict xs, .dict ys =>
      match decEqEntries xs ys with
      | isTrue h => isTrue (by rw [h])
      | isFalse h => isFalse (by simpa using h)
  | .dict _, .null | .dict _, .bool _ | .dict _, .int _ | .dict _, .float _ | .dict _, .str _
  | .dict _, .list _ => isFalse (by simp)

def decEqList : (xs ys : List Json) → Decidable (xs = ys)
  | [], [] => isTrue rfl
  | [], _ :: _ => isFalse (by simp)
  | _ :: _, [] => isFalse (by simp)
  | x :: xs, y :: ys =>
      match decEq x y, decEqList xs ys with
      | isTrue hx, isTrue hs => isTrue (by rw [hx, hs])
      | isFalse hx, _ => isFalse (by simp [hx])
      | _, isFalse hs => isFalse (by simp [hs])

def decEqEntries : (xs ys : List (String × Json)) → Decidable (xs = ys)
  | [], [] => isTrue rfl
  | [], _ :: _ => isFalse (by simp)
  | _ :: _, [] => isFalse (by simp)
  | (k, v) :: xs, (l, w) :: ys =>
      match decEq v w, decEqEntries xs ys with
      | isTrue hv, isTrue hs =>
          if hk : k = l then isTrue (by rw [hk, hv, hs]) else isFalse (by simp [hk])
      | isFalse hv, _ => isFalse (by simp [hv])
      | _, isFalse hs => isFalse (by simp [hs])

end

instance : DecidableEq Json := decEq

/-- Python's `bool(value)`. -/
def truthy : Json → Bool
  | .null => false
  | .bool b => b
  | .int n => n != 0
  | .float x => x.value != 0
  | .str s => s != ""
  | .list items => !items.isEmpty
  | .dict entries => !entries.isEmpty

/-- The number a value takes part in comparisons as. `bool` is a subclass of
`int` in Python, so `True` compares as one. -/
def num? : Json → Option Rat
  | .bool b => some (if b then 1 else 0)
  | .int n => some n
  | .float x => some x.value
  | .null | .str _ | .list _ | .dict _ => none

def isStr : Json → Bool
  | .str _ => true
  | _ => false

/-- The value stored under a key of an entry list, as `dict.get` finds it. -/
def find (key : String) : List (String × Json) → Option Json
  | [] => none
  | (k, v) :: rest => if k = key then some v else find key rest

/-- `value.get(key)` on a dictionary; any other value has no entries. -/
def get? (j : Json) (key : String) : Option Json :=
  match j with
  | .dict entries => find key entries
  | _ => none

def getD (j : Json) (key : String) (fallback : Json) : Json :=
  (j.get? key).getD fallback

@[simp] theorem find_nil (key : String) : find key [] = none := rfl

@[simp] theorem find_cons (key k : String) (v : Json) (rest : List (String × Json)) :
    find key ((k, v) :: rest) = if k = key then some v else find key rest := rfl

@[simp] theorem get?_dict (entries : List (String × Json)) (key : String) :
    (Json.dict entries).get? key = find key entries := rfl

theorem mem_of_find {key : String} {v : Json} {entries : List (String × Json)}
    (h : find key entries = some v) : (key, v) ∈ entries := by
  induction entries with
  | nil => simp at h
  | cons entry rest ih =>
      obtain ⟨k, w⟩ := entry
      rw [find_cons] at h
      split at h
      · next hk =>
          obtain rfl := Option.some.inj h
          simp [hk]
      · exact List.mem_cons_of_mem _ (ih h)

theorem find_isSome_iff {key : String} {entries : List (String × Json)} :
    (find key entries).isSome ↔ key ∈ entries.map Prod.fst := by
  induction entries with
  | nil => simp
  | cons entry rest ih =>
      obtain ⟨k, w⟩ := entry
      rw [find_cons, List.map_cons, List.mem_cons]
      split
      · next hk => simp [hk]
      · next hk => simp [ih, Ne.symm hk]

/-- A stored value is structurally smaller than the dictionary it is stored
in, which is what makes walks through nested `.get` calls terminate. -/
theorem sizeOf_get?_lt {j v : Json} {key : String} (h : j.get? key = some v) :
    sizeOf v < sizeOf j := by
  cases j with
  | dict entries =>
      have hmem := mem_of_find h
      have hlt := List.sizeOf_lt_of_mem hmem
      simp only [Prod.mk.sizeOf_spec] at hlt
      simp only [Json.dict.sizeOf_spec]
      omega
  | _ => simp [get?] at h

end Json

end Graveboards.Library
