import Mathlib.Tactic
import Mathlib.Data.List.Sort

/-!
A priority queue over a total preorder: the entries in order, of which the
first is taken.
-/

namespace Graveboards.Library

/-- A queue is sorted by construction. -/
structure PriorityQueue {α : Type} (r : α → α → Prop) where
  entries : List α
  sorted : entries.Pairwise r

namespace PriorityQueue

variable {α : Type} {r : α → α → Prop}

def empty : PriorityQueue r := ⟨[], List.Pairwise.nil⟩

/-- Take the first entry. -/
def pop : PriorityQueue r → Option (α × PriorityQueue r)
  | ⟨[], _⟩ => none
  | ⟨a :: rest, h⟩ => some (a, ⟨rest, h.of_cons⟩)

theorem entries_of_pop {q q' : PriorityQueue r} {a : α} (h : q.pop = some (a, q')) :
    q.entries = a :: q'.entries := by
  obtain ⟨entries, hsorted⟩ := q
  cases entries with
  | nil => cases h
  | cons b rest =>
      obtain ⟨rfl, rfl⟩ := Prod.mk.inj (Option.some.inj h)
      rfl

section Push

variable [DecidableRel r] [Std.Total r] [IsTrans α r]

def push (a : α) (q : PriorityQueue r) : PriorityQueue r :=
  ⟨q.entries.orderedInsert r a, q.sorted.orderedInsert a _⟩

theorem push_perm (a : α) (q : PriorityQueue r) : (q.push a).entries.Perm (a :: q.entries) :=
  List.perm_orderedInsert r a q.entries

@[simp] theorem mem_push {a b : α} {q : PriorityQueue r} :
    b ∈ (q.push a).entries ↔ b = a ∨ b ∈ q.entries :=
  List.mem_orderedInsert r

end Push

end PriorityQueue

end Graveboards.Library
