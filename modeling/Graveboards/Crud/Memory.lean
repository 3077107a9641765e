import Graveboards.Crud.Resolve

/-!
A session over objects in memory: the rows are the objects that were added, and an assignment to
such an object adds what it refers to. It keeps no other sides in step, so it stands for relations
that have none.
-/

namespace Graveboards.Crud

/-- An object: its model, and its place in memory. -/
structure Ref where
  model : String
  place : Nat
  deriving DecidableEq

structure Memory (α : Type) where
  objects : List (Data α Ref)
  relations : List ((Ref × String) × Related Ref)
  members : List Ref

namespace Memory

variable {α : Type} [DecidableEq α]

/-- A column has the value of a condition. -/
def equals : Datum α Ref → Datum α Ref → Bool
  | .value a, .value b => a = b
  | .null, .null => true
  | _, _ => false

def column (o : Ref) (key : String) (s : Memory α) : Option (Datum α Ref) :=
  (s.objects[o.place]?).bind (List.lookup key)

def satisfies (conditions : Data α Ref) (o : Ref) (s : Memory α) : Bool :=
  conditions.all fun condition => (s.column o condition.1).any (equals condition.2)

def finds (model : String) (conditions : Data α Ref) (s : Memory α) (o : Ref) : Bool :=
  o.model = model ∧ o.place < s.objects.length ∧ satisfies conditions o s

def relation (mapping : Mapping) (o : Ref) (key : String) (s : Memory α) : Related Ref :=
  match s.relations.lookup (o, key) with
  | some value => value
  | none =>
      match mapping.relationship? o.model key with
      | some ⟨_, _, true, _⟩ => .many []
      | _ => .scalar none

/-- The objects that a relation refers to. -/
def referents : Related Ref → List Ref
  | .scalar o => o.toList
  | .many items => items

/-- The session of the memory. -/
def session (mapping : Mapping) : Session α Ref (Memory α) where
  scalar model conditions s := .ok (s, s.members.find? (finds model conditions s))
  create model columns s :=
    ({ s with objects := s.objects ++ [columns] }, ⟨model, s.objects.length⟩)
  setattr o key value s := .ok
    { s with
      relations := ((o, key), value) :: s.relations
      members := if o ∈ s.members then s.members ++ referents value else s.members }
  foreign _ _ := false
  model := Ref.model
  row model conditions o s := o ∈ s.members ∧ finds model conditions s o = true
  loaded o s := o.place < s.objects.length
  relation := relation mapping
  column := column

theorem session_documented (mapping : Mapping) : (session (α := α) mapping).Documented mapping where
  found {model conditions s s' o} h := by
    obtain ⟨rfl, hfind⟩ := Prod.mk.inj (Except.ok.inj h)
    have hfinds := List.find?_some hfind
    simp only [finds, decide_eq_true_eq] at hfinds
    exact ⟨⟨List.mem_of_find?_eq_some hfind, List.find?_some hfind⟩, hfinds.1, hfinds.2.1⟩
  missing {model conditions s s'} h := by
    obtain ⟨-, hfind⟩ := Prod.mk.inj (Except.ok.inj h)
    rintro o ⟨hmem, hfinds⟩
    exact List.find?_eq_none.mp hfind o hmem hfinds
  rows {model conditions s s' o} h := by
    obtain ⟨rfl, -⟩ := Prod.mk.inj (Except.ok.inj h)
    exact fun _ _ _ => Iff.rfl
  queried {model conditions s s' o} h := by
    obtain ⟨rfl, -⟩ := Prod.mk.inj (Except.ok.inj h)
    exact fun p hp => ⟨hp, fun _ => rfl⟩
  created {model columns s s' o} h := by
    obtain ⟨rfl, rfl⟩ := Prod.mk.inj h
    refine ⟨rfl, ?_, ?_, ?_⟩
    · simp [session]
    · simp [session]
    · intro key
      simp [session, column]
  others {model columns s s' o} h := by
    obtain ⟨rfl, rfl⟩ := Prod.mk.inj h
    intro p hp
    refine ⟨?_, fun _ => rfl⟩
    simp only [session, List.length_append, List.length_singleton] at hp ⊢
    omega
  assigned {o key value s s'} h := by
    cases h
    simp [session, relation]
  untouched {o key value s s'} h := by
    cases h
    intro p hp
    refine ⟨hp, ?_⟩
    intro key' hne _
    have hother : ((p, key') == (o, key)) = false := by
      rw [beq_eq_false_iff_ne]
      intro heq
      cases heq
      exact hne rfl
    simp only [session, relation, List.lookup_cons, hother]

end Memory

end Graveboards.Crud
