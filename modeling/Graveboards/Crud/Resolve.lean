import Graveboards.Library.Dictionary

/-!
Nested create-or-resolve: a dictionary of columns and relations is resolved to a row of the
database by its primary key, else by one of its unique keys, else to a new one, and its relations
are resolved the same way. The session it runs in is a parameter.
-/

namespace Graveboards.Crud

open Graveboards.Library

/-- What may stand under a key of the data: the value of a column, an instance, or data again. -/
inductive Datum (α ρ : Type) where
  | null
  | value (a : α)
  | instance (o : ρ)
  | dict (entries : List (String × Datum α ρ))
  | list (items : List (Datum α ρ))

abbrev Data (α ρ : Type) := List (String × Datum α ρ)

/-- What a relation of an instance holds. -/
inductive Related (ρ : Type) where
  | scalar (o : Option ρ)
  | many (items : List ρ)
  deriving DecidableEq

/-- A relationship of a mapper; `reverse` is the attribute it is synchronised with on the other side
(`back_populates`, `backref`). -/
structure Relationship where
  key : String
  target : String
  uselist : Bool
  reverse : Option String

structure Mapper where
  primaryKey : List String
  columns : List String
  uniqueColumns : List String
  uniqueConstraints : List (List String)
  relationships : List Relationship

/-- The mapper of each model. -/
abbrev Mapping := String → Mapper

def Mapping.relationship? (mapping : Mapping) (model key : String) : Option Relationship :=
  (mapping model).relationships.find? (·.key = key)

/-- The relation on the other side of a relation. -/
def Mapping.reverse? (mapping : Mapping) (relation : String × String) : Option (String × String) :=
  (mapping.relationship? relation.1 relation.2).bind fun relationship =>
    relationship.reverse.map (Prod.mk relationship.target)

inductive Error where
  /-- An object is bound to a different session. -/
  | runtimeError
  /-- `inspect` is given something that is not an instance. -/
  | noInspectionAvailable
  /-- What is no list is iterated over. -/
  | typeError
  /-- A statement or a flush fails. -/
  | database

/-- A session, as far as it is used: its queries, new instances and their columns, the assignment of
a relation, and whether an instance is bound to another session; and what can be read off its state.
A row is judged with the pending changes flushed. `loaded` are the instances in memory, with their
relations. -/
structure Session (α ρ σ : Type) where
  scalar : String → Data α ρ → σ → Except Error (σ × Option ρ)
  create : String → Data α ρ → σ → σ × ρ
  setattr : ρ → String → Related ρ → σ → Except Error σ
  foreign : ρ → σ → Bool
  model : ρ → String
  row : String → Data α ρ → ρ → σ → Prop
  loaded : ρ → σ → Prop
  relation : ρ → String → σ → Related ρ
  column : ρ → String → σ → Option (Datum α ρ)

variable {α ρ σ : Type}

/-- What is documented of a session. A query flushes and finds a row that satisfies its conditions,
when there is one, with its relations; it leaves the relations of the instances in memory alone. An
assignment changes the relation it is made to, the same relation of other instances, and the one
on the other side, and nothing else. -/
structure Session.Documented (S : Session α ρ σ) (mapping : Mapping) : Prop where
  found : ∀ {model conditions s s' o}, S.scalar model conditions s = .ok (s', some o) →
    S.row model conditions o s ∧ S.model o = model ∧ S.loaded o s'
  missing : ∀ {model conditions s s'}, S.scalar model conditions s = .ok (s', none) →
    ∀ o, ¬ S.row model conditions o s
  rows : ∀ {model conditions s s' o}, S.scalar model conditions s = .ok (s', o) →
    ∀ model' conditions' p, S.row model' conditions' p s' ↔ S.row model' conditions' p s
  queried : ∀ {model conditions s s' o}, S.scalar model conditions s = .ok (s', o) →
    ∀ p, S.loaded p s → S.loaded p s' ∧ ∀ key, S.relation p key s' = S.relation p key s
  created : ∀ {model columns s s' o}, S.create model columns s = (s', o) →
    S.model o = model ∧ S.loaded o s' ∧ ¬ S.loaded o s ∧
    ∀ key, S.column o key s' = columns.lookup key
  others : ∀ {model columns s s' o}, S.create model columns s = (s', o) →
    ∀ p, S.loaded p s → S.loaded p s' ∧ ∀ key, S.relation p key s' = S.relation p key s
  assigned : ∀ {o key value s s'}, S.setattr o key value s = .ok s' → S.relation o key s' = value
  untouched : ∀ {o key value s s'}, S.setattr o key value s = .ok s' →
    ∀ p, S.loaded p s → S.loaded p s' ∧ ∀ key', (S.model o, key) ≠ (S.model p, key') →
      mapping.reverse? (S.model o, key) ≠ some (S.model p, key') →
      S.relation p key' s' = S.relation p key' s

section Resolve

variable (S : Session α ρ σ) (mapping : Mapping)

/-- `_ensure_same_session`, of what `inspect` may refuse. -/
def ensureSameSession (datum : Datum α ρ) (s : σ) : Except Error ρ :=
  match datum with
  | .instance o => if S.foreign o s then .error .runtimeError else .ok o
  | _ => .error .noInspectionAvailable

/-- The values that the data gives for the columns. -/
def given (columns : List String) (data : Data α ρ) : Data α ρ :=
  columns.filterMap fun column => (data.lookup column).map (Prod.mk column)

/-- All the columns are keys of the data. -/
def names (columns : List String) (data : Data α ρ) : Bool :=
  columns.all fun column => column ∈ Dictionary.keys data

/-- The columns that are unique, then the unique constraints, each once. -/
def uniqueSets (mapper : Mapper) : List (List String) :=
  (mapper.uniqueColumns.map ([·]) ++ mapper.uniqueConstraints).eraseDups

/-- A lookup by some columns, when the data has them. -/
def lookup (model : String) (columns : List String) (data : Data α ρ) (s : σ) :
    Except Error (σ × Option ρ) := do
  if names columns data then
    let (s, found) ← S.scalar model (given columns data) s
    match found with
    | some o => if S.foreign o s then .error .runtimeError else .ok (s, some o)
    | none => .ok (s, none)
  else .ok (s, none)

/-- The lookups, until one of them finds a row. -/
def lookups (model : String) (data : Data α ρ) :
    List (List String) → σ → Except Error (σ × Option ρ)
  | [], s => .ok (s, none)
  | columns :: rest, s => do
      let (s, found) ← lookup S model columns data s
      match found with
      | some o => .ok (s, some o)
      | none => lookups model data rest s

/-- The row that the data stands for: by its primary key, by a unique key, or a new one. -/
def select (model : String) (data : Data α ρ) (s : σ) : Except Error (σ × ρ) := do
  let mapper := mapping model
  let (s, found) ← lookups S model data (mapper.primaryKey :: uniqueSets mapper) s
  match found with
  | some o => .ok (s, o)
  | none => .ok (S.create model (given mapper.columns data) s)

/-- The assignment of a resolved value to a relation. An instance under a scalar relation has only
been checked. -/
def assign (o : ρ) (relationship : Relationship) (datum : Datum α ρ) (value : Related ρ) (s : σ) :
    Except Error σ :=
  match relationship.uselist, datum with
  | false, .instance _ => .ok s
  | _, _ => S.setattr o relationship.key value s

mutual

/-- The loop over the relations. The source iterates over a set of names: the entries stand in the
order of that iteration. -/
def resolveRelations (o : ρ) (model : String) : Data α ρ → σ → Except Error σ
  | [], s => .ok s
  | (key, datum) :: rest, s =>
      match mapping.relationship? model key with
      | none => resolveRelations o model rest s
      | some relationship => do
          let (s, value) ← resolveValue relationship datum s
          let s ← assign S o relationship datum value s
          resolveRelations o model rest s

/-- The value of a relation. -/
def resolveValue (relationship : Relationship) : Datum α ρ → σ → Except Error (σ × Related ρ)
  | .list items, s =>
      if relationship.uselist then do
        let (s, items) ← resolveItems relationship.target items s
        .ok (s, .many items)
      else .error .noInspectionAvailable
  | .null, s => if relationship.uselist then .error .typeError else .ok (s, .scalar none)
  | .dict entries, s =>
      if relationship.uselist then
        -- The keys of a dictionary are texts.
        if entries.isEmpty then .ok (s, .many []) else .error .noInspectionAvailable
      else do
        let (s, o) ← select S mapping relationship.target entries s
        let s ← resolveRelations o relationship.target entries s
        .ok (s, .scalar (some o))
  | .instance o, s =>
      if relationship.uselist then .error .typeError
      else (ensureSameSession S (.instance o) s).map fun o => (s, .scalar (some o))
  | .value _, _ => .error (if relationship.uselist then .typeError else .noInspectionAvailable)

/-- The items of a list relation. -/
def resolveItems (target : String) : List (Datum α ρ) → σ → Except Error (σ × List ρ)
  | [], s => .ok (s, [])
  | .dict entries :: rest, s => do
      let (s, o) ← select S mapping target entries s
      let s ← resolveRelations o target entries s
      let (s, others) ← resolveItems target rest s
      .ok (s, o :: others)
  | item :: rest, s => do
      let o ← ensureSameSession S item s
      let (s, others) ← resolveItems target rest s
      .ok (s, o :: others)

end

def resolveOrCreate (model : String) (data : Data α ρ) (s : σ) : Except Error (σ × ρ) := do
  let (s, o) ← select S mapping model data s
  let s ← resolveRelations S mapping o model data s
  .ok (s, o)

end Resolve

end Graveboards.Crud
