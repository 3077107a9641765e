import Graveboards.Library.Answers

/-!
Reading query results page by page: the order that `get_many` and the search engine ask for,
the pages they return, and when the pages at the offsets `0`, `L`, `2L`, … visit every
matching row once.
-/

namespace Graveboards.Paging

open Std
open Graveboards.Library

/-- One expression of an ORDER BY, ascending. NULL has its place in the comparison. -/
structure Clause (Row : Type) where
  compare : Row → Row → Ordering
  trans : TransCmp compare

namespace Clause

variable {Row : Type}

def desc (c : Clause Row) : Clause Row :=
  { compare := fun a b => c.compare b a
    trans := by
      have := c.trans
      exact TransCmp.opposite }

/-- The order of several expressions, the first one first. -/
def order : List (Clause Row) → Row → Row → Ordering
  | [] => fun _ _ => .eq
  | c :: rest => compareLex c.compare (order rest)

instance trans_order (clauses : List (Clause Row)) : TransCmp (order clauses) := by
  induction clauses with
  | nil => exact { eq_swap := rfl, isLE_trans := fun _ _ => rfl }
  | cons c rest ih =>
      have := c.trans
      exact inferInstanceAs (TransCmp (compareLex c.compare (order rest)))

end Clause

/-- A mapped class: the columns and hybrid properties one can sort by. -/
structure Model (Row : Type) where
  name : String
  sortable : List String
  column : String → Clause Row

inductive SortingError where
  | typeError (message : String)
  | valueError (message : String)
  | attributeError (message : String)
  deriving DecidableEq

/-- What a statement selects from. `joined`: the models of `_join`. -/
structure Source (Row : Type) where
  model : Model Row
  primaryKeys : List String
  joined : List (Model Row)

/-- `type(value).__name__`. -/
def typeName : Json → String
  | .null => "NoneType"
  | .bool _ => "bool"
  | .int _ => "int"
  | .float _ => "float"
  | .str _ => "str"
  | .list _ => "list"
  | .dict _ => "dict"

namespace Source

variable {Row : Type} (source : Source Row)

/-- The model that a sorting field names by its prefix. -/
def target (name : String) : Option (Model Row) :=
  if name = source.model.name then some source.model else source.joined.find? fun model =>
    model.name = name

/-- One sorting item, the `i`-th. -/
def clause (i : Nat) (item : Json) : Except SortingError (Clause Row) :=
  let valueError (message : String) : Except SortingError (Clause Row) :=
    .error (.valueError message)
  match item with
  | .dict entries =>
      match (Json.find "field" entries).getD .null with
      | .str field =>
          let name := String.ofList (field.toList.takeWhile (· ≠ '.'))
          let attrName := String.ofList ((field.toList.dropWhile (· ≠ '.')).drop 1)
          let order := (Json.find "order" entries).getD (.str "asc")
          if field = "" then
            valueError ("Sorting item #" ++ toString i ++ " missing required 'field'")
          else if '.' ∉ field.toList then
            valueError ("Invalid field format '" ++ field ++ "' in item #" ++ toString i ++
              ". Expected 'Model.field'")
          else
            match source.target name with
            | none =>
                valueError ("Sorting field '" ++ field ++ "' in item #" ++ toString i ++
                  " does not match model '" ++
                  source.model.name ++ "' or any joined model")
            | some model =>
                if attrName ∉ model.sortable then
                  valueError ("Attribute '" ++ attrName ++ "' in item #" ++ toString i ++
                    " is not a valid column or hybrid property of " ++ name)
                else
                  match order with
                  | .str "asc" => .ok (model.column attrName)
                  | .str "desc" => .ok (model.column attrName).desc
                  | order =>
                      valueError ("Invalid sorting order '" ++ Text.display order ++
                        "' in item #" ++ toString i ++
                        ". Must be 'asc' or 'desc'")
      | field =>
          if field.truthy then
            .error (.attributeError ("'" ++ typeName field ++ "' object has no attribute 'split'"))
          else valueError ("Sorting item #" ++ toString i ++ " missing required 'field'")
  | item =>
      .error (.typeError ("Invalid sorting item at index " ++ toString i ++ ": " ++ Text.repr item))

def clauses : List Json → Nat → Except SortingError (List (Clause Row))
  | [], _ => .ok []
  | item :: rest, i => do
      let first ← source.clause i item
      let others ← clauses rest (i + 1)
      .ok (first :: others)

def applySorting : Json → Except SortingError (List (Clause Row))
  | .list items => source.clauses items 0
  | _ => .error (.typeError "_sorting must be a list of sorting objects")

/-- The ORDER BY of `_construct_stmt`. `score`: the total score of a search that asks for
relevance, which counts only without sorting. -/
def constructOrder (sorting : Option Json) (score : Option (Clause Row)) :
    Except SortingError (List (Clause Row)) :=
  match sorting with
  | some sorting => source.applySorting sorting
  | none =>
      match score with
      | some score => .ok [score.desc]
      | none => .ok (source.primaryKeys.map source.model.column)

end Source

/-- A query that `get_many` accepts, and the rows that match it. -/
structure GetMany (Row : Type) where
  source : Source Row
  sorting : Option Json
  score : Option (Clause Row)
  rows : List Row
  clauses : List (Clause Row)
  accepted : source.constructOrder sorting score = .ok clauses

structure Arguments where
  limit : Int
  offset : Nat
  reversed : Bool
  count : Bool

/-- The instances, or the instances and their number. -/
inductive Reply (Row : Type) where
  | instances (results : List Row)
  | counted (results : List Row) (total : Nat)
  deriving DecidableEq

def Reply.results {Row : Type} : Reply Row → List Row
  | instances results => results
  | counted results _ => results

def queryMinLimit : Int := 1

def queryMaxLimit : Int := 100

def queryDefaultLimit : Nat := 50

def clamp (value low high : Int) : Int := max low (min value high)

/-- `_get_instances`, when the database has answered the statement without limit and offset
by `out`. -/
def GetMany.getInstances {Row : Type} (q : GetMany Row) (args : Arguments) (out : List Row) :
    Reply Row :=
  if args.count then .counted out q.rows.length
  else
    let results := Pages.page (clamp args.limit queryMinLimit queryMaxLimit).toNat args.offset out
    .instances (if args.reversed then results.reverse else results)

/-- A query of the search engine. `score`: the total score, if there are search terms. -/
structure EngineQuery (Row : Type) where
  score : Option (Clause Row)
  sorting : List (Clause Row × Bool)
  rows : List Row

namespace EngineQuery

variable {Row : Type}

/-- Sorting overrides relevance. A pair tells whether its option is descending. -/
def clauses (q : EngineQuery Row) : List (Clause Row) :=
  match q.sorting with
  | [] => (q.score.map Clause.desc).toList
  | sorting => sorting.map fun (c, descending) => if descending then c.desc else c

/-- `search`, when the database has answered the query by `out`. -/
def search (limit offset : Int) (out : List Row) : Except String (List Row) :=
  if limit < 0 ∨ offset < 0 then .error "Both limit and offset must be a non-negative integer"
  else .ok (Pages.page limit.toNat offset.toNat out)

end EngineQuery

inductive Query (Row : Type) where
  | many (q : GetMany Row)
  | engine (q : EngineQuery Row)

namespace Query

variable {Row : Type}

def rows : Query Row → List Row
  | many q => q.rows
  | engine q => q.rows

def clauses : Query Row → List (Clause Row)
  | many q => q.clauses
  | engine q => q.clauses

/-- What the query orders by. -/
def order (q : Query Row) : Row → Row → Ordering := Clause.order q.clauses

instance trans_order (q : Query Row) : TransCmp q.order := Clause.trans_order q.clauses

/-- Ties come in any order. -/
def Answer (q : Query Row) (out : List Row) : Prop := Answers.Answer q.order q.rows out

/-- The page at an offset. -/
def page (limit offset : Nat) (out : List Row) : Query Row → Except String (List Row)
  | many q => .ok (q.getInstances ⟨limit, offset, false, false⟩ out).results
  | engine _ => EngineQuery.search limit offset out

/-- However each query is answered, the pages up to the total have each matching row exactly
once, in order. -/
def VisitsOnce (q : Query Row) (limit : Nat) : Prop :=
  ∀ answers : Nat → List Row, (∀ i, q.Answer (answers i)) →
    ∃ pages, ((List.range (Answers.pageCount limit q.rows.length)).mapM fun i =>
        q.page limit (i * limit) (answers i)) = .ok pages ∧
      pages.flatten.Nodup ∧ (∀ row, row ∈ pages.flatten ↔ row ∈ q.rows) ∧
      pages.flatten.Pairwise fun a b => (q.order a b).isLE = true

theorem page_eq (q : Query Row) {limit : Nat} (hpos : 1 ≤ limit) (hmax : limit ≤ 100) (offset : Nat)
    (out : List Row) :
    q.page limit offset out = .ok (Pages.page limit offset out) := by
  cases q with
  | many q =>
      have hclamp : clamp limit queryMinLimit queryMaxLimit = limit := by
        rw [clamp, queryMinLimit, queryMaxLimit]
        omega
      rw [page, GetMany.getInstances]
      simp only [Bool.false_eq_true, if_false, hclamp, Int.toNat_natCast, Reply.results]
  | engine q =>
      have hnonneg : ¬ ((limit : Int) < 0 ∨ (offset : Int) < 0) := by omega
      rw [page, EngineQuery.search, if_neg hnonneg, Int.toNat_natCast, Int.toNat_natCast]

/-- Walking visits every row once exactly if no row is repeated and no page boundary splits
different rows that tie. -/
theorem visitsOnce_iff (q : Query Row) {limit : Nat} (hpos : 1 ≤ limit) (hmax : limit ≤ 100) :
    q.VisitsOnce limit ↔
      q.rows.Nodup ∧ ∀ k, ¬ Answers.Splits q.order q.rows (k * limit) := by
  rw [← Answers.walk_once_iff hpos]
  apply forall₂_congr
  intro answers _
  have hpages : ((List.range (Answers.pageCount limit q.rows.length)).mapM fun i =>
      q.page limit (i * limit) (answers i)) =
        .ok ((List.range (Answers.pageCount limit q.rows.length)).map fun i =>
          Pages.page limit (i * limit) (answers i)) :=
    Pages.mapM_of_forall fun i _ => q.page_eq hpos hmax (i * limit) (answers i)
  rw [hpages]
  constructor
  · rintro ⟨pages, heq, honce⟩
    obtain rfl := Except.ok.inj heq
    rw [Answers.walk, List.flatMap_def]
    exact honce
  · intro honce
    rw [Answers.walk, List.flatMap_def] at honce
    exact ⟨_, rfl, honce⟩

/-- Without sorting, `get_many` orders by the primary key, and every row is visited once, if it
is in the result once. -/
theorem visitsOnce_of_primaryKeys (q : GetMany Row) {limit : Nat} (hpos : 1 ≤ limit)
    (hmax : limit ≤ 100) (hsorting : q.sorting = none) (hscore : q.score = none)
    (hnodup : q.rows.Nodup) (hkeys : ∀ x ∈ q.rows, ∀ y ∈ q.rows,
      Clause.order (q.source.primaryKeys.map q.source.model.column) y x = .eq → x = y) :
    (many q).VisitsOnce limit := by
  have haccepted := q.accepted
  rw [hsorting, hscore] at haccepted
  have hclauses : q.source.primaryKeys.map q.source.model.column = q.clauses :=
    Except.ok.inj haccepted
  rw [hclauses] at hkeys
  apply ((many q).visitsOnce_iff hpos hmax).mpr
  exact ⟨hnodup, fun k => Answers.not_splits_of_injective hkeys (k * limit)⟩

end Query

/-- With `_count` the rows are the page, and their number comes with them. -/
def GetMany.CountsPage {Row : Type} (q : GetMany Row) (limit : Int) (offset : Nat)
    (out : List Row) : Prop :=
  q.getInstances ⟨limit, offset, false, true⟩ out =
    .counted (Pages.page (clamp limit queryMinLimit queryMaxLimit).toNat offset out) q.rows.length

instance {Row : Type} [DecidableEq Row] (q : GetMany Row) (limit : Int) (offset : Nat)
    (out : List Row) :
    Decidable (q.CountsPage limit offset out) :=
  inferInstanceAs (Decidable (_ = _))

theorem GetMany.countsPage_iff {Row : Type} (q : GetMany Row) {limit : Int} {offset : Nat}
    {out : List Row} (hout : (Query.many q).Answer out) :
    q.CountsPage limit offset out ↔
      q.rows = [] ∨ offset = 0 ∧
      (q.rows.length : Int) ≤ clamp limit queryMinLimit queryMaxLimit := by
  have hlength : out.length = q.rows.length := hout.perm.length_eq
  have hpositive : 0 < clamp limit queryMinLimit queryMaxLimit := by
    rw [clamp, queryMinLimit, queryMaxLimit]
    omega
  have hnil : q.rows = [] ↔ q.rows.length = 0 := List.length_eq_zero_iff.symm
  have hcounts : q.CountsPage limit offset out ↔
      out = Pages.page (clamp limit queryMinLimit queryMaxLimit).toNat offset out := by
    rw [CountsPage, getInstances, if_pos rfl, Reply.counted.injEq]
    exact and_iff_left rfl
  rw [hcounts, hnil]
  constructor
  · intro heq
    have hcut := congrArg List.length heq
    rw [Pages.page, List.length_take, List.length_drop, hlength] at hcut
    omega
  · intro hfits
    rw [Pages.page, List.take_of_length_le]
    · rcases hfits with hempty | ⟨rfl, -⟩
      · rw [List.drop_of_length_le (by omega)]
        exact List.length_eq_zero_iff.mp (by omega)
      · rfl
    · rw [List.length_drop]
      omega

end Graveboards.Paging
