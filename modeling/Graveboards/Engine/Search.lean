import Graveboards.Engine.Filtering
import Graveboards.Engine.Scored
import Graveboards.Engine.Terms

/-!
The query of the search engine: the rows of the scope joined with a table for
the search terms, one for each sorting option and one for each filtered field.
An entity is found if it matches all of them, once for each way in which it
passes the filters.
-/

namespace Graveboards.Engine

open Std
open Library Library.Relational Library.Selection Scores Search Search.Operators

/-- `SearchEngine`. No sorting and an empty one are the same, and the filters are the
filtered fields of the categories in order. -/
structure SearchEngine (α : Type) where
  scope : Scope
  searchTerms : Option SearchTermsSchema
  sorting : SortingSchema
  filters : List (FieldFilter α)

variable {α : Type} [LinearOrder α]

variable (α) in
/-- The database that a query is run on. -/
structure Backend where
  column : Column α
  world : World α
  plan : Plan α
  scorePlan : ScorePlan

section Compose

variable (db : Backend α) (se : SearchEngine α)

/-- The join of `_apply_search_terms` with the filter. -/
def applySearchTerms : Except EngineError (List (Joined Int (Columns α))) :=
  match se.searchTerms with
  | none => .ok []
  | some search => do
      let filterCte ← searchTermsFilteredCteFactory db.world search se.scope
        (se.scope.categories.getD [])
      return [⟨filterCte.map fun id => (id, .key), []⟩]

/-- `_apply_sorting` -/
def applySorting : Except EngineError (List (Joined Int (Columns α))) :=
  se.sorting.mapM (applySortingOption db.plan db.world se.scope)

/-- `_apply_filters` -/
def applyFilters : Except EngineError (List (Joined Int (Columns α))) :=
  se.filters.mapM fun filter =>
    (applyFilterConditions db.column db.world db.plan.picked se.scope filter).mapError
      .argumentError

/-- `_compose_query`. There is no model for scores, and two options on one field have tables of
one name. -/
def composeQuery : Except EngineError (List (Joined Int (Columns α))) := do
  if se.scope = .scores then throw .unsupportedScope
  let terms ← applySearchTerms db se
  let sorting ← applySorting db se
  let filters ← applyFilters db se
  if (se.sorting.map SortingOption.field).Nodup then return terms ++ sorting ++ filters
  else throw .compileError

/-- The rows of `query`, before they are ordered. -/
def searchRows : Except EngineError (List (Found α)) := do
  let tables ← composeQuery db se
  let rows := (select (db.world.base se.scope) tables).map fun x => Found.mk x.1 x.2 []
  match se.searchTerms with
  | none => return rows
  | some search => return joinScores rows (scoreTables db.scorePlan db.world search se.scope)

/-- A clause on an expression. -/
def clauseOn {Row β : Type} (cmp : β → β → Ordering) [h : TransCmp cmp] (key : Row → β) :
    Paging.Clause Row where
  compare a b := cmp (key a) (key b)
  trans := { eq_swap := h.eq_swap, isLE_trans := h.isLE_trans }

/-- `total_score_column.desc()` -/
def totalScoreClause : Paging.Clause (Found α) := (clauseOn compare Found.totalScore).desc

/-- The sorting clauses of options whose tables start with the `i`-th. -/
def sortingClauses (options : SortingSchema) (i : Nat) : List (Paging.Clause (Found α)) :=
  (options.zipIdx i).map fun x =>
    clauseOn (sortFunc (x.1.order.getD .ascending)) fun row => (row.columns.getD x.2 .key).value

/-- `ORDER BY`: sorting replaces the order by score. -/
def orderBy : List (Paging.Clause (Found α)) :=
  match se.searchTerms with
  | none => sortingClauses se.sorting 0
  | some _ => if se.sorting = [] then [totalScoreClause] else sortingClauses se.sorting 1

end Compose

section Matching

variable (db : Backend α) (se : SearchEngine α)

/-- The entity matches all parts of the search. -/
structure Matches (root : Int) : Prop where
  listed : root ∈ db.world.base se.scope
  terms : ∀ search ∈ se.searchTerms, ∀ term ∈ search.terms,
    TermMatches db.world search se.scope (se.scope.categories.getD []) root term
  sorting : ∀ option ∈ se.sorting, ∀ order ∈ option.order,
    Kept db.plan db.world se.scope option.field order root
  filters : ∀ filter ∈ se.filters, Passes db.column db.world db.plan.picked se.scope filter root

/-- The ways in which an entity passes the filters. -/
def ways (root : Int) : Nat :=
  (se.filters.map fun filter =>
    passings db.column db.world db.plan.picked se.scope filter root).prod

variable {db se} {terms sorting filters tables : List (Joined Int (Columns α))}
  {rows : List (Found α)}

theorem exists_applySearchTerms (h : applySearchTerms db se = .ok terms) (root : Int) :
    (∀ table ∈ terms, ∃ columns, (root, columns) ∈ table.rows ∧ table.passes root columns = true) ↔
      ∀ search ∈ se.searchTerms, ∀ term ∈ search.terms,
        TermMatches db.world search se.scope (se.scope.categories.getD []) root term := by
  rw [applySearchTerms] at h
  cases hsearch : se.searchTerms with
  | none =>
      rw [hsearch] at h
      obtain rfl := Except.ok.inj h
      simp
  | some search =>
      rw [hsearch] at h
      cases hcte : searchTermsFilteredCteFactory db.world search se.scope
        (se.scope.categories.getD []) with
      | error e =>
          simp only [hcte] at h
          cases h
      | ok ids =>
          simp only [hcte] at h
          obtain rfl := Except.ok.inj h
          have hexact := mem_searchTermsFilteredCteFactory hcte root
          simp [← hexact, Joined.passes]

theorem countP_applySearchTerms (h : applySearchTerms db se = .ok terms) (root : Int) :
    ∀ table ∈ terms, (group table.rows root).countP (table.passes root) ≤ 1 := by
  rw [applySearchTerms] at h
  cases hsearch : se.searchTerms with
  | none =>
      rw [hsearch] at h
      obtain rfl := Except.ok.inj h
      exact List.forall_mem_nil _
  | some search =>
      rw [hsearch] at h
      cases hcte : searchTermsFilteredCteFactory db.world search se.scope
        (se.scope.categories.getD []) with
      | error e =>
          simp only [hcte] at h
          cases h
      | ok ids =>
          simp only [hcte] at h
          obtain rfl := Except.ok.inj h
          intro table htable
          obtain rfl := List.mem_singleton.mp htable
          have hnodup := nodup_searchTermsFilteredCteFactory hcte
          have hgroup : group (ids.map fun id => (id, (Columns.key : Columns α))) root =
              (ids.filter fun id => id = root).map fun _ => .key := by
            rw [group, List.filter_map, List.map_map]
            rfl
          refine Nat.le_trans List.countP_le_length ?_
          rw [hgroup, List.length_map, ← List.countP_eq_length_filter]
          exact List.nodup_iff_count_le_one.mp hnodup root

theorem exists_applySorting (h : applySorting db se = .ok sorting) (root : Int) :
    (∀ table ∈ sorting, ∃ columns, (root, columns) ∈ table.rows ∧
      table.passes root columns = true) ↔
      ∀ option ∈ se.sorting, ∀ order ∈ option.order,
      Kept db.plan db.world se.scope option.field order root := by
  have hforall := Pages.mapM_eq_ok_iff.mp h
  clear h
  generalize se.sorting = options at hforall ⊢
  induction hforall with
  | nil => simp
  | cons htable _ ih =>
      rw [List.forall_mem_cons, List.forall_mem_cons]
      exact and_congr (exists_applySortingOption htable root) ih

theorem countP_applySorting (h : applySorting db se = .ok sorting) (root : Int) :
    ∀ table ∈ sorting, (group table.rows root).countP (table.passes root) ≤ 1 := by
  have hforall := Pages.mapM_eq_ok_iff.mp h
  clear h
  generalize se.sorting = options at hforall ⊢
  induction hforall with
  | nil => exact List.forall_mem_nil _
  | cons htable _ ih => exact List.forall_mem_cons.mpr ⟨countP_applySortingOption htable root, ih⟩

/-- The tables of the filters have the rows that pass. -/
theorem countP_applyFilters (h : applyFilters db se = .ok filters) (root : Int) :
    List.Forall₂ (fun filter (table : Joined Int (Columns α)) =>
      (group table.rows root).countP (table.passes root) =
        passings db.column db.world db.plan.picked se.scope filter root) se.filters filters := by
  refine (Pages.mapM_eq_ok_iff.mp h).imp (fun filter table htable => ?_)
  cases hconditions : applyFilterConditions db.column db.world db.plan.picked se.scope filter with
  | error e =>
      rw [hconditions] at htable
      cases htable
  | ok table' =>
      rw [hconditions] at htable
      obtain rfl := Except.ok.inj htable
      exact countP_applyFilterConditions hconditions root

theorem exists_applyFilters (h : applyFilters db se = .ok filters) (root : Int) :
    (∀ table ∈ filters, ∃ columns, (root, columns) ∈ table.rows ∧
      table.passes root columns = true) ↔
      ∀ filter ∈ se.filters, Passes db.column db.world db.plan.picked se.scope filter root := by
  have hforall := countP_applyFilters h root
  clear h
  generalize se.filters = conditions at hforall ⊢
  induction hforall with
  | nil => simp
  | cons hcount _ ih =>
      rw [List.forall_mem_cons, List.forall_mem_cons]
      refine and_congr ?_ ih
      rw [exists_passes_iff, passes_iff, hcount]

theorem prod_applyFilters (h : applyFilters db se = .ok filters) (root : Int) :
    (filters.map fun table => (group table.rows root).countP (table.passes root)).prod =
      ways db se root := by
  have hforall := countP_applyFilters h root
  clear h
  rw [ways]
  generalize se.filters = conditions at hforall ⊢
  induction hforall with
  | nil => rfl
  | cons hcount _ ih =>
      rw [List.map_cons, List.map_cons, List.prod_cons, List.prod_cons, hcount, ih]

/-- What a composed query is made of. -/
theorem composeQuery_eq_ok (h : composeQuery db se = .ok tables) :
    ∃ terms sorting filters, applySearchTerms db se = .ok terms ∧ applySorting db se = .ok sorting ∧
      applyFilters db se = .ok filters ∧ tables = terms ++ sorting ++ filters := by
  rw [composeQuery] at h
  split at h
  · cases h
  · cases hterms : applySearchTerms db se with
    | error e =>
        rw [hterms] at h
        cases h
    | ok terms =>
        cases hsorting : applySorting db se with
        | error e =>
            rw [hterms, hsorting] at h
            cases h
        | ok sorting =>
            cases hfilters : applyFilters db se with
            | error e =>
                rw [hterms, hsorting, hfilters] at h
                cases h
            | ok filters =>
                rw [hterms, hsorting, hfilters] at h
                by_cases hnodup : (se.sorting.map SortingOption.field).Nodup
                · refine ⟨terms, sorting, filters, rfl, rfl, rfl, ?_⟩
                  simp only [hnodup, if_true] at h
                  exact (Except.ok.inj h).symm
                · simp only [hnodup, if_false] at h
                  cases h

variable (db se) in
/-- The scores of an entity in the categories with a table. -/
def entityScores (root : Int) : List (Option Scores.ScoreRow) :=
  match se.searchTerms with
  | none => []
  | some search => scoresOf (scoreTables db.scorePlan db.world search se.scope) root

/-- The rows are those of the joined tables; the scores add none. -/
theorem searchRows_eq_ok (h : searchRows db se = .ok rows) :
    ∃ tables, composeQuery db se = .ok tables ∧
      rows = (select (db.world.base se.scope) tables).map fun x =>
        ⟨x.1, x.2, entityScores db se x.1⟩ := by
  rw [searchRows] at h
  cases hcompose : composeQuery db se with
  | error e =>
      rw [hcompose] at h
      cases h
  | ok tables =>
      rw [hcompose] at h
      refine ⟨tables, rfl, ?_⟩
      cases hsearch : se.searchTerms with
      | none =>
          simp only [hsearch] at h
          obtain rfl := Except.ok.inj h
          simp [entityScores, hsearch]
      | some search =>
          simp only [hsearch] at h
          obtain rfl := Except.ok.inj h
          rw [joinScores_eq (unrepeated_scoreTables se.scope), List.map_map]
          simp [entityScores, hsearch, Function.comp_def]

theorem map_root_searchRows (h : searchRows db se = .ok rows) :
    ∃ tables, composeQuery db se = .ok tables ∧
      rows.map Found.root = (select (db.world.base se.scope) tables).map Prod.fst := by
  obtain ⟨tables, hcompose, rfl⟩ := searchRows_eq_ok h
  exact ⟨tables, hcompose, by rw [List.map_map]; rfl⟩

/-- The entities that are found are those that match. -/
theorem mem_searchRows (h : searchRows db se = .ok rows) (root : Int) :
    root ∈ rows.map Found.root ↔ Matches db se root := by
  obtain ⟨tables, hcompose, hroots⟩ := map_root_searchRows h
  obtain ⟨terms, sorting, filters, hterms, hsorting, hfilters, rfl⟩ := composeQuery_eq_ok hcompose
  rw [hroots, mem_map_fst_select, List.forall_mem_append, List.forall_mem_append,
    exists_applySearchTerms hterms, exists_applySorting hsorting, exists_applyFilters hfilters]
  constructor
  · rintro ⟨hlisted, ⟨hterms, hsorting⟩, hfilters⟩
    exact ⟨hlisted, hterms, hsorting, hfilters⟩
  · rintro ⟨hlisted, hterms, hsorting, hfilters⟩
    exact ⟨hlisted, ⟨hterms, hsorting⟩, hfilters⟩

/-- An entity that matches is found once for each way in which it passes the filters. -/
theorem count_searchRows (hw : db.world.Constrained) (h : searchRows db se = .ok rows) {root : Int}
    (hroot : Matches db se root) : (rows.map Found.root).count root = ways db se root := by
  obtain ⟨tables, hcompose, hroots⟩ := map_root_searchRows h
  obtain ⟨terms, sorting, filters, hterms, hsorting, hfilters, rfl⟩ := composeQuery_eq_ok hcompose
  have hone (tables : List (Joined Int (Columns α)))
      (hle : ∀ table ∈ tables, (group table.rows root).countP (table.passes root) ≤ 1)
      (hexists : ∀ table ∈ tables, ∃ columns, (root, columns) ∈ table.rows ∧
        table.passes root columns = true) :
      (tables.map fun table => (group table.rows root).countP (table.passes root)).prod = 1 := by
    refine List.prod_eq_one (fun n hn => ?_)
    obtain ⟨table, htable, rfl⟩ := List.mem_map.mp hn
    exact Nat.le_antisymm (hle table htable) (exists_passes_iff.mp (hexists table htable))
  rw [hroots, count_select, List.map_append, List.map_append, List.prod_append, List.prod_append,
    hone terms (countP_applySearchTerms hterms root)
    ((exists_applySearchTerms hterms root).mpr hroot.terms),
    hone sorting (countP_applySorting hsorting root)
    ((exists_applySorting hsorting root).mpr hroot.sorting), prod_applyFilters hfilters,
    List.count_eq_one_of_mem (db.world.nodup_base hw se.scope) hroot.listed]
  omega

end Matching

/-! A queue with two requests and a queue without any. -/

def sampleWorld : World Int where
  table
    | .queue => ⟨[1, 2], by decide, fun _ _ => none⟩
    | .request => ⟨[5, 6], by decide, fun _ _ => none⟩
    | .beatmapset => ⟨[50, 60], by decide, fun _ _ => none⟩
    | _ => ⟨[], List.nodup_nil, fun _ _ => none⟩
  like _ _ _ := false
  links := []
  owners := []
  beatmapset s := ⟨s, 0⟩
  request r := ⟨0, 10 * r, 10 * r, 1⟩
  queueUser _ := 0
  profileUser p := p
  beatmapListings := []
  beatmapsetListings := []
  value _ id := some id

theorem constrained_sampleWorld : sampleWorld.Constrained where
  links := List.nodup_nil
  owners := List.nodup_nil
  beatmapListings := List.nodup_nil
  beatmapsetListings := List.nodup_nil
  profiles _ hp := absurd hp List.not_mem_nil

def sampleBackend : Backend Int where
  column := ⟨fun _ => false, fun _ _ => false⟩
  world := sampleWorld
  plan :=
    { picked := fun _ => Choice.first _
      numbered := fun _ order => Numbering.stable (sortFunc order)
      kept := fun _ _ => Choice.first _ }
  scorePlan := ⟨earliestRanks, fun _ => Ranking.earliest Row.score⟩

/-- Queues with a beatmapset that has some favourites. -/
def favouredQueues : SearchEngine Int where
  scope := .queues
  searchTerms := none
  sorting := []
  filters := [⟨⟨46, by decide⟩, [⟨.gte, some 7⟩]⟩]

end Graveboards.Engine
