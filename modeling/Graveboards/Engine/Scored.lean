import Graveboards.Engine.Sorting

/-!
The scores that are joined to a search for terms. The tables of the categories
lead to the root through their foreign keys; each has a root at most once, so
the outer joins leave the rows as they are.
-/

namespace Graveboards.Engine

open Library Library.Relational Library.Selection Search Scores

/-- `ROW_NUMBER` in the statements of the terms, and in each aggregation by the name of its
table, among equal scores. -/
structure ScorePlan where
  ranks : Ranks
  aggregated : String → Ranking Row Row.score

section Tables

variable {α : Type} (plan : ScorePlan) (w : World α) (search : SearchTermsSchema)

/-- `category_score_ctes.get(category)` -/
def categoryScoreCte (scope : Scope) (category : SearchableFieldCategory) : Option ScoreCte :=
  match searchTermsScoredCtes plan.ranks categoryFieldGroups w.toDatabase search scope with
  | .ok categoryScoreCtes => scalar categoryScoreCtes category
  | .error _ => none

/-- `aggregated_child_scores_to_parent_cte_factory` -/
def aggregatedChildScoresToParent (cteName : String) (childScoreCte : Option ScoreCte)
    (mapping : Mapping) :
    Option ScoreCte :=
  childScoreCte.map fun scores => aggregatedChildScores (plan.aggregated cteName) scores mapping

/-- The association with beatmapsets as children. -/
def beatmapsetToBeatmap : Mapping := w.links.map Prod.swap

/-- `Request.__table__`, from `beatmapset_snapshot_id` to `queue_id`. -/
def snapshotToQueue : Mapping :=
  (w.ids .request).map fun r => ((w.request r).beatmapset_snapshot_id, (w.request r).queue_id)

def requestToQueue : Mapping := (w.ids .request).map fun r => (r, (w.request r).queue_id)

/-- The tables that a scope joins, each on the column that a root is given. -/
def scoreTables (scope : Scope) : List (Option ScoreCte × (Int → Int)) :=
  let cte := categoryScoreCte plan w search scope
  let aggregatedBeatmap :=
    aggregatedChildScoresToParent plan "aggregated_beatmap_scores_cte" (cte .beatmap) w.links
  match scope with
  | .beatmaps =>
      [(cte .beatmap, id),
        (aggregatedChildScoresToParent plan "aggregated_beatmapset_scores_cte" (cte .beatmapset)
          (beatmapsetToBeatmap w), id)]
  | .beatmapsets => [(aggregatedBeatmap, id), (cte .beatmapset, id)]
  | .scores => []
  | .queues =>
      [(aggregatedChildScoresToParent plan "queue_aggregated_from_beatmap_scores_cte"
        aggregatedBeatmap
          (snapshotToQueue w), id),
        (aggregatedChildScoresToParent plan "queue_aggregated_from_beatmapset_scores_cte"
          (cte .beatmapset) (snapshotToQueue w), id),
        (cte .queue, id),
        (aggregatedChildScoresToParent plan
          "queue_aggregated_from_request_scores_cte" (cte .request)
          (requestToQueue w), id)]
  | .requests =>
      [(aggregatedBeatmap, fun r => (w.request r).beatmapset_snapshot_id),
        (cte .beatmapset, fun r => (w.request r).beatmapset_snapshot_id),
        (cte .request, id)]

end Tables

/-- A row of the search: the columns of its joins and the scores of its categories. -/
structure Found (α : Type) where
  root : Int
  columns : List (Columns α)
  scores : List (Option ScoreRow)

namespace Found

variable {α : Type}

/-- `coalesce(score, 0) + …`, where a category without a table counts zero. -/
def totalScore (row : Found α) : ℤ :=
  (row.scores.map fun score => (score.map ScoreRow.score).getD 0).sum

end Found

/-- `outerjoin` of the tables that there are. -/
def joinScores {α : Type} (rows : List (Found α)) :
    List (Option ScoreCte × (Int → Int)) → List (Found α)
  | [] => rows
  | (none, _) :: rest => joinScores rows rest
  | (some cte, on) :: rest =>
      let joined := outerJoin rows cte fun row => on row.root
      joinScores (joined.map fun x => { x.1 with scores := x.1.scores ++ [x.2] }) rest

section Joining

variable {α : Type}

/-- The scores of a root in the tables that there are. -/
def scoresOf (tables : List (Option ScoreCte × (Int → Int))) (root : Int) :
    List (Option ScoreRow) :=
  tables.filterMap fun x => x.1.map fun cte => scalar cte (x.2 root)

/-- A table without repeated roots. -/
def Unrepeated (table : Option ScoreCte) : Prop := ∀ cte ∈ table, ∀ key, (group cte key).length ≤ 1

theorem joinScores_eq {tables : List (Option ScoreCte × (Int → Int))}
    (h : ∀ x ∈ tables, Unrepeated x.1) (rows : List (Found α)) :
    joinScores rows tables = rows.map fun row =>
      { row with scores := row.scores ++ scoresOf tables row.root } := by
  induction tables generalizing rows with
  | nil => simp [joinScores, scoresOf]
  | cons table rest ih =>
      obtain ⟨cte?, on⟩ := table
      have hrest := ih (fun x hx => h x (List.mem_cons_of_mem _ hx))
      cases cte? with
      | none => rw [joinScores, hrest]; rfl
      | some cte =>
          have hone := h (some cte, on) List.mem_cons_self cte rfl
          rw [joinScores, hrest, outerJoin_eq hone, List.map_map, List.map_map]
          refine List.map_congr_left (fun row _ => ?_)
          simp [scoresOf]

theorem length_group_groupBy_le (rows : List Row) (key : Int) :
    (group (groupBy rows ScoreRow.of) key).length ≤ 1 := by
  rw [group_groupBy]
  split
  · exact Nat.zero_le 1
  · exact Nat.le_refl 1

variable {plan : ScorePlan} {w : World α} {search : SearchTermsSchema}

/-- There is a table for each category of the scope with a statement. -/
theorem mem_categoryScoreCte {scope : Scope} {category : SearchableFieldCategory} {cte : ScoreCte} :
    cte ∈ categoryScoreCte plan w search scope category ↔
      (∃ categories, scope.categories = some categories ∧ category ∈ categories ∧
        termScoreStmts w.toDatabase search category plan.ranks 0 ≠ []) ∧
      cte = scoreCte plan.ranks categoryFieldGroups w.toDatabase search category := by
  rw [categoryScoreCte, searchTermsScoredCtes]
  cases hcategories : scope.categories with
  | none => simp
  | some categories =>
      let scored := (categories.filter fun category =>
        !(termScoreStmts w.toDatabase search category plan.ranks 0).isEmpty).map fun category =>
          (category, scoreCte plan.ranks categoryFieldGroups w.toDatabase search category)
      have hmem {cte : ScoreCte} : (category, cte) ∈ scored ↔ (category ∈ categories ∧
          termScoreStmts w.toDatabase search category plan.ranks 0 ≠ []) ∧
          cte = scoreCte plan.ranks categoryFieldGroups w.toDatabase search category := by
        simp only [scored, List.mem_map, List.mem_filter, Bool.not_eq_true',
          List.isEmpty_eq_false_iff]
        constructor
        · rintro ⟨category', hcategory, h⟩
          obtain ⟨rfl, rfl⟩ := Prod.mk.inj h
          exact ⟨hcategory, rfl⟩
        · rintro ⟨hcategory, rfl⟩
          exact ⟨category, hcategory, rfl⟩
      simp only [Option.some.injEq, exists_eq_left', ← hmem]
      change cte ∈ scalar scored category ↔ (category, cte) ∈ scored
      rw [scalar_eq_head?]
      constructor
      · exact fun h => mem_group.mp (List.mem_of_mem_head? h)
      · intro h
        obtain ⟨first, hfirst⟩ := Option.isSome_iff_exists.mp
          (List.isSome_head?.mpr (List.ne_nil_of_mem (mem_group.mpr h)))
        have hsame := (hmem.mp (mem_group.mp (List.mem_of_mem_head? hfirst))).2
        rw [(hmem.mp h).2, ← hsame]
        exact hfirst

theorem unrepeated_categoryScoreCte (scope : Scope) (category : SearchableFieldCategory) :
    Unrepeated (categoryScoreCte plan w search scope category) := by
  intro cte hcte key
  rw [(mem_categoryScoreCte.mp hcte).2]
  exact length_group_groupBy_le _ key

theorem unrepeated_aggregated (cteName : String) (childScoreCte : Option ScoreCte)
    (mapping : Mapping) :
    Unrepeated (aggregatedChildScoresToParent plan cteName childScoreCte mapping) := by
  intro cte hcte key
  obtain ⟨scores, -, rfl⟩ := Option.map_eq_some_iff.mp hcte
  exact length_group_groupBy_le _ key

/-- No table of a scope repeats a root. -/
theorem unrepeated_scoreTables (scope : Scope) :
    ∀ x ∈ scoreTables plan w search scope, Unrepeated x.1 := by
  have hcategory (category : SearchableFieldCategory) :
      Unrepeated (categoryScoreCte plan w search scope category) :=
    unrepeated_categoryScoreCte scope category
  have haggregated (cteName : String) (childScoreCte : Option ScoreCte) (mapping : Mapping) :
      Unrepeated (aggregatedChildScoresToParent plan cteName childScoreCte mapping) :=
    unrepeated_aggregated cteName childScoreCte mapping
  cases scope with
  | scores => exact List.forall_mem_nil _
  | _ => simp [scoreTables, hcategory, haggregated]

end Joining

end Graveboards.Engine
