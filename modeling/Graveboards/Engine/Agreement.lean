import Graveboards.Engine.Search
import Graveboards.Scores.Entries

/-!
Filtering and scoring by search terms are written apart. They agree on what a
field matches, but not on the relations they follow from a request: the filter
looks at every snapshot of the requested beatmapset, the scores at the snapshot
of the request.
-/

namespace Graveboards.Engine

open Library Library.Relational Library.Selection Scores Search

/-- `LIKE` with a wildcard more on either side matches all that it matched. -/
structure Widens (like : Bool → PyStr → PyStr → Bool) : Prop where
  before : ∀ caseSensitive text p, like caseSensitive text p = true →
      like caseSensitive text (percent ++ p) = true
  after : ∀ caseSensitive text p, like caseSensitive text p = true →
      like caseSensitive text (p ++ percent) = true

variable {α : Type}

/-- Rows refer to rows that there are, and a request to a snapshot of its beatmapset. -/
structure World.Referenced (w : World α) : Prop where
  links : ∀ link ∈ w.links, link.1 ∈ w.ids .beatmap ∧ link.2 ∈ w.ids .beatmapset
  queues : ∀ r ∈ w.ids .request, (w.request r).queue_id ∈ w.ids .queue
  snapshots : ∀ r ∈ w.ids .request, (w.request r).beatmapset_snapshot_id ∈ w.ids .beatmapset ∧
    (w.beatmapset (w.request r).beatmapset_snapshot_id).beatmapset_id = (w.request r).beatmapset_id

/-- Which rows of a category a root has scores of. -/
def ScoreReaches (w : World α) : Scope → SearchableFieldCategory → Int → Int → Prop
  | .beatmaps, .beatmap, root, id => id = root
  | .beatmaps, .beatmapset, root, id => (root, id) ∈ w.links
  | .beatmapsets, .beatmap, root, id => (id, root) ∈ w.links
  | .beatmapsets, .beatmapset, root, id => id = root
  | .queues, .beatmap, root, id => ∃ r ∈ w.ids .request,
      (w.request r).queue_id = root ∧ (id, (w.request r).beatmapset_snapshot_id) ∈ w.links
  | .queues, .beatmapset, root, id => ∃ r ∈ w.ids .request,
      (w.request r).queue_id = root ∧ (w.request r).beatmapset_snapshot_id = id
  | .queues, .queue, root, id => id = root
  | .queues, .request, root, id => id ∈ w.ids .request ∧ (w.request id).queue_id = root
  | .requests, .beatmap, root, id => (id, (w.request root).beatmapset_snapshot_id) ∈ w.links
  | .requests, .beatmapset, root, id => id = (w.request root).beatmapset_snapshot_id
  | .requests, .request, root, id => id = root
  | _, _, _, _ => False

section Tables

variable {plan : ScorePlan} {w : World α} {search : SearchTermsSchema} {term : PyStr}

/-- The table there is has an entry for the term. -/
def HasEntryIn (table : Option ScoreCte) (id : Int) (term : PyStr) : Prop :=
  ∃ cte ∈ table, HasEntry cte id term

/-- A table grouped by its id. -/
def Grouped (table : Option ScoreCte) : Prop :=
  ∀ cte ∈ table, ∃ rows, cte = groupBy rows ScoreRow.of

theorem grouped_categoryScoreCte {scope : Scope} {category : SearchableFieldCategory} :
    Grouped (categoryScoreCte plan w search scope category) := by
  intro cte hcte
  exact ⟨_, (mem_categoryScoreCte.mp hcte).2⟩

theorem grouped_aggregated {cteName : String} {table : Option ScoreCte} {mapping : Mapping} :
    Grouped (aggregatedChildScoresToParent plan cteName table mapping) := by
  intro cte hcte
  obtain ⟨scores, -, rfl⟩ := Option.map_eq_some_iff.mp hcte
  exact ⟨_, rfl⟩

theorem hasEntryIn_category_iff {scope : Scope} {category : SearchableFieldCategory} {id : Int} :
    HasEntryIn (categoryScoreCte plan w search scope category) id term ↔
      category ∈ scope.categories.getD [] ∧ MatchesTerm w.toDatabase search category id term := by
  simp only [HasEntryIn, mem_categoryScoreCte]
  constructor
  · rintro ⟨cte, ⟨⟨categories, hcategories, hcategory, -⟩, rfl⟩, hentry⟩
    rw [hcategories]
    exact ⟨hcategory, hasEntry_scoreCte_iff.mp hentry⟩
  · rintro ⟨hcategory, hmatches⟩
    refine ⟨_, ⟨?_, rfl⟩, hasEntry_scoreCte_iff.mpr hmatches⟩
    obtain ⟨hterm, -, field, weight, hfield, -⟩ := hmatches
    cases hcategories : scope.categories with
    | none =>
        rw [hcategories] at hcategory
        cases hcategory
    | some categories =>
        rw [hcategories] at hcategory
        refine ⟨categories, rfl, hcategory, ?_⟩
        obtain ⟨i, hi⟩ := List.getElem?_of_mem hterm
        have hstatement := List.mem_map_of_mem (f := fun t : PyStr × Nat =>
          scoreStmt w.toDatabase search category (plan.ranks ⟨category, 0, field, t.2⟩)
            field weight t.1)
          (List.mk_mem_zipIdx_iff_getElem?.mpr hi)
        exact List.ne_nil_of_mem (List.mem_flatMap.mpr ⟨_, hfield, hstatement⟩)

theorem hasEntryIn_aggregated_iff {cteName : String} {table : Option ScoreCte}
    (htable : Grouped table) {mapping : Mapping} {parent : Int} :
    HasEntryIn (aggregatedChildScoresToParent plan cteName table mapping) parent term ↔
      ∃ child, (child, parent) ∈ mapping ∧ HasEntryIn table child term := by
  cases table with
  | none => simp [HasEntryIn, aggregatedChildScoresToParent]
  | some cte =>
      obtain ⟨rows, rfl⟩ := htable cte rfl
      simp only [HasEntryIn, aggregatedChildScoresToParent, Option.map_some, Option.mem_def,
        Option.some.injEq, exists_eq_left', hasEntry_aggregated_iff]

/-- The tables of a scope have an entry of a root for the terms that a row it has scores of
matches. -/
theorem exists_scoreTables_iff {scope : Scope} {root : Int} :
    (∃ x ∈ scoreTables plan w search scope, HasEntryIn x.1 (x.2 root) term) ↔
      ∃ category ∈ scope.categories.getD [], ∃ id, ScoreReaches w scope category root id ∧
        MatchesTerm w.toDatabase search category id term := by
  cases scope with
  | beatmaps =>
      simp [scoreTables, ScoreReaches, Scope.categories, hasEntryIn_category_iff,
        hasEntryIn_aggregated_iff grouped_categoryScoreCte, beatmapsetToBeatmap]
  | beatmapsets =>
      simp [scoreTables, ScoreReaches, Scope.categories, hasEntryIn_category_iff,
        hasEntryIn_aggregated_iff grouped_categoryScoreCte]
  | scores => simp [scoreTables, Scope.categories]
  | queues =>
      simp only [scoreTables, snapshotToQueue, requestToQueue, List.mem_cons,
        List.not_mem_nil, or_false, exists_eq_or_imp, id_eq,
        hasEntryIn_aggregated_iff grouped_aggregated, List.mem_map, Prod.mk.injEq,
        hasEntryIn_aggregated_iff grouped_categoryScoreCte, hasEntryIn_category_iff,
        Scope.categories, Option.getD_some,
        reduceCtorEq, or_self, true_and, ↓existsAndEq, or_true, ScoreReaches, and_true,
        exists_eq_left]
      refine or_congr ⟨?_, ?_⟩ Iff.rfl
      · rintro ⟨r, ⟨hr, hqueue⟩, id, hlink, hmatches⟩
        exact ⟨id, ⟨r, hr, hqueue, hlink⟩, hmatches⟩
      · rintro ⟨id, ⟨r, hr, hqueue, hlink⟩, hmatches⟩
        exact ⟨r, ⟨hr, hqueue⟩, id, hlink, hmatches⟩
  | requests =>
      simp [scoreTables, ScoreReaches, Scope.categories, hasEntryIn_category_iff,
        hasEntryIn_aggregated_iff grouped_categoryScoreCte]

end Tables

section Reaches

variable {w : World α} {search : SearchTermsSchema} {term : PyStr}

/-- With a multiplier for substrings it is the pattern of the filter that matches. -/
theorem matchesTerm_iff {category : SearchableFieldCategory} {id : Int} (hlike : Widens w.like)
    (hsubstring : search.patternMultipliers.substring.isSome) (hterm : term ∈ search.terms) :
    MatchesTerm w.toDatabase search category id term ↔ id ∈ w.ids category ∧
      ∃ field weight, (field, some weight) ∈ search.fieldWeights.ofCategory category ∧
        ∃ text, (w.table category).target field id = some text ∧
          w.like search.caseSensitive text (pattern term) = true := by
  constructor
  · rintro ⟨-, hid, field, weight, hfield, text, htext, p, hp, -, hmatch⟩
    refine ⟨hid, field, weight, hfield, text, htext, ?_⟩
    simp only [PatternMultipliers.getPatterns, List.mem_cons, List.not_mem_nil, or_false] at hp
    rcases hp with rfl | rfl | rfl | rfl
    · exact hlike.before _ _ _ (hlike.after _ _ _ hmatch)
    · exact hlike.before _ _ _ hmatch
    · have hafter := hlike.after _ _ _ hmatch
      rw [List.append_assoc] at hafter
      exact hafter
    · exact hmatch
  · rintro ⟨hid, field, weight, hfield, text, htext, hmatch⟩
    refine ⟨hterm, hid, field, weight, hfield, text, htext,
      (.substring, percent ++ (term ++ percent), search.patternMultipliers.substring), ?_,
      hsubstring, hmatch⟩
    simp [PatternMultipliers.getPatterns]

theorem mem_ids_of_termReaches {scope : Scope} {category : SearchableFieldCategory} {root id : Int}
    (h : TermReaches w scope category root id) : id ∈ w.ids category := by
  induction h with
  | throughRequest q r x category hcategory hr hx ihr ihx => exact ihx
  | _ => assumption

theorem termMatches_iff {scope : Scope} {categories : List SearchableFieldCategory} {root : Int}
    (hlike : Widens w.like) (hsubstring : search.patternMultipliers.substring.isSome)
    (hterm : term ∈ search.terms) :
    TermMatches w search scope categories root term ↔ ∃ category ∈ categories, ∃ id,
      TermReaches w scope category root id ∧ MatchesTerm w.toDatabase search category id term := by
  simp only [TermMatches, matchesTerm_iff hlike hsubstring hterm]
  refine exists_congr (fun category => and_congr_right (fun _ => ?_))
  constructor
  · rintro ⟨field, weight, hfield, id, hreaches, text, htext, hmatch⟩
    exact ⟨id, hreaches, mem_ids_of_termReaches hreaches, field, weight, hfield,
      text, htext, hmatch⟩
  · rintro ⟨id, hreaches, -, field, weight, hfield, text, htext, hmatch⟩
    exact ⟨field, weight, hfield, id, hreaches, text, htext, hmatch⟩

/-- The category of the model of a scope. -/
def rootCategory : Scope → SearchableFieldCategory
  | .beatmaps => .beatmap
  | .beatmapsets => .beatmapset
  | .scores => .profile
  | .queues => .queue
  | .requests => .request

theorem mem_ids_of_mem_base {scope : Scope} {root : Int} (h : root ∈ w.base scope) :
    root ∈ w.ids (rootCategory scope) := by
  have hlisted {category : SearchableFieldCategory} {γ : Type} {table : List γ}
      {on : Int → γ → Bool}
      (h : root ∈ ((w.roots category).follow table on).map Prod.fst) : root ∈ w.ids category := by
    obtain ⟨⟨root, c⟩, hrow, rfl⟩ := List.mem_map.mp h
    obtain ⟨id, hroot, -⟩ := Joins.mem_follow.mp hrow
    exact ((w.mem_roots).mp hroot).2
  cases scope with
  | beatmaps => exact hlisted h
  | beatmapsets => exact hlisted h
  | scores => cases h
  | queues => exact h
  | requests => exact hlisted h

/-- What is scored of a root is searched by the filter. -/
theorem termReaches_of_scoreReaches (hrefs : w.Referenced) {scope : Scope}
    {category : SearchableFieldCategory} {root id : Int} (hroot : root ∈ w.base scope)
    (hid : id ∈ w.ids category) (h : ScoreReaches w scope category root id) :
    TermReaches w scope category root id := by
  have hroot := mem_ids_of_mem_base hroot
  have hset {r : Int} (hr : r ∈ w.ids .request) :
      TermReaches w .requests .beatmapset r (w.request r).beatmapset_snapshot_id :=
    .setOfRequest r _ hr (hrefs.snapshots r hr).1 (hrefs.snapshots r hr).2
  cases scope with
  | beatmaps =>
      cases category with
      | beatmap => exact h ▸ .beatmap root hroot
      | beatmapset => exact .setOfBeatmap root id hroot h hid
      | _ => cases h
  | beatmapsets =>
      cases category with
      | beatmap => exact .beatmapOfSet root id hroot h hid
      | beatmapset => exact h ▸ .beatmapset root hroot
      | _ => cases h
  | scores => cases h
  | queues =>
      cases category with
      | profile => cases h
      | beatmap =>
          obtain ⟨r, hr, rfl, hlink⟩ := h
          exact .throughRequest _ r id .beatmap (.inl rfl) (.requestOfQueue _ r hroot hr rfl)
            (.beatmapOfRequest r _ id (hset hr) hlink hid)
      | beatmapset =>
          obtain ⟨r, hr, rfl, rfl⟩ := h
          exact .throughRequest _ r _ .beatmapset (.inr rfl)
            (.requestOfQueue _ r hroot hr rfl) (hset hr)
      | queue => exact h ▸ .queue root hroot
      | request => exact .requestOfQueue root id hroot h.1 h.2
  | requests =>
      cases category with
      | beatmap => exact .beatmapOfRequest root _ id (hset hroot) h hid
      | beatmapset => exact h ▸ hset hroot
      | request => exact h ▸ .request root hroot
      | _ => cases h

/-- No request that a root leads to is for a beatmapset with another snapshot. -/
def OneSnapshot (w : World α) (scope : Scope) (root : Int) : Prop :=
  ∀ r, TermReaches w scope .request root r → ∀ s ∈ w.ids .beatmapset,
    (w.beatmapset s).beatmapset_id = (w.request r).beatmapset_id →
    s = (w.request r).beatmapset_snapshot_id

/-- Then what the filter searches is scored. -/
theorem scoreReaches_of_termReaches {scope : Scope} {category : SearchableFieldCategory}
    {root id : Int} (hone : OneSnapshot w scope root) (h : TermReaches w scope category root id) :
    ScoreReaches w scope category root id := by
  induction h with
  | beatmap | beatmapset | queue | request => rfl
  | setOfBeatmap b s _ hlink _ => exact hlink
  | beatmapOfSet s b _ hlink _ => exact hlink
  | requestOfQueue q r _ hr hqueue => exact ⟨hr, hqueue⟩
  | setOfRequest r s hr hs hsame => exact hone r (.request r hr) s hs hsame
  | beatmapOfRequest r s b hset hlink _ ih =>
      have hs : s = (w.request r).beatmapset_snapshot_id := ih hone
      rw [hs] at hlink
      exact hlink
  | throughRequest q r x category hcategory hr hx ihr ihx =>
      have hrequest := ihr hone
      have hscored := ihx (fun r' hr' s hs hsame => by
        cases hr'
        exact hone r hr s hs hsame)
      rcases hcategory with rfl | rfl
      · exact ⟨r, hrequest.1, hrequest.2, hscored⟩
      · exact ⟨r, hrequest.1, hrequest.2, hscored.symm⟩

end Reaches

section Agreement

variable [LinearOrder α] {db : Backend α} {se : SearchEngine α} {search : SearchTermsSchema}

/-- The score details of an entity have an entry for the term. -/
def Scored (db : Backend α) (se : SearchEngine α) (root : Int) (term : PyStr) : Prop :=
  ∃ score, some score ∈ entityScores db se root ∧ ∃ entry ∈ score.scoreDetails, entry.term = term

theorem scored_iff (hsearch : se.searchTerms = some search) {root : Int} {term : PyStr} :
    Scored db se root term ↔ ∃ category ∈ se.scope.categories.getD [], ∃ id,
      ScoreReaches db.world se.scope category root id ∧
      MatchesTerm db.world.toDatabase search category id term := by
  rw [← exists_scoreTables_iff, Scored, entityScores, hsearch]
  simp only [scoresOf, List.mem_filterMap, Option.map_eq_some_iff, HasEntryIn, HasEntry, details]
  constructor
  · rintro ⟨score, ⟨x, hx, cte, hcte, hscalar⟩, entry, hentry, hterm⟩
    refine ⟨x, hx, cte, hcte, entry, ?_, hterm⟩
    rw [hscalar]
    exact hentry
  · rintro ⟨x, hx, cte, hcte, entry, hentry, hterm⟩
    cases hscalar : scalar cte (x.2 root) with
    | none =>
        rw [hscalar] at hentry
        cases hentry
    | some score =>
        rw [hscalar] at hentry
        exact ⟨score, ⟨x, hx, cte, hcte, hscalar⟩, entry, hentry, hterm⟩

/-- A listed entity that is scored for a term matches it, and the other way round unless it leads to
a request for a beatmapset with another snapshot. In the scopes of beatmaps and beatmapsets there
are no such requests. -/
theorem filter_agrees_with_scores (hlike : Widens db.world.like) (hrefs : db.world.Referenced)
    (hsearch : se.searchTerms = some search)
    (hsubstring : search.patternMultipliers.substring.isSome) :
    (∀ root ∈ db.world.base se.scope, ∀ term ∈ search.terms,
      (Scored db se root term →
        TermMatches db.world search se.scope (se.scope.categories.getD []) root term) ∧
      (OneSnapshot db.world se.scope root →
        TermMatches db.world search se.scope (se.scope.categories.getD []) root term →
        Scored db se root term)) ∧
    (se.scope = .beatmaps ∨ se.scope = .beatmapsets →
      ∀ root, OneSnapshot db.world se.scope root) := by
  refine ⟨fun root hroot term hterm => ⟨?_, ?_⟩, ?_⟩
  · rw [scored_iff hsearch, termMatches_iff hlike hsubstring hterm]
    rintro ⟨category, hcategory, id, hreaches, hmatches⟩
    exact ⟨category, hcategory, id, termReaches_of_scoreReaches hrefs hroot hmatches.2.1 hreaches,
      hmatches⟩
  · intro hone
    rw [scored_iff hsearch, termMatches_iff hlike hsubstring hterm]
    rintro ⟨category, hcategory, id, hreaches, hmatches⟩
    exact ⟨category, hcategory, id, scoreReaches_of_termReaches hone hreaches, hmatches⟩
  · rintro (hscope | hscope) root r hr
    · rw [hscope] at hr
      cases hr
    · rw [hscope] at hr
      cases hr

end Agreement

theorem widens_sqlLike (same : Bool → CodePoint → CodePoint → Bool) : Widens (sqlLike same) where
  before _ _ _ := Like.like_any_append (by decide)
  after _ _ _ := Like.like_append_any (by decide)

theorem referenced_changedWorld : changedWorld.Referenced where
  links := List.forall_mem_nil _
  queues := by decide
  snapshots := by decide

/-- Requests with a beatmapset called `b`. -/
def changedSearch : SearchEngine Int where
  scope := .requests
  searchTerms := some (searchFor [[.char 'b']])
  sorting := []
  filters := []

def changedBackend : Backend Int := { sampleBackend with world := changedWorld }

theorem entityScores_changed :
    entityScores changedBackend changedSearch 5 = [none, none, none] := by
  decide +kernel

/-- The request is found by its later snapshot and has no score. -/
theorem filter_agrees_with_scores_changed :
    TermMatches changedWorld (searchFor [[.char 'b']]) .requests [.beatmap, .beatmapset, .request]
    5 [.char 'b'] ∧
      ¬ Scored changedBackend changedSearch 5 [.char 'b'] ∧
      ¬ OneSnapshot changedWorld .requests 5 := by
  have hmatches :
      TermMatches changedWorld (searchFor [[.char 'b']]) .requests
      [.beatmap, .beatmapset, .request] 5
      [.char 'b'] := by
    refine ⟨.beatmapset, by decide, "title", 5, by decide, 52, ?_, [.char 'b'], rfl, rfl⟩
    exact .setOfRequest 5 52 (by decide) (by decide) rfl
  have hscored : ¬ Scored changedBackend changedSearch 5 [.char 'b'] := by
    rintro ⟨score, hscore, -⟩
    rw [entityScores_changed] at hscore
    simp at hscore
  have hsearch : changedSearch.searchTerms = some (searchFor [[.char 'b']]) := rfl
  have hlike : Widens changedBackend.world.like := widens_sqlLike _
  have hrefs : changedBackend.world.Referenced := referenced_changedWorld
  have hlisted : (5 : Int) ∈ changedBackend.world.base changedSearch.scope := by decide
  have hterm : [.char 'b'] ∈ (searchFor [[.char 'b']]).terms := List.mem_cons_self
  have hagrees := (filter_agrees_with_scores hlike hrefs hsearch rfl).1 5 hlisted _ hterm
  exact ⟨hmatches, hscored, fun hone => hscored (hagrees.2 hone hmatches)⟩

end Graveboards.Engine
