import Graveboards.Library.Best
import Graveboards.Search.Terms

/-!
The scores of the search terms. For each field with a weight and each occurrence of a term a
statement keeps the best pattern that matches; grouped fields are collapsed into one field,
with the best score for each pattern; what is left is summed for each entity.
-/

namespace Graveboards.Search

/-- `PatternName`. -/
inductive PatternName where
  | exact
  | prefix_
  | suffix
  | substring
  deriving DecidableEq

def percent : PyStr := [.char '%']

def PatternMultipliers.getPatterns (m : PatternMultipliers) (term : PyStr) :
    List (PatternName × PyStr × Option Int8) :=
  [(.exact, term, m.exact), (.prefix_, term ++ percent, m.prefix_),
    (.suffix, percent ++ term, m.suffix), (.substring, percent ++ (term ++ percent), m.substring)]

/-- The fields of `CATEGORY_MODEL_FIELDS_MAPPING`, with their weights. -/
def FieldWeights.ofCategory (w : FieldWeights) :
    SearchableFieldCategory → List (String × Option Int8)
  | .profile => []
  | .beatmap => [("version", w.beatmap.version)]
  | .beatmapset =>
      [("title", w.beatmapset.title), ("title_unicode", w.beatmapset.titleUnicode),
        ("artist", w.beatmapset.artist), ("artist_unicode", w.beatmapset.artistUnicode),
        ("creator", w.beatmapset.creator),
        ("source", w.beatmapset.source), ("tags", w.beatmapset.tags),
        ("description", w.beatmapset.description)]
  | .queue => [("name", w.queue.name), ("description", w.queue.description)]
  | .request => [("comment", w.request.comment)]

/-- Named groups of fields for each category. -/
abbrev FieldGroups := SearchableFieldCategory → List (String × List String)

/-- `CATEGORY_FIELD_GROUPS_MAPPING`. -/
def categoryFieldGroups : FieldGroups
  | .beatmapset => [("title", ["title", "title_unicode"]), ("artist", ["artist", "artist_unicode"])]
  | _ => []

end Graveboards.Search

namespace Graveboards.Scores

open Graveboards.Library Graveboards.Search

/-- An element of `score_details`. -/
structure Entry where
  field : String
  term : PyStr
  pattern : PatternName
  score : ℤ
  deriving DecidableEq

/-- What the aggregation ranks by. -/
def Entry.key (entry : Entry) : String × PyStr := (entry.field, entry.term)

/-- An entry with the id of its entity. -/
abbrev Row := Int × Entry

def Row.score (row : Row) : ℤ := row.2.score

/-- The rows of a category's model, and the text that a field is matched against. -/
structure Table where
  ids : List Int
  nodup : ids.Nodup
  target : String → Int → Option PyStr

/-- The tables and the database's `LIKE`, or `ILIKE` if case does not matter. -/
structure Database where
  table : SearchableFieldCategory → Table
  like : Bool → PyStr → PyStr → Bool

/-- Where a rank is given. The union of a category's statements stands once in the query for
the fields outside the groups, and once more for each group. -/
structure Site where
  category : SearchableFieldCategory
  copy : Nat
  field : String
  occurrence : Nat

abbrev Ranks := Site → Ranking Row Row.score

section Statements

variable (db : Database) (search : SearchTermsSchema) (category : SearchableFieldCategory)

def patternStmt (field : String) (weight : Int8) (term : PyStr)
    (p : PatternName × PyStr × Option Int8) : List Row :=
  match p.2.2 with
  | none => []
  | some multiplier =>
      let table := db.table category
      let found := table.ids.filter fun id => (table.target field id).any fun text =>
        db.like search.caseSensitive text p.2.1
      found.map fun id => (id, ⟨field, term, p.1, weight.toInt * multiplier.toInt⟩)

/-- The best pattern for each entity and term. -/
def scoreStmt (rank : Ranking Row Row.score) (field : String) (weight : Int8) (term : PyStr) :
    List Row :=
  let patternStmts := (search.patternMultipliers.getPatterns term).map
    (patternStmt db search category field weight term)
  rankFirst rank (fun row => (row.1, row.2.term)) patternStmts.flatten

/-- The statements of a category: fields without a weight have none, repeated terms have
one for each occurrence. -/
def termScoreStmts (ranks : Ranks) (copy : Nat) : List (List Row) :=
  (search.fieldWeights.ofCategory category).flatMap fun x =>
    match x.2 with
    | none => []
    | some weight => search.terms.zipIdx.map fun t =>
        scoreStmt db search category (ranks ⟨category, copy, x.1, t.2⟩) x.1 weight t.1

end Statements

/-- The fields of a group as one: the best score for each entity, term and pattern. -/
def groupQuery (rows : List Row) (group : String × List String) : List Row :=
  let grouped := rows.filter fun row => group.2.contains row.2.field
  (bestByKey (fun row => (row.1, row.2.term, row.2.pattern)) Row.score grouped).map fun x =>
    (x.1.1, ⟨group.1, x.1.2.1, x.1.2.2, x.2⟩)

def processFieldGroups (baseQuery : Nat → List Row) (fieldGroups : List (String × List String)) :
    List Row :=
  if fieldGroups.isEmpty then baseQuery 0
  else
    let groupedFields := fieldGroups.flatMap Prod.snd
    (baseQuery 0).filter (fun row => !groupedFields.contains row.2.field) ++
      (fieldGroups.zipIdx 1).flatMap fun x => groupQuery (baseQuery x.2) x.1

/-- A row of a score table, without its id. -/
structure ScoreRow where
  score : ℤ
  scoreDetails : List Entry
  deriving DecidableEq

abbrev ScoreCte := List (Int × ScoreRow)

def ScoreRow.of (entries : List Entry) : ScoreRow := ⟨(entries.map Entry.score).sum, entries⟩

section Factory

variable (ranks : Ranks) (config : FieldGroups) (db : Database) (search : SearchTermsSchema)

def unioned (category : SearchableFieldCategory) (copy : Nat) : List Row :=
  (termScoreStmts db search category ranks copy).flatten

def scoreCte (category : SearchableFieldCategory) : ScoreCte :=
  Relational.groupBy (processFieldGroups (unioned ranks db search category) (config category))
    ScoreRow.of

/-- `search_terms_scored_ctes_factory`: a score table for each category with a statement. -/
def searchTermsScoredCtes (scope : Scope) :
    Except PyError (List (SearchableFieldCategory × ScoreCte)) :=
  match scope.categories with
  | none => .error (.typeError "'ellipsis' object is not iterable")
  | some categories =>
      let scored :=
        categories.filter fun category => !(termScoreStmts db search category ranks 0).isEmpty
      .ok (scored.map fun category => (category, scoreCte ranks config db search category))

end Factory

/-! One entity at a time: its own texts decide its entries. -/

def isRowOf (id : Int) (row : Row) : Bool := row.1 = id

section Entity

variable (db : Database) (search : SearchTermsSchema)
  (category : SearchableFieldCategory) (id : Int)

/-- What a pattern gives for the entity. -/
def patternMatch (field : String) (weight : Int8) (term : PyStr)
    (p : PatternName × PyStr × Option Int8) :
    Option Row :=
  let table := db.table category
  p.2.2.bind fun multiplier =>
    if id ∈ table.ids ∧
      (table.target field id).any (fun text => db.like search.caseSensitive text p.2.1) = true then
      some (id, ⟨field, term, p.1, weight.toInt * multiplier.toInt⟩)
    else none

/-- The patterns of the term that match the field. -/
def matched (field : String) (weight : Int8) (term : PyStr) : List Row :=
  (search.patternMultipliers.getPatterns term).filterMap
    (patternMatch db search category id field weight term)

/-- The best match for each field and each occurrence of a term. -/
def kept (ranks : Ranks) (copy : Nat) : List Row :=
  (search.fieldWeights.ofCategory category).flatMap fun x =>
    match x.2 with
    | none => []
    | some weight => search.terms.zipIdx.filterMap fun t =>
        (ranks ⟨category, copy, x.1, t.2⟩).first (matched db search category id x.1 weight t.1)

theorem filter_patternStmt (field : String) (weight : Int8) (term : PyStr)
    (p : PatternName × PyStr × Option Int8) :
    (patternStmt db search category field weight term p).filter (isRowOf id) =
      (patternMatch db search category id field weight term p).toList := by
  cases hmultiplier : p.2.2 with
  | none => simp [patternStmt, patternMatch, hmultiplier]
  | some multiplier =>
      let found (x : Int) : Bool := ((db.table category).target field x).any fun text =>
        db.like search.caseSensitive text p.2.1
      have hids : ((db.table category).ids.filter fun x => decide (x = id) && found x) =
          if id ∈ (db.table category).ids ∧ found id = true then [id] else [] := by
        rw [← List.filter_filter, List.filter_eq, ((db.table category).nodup.filter found).count]
        simp only [List.mem_filter]
        split
        · rfl
        · rfl
      simp only [patternStmt, patternMatch, hmultiplier, Option.bind_some]
      rw [List.filter_map, List.filter_filter]
      change List.map _ ((db.table category).ids.filter fun x => decide (x = id) && found x) = _
      rw [hids]
      split
      · rfl
      · rfl

theorem filter_scoreStmt (rank : Ranking Row Row.score) (field : String) (weight : Int8)
    (term : PyStr) :
    (scoreStmt db search category rank field weight term).filter (isRowOf id) =
      (rank.first (matched db search category id field weight term)).toList := by
  have hmatched : (((search.patternMultipliers.getPatterns term).map
      (patternStmt db search category field weight term)).flatten).filter (isRowOf id) =
        matched db search category id field weight term := by
    rw [List.filter_flatten, List.map_map, matched, List.filterMap_eq_flatMap_toList,
      List.flatMap_def]
    congr 1
    apply List.map_congr_left
    intro p _
    exact filter_patternStmt db search category id field weight term p
  have hkey : ∀ row ∈ matched db search category id field weight term,
      (row.1, row.2.term) = (id, term) := by
    intro row hrow
    obtain ⟨p, -, hp⟩ := List.mem_filterMap.mp hrow
    obtain ⟨multiplier, -, hp⟩ := Option.bind_eq_some_iff.mp hp
    split at hp
    · cases hp
      rfl
    · cases hp
  rw [scoreStmt, filter_rankFirst rank, hmatched, rankFirst_eq rank hkey]
  intro row other h
  rw [isRowOf, isRowOf, (Prod.mk.inj h).1]

theorem filter_unioned (ranks : Ranks) (copy : Nat) :
    (unioned ranks db search category copy).filter (isRowOf id) =
      kept db search category id ranks copy := by
  rw [unioned, termScoreStmts, List.flatMap_def, List.flatten_flatten, List.map_map,
    List.filter_flatten, List.map_map, kept, List.flatMap_def]
  congr 1
  apply List.map_congr_left
  intro x _
  rw [Function.comp_apply, Function.comp_apply]
  cases x.2 with
  | none => rfl
  | some weight =>
      dsimp only
      rw [List.filter_flatten, List.map_map, List.filterMap_eq_flatMap_toList, List.flatMap_def]
      congr 1
      apply List.map_congr_left
      intro t _
      exact filter_scoreStmt db search category id _ x.1 weight t.1

theorem filter_groupQuery (rows : List Row) (group : String × List String) :
    (groupQuery rows group).filter (isRowOf id) = groupQuery (rows.filter (isRowOf id)) group := by
  have hgroups : ∀ others : List Row,
      (bestByKey (fun row => (row.1, row.2.term, row.2.pattern)) Row.score others).filter
      (fun x => x.1.1 = id) =
        bestByKey (fun row => (row.1, row.2.term, row.2.pattern)) Row.score
        (others.filter (isRowOf id)) :=
    filter_bestByKey (q := fun k : Int × PyStr × PatternName => decide (k.1 = id)) fun row => rfl
  rw [groupQuery, List.filter_map, groupQuery, List.filter_filter]
  congr 1
  refine (hgroups _).trans ?_
  rw [List.filter_filter]
  congr 1
  apply List.filter_congr
  intro row _
  exact Bool.and_comm _ _

/-- Groups are formed entity by entity. -/
theorem filter_processFieldGroups (baseQuery : Nat → List Row)
    (fieldGroups : List (String × List String)) :
    (processFieldGroups baseQuery fieldGroups).filter (isRowOf id) =
      processFieldGroups (fun copy => (baseQuery copy).filter (isRowOf id)) fieldGroups := by
  rw [processFieldGroups, processFieldGroups]
  split
  · rfl
  · dsimp only
    rw [List.filter_append, List.filter_flatMap]
    congr 1
    · rw [List.filter_filter, List.filter_filter]
      apply List.filter_congr
      intro row _
      exact Bool.and_comm _ _
    · apply List.flatMap_congr
      intro x _
      exact filter_groupQuery id (baseQuery x.2) x.1

/-- The entries of the entity: those of fields outside the groups, and for each group the best
score of each pattern. -/
def entriesOf (ranks : Ranks) (config : FieldGroups) : List Entry :=
  (processFieldGroups (kept db search category id ranks) (config category)).map Prod.snd

theorem group_processed (ranks : Ranks) (config : FieldGroups) :
    Relational.group (processFieldGroups (unioned ranks db search category) (config category)) id =
      entriesOf db search category id ranks config := by
  have hkept : (fun copy => (unioned ranks db search category copy).filter (isRowOf id)) =
      kept db search category id ranks := by
    funext copy
    exact filter_unioned db search category id ranks copy
  have hfilter := filter_processFieldGroups id (unioned ranks db search category) (config category)
  rw [hkept] at hfilter
  rw [entriesOf, ← hfilter]
  rfl

end Entity

end Graveboards.Scores
