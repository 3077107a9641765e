import Graveboards.Scores.Further

/-!
Scores of parents. The entries of all children of a parent are taken apart, the best for each
field and term is kept, and what is left is summed. A child alone keeps its score if it
has nothing beyond the best for each field and term.
-/

namespace Graveboards.Scores

open Graveboards.Library Graveboards.Search

/-- The rows of a mapping table: the keys of a child and of its parent. -/
abbrev Mapping := List (Int × Int)

def exploded (childScores : ScoreCte) (mapping : Mapping) : List Row :=
  (Relational.join childScores mapping fun row link => link.1 = row.1).flatMap fun x =>
    x.1.2.scoreDetails.map fun entry => (x.2.2, entry)

def aggregatedChildScores (rank : Ranking Row Row.score) (childScores : ScoreCte)
    (mapping : Mapping) : ScoreCte :=
  let maxEntries := rankFirst rank (fun row => (row.1, row.2.key)) (exploded childScores mapping)
  Relational.groupBy maxEntries ScoreRow.of

/-- The score in the table, if there is one. -/
def scoreOf (scores : ScoreCte) (id : Int) : Option ℤ :=
  (Relational.scalar scores id).map ScoreRow.score

/-- `coalesce(score, 0)`, as a table is joined to the search. -/
def scoreOrZero (scores : ScoreCte) (id : Int) : ℤ := (scoreOf scores id).getD 0

def details (scores : ScoreCte) (id : Int) : List Entry :=
  ((Relational.scalar scores id).map ScoreRow.scoreDetails).getD []

def children (mapping : Mapping) (parent : Int) : List Int :=
  ((mapping.filter fun link => link.2 = parent).map Prod.fst).dedup

def NonNegative (entries : List Entry) : Prop := ∀ entry ∈ entries, 0 ≤ entry.score

/-- Scores survive aggregation: an only child keeps its score; between several children the
score of the parent lies between the largest and the sum, and one child more never lowers it. -/
structure ScoresSurvive (childScores : ScoreCte) : Prop where
  only : ∀ rank mapping parent child, children mapping parent = [child] →
    scoreOf (aggregatedChildScores rank childScores mapping) parent = scoreOf childScores child
  largest : ∀ rank mapping parent,
      (∀ child ∈ children mapping parent, NonNegative (details childScores child)) →
    ∀ child ∈ children mapping parent,
      scoreOrZero childScores child ≤
        scoreOrZero (aggregatedChildScores rank childScores mapping) parent
  sum : ∀ rank mapping parent,
      (∀ child ∈ children mapping parent, NonNegative (details childScores child)) →
    scoreOrZero (aggregatedChildScores rank childScores mapping) parent ≤
      ((children mapping parent).map (scoreOrZero childScores)).sum
  more : ∀ rank rank' mapping mapping' parent child, NonNegative (details childScores child) →
    (∀ link, link ∈ mapping' ↔ link = (child, parent) ∨ link ∈ mapping) →
      scoreOrZero (aggregatedChildScores rank childScores mapping) parent ≤
        scoreOrZero (aggregatedChildScores rank' childScores mapping') parent

section Grouped

variable (rows : List Row)

theorem scalar_of (id : Int) : Relational.scalar (Relational.groupBy rows ScoreRow.of) id =
    if Relational.group rows id = [] then none else some (.of (Relational.group rows id)) :=
  Relational.scalar_groupBy rows ScoreRow.of id

theorem details_of (id : Int) :
    details (Relational.groupBy rows ScoreRow.of) id = Relational.group rows id := by
  rw [details, scalar_of]
  split
  case isTrue h => rw [h]; rfl
  case isFalse => rfl

theorem scoreOf_of (id : Int) : scoreOf (Relational.groupBy rows ScoreRow.of) id =
    if Relational.group rows id = [] then none
    else some ((Relational.group rows id).map Entry.score).sum := by
  rw [scoreOf, scalar_of]
  split
  · rfl
  · rfl

theorem scoreOrZero_of (id : Int) : scoreOrZero (Relational.groupBy rows ScoreRow.of) id =
    ((Relational.group rows id).map Entry.score).sum := by
  rw [scoreOrZero, scoreOf_of]
  split
  case isTrue h => rw [h]; rfl
  case isFalse => rfl

/-- The entries of a parent are those of its children. -/
theorem mem_exploded {mapping : Mapping} {parent : Int} {entry : Entry} :
    (parent, entry) ∈ exploded (Relational.groupBy rows ScoreRow.of) mapping ↔
      ∃ child, (child, parent) ∈ mapping ∧ entry ∈ Relational.group rows child := by
  have hrow : ∀ (child : Int) (row : ScoreRow), (child, row) ∈ Relational.groupBy rows ScoreRow.of ↔
      child ∈ Relational.keys rows ∧ row = .of (Relational.group rows child) := by
    intro child row
    rw [Relational.groupBy, List.mem_map]
    constructor
    · rintro ⟨key, hkey, h⟩
      cases h
      exact ⟨hkey, rfl⟩
    · rintro ⟨hkey, rfl⟩
      exact ⟨child, hkey, rfl⟩
  rw [exploded, List.mem_flatMap]
  constructor
  · rintro ⟨⟨⟨child, row⟩, link⟩, hjoin, hentry⟩
    obtain ⟨hchild, hlink, hon⟩ := Relational.mem_join.mp hjoin
    obtain ⟨-, rfl⟩ := (hrow child row).mp hchild
    obtain ⟨entry', hentry, h⟩ := List.mem_map.mp hentry
    cases h
    refine ⟨link.1, hlink, ?_⟩
    rw [of_decide_eq_true hon]
    exact hentry
  · rintro ⟨child, hlink, hentry⟩
    refine ⟨((child, .of (Relational.group rows child)), (child, parent)), ?_,
      List.mem_map_of_mem hentry⟩
    refine Relational.mem_join.mpr ⟨(hrow child _).mpr ⟨?_, rfl⟩, hlink, decide_eq_true rfl⟩
    exact Relational.mem_keys_iff.mpr (List.ne_nil_of_mem hentry)

theorem mem_children {mapping : Mapping} {parent child : Int} :
    child ∈ children mapping parent ↔ (child, parent) ∈ mapping := by
  rw [children, List.mem_dedup, List.mem_map]
  constructor
  · rintro ⟨link, hlink, rfl⟩
    obtain ⟨hmem, hparent⟩ := List.mem_filter.mp hlink
    rw [← of_decide_eq_true hparent]
    exact hmem
  · intro h
    exact ⟨(child, parent), List.mem_filter.mpr ⟨h, decide_eq_true rfl⟩, rfl⟩

/-- The entries of all children. -/
def childEntries (mapping : Mapping) (parent : Int) : List Entry :=
  (children mapping parent).flatMap (Relational.group rows)

/-- The highest scores by field and term, summed. -/
abbrev bestTotal (entries : List Entry) : ℤ := total Entry.key Entry.score entries

/-- What the entries have beyond the best for each field and term. -/
abbrev beyondBest (entries : List Entry) : ℤ := surplus Entry.key Entry.score entries

variable (rank : Ranking Row Row.score) (mapping : Mapping) (parent : Int)

theorem mem_filter_exploded (row : Row) :
    row ∈ (exploded (Relational.groupBy rows ScoreRow.of) mapping).filter (isRowOf parent) ↔
      row ∈ (childEntries rows mapping parent).map fun entry => (parent, entry) := by
  rw [List.mem_filter, List.mem_map]
  constructor
  · rintro ⟨hrow, hparent⟩
    obtain ⟨id, entry⟩ := row
    obtain rfl : id = parent := of_decide_eq_true hparent
    obtain ⟨child, hlink, hentry⟩ := (mem_exploded rows).mp hrow
    exact ⟨entry, List.mem_flatMap.mpr ⟨child, mem_children.mpr hlink, hentry⟩, rfl⟩
  · rintro ⟨entry, hentry, rfl⟩
    obtain ⟨child, hchild, hentry⟩ := List.mem_flatMap.mp hentry
    exact ⟨(mem_exploded rows).mpr ⟨child, mem_children.mp hchild, hentry⟩, decide_eq_true rfl⟩

/-- The entries a parent keeps: one for each field and term. -/
theorem group_maxEntries (exploded : List Row) :
    Relational.group (rankFirst rank (fun row => (row.1, row.2.key)) exploded) parent =
      (rankFirst rank (fun row => (row.1, row.2.key)) (exploded.filter (isRowOf parent))).map
      Prod.snd := by
  rw [← filter_rankFirst]
  · rfl
  · intro row other h
    rw [isRowOf, isRowOf, (Prod.mk.inj h).1]

/-- A parent has the best scores of its children. -/
theorem scoreOf_aggregated :
    scoreOf (aggregatedChildScores rank (Relational.groupBy rows ScoreRow.of) mapping) parent =
      if childEntries rows mapping parent = [] then none
      else some (bestTotal (childEntries rows mapping parent)) := by
  have htotal : total (fun row => (row.1, row.2.key)) Row.score
      ((exploded (Relational.groupBy rows ScoreRow.of) mapping).filter (isRowOf parent)) =
        bestTotal (childEntries rows mapping parent) := by
    rw [total_congr (mem_filter_exploded rows mapping parent)]
    have hkey : ∀ entry : Entry, (parent, entry.key) = Prod.mk parent entry.key := fun _ => rfl
    exact total_map (Prod.mk parent) (fun _ _ h => (Prod.mk.inj h).2) hkey _
  have hnil :
      (exploded (Relational.groupBy rows ScoreRow.of) mapping).filter (isRowOf parent) = [] ↔
      childEntries rows mapping parent = [] := by
    rw [List.eq_nil_iff_forall_not_mem, ← List.map_eq_nil_iff (f := fun entry => (parent, entry)),
      List.eq_nil_iff_forall_not_mem]
    exact forall_congr' fun row => not_congr (mem_filter_exploded rows mapping parent row)
  rw [aggregatedChildScores, scoreOf_of, group_maxEntries, List.map_map]
  simp only [List.map_eq_nil_iff, rankFirst_eq_nil_iff, hnil]
  split
  · rfl
  · rw [← htotal, ← sum_rankFirst rank]
    rfl

theorem scoreOrZero_aggregated :
    scoreOrZero (aggregatedChildScores rank (Relational.groupBy rows ScoreRow.of) mapping) parent =
      bestTotal (childEntries rows mapping parent) := by
  rw [scoreOrZero, scoreOf_aggregated]
  split
  case isTrue h => rw [h]; rfl
  case isFalse => rfl

theorem sum_eq_bestTotal {entries : List Entry} (h : beyondBest entries = 0) :
    (entries.map Entry.score).sum = bestTotal entries :=
  sub_eq_zero.mp h

/-- Scores survive aggregation if and only if no entity has a score beyond the best for each
field and term. -/
theorem scoresSurvive_of_iff :
    ScoresSurvive (Relational.groupBy rows ScoreRow.of) ↔
      ∀ id, beyondBest (Relational.group rows id) = 0 := by
  constructor
  · intro hsurvive id
    by_cases hnil : Relational.group rows id = []
    · rw [hnil]
      rfl
    · have honly := hsurvive.only (Ranking.earliest Row.score) [(id, 0)] 0 id rfl
      have hentries : childEntries rows [(id, 0)] 0 = Relational.group rows id :=
        List.flatMap_singleton _ _
      rw [scoreOf_aggregated, scoreOf_of, hentries, if_neg hnil, if_neg hnil] at honly
      exact sub_eq_zero.mpr (Option.some.inj honly).symm
  · intro hbest
    constructor
    case only =>
        intro rank mapping parent child honly
        have hentries : childEntries rows mapping parent = Relational.group rows child := by
          rw [childEntries, honly, List.flatMap_singleton]
        rw [scoreOf_aggregated, scoreOf_of, hentries, sum_eq_bestTotal (hbest child)]
    case largest =>
        intro rank mapping parent hnonneg child hchild
        rw [scoreOrZero_of, scoreOrZero_aggregated, sum_eq_bestTotal (hbest child)]
        apply total_le_total
        · intro entry hentry
          exact List.mem_flatMap.mpr ⟨child, hchild, hentry⟩
        · intro entry hentry
          obtain ⟨other, hother, hentry⟩ := List.mem_flatMap.mp hentry
          rw [← details_of] at hentry
          exact .inr (hnonneg other hother entry hentry)
    case sum =>
        intro rank mapping parent hnonneg
        rw [scoreOrZero_aggregated]
        have hscores :
            (children mapping parent).map (scoreOrZero (Relational.groupBy rows ScoreRow.of)) =
            (children mapping parent).map fun child => bestTotal (Relational.group rows child) := by
          apply List.map_congr_left
          intro child _
          rw [scoreOrZero_of, sum_eq_bestTotal (hbest child)]
        rw [hscores]
        apply total_flatMap_le
        intro child hchild entry hentry
        rw [← details_of] at hentry
        exact hnonneg child hchild entry hentry
    case more =>
        intro rank rank' mapping mapping' parent child hnonneg hlinks
        rw [scoreOrZero_aggregated, scoreOrZero_aggregated]
        apply total_le_total
        · intro entry hentry
          obtain ⟨other, hother, hentry⟩ := List.mem_flatMap.mp hentry
          have hlink : (other, parent) ∈ mapping' := (hlinks _).mpr (.inr (mem_children.mp hother))
          exact List.mem_flatMap.mpr ⟨other, mem_children.mpr hlink, hentry⟩
        · intro entry hentry
          obtain ⟨other, hother, hentry⟩ := List.mem_flatMap.mp hentry
          rcases (hlinks _).mp (mem_children.mp hother) with h | h
          · cases h
            rw [← details_of] at hentry
            exact .inr (hnonneg entry hentry)
          · exact .inl (List.mem_flatMap.mpr ⟨other, mem_children.mpr h, hentry⟩)

end Grouped

theorem nodup_keys_of {rows : List Row} {id : Int} (hid : ∀ row ∈ rows, row.1 = id)
    (hnodup : (rows.map fun row => (row.1, row.2.key)).Nodup) :
    ((rows.map Prod.snd).map Entry.key).Nodup := by
  have hmap : (rows.map fun row => (row.1, row.2.key)) =
      ((rows.map Prod.snd).map Entry.key).map (Prod.mk id) := by
    rw [List.map_map, List.map_map]
    apply List.map_congr_left
    intro row hrow
    rw [hid row hrow]
    rfl
  rw [hmap] at hnodup
  exact hnodup.of_map

/-- What has been aggregated once survives every further aggregation. -/
theorem scoresSurvive_aggregated (rank : Ranking Row Row.score) (childScores : ScoreCte)
    (mapping : Mapping) :
    ScoresSurvive (aggregatedChildScores rank childScores mapping) := by
  rw [aggregatedChildScores, scoresSurvive_of_iff]
  intro id
  rw [group_maxEntries]
  have hid : ∀ row ∈ rankFirst rank (fun row => (row.1, row.2.key))
      ((exploded childScores mapping).filter (isRowOf id)),
      row.1 = id :=
    fun row hrow => of_decide_eq_true (List.mem_filter.mp (mem_rankFirst rank hrow)).2
  exact surplus_eq_zero (nodup_keys_of hid (nodup_rankFirst rank _))

section Factory

variable (ranks : Ranks) (config : FieldGroups) (db : Database) (search : SearchTermsSchema)

theorem scoresSurvive_scoreCte_iff (category : SearchableFieldCategory) :
    ScoresSurvive (scoreCte ranks config db search category) ↔
      ∀ id, (furtherScores db search category id ranks (config category)).sum = 0 := by
  rw [scoreCte, scoresSurvive_of_iff]
  apply forall_congr'
  intro id
  rw [group_processed, beyondBest, surplus_entriesOf]

/-- In particular if no term is repeated and each group matches a term by one pattern. -/
theorem scoresSurvive_of_unrepeated {category : SearchableFieldCategory}
    (hterms : search.terms.Nodup) (hpattern : ∀ id, ∀ x ∈ (categoryFieldGroups category).zipIdx 1,
      OnePattern (kept db search category id ranks x.2) x.1) :
    ScoresSurvive (scoreCte ranks categoryFieldGroups db search category) := by
  rw [scoresSurvive_scoreCte_iff]
  intro id
  rw [← surplus_entriesOf]
  apply surplus_eq_zero
  exact keys_entriesOf_nodup db search category id hterms
    (namesApart_categoryFieldGroups category) (hpattern id)

/-- The scores of a category survive aggregation if and only if for every entity the further
occurrences of terms and the further patterns of groups add up to nothing. If no score is
negative, each of them has to be zero. -/
theorem scores_survive_iff {scope : Scope} {ctes : List (SearchableFieldCategory × ScoreCte)}
    (hctes : searchTermsScoredCtes ranks config db search scope = .ok ctes)
    {category : SearchableFieldCategory} {childScores : ScoreCte}
    (hchild : (category, childScores) ∈ ctes) :
    (ScoresSurvive childScores ↔
      ∀ id, (furtherScores db search category id ranks (config category)).sum = 0) ∧
      (Unsigned search category →
        (ScoresSurvive childScores ↔
          ∀ id, ∀ score ∈ furtherScores db search category id ranks (config category),
          score = 0)) := by
  unfold searchTermsScoredCtes at hctes
  split at hctes
  case h_1 => cases hctes
  case h_2 categories _ =>
      cases hctes
      obtain ⟨category', -, h⟩ := List.mem_map.mp hchild
      cases h
      have hiff := scoresSurvive_scoreCte_iff ranks config db search category
      refine ⟨hiff, ?_⟩
      intro hunsigned
      rw [hiff]
      apply forall_congr'
      intro id
      exact sum_furtherScores_eq_zero_iff db search category id hunsigned ranks (config category)

end Factory

/-- `LIKE` for patterns without escapes. -/
def likeText : PyStr → PyStr → Bool
  | [], text => text.isEmpty
  | c :: pattern, text =>
      if c = .char '%' then text.tails.any (likeText pattern)
      else match text with
        | [] => false
        | d :: rest => (c = d || c = .char '_') && likeText pattern rest

/-- One entity: its version and title are `a`, its Unicode title is `ab`. -/
def oneEntity : Database where
  table _ :=
    { ids := [1]
      nodup := List.nodup_singleton 1
      target := fun field _ =>
        if field = "version" ∨ field = "title" then some (.ofString "a")
        else if field = "title_unicode" then some (.ofString "ab")
        else none }
  like _ text pattern := likeText pattern text

def searchFor (terms : List PyStr) : SearchTermsSchema :=
  ⟨terms, true, PatternMultipliers.defaults, FieldWeights.defaults⟩

def earliestRanks : Ranks := fun _ => Ranking.earliest Row.score

theorem nodup_twoIds : ([1, 2] : List Int).Nodup := by decide

/-- Two entities: both titles of the first match `a` by the whole text, the artist and the creator
each term by another pattern. -/
def twoEntities : Database where
  table _ :=
    { ids := [1, 2]
      nodup := nodup_twoIds
      target := fun field id =>
        if id = 2 then some (.ofString "b")
        else if field = "title" ∨ field = "title_unicode" then some (.ofString "a")
        else if field = "artist" then some (.ofString "ab")
        else if field = "creator" then some (.ofString "ba")
        else none }
  like _ text pattern := likeText pattern text

/-- Two terms, which each group matches by one pattern: nothing is beyond the best. -/
theorem scores_survive_distinct :
    ScoresSurvive (scoreCte earliestRanks categoryFieldGroups twoEntities
      (searchFor [.ofString "a", .ofString "b"]) .beatmapset) ∧
    ∀ id, ∀ score ∈ furtherScores twoEntities (searchFor [.ofString "a", .ofString "b"]) .beatmapset
    id earliestRanks
      (categoryFieldGroups .beatmapset), score = 0 := by
  have hctes : searchTermsScoredCtes earliestRanks categoryFieldGroups twoEntities
      (searchFor [.ofString "a", .ofString "b"]) .beatmaps =
        .ok ([.beatmap, .beatmapset].map fun category => (category,
          scoreCte earliestRanks categoryFieldGroups twoEntities
          (searchFor [.ofString "a", .ofString "b"]) category)) := rfl
  obtain ⟨hsum, hunsigned⟩ :=
    scores_survive_iff earliestRanks categoryFieldGroups twoEntities _ hctes
    (List.mem_cons_of_mem _ List.mem_cons_self)
  have hsurvive := hsum.mpr fun id => by
    by_cases hid : id ∈ [1, 2]
    · revert id
      decide +kernel
    · exact sum_furtherScores_of_notMem twoEntities _ .beatmapset id earliestRanks
        categoryFieldGroups hid
  exact ⟨hsurvive, (hunsigned (unsigned_defaults _ true .beatmapset)).mp hsurvive⟩

/-- A repeated term counts twice for the child and once for its parent, and so do two patterns
of one group. -/
theorem scores_not_survive :
    ¬ ScoresSurvive (scoreCte earliestRanks categoryFieldGroups oneEntity
      (searchFor [.ofString "a", .ofString "a"]) .beatmap) ∧
    ¬ ScoresSurvive (scoreCte earliestRanks categoryFieldGroups oneEntity
      (searchFor [.ofString "a"]) .beatmapset) := by
  constructor
  · intro hsurvive
    have honly := hsurvive.only (Ranking.earliest Row.score) [(1, 7)] 7 1 rfl
    revert honly
    decide +kernel
  · intro hsurvive
    have honly := hsurvive.only (Ranking.earliest Row.score) [(1, 7)] 7 1 rfl
    revert honly
    decide +kernel

end Graveboards.Scores
