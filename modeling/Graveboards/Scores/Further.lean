import Graveboards.Scores.Unrepeated

/-!
What an entity scores more than once for a field and term. A field outside the groups scores
for each occurrence of a term, and a group for each pattern by which one of its fields matches
best. All of these scores but the highest are further ones; they depend only on the terms, the
weights and multipliers and the texts.
-/

namespace Graveboards.Scores

open Graveboards.Library Graveboards.Search

/-- The patterns in the order in which they are tried. -/
def allPatterns : List PatternName := [.exact, .prefix_, .suffix, .substring]

theorem nodup_allPatterns : allPatterns.Nodup := by decide

theorem mem_allPatterns (pattern : PatternName) : pattern ∈ allPatterns := by
  cases pattern <;> decide

section Further

variable (db : Database) (search : SearchTermsSchema)
  (category : SearchableFieldCategory) (id : Int)

/-- The score of a field for a term: that of the best pattern that matches. -/
def fieldScore (field : String) (weight : Int8) (term : PyStr) : Option ℤ :=
  ((matched db search category id field weight term).map Row.score).max?

/-- A field outside the groups scores once for each occurrence of the term. -/
def occurrenceScores (groups : List (String × List String)) (name : String) (term : PyStr) :
    List ℤ :=
  (search.fieldWeights.ofCategory category).flatMap fun x =>
    match x.2 with
    | none => []
    | some weight =>
        if x.1 = name ∧ x.1 ∉ groups.flatMap Prod.snd then
          (search.terms.filter fun t => t = term).filterMap
            (fieldScore db search category id x.1 weight)
        else []

/-- A group scores once for each pattern by which one of its fields matches the term best. -/
def patternScores (rows : List Row) (group : String × List String) (term : PyStr) : List ℤ :=
  allPatterns.filterMap fun pattern =>
    let found :=
      rows.filter fun row => row.2.field ∈ group.2 ∧ row.2.term = term ∧ row.2.pattern = pattern
    (found.map Row.score).max?

/-- The scores for a name, which a field or a group has, and a term. -/
def scoresFor (ranks : Ranks) (groups : List (String × List String)) (k : String × PyStr) :
    List ℤ :=
  occurrenceScores db search category id groups k.1 k.2 ++
    (groups.zipIdx 1).flatMap fun x =>
      if x.1.1 = k.1 then patternScores (kept db search category id ranks x.2) x.1 k.2 else []

/-- The names of the fields and of the groups, each with every term. -/
def namesAndTerms (groups : List (String × List String)) : List (String × PyStr) :=
  (((search.fieldWeights.ofCategory category).map Prod.fst ++ groups.map Prod.fst) ×ˢ
    search.terms).dedup

/-- The scores of an entity beyond one for each name and term. -/
def furtherScores (ranks : Ranks) (groups : List (String × List String)) : List ℤ :=
  (namesAndTerms search category groups).flatMap fun k =>
    further (scoresFor db search category id ranks groups k)

/-- The scores of the rows for a name and a term. -/
def keyScores (rows : List Row) (k : String × PyStr) : List ℤ :=
  (rows.filter fun row => row.2.key = k).map Row.score

theorem map_score_ofKey (rows : List Row) (k : String × PyStr) :
    (ofKey Entry.key (rows.map Prod.snd) k).map Entry.score = keyScores rows k := by
  rw [ofKey, List.filter_map, List.map_map]
  rfl

/-- With or without groups. -/
theorem processFieldGroups_eq (baseQuery : Nat → List Row) (groups : List (String × List String)) :
    processFieldGroups baseQuery groups =
      (baseQuery 0).filter (fun row => !(groups.flatMap Prod.snd).contains row.2.field) ++
        (groups.zipIdx 1).flatMap fun x => groupQuery (baseQuery x.2) x.1 := by
  rw [processFieldGroups]
  split
  case isTrue h =>
      rw [List.isEmpty_iff.mp h]
      simp
  case isFalse => rfl

theorem keyScores_cons (row : Row) (rows : List Row) (k : String × PyStr) :
    keyScores (row :: rows) k = if row.2.key = k then row.score :: keyScores rows k
    else keyScores rows k := by
  rw [keyScores, List.filter_cons]
  by_cases h : row.2.key = k
  · rw [if_pos (decide_eq_true h), if_pos h]
    rfl
  · rw [if_neg (mt of_decide_eq_true h), if_neg h]
    rfl

theorem keyScores_eq_nil {rows : List Row} {k : String × PyStr} (h : ∀ row ∈ rows, row.2.key ≠ k) :
    keyScores rows k = [] := by
  rw [keyScores, List.map_eq_nil_iff, List.filter_eq_nil_iff]
  intro row hrow
  rw [decide_eq_true_eq]
  exact h row hrow

/-- The rows of one field: a score for each occurrence of the term. -/
theorem keyScores_field (ranks : Ranks) (copy : Nat) (field : String) (weight : Int8) (term : PyStr)
    (terms : List (PyStr × Nat)) :
    keyScores (terms.filterMap fun t =>
        (ranks ⟨category, copy, field, t.2⟩).first (matched db search category id field weight t.1))
          (field, term) =
      ((terms.map Prod.fst).filter fun t => t = term).filterMap
      (fieldScore db search category id field weight) := by
  induction terms with
  | nil => rfl
  | cons t rest ih =>
      have hscore := (ranks ⟨category, copy, field, t.2⟩).map_score_first
        (matched db search category id field weight t.1)
      rw [List.filterMap_cons, List.map_cons, List.filter_cons]
      cases hfirst : (ranks ⟨category, copy, field, t.2⟩).first
        (matched db search category id field weight t.1) with
      | none =>
          rw [hfirst, Option.map_none] at hscore
          by_cases hterm : t.1 = term
          · rw [if_pos (decide_eq_true hterm), List.filterMap_cons, fieldScore, ← hscore]
            exact ih
          · rw [if_neg (mt of_decide_eq_true hterm)]
            exact ih
      | some row =>
          rw [hfirst, Option.map_some] at hscore
          have hkey : row.2.key = (field, t.1) :=
            (of_mem_matched db search category id (Ranking.mem_of_first _ hfirst)).2
          dsimp only
          rw [keyScores_cons, hkey, ih]
          by_cases hterm : t.1 = term
          · rw [if_pos (decide_eq_true hterm), List.filterMap_cons, fieldScore, ← hscore,
              if_pos (by rw [hterm])]
          · rw [if_neg (mt of_decide_eq_true hterm), if_neg fun h => hterm (Prod.mk.inj h).2]

theorem keyScores_flatMap {α : Type} (l : List α) (f : α → List Row) (k : String × PyStr) :
    keyScores (l.flatMap f) k = l.flatMap fun a => keyScores (f a) k := by
  rw [keyScores, List.filter_flatMap, List.map_flatMap]
  rfl

/-- The rows of the fields outside the groups. -/
theorem keyScores_outside (ranks : Ranks) (groups : List (String × List String))
    (k : String × PyStr) :
    keyScores ((kept db search category id ranks 0).filter
        fun row => !(groups.flatMap Prod.snd).contains row.2.field) k =
      occurrenceScores db search category id groups k.1 k.2 := by
  rw [kept, List.filter_flatMap, keyScores_flatMap, occurrenceScores]
  apply List.flatMap_congr
  intro x _
  cases x.2 with
  | none => rfl
  | some weight =>
      dsimp only
      have hkey : ∀ row ∈ search.terms.zipIdx.filterMap (fun t =>
          (ranks ⟨category, 0, x.1, t.2⟩).first (matched db search category id x.1 weight t.1)),
            row.2.field = x.1 := by
        intro row hrow
        obtain ⟨t, -, hfirst⟩ := List.mem_filterMap.mp hrow
        exact (Prod.mk.inj
          (of_mem_matched db search category id (Ranking.mem_of_first _ hfirst)).2).1
      split
      case isTrue h =>
          rw [List.filter_eq_self.mpr, ← List.zipIdx_map_fst 0 search.terms,
            ← keyScores_field db search category id ranks 0,
            List.zipIdx_map_fst, h.1]
          intro row hrow
          rw [hkey row hrow, Bool.not_eq_true', List.contains_eq_mem, decide_eq_false_iff_not]
          exact h.2
      case isFalse h =>
          apply keyScores_eq_nil
          intro row hrow heq
          obtain ⟨hrow, houtside⟩ := List.mem_filter.mp hrow
          rw [hkey row hrow, Bool.not_eq_true', List.contains_eq_mem,
            decide_eq_false_iff_not] at houtside
          refine h ⟨?_, houtside⟩
          rw [← hkey row hrow]
          exact (Prod.mk.inj heq).1

/-- The rows of a group's fields for a term and a pattern. -/
def foundBy (rows : List Row) (group : String × List String) (term : PyStr)
    (pattern : PatternName) : List Row :=
  rows.filter fun row => row.2.field ∈ group.2 ∧ row.2.term = term ∧ row.2.pattern = pattern

theorem patternScores_eq (rows : List Row) (group : String × List String) (term : PyStr) :
    patternScores rows group term =
      (allPatterns.filter fun pattern => !(foundBy rows group term pattern).isEmpty).map
      fun pattern => best Row.score (foundBy rows group term pattern) := by
  rw [← List.filterMap_eq_map', List.filterMap_filter, patternScores]
  apply List.filterMap_congr
  intro pattern _
  change ((foundBy rows group term pattern).map Row.score).max? = _
  cases hfound : foundBy rows group term pattern with
  | nil => rfl
  | cons row rest =>
      rw [if_pos (by rfl), best, List.map_cons, List.max?_cons', Option.getD_some]

/-- The rows of a group: a score for each pattern. -/
theorem keyScores_groupQuery {rows : List Row} (hid : ∀ row ∈ rows, row.1 = id)
    (group : String × List String) (k : String × PyStr) :
    (keyScores (groupQuery rows group) k).Perm
    (if group.1 = k.1 then patternScores rows group k.2 else []) := by
  split
  case isFalse h =>
      rw [keyScores_eq_nil]
      intro row hrow heq
      apply h
      rw [← field_groupQuery hrow]
      exact (Prod.mk.inj heq).1
  case isTrue h =>
      let grouped := rows.filter fun row => group.2.contains row.2.field
      let key (row : Row) : Int × PyStr × PatternName := (row.1, row.2.term, row.2.pattern)
      have hfound :
          ∀ pattern, ofKey key grouped (id, k.2, pattern) = foundBy rows group k.2 pattern := by
        intro pattern
        rw [ofKey, List.filter_filter, foundBy]
        apply List.filter_congr
        intro row hrow
        simp [key, hid row hrow, and_comm]
      have hscores : keyScores (groupQuery rows group) k =
          (((grouped.map key).dedup.filter fun c => c.2.1 = k.2).map fun c =>
            best Row.score (ofKey key grouped c)) := by
        rw [keyScores, groupQuery, bestByKey, List.map_map, List.filter_map, List.map_map]
        have hterm : ∀ c : Int × PyStr × PatternName, (group.1, c.2.1) = k ↔ c.2.1 = k.2 := fun c =>
          ⟨fun heq => congrArg Prod.snd heq, fun heq => Prod.ext h heq⟩
        simp only [Function.comp_def, Entry.key, hterm]
        rfl
      have hkeys : ((grouped.map key).dedup.filter fun c => c.2.1 = k.2).Perm
          ((allPatterns.filter fun pattern => !(foundBy rows group k.2 pattern).isEmpty).map
            fun pattern =>
            (id, k.2, pattern)) := by
        have hused : ∀ pattern, (!(foundBy rows group k.2 pattern).isEmpty) = true ↔
            (id, k.2, pattern) ∈ grouped.map key := by
          intro pattern
          rw [← hfound, Bool.not_eq_true', ← Bool.not_eq_true, List.isEmpty_iff,
            ← ne_eq, ofKey_ne_nil, List.mem_toFinset]
        apply (List.perm_ext_iff_of_nodup ((List.nodup_dedup _).filter _) ?_).mpr
        · intro c
          rw [List.mem_filter, List.mem_dedup, decide_eq_true_eq]
          constructor
          · rintro ⟨hmem, hterm⟩
            obtain ⟨row, hrow, rfl⟩ := List.mem_map.mp hmem
            have hrowId : row.1 = id := hid row (List.mem_of_mem_filter hrow)
            have hkey : (id, k.2, row.2.pattern) = key row := by rw [← hrowId, ← hterm]
            apply List.mem_map.mpr
            refine ⟨row.2.pattern, List.mem_filter.mpr ⟨mem_allPatterns _, (hused _).mpr ?_⟩, hkey⟩
            rw [hkey]
            exact hmem
          · intro hmem
            obtain ⟨pattern, hpattern, rfl⟩ := List.mem_map.mp hmem
            exact ⟨(hused pattern).mp (List.mem_filter.mp hpattern).2, rfl⟩
        · exact (nodup_allPatterns.filter _).map fun pattern other heq =>
            (Prod.mk.inj (Prod.mk.inj heq).2).2
      rw [hscores, patternScores_eq]
      have hperm := hkeys.map fun c => best Row.score (ofKey key grouped c)
      rw [List.map_map] at hperm
      simpa only [Function.comp_def, hfound] using hperm

theorem scoresFor_perm (ranks : Ranks) (config : FieldGroups) (k : String × PyStr) :
    ((ofKey Entry.key (entriesOf db search category id ranks config) k).map Entry.score).Perm
      (scoresFor db search category id ranks (config category) k) := by
  rw [entriesOf, map_score_ofKey, processFieldGroups_eq, keyScores, List.filter_append,
    List.map_append, scoresFor]
  change (keyScores _ k ++ keyScores _ k).Perm _
  rw [keyScores_outside, keyScores_flatMap]
  apply List.Perm.append_left
  apply List.Perm.flatMap_left
  intro x _
  exact keyScores_groupQuery id (fun row => id_of_mem_kept db search category id) x.1 k

theorem mem_namesAndTerms {ranks : Ranks} {config : FieldGroups} {entry : Entry}
    (h : entry ∈ entriesOf db search category id ranks config) :
    entry.key ∈ namesAndTerms search category (config category) := by
  have hkept : ∀ copy, ∀ row ∈ kept db search category id ranks copy,
      row.2.field ∈ (search.fieldWeights.ofCategory category).map Prod.fst ∧
      row.2.term ∈ search.terms := fun copy row hrow =>
    List.mem_product.mp
      ((keys_kept_sublist db search category id ranks copy).subset (List.mem_map_of_mem hrow))
  rw [entriesOf, processFieldGroups_eq] at h
  obtain ⟨row, hrow, rfl⟩ := List.mem_map.mp h
  rw [namesAndTerms, List.mem_dedup, Entry.key, List.mem_product, List.mem_append]
  rcases List.mem_append.mp hrow with h | h
  · obtain ⟨hfield, hterm⟩ := hkept 0 row (List.mem_of_mem_filter h)
    exact ⟨.inl hfield, hterm⟩
  · obtain ⟨x, hx, hrow⟩ := List.mem_flatMap.mp h
    have hgroup : x.1 ∈ config category := List.fst_mem_of_mem_zipIdx hx
    constructor
    · rw [field_groupQuery hrow]
      exact .inr (List.mem_map_of_mem hgroup)
    · -- a group has the terms of its fields
      obtain ⟨best, hbest, rfl⟩ := List.mem_map.mp hrow
      obtain ⟨key, hkey, rfl⟩ := List.mem_map.mp hbest
      obtain ⟨other, hother, rfl⟩ := List.mem_map.mp (List.mem_dedup.mp hkey)
      exact (hkept x.2 other (List.mem_of_mem_filter hother)).2

theorem nodup_namesAndTerms (groups : List (String × List String)) :
    (namesAndTerms search category groups).Nodup :=
  List.nodup_dedup _

/-- What an entity has beyond the best for each name and term. -/
theorem surplus_entriesOf (ranks : Ranks) (config : FieldGroups) :
    surplus Entry.key Entry.score (entriesOf db search category id ranks config) =
      (furtherScores db search category id ranks (config category)).sum := by
  rw [surplus_eq_sum fun entry hentry =>
    List.mem_toFinset.mpr (mem_namesAndTerms db search category id hentry),
    furtherScores, List.flatMap_def, List.sum_flatten, List.map_map,
    ← List.sum_toFinset _ (nodup_namesAndTerms search category (config category))]
  apply Finset.sum_congr rfl
  intro k _
  exact sum_further_perm (scoresFor_perm db search category id ranks config k)

theorem matched_of_notMem (h : id ∉ (db.table category).ids) (field : String) (weight : Int8)
    (term : PyStr) :
    matched db search category id field weight term = [] := by
  rw [List.eq_nil_iff_forall_not_mem]
  intro row hrow
  obtain ⟨p, -, hrow⟩ := List.mem_filterMap.mp hrow
  obtain ⟨multiplier, -, hrow⟩ := Option.bind_eq_some_iff.mp hrow
  split at hrow
  case isTrue hfound => exact h hfound.1
  case isFalse => cases hrow

/-- Only stored rows have scores. -/
theorem sum_furtherScores_of_notMem (ranks : Ranks) (config : FieldGroups)
    (h : id ∉ (db.table category).ids) :
    (furtherScores db search category id ranks (config category)).sum = 0 := by
  have hkept : ∀ copy, kept db search category id ranks copy = [] := by
    intro copy
    rw [kept, List.flatMap_eq_nil_iff]
    intro x _
    split
    · rfl
    · rw [List.filterMap_eq_nil_iff]
      intro t _
      rw [matched_of_notMem db search category id h, Ranking.first_nil]
  have hnone : entriesOf db search category id ranks config = [] := by
    rw [entriesOf, processFieldGroups_eq, hkept, List.map_eq_nil_iff, List.filter_nil,
      List.nil_append, List.flatMap_eq_nil_iff]
    intro x _
    rw [hkept]
    rfl
  rw [← surplus_entriesOf, hnone]
  rfl

/-- No weight times a multiplier is negative. -/
def Unsigned : Prop :=
  ∀ x ∈ search.fieldWeights.ofCategory category, ∀ weight ∈ x.2, ∀ term,
    ∀ p ∈ search.patternMultipliers.getPatterns term,
    ∀ multiplier ∈ p.2.2, 0 ≤ weight.toInt * multiplier.toInt

theorem nonneg_of_mem_matched (hunsigned : Unsigned search category) {x : String × Option Int8}
    (hx : x ∈ search.fieldWeights.ofCategory category) {weight : Int8}
    (hweight : x.2 = some weight) {term : PyStr} {row : Row}
    (h : row ∈ matched db search category id x.1 weight term) : 0 ≤ row.score := by
  obtain ⟨p, hp, h⟩ := List.mem_filterMap.mp h
  obtain ⟨multiplier, hmultiplier, h⟩ := Option.bind_eq_some_iff.mp h
  split at h
  · cases h
    exact hunsigned x hx weight hweight term p hp multiplier hmultiplier
  · cases h

theorem nonneg_of_mem_kept (hunsigned : Unsigned search category) {ranks : Ranks}
    {copy : Nat} {row : Row} (h : row ∈ kept db search category id ranks copy) : 0 ≤ row.score := by
  obtain ⟨x, hx, h⟩ := List.mem_flatMap.mp h
  split at h
  · cases h
  · rename_i weight hweight
    obtain ⟨t, -, hfirst⟩ := List.mem_filterMap.mp h
    exact nonneg_of_mem_matched db search category id hunsigned hx hweight
      (Ranking.mem_of_first _ hfirst)

theorem nonneg_of_mem_scoresFor (hunsigned : Unsigned search category) {ranks : Ranks}
    {groups : List (String × List String)} {k : String × PyStr} {score : ℤ}
    (h : score ∈ scoresFor db search category id ranks groups k) : 0 ≤ score := by
  rcases List.mem_append.mp h with h | h
  · obtain ⟨x, hx, h⟩ := List.mem_flatMap.mp h
    split at h
    case h_1 => cases h
    case h_2 weight hweight =>
        split at h
        case isFalse => cases h
        case isTrue =>
            obtain ⟨term, -, hscore⟩ := List.mem_filterMap.mp h
            obtain ⟨row, hrow, rfl⟩ := List.mem_map.mp (List.max?_eq_some_iff.mp hscore).1
            exact nonneg_of_mem_matched db search category id hunsigned hx hweight hrow
  · obtain ⟨x, -, h⟩ := List.mem_flatMap.mp h
    split at h
    case isFalse => cases h
    case isTrue =>
        obtain ⟨pattern, -, hscore⟩ := List.mem_filterMap.mp h
        obtain ⟨row, hrow, rfl⟩ := List.mem_map.mp (List.max?_eq_some_iff.mp hscore).1
        exact nonneg_of_mem_kept db search category id hunsigned (List.mem_of_mem_filter hrow)

/-- Scores that are not negative do not cancel out. -/
theorem sum_furtherScores_eq_zero_iff (hunsigned : Unsigned search category) (ranks : Ranks)
    (groups : List (String × List String)) :
    (furtherScores db search category id ranks groups).sum = 0 ↔
      ∀ score ∈ furtherScores db search category id ranks groups, score = 0 := by
  have hnonneg : ∀ score ∈ furtherScores db search category id ranks groups, 0 ≤ score := by
    intro score hscore
    obtain ⟨k, -, hscore⟩ := List.mem_flatMap.mp hscore
    exact nonneg_of_mem_scoresFor db search category id hunsigned (List.mem_of_mem_erase hscore)
  constructor
  · exact List.all_zero_of_le_zero_le_of_sum_eq_zero hnonneg
  · exact List.sum_eq_zero

end Further

theorem defaultWeights_nonneg (category : SearchableFieldCategory) :
    ∀ x ∈ FieldWeights.defaults.ofCategory category, ∀ weight ∈ x.2, 0 ≤ weight.toInt := by
  cases category <;> decide

theorem defaultMultipliers_nonneg (term : PyStr) :
    ∀ p ∈ PatternMultipliers.defaults.getPatterns term, ∀ multiplier ∈ p.2.2,
    0 ≤ multiplier.toInt := by
  have hvalues : ∀ value ∈ PatternMultipliers.defaults.toList, ∀ multiplier ∈ value,
      0 ≤ multiplier.toInt := by
    decide +kernel
  intro p hp
  apply hvalues
  rw [PatternMultipliers.getPatterns] at hp
  rw [PatternMultipliers.toList]
  exact List.mem_map_of_mem (f := fun p => p.2.2) hp

/-- By default no score is negative. -/
theorem unsigned_defaults (terms : List PyStr) (caseSensitive : Bool)
    (category : SearchableFieldCategory) :
    Unsigned ⟨terms, caseSensitive, PatternMultipliers.defaults, FieldWeights.defaults⟩
    category := by
  intro x hx weight hweight term p hp multiplier hmultiplier
  exact Int.mul_nonneg (defaultWeights_nonneg category x hx weight hweight)
    (defaultMultipliers_nonneg term p hp multiplier hmultiplier)

end Graveboards.Scores
