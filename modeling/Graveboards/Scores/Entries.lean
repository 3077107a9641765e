import Graveboards.Scores.Parents

/-!
Which terms have an entry. Ranking and grouping keep an entry for each term that
a field matches by some pattern, and aggregation keeps those of the children.
-/

namespace Graveboards.Scores

open Graveboards.Library Graveboards.Search

/-- The details of an entity have an entry for the term. -/
def HasEntry (scores : ScoreCte) (id : Int) (term : PyStr) : Prop :=
  ∃ entry ∈ details scores id, entry.term = term

section Entity

variable (db : Database) (search : SearchTermsSchema) (category : SearchableFieldCategory)

/-- Some field with a weight matches a pattern of the term that has a multiplier. -/
def MatchesTerm (id : Int) (term : PyStr) : Prop :=
  term ∈ search.terms ∧ id ∈ (db.table category).ids ∧
    ∃ field weight, (field, some weight) ∈ search.fieldWeights.ofCategory category ∧
      ∃ text, (db.table category).target field id = some text ∧
        ∃ p ∈ search.patternMultipliers.getPatterns term, p.2.2.isSome ∧
        db.like search.caseSensitive text p.2.1 = true

variable {db search category} {id : Int} {term : PyStr} {ranks : Ranks}

theorem matched_ne_nil_iff {field : String} {weight : Int8} :
    matched db search category id field weight term ≠ [] ↔ id ∈ (db.table category).ids ∧
      ∃ text, (db.table category).target field id = some text ∧
        ∃ p ∈ search.patternMultipliers.getPatterns term, p.2.2.isSome ∧
          db.like search.caseSensitive text p.2.1 = true := by
  constructor
  · intro hne
    obtain ⟨row, hrow⟩ := List.exists_mem_of_ne_nil _ hne
    obtain ⟨p, hp, hmatch⟩ := List.mem_filterMap.mp hrow
    obtain ⟨multiplier, hmultiplier, hmatch⟩ := Option.bind_eq_some_iff.mp hmatch
    split at hmatch
    case isTrue h =>
        obtain ⟨text, htext, hlike⟩ := (Option.any_eq_true _ _).mp h.2
        exact ⟨h.1, text, htext, p, hp,
          Option.isSome_iff_exists.mpr ⟨multiplier, hmultiplier⟩, hlike⟩
    case isFalse => cases hmatch
  · rintro ⟨hid, text, htext, p, hp, hsome, hlike⟩
    obtain ⟨multiplier, hmultiplier⟩ := Option.isSome_iff_exists.mp hsome
    have hmatch : patternMatch db search category id field weight term p =
        some (id, ⟨field, term, p.1, weight.toInt * multiplier.toInt⟩) := by
      rw [patternMatch, hmultiplier, Option.bind_some,
        if_pos ⟨hid, (Option.any_eq_true _ _).mpr ⟨text, htext, hlike⟩⟩]
    exact List.ne_nil_of_mem (List.mem_filterMap.mpr ⟨p, hp, hmatch⟩)

/-- In each copy a matching field keeps a row for the term. -/
theorem exists_kept_iff {copy : Nat} {field : String} :
    (∃ row ∈ kept db search category id ranks copy, row.2.field = field ∧ row.2.term = term) ↔
      term ∈ search.terms ∧
      ∃ weight, (field, some weight) ∈ search.fieldWeights.ofCategory category ∧
        matched db search category id field weight term ≠ [] := by
  constructor
  · rintro ⟨row, hrow, rfl, rfl⟩
    obtain ⟨⟨field, weight?⟩, hfield, hrow⟩ := List.mem_flatMap.mp hrow
    cases weight? with
    | none => cases hrow
    | some weight =>
        obtain ⟨t, ht, hfirst⟩ := List.mem_filterMap.mp hrow
        have hmem := Ranking.mem_of_first _ hfirst
        obtain ⟨-, hkey⟩ := of_mem_matched db search category id hmem
        obtain ⟨hrowfield, hrowterm⟩ := Prod.mk.inj hkey
        rw [hrowfield, hrowterm]
        exact ⟨List.fst_mem_of_mem_zipIdx ht, weight, hfield, List.ne_nil_of_mem hmem⟩
  · rintro ⟨hterm, weight, hfield, hmatched⟩
    obtain ⟨i, hi⟩ := List.getElem?_of_mem hterm
    obtain ⟨row, hrow, hfirst⟩ := (ranks ⟨category, copy, field, i⟩).exists_first _ hmatched
    obtain ⟨-, hkey⟩ := of_mem_matched db search category id hrow
    obtain ⟨hrowfield, hrowterm⟩ := Prod.mk.inj hkey
    refine ⟨row, List.mem_flatMap.mpr ⟨_, hfield, ?_⟩, hrowfield, hrowterm⟩
    exact List.mem_filterMap.mpr ⟨(term, i), List.mk_mem_zipIdx_iff_getElem?.mpr hi, hfirst⟩

theorem exists_groupQuery_iff {rows : List Row} {group : String × List String} :
    (∃ row ∈ groupQuery rows group, row.2.term = term) ↔
      ∃ row ∈ rows, row.2.field ∈ group.2 ∧ row.2.term = term := by
  constructor
  · rintro ⟨row, hrow, rfl⟩
    obtain ⟨x, hx, rfl⟩ := List.mem_map.mp hrow
    obtain ⟨key, hkey, rfl⟩ := List.mem_map.mp hx
    obtain ⟨other, hother, rfl⟩ := List.mem_map.mp (List.mem_dedup.mp hkey)
    obtain ⟨hmem, hfield⟩ := List.mem_filter.mp hother
    exact ⟨other, hmem, List.contains_iff_mem.mp hfield, rfl⟩
  · rintro ⟨row, hrow, hfield, rfl⟩
    have hmem : row ∈ rows.filter fun row => group.2.contains row.2.field :=
      List.mem_filter.mpr ⟨hrow, List.contains_iff_mem.mpr hfield⟩
    refine ⟨_, List.mem_map_of_mem
      (List.mem_map_of_mem (List.mem_dedup.mpr (List.mem_map_of_mem hmem))), rfl⟩

/-- Grouping loses no term. -/
theorem exists_processFieldGroups_iff {fieldGroups : List (String × List String)}
    {baseQuery : Nat → List Row} {matching : String → Prop} (hbase : ∀ copy field,
      (∃ row ∈ baseQuery copy, row.2.field = field ∧ row.2.term = term) ↔ matching field) :
    (∃ row ∈ processFieldGroups baseQuery fieldGroups, row.2.term = term) ↔
      ∃ field, matching field := by
  have hfound {copy : Nat} {row : Row} (hrow : row ∈ baseQuery copy) (hterm : row.2.term = term) :
      ∃ field, matching field := ⟨row.2.field, (hbase copy row.2.field).mp ⟨row, hrow, rfl, hterm⟩⟩
  rw [processFieldGroups]
  split
  case isTrue =>
      constructor
      · rintro ⟨row, hrow, hterm⟩
        exact hfound hrow hterm
      · rintro ⟨field, hfield⟩
        obtain ⟨row, hrow, -, hterm⟩ := (hbase 0 field).mpr hfield
        exact ⟨row, hrow, hterm⟩
  case isFalse =>
      constructor
      · rintro ⟨row, hrow, hterm⟩
        rcases List.mem_append.mp hrow with hrow | hrow
        · exact hfound (List.mem_of_mem_filter hrow) hterm
        · obtain ⟨x, -, hrow⟩ := List.mem_flatMap.mp hrow
          obtain ⟨other, hother, -, hterm⟩ := exists_groupQuery_iff.mp ⟨row, hrow, hterm⟩
          exact hfound hother hterm
      · rintro ⟨field, hfield⟩
        by_cases hgrouped : field ∈ fieldGroups.flatMap Prod.snd
        · obtain ⟨group, hgroup, hmem⟩ := List.mem_flatMap.mp hgrouped
          obtain ⟨i, hi⟩ := List.getElem?_of_mem hgroup
          obtain ⟨row, hrow, hrowfield, hterm⟩ := (hbase (1 + i) field).mpr hfield
          obtain ⟨grouped, hrow, hterm⟩ :=
            exists_groupQuery_iff.mpr ⟨row, hrow, hrowfield ▸ hmem, hterm⟩
          refine ⟨grouped,
            List.mem_append_right _ (List.mem_flatMap.mpr ⟨(group, 1 + i), ?_, hrow⟩), hterm⟩
          exact List.mk_add_mem_zipIdx_iff_getElem?.mpr hi
        · obtain ⟨row, hrow, hrowfield, hterm⟩ := (hbase 0 field).mpr hfield
          refine ⟨row, List.mem_append_left _ (List.mem_filter.mpr ⟨hrow, ?_⟩), hterm⟩
          rw [hrowfield, Bool.not_eq_true', ← Bool.not_eq_true, List.contains_iff_mem]
          exact hgrouped

/-- An entity has an entry for the terms that it matches, whatever the groups. -/
theorem exists_entriesOf_iff {config : FieldGroups} :
    (∃ entry ∈ entriesOf db search category id ranks config, entry.term = term) ↔
      MatchesTerm db search category id term := by
  have hentries : (∃ entry ∈ entriesOf db search category id ranks config, entry.term = term) ↔
      ∃ row ∈ processFieldGroups (kept db search category id ranks) (config category),
      row.2.term = term := by
    simp only [entriesOf, List.mem_map, exists_exists_and_eq_and]
  rw [hentries, exists_processFieldGroups_iff (fun copy field => exists_kept_iff), MatchesTerm]
  constructor
  · rintro ⟨field, hterm, weight, hfield, hmatched⟩
    obtain ⟨hid, htext⟩ := matched_ne_nil_iff.mp hmatched
    exact ⟨hterm, hid, field, weight, hfield, htext⟩
  · rintro ⟨hterm, hid, field, weight, hfield, htext⟩
    exact ⟨field, hterm, weight, hfield, matched_ne_nil_iff.mpr ⟨hid, htext⟩⟩

theorem hasEntry_scoreCte_iff {config : FieldGroups} :
    HasEntry (scoreCte ranks config db search category) id term ↔
      MatchesTerm db search category id term := by
  rw [HasEntry, scoreCte, details_of, group_processed]
  exact exists_entriesOf_iff

end Entity

/-- A parent has an entry for the terms that a child has one for. -/
theorem hasEntry_aggregated_iff (rank : Ranking Row Row.score) (rows : List Row)
    (mapping : Mapping) {parent : Int} {term : PyStr} :
    HasEntry (aggregatedChildScores rank (Relational.groupBy rows ScoreRow.of) mapping) parent
    term ↔
      ∃ child, (child, parent) ∈ mapping ∧
      HasEntry (Relational.groupBy rows ScoreRow.of) child term := by
  simp only [HasEntry, aggregatedChildScores, details_of]
  constructor
  · rintro ⟨entry, hentry, hterm⟩
    rw [group_maxEntries, List.mem_map] at hentry
    obtain ⟨⟨id, entry⟩, hrow, rfl⟩ := hentry
    obtain ⟨hexploded, hid⟩ := List.mem_filter.mp (mem_rankFirst rank hrow)
    obtain rfl : id = parent := of_decide_eq_true hid
    obtain ⟨child, hlink, hchild⟩ := (mem_exploded rows).mp hexploded
    exact ⟨child, hlink, entry, hchild, hterm⟩
  · rintro ⟨child, hlink, entry, hentry, hterm⟩
    have hexploded := (mem_exploded rows).mpr ⟨child, hlink, hentry⟩
    have hkey : (parent, entry.key) ∈ (rankFirst rank (fun row => (row.1, row.2.key))
        (exploded (Relational.groupBy rows ScoreRow.of) mapping)).map fun row =>
          (row.1, row.2.key) := by
      rw [keys_rankFirst, List.mem_dedup]
      exact List.mem_map_of_mem hexploded
    obtain ⟨⟨id, best⟩, hrow, hbest⟩ := List.mem_map.mp hkey
    obtain ⟨rfl, hsame⟩ := Prod.mk.inj hbest
    have hgroup : best ∈ Relational.group (rankFirst rank (fun row => (row.1, row.2.key))
        (exploded (Relational.groupBy rows ScoreRow.of) mapping)) id :=
      List.mem_map.mpr ⟨(id, best), List.mem_filter.mpr ⟨hrow, decide_eq_true rfl⟩, rfl⟩
    have hbestterm : best.term = entry.term := congrArg Prod.snd (hsame : best.key = entry.key)
    exact ⟨best, hgroup, hbestterm.trans hterm⟩

end Graveboards.Scores
