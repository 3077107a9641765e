import Mathlib.Data.List.ReduceOption
import Mathlib.Data.List.Sort
import Mathlib.Data.Int.Interval
import Graveboards.Library.Relational

/-!
Fields of a beatmapset snapshot that are derived from its beatmap snapshots: in Python
from the loaded list, and in SQL by grouped and windowed subqueries. Ratings are in
hundredths, so that rounding to two decimals changes nothing.
-/

namespace Graveboards.Snapshots.Derived

open Graveboards.Library

structure BeatmapSnapshot where
  id : Nat
  difficultyRating : Int
  hitLength : Int
  deriving DecidableEq

/-- A row of the association of beatmap snapshots with beatmapset snapshots. -/
structure Association where
  beatmapSnapshotId : Nat
  beatmapsetSnapshotId : Nat
  deriving DecidableEq

structure Database where
  beatmapSnapshots : List BeatmapSnapshot
  association : List Association

/-! In Python. -/

/-- What reading a property gives: a value, or an exception. -/
inductive Attribute where
  | value (n : Int)
  | attributeError
  | valueError
  deriving DecidableEq

/-- `min` of a list. -/
def pyMin (values : List Int) : Attribute := (values.min?.map .value).getD .valueError

/-- `max` of a list. -/
def pyMax (values : List Int) : Attribute := (values.max?.map .value).getD .valueError

/-- The differences of neighbours; `round(…, 2)` keeps hundredths. -/
def differences : List Int → List Int
  | a :: b :: rest => |a - b| :: differences (b :: rest)
  | _ => []

/-- `none`: AttributeError. -/
def srGaps (beatmapSnapshots : List BeatmapSnapshot) : Option (List Int) :=
  if beatmapSnapshots.isEmpty then none
  else
    let ratings := (beatmapSnapshots.map BeatmapSnapshot.difficultyRating).mergeSort
    some (if 1 < ratings.length then differences ratings else [])

/-- `none`: AttributeError. -/
def hitLengths (beatmapSnapshots : List BeatmapSnapshot) : Option (List Int) :=
  if beatmapSnapshots.isEmpty then none else some (beatmapSnapshots.map BeatmapSnapshot.hitLength)

/-! In SQL. -/

namespace Database

/-- The beatmap snapshots, by the beatmapset snapshot they are joined with. -/
def joined (db : Database) : List (Nat × BeatmapSnapshot) :=
  (Relational.join db.beatmapSnapshots db.association fun s a => s.id = a.beatmapSnapshotId).map
    fun x =>
    (x.2.beatmapsetSnapshotId, x.1)

/-- The relationship `beatmap_snapshots`. -/
def beatmapSnapshotsOf (db : Database) (id : Nat) : List BeatmapSnapshot :=
  Relational.group db.joined id

/-- `count(…)` of each group. -/
def numDifficultiesCte (db : Database) : List (Nat × Nat) :=
  Relational.groupBy db.joined List.length

/-- `bms_ss_with_multiple_bm_ss_cte`. -/
def multipleCte (db : Database) : List (Nat × Nat) :=
  (Relational.groupBy db.joined List.length).filter fun g => decide (1 < g.2)

/-- The rows of the beatmapset snapshots with several beatmap snapshots. -/
def multiple (db : Database) : List (Nat × BeatmapSnapshot) :=
  (Relational.join db.joined db.multipleCte fun row g => row.1 = g.1).map Prod.fst

end Database

/-- `lag` of the ratings in their order: null in the first row. -/
def lagGaps : Option Int → List Int → List (Option Int)
  | _, [] => []
  | lag, rating :: rest =>
      (lag.map fun previous => |rating - previous|) :: lagGaps (some rating) rest

/-- The window is ordered by the rating; rows that tie have the same gaps in any order. -/
def windowGaps (rows : List BeatmapSnapshot) : List (Option Int) :=
  lagGaps none (rows.map BeatmapSnapshot.difficultyRating).mergeSort

namespace Database

def srGapCte (db : Database) : List (Nat × Option Int) := Relational.window db.multiple windowGaps

def hitLengthCte (db : Database) : List (Nat × Option Int) :=
  db.multiple.map fun row => (row.1, some row.2.hitLength)

end Database

/-- `min(…)`, which leaves nulls out. -/
def sqlMin (values : List (Option Int)) : Option Int := values.reduceOption.min?

/-- `max(…)`, which leaves nulls out. -/
def sqlMax (values : List (Option Int)) : Option Int := values.reduceOption.max?

/-! The properties. -/

inductive Hybrid where
  | numDifficulties
  | srGapsMin
  | srGapsMax
  | hitLengthsMin
  | hitLengthsMax
  deriving DecidableEq

namespace Hybrid

/-- The property of an instance with its beatmap snapshots loaded. -/
def get (beatmapSnapshots : List BeatmapSnapshot) : Hybrid → Attribute
  | numDifficulties => .value beatmapSnapshots.length
  | srGapsMin => ((srGaps beatmapSnapshots).map pyMin).getD .attributeError
  | srGapsMax => ((srGaps beatmapSnapshots).map pyMax).getD .attributeError
  | hitLengthsMin => ((hitLengths beatmapSnapshots).map pyMin).getD .attributeError
  | hitLengthsMax => ((hitLengths beatmapSnapshots).map pyMax).getD .attributeError

/-- The scalar subquery for the beatmapset snapshot with the id. -/
def expression (db : Database) (id : Nat) : Hybrid → Option Int
  | numDifficulties => (Relational.scalar db.numDifficultiesCte id).map Int.ofNat
  | srGapsMin => (Relational.scalar (Relational.groupBy db.srGapCte sqlMin) id).join
  | srGapsMax => (Relational.scalar (Relational.groupBy db.srGapCte sqlMax) id).join
  | hitLengthsMin => (Relational.scalar (Relational.groupBy db.hitLengthCte sqlMin) id).join
  | hitLengthsMax => (Relational.scalar (Relational.groupBy db.hitLengthCte sqlMax) id).join

/-- The value of the instance is the value of the expression, and missing where it is null. -/
def Agrees : Attribute → Option Int → Prop
  | .value n, some m => n = m
  | .attributeError, none => True
  | _, _ => False

/-- The numbers of beatmap snapshots for which the two definitions agree. -/
def Sized (n : Nat) : Hybrid → Prop
  | numDifficulties => n ≠ 0
  | _ => n ≠ 1

end Hybrid

/-! The groups. -/

theorem group_multiple (db : Database) (id : Nat) :
    Relational.group db.multiple id =
      if 1 < (db.beatmapSnapshotsOf id).length then db.beatmapSnapshotsOf id else [] := by
  have h := Relational.group_join_having db.joined List.length (fun n => decide (1 < n)) id
  simp only [decide_eq_true_eq] at h
  exact h

theorem windowGaps_nil : windowGaps [] = [] := by
  rw [windowGaps, List.map_nil, List.mergeSort_nil, lagGaps]

theorem group_srGapCte (db : Database) (id : Nat) :
    Relational.group db.srGapCte id =
      if 1 < (db.beatmapSnapshotsOf id).length then
      windowGaps (db.beatmapSnapshotsOf id) else [] := by
  rw [Database.srGapCte, Relational.group_window windowGaps_nil, group_multiple]
  split
  · rfl
  · exact windowGaps_nil

theorem group_hitLengthCte (db : Database) (id : Nat) :
    Relational.group db.hitLengthCte id =
      if 1 < (db.beatmapSnapshotsOf id).length then
        (db.beatmapSnapshotsOf id).map fun s => some s.hitLength
      else [] := by
  have hmap : Relational.group db.hitLengthCte id =
      (Relational.group db.multiple id).map fun s => some s.hitLength := by
    rw [Relational.group, Database.hitLengthCte, List.filter_map, List.map_map,
      Relational.group, List.map_map]
    rfl
  rw [hmap, group_multiple]
  split
  · rfl
  · rfl

/-- An aggregate of gaps or lengths, null where there is only one beatmap snapshot. -/
theorem join_scalar_groupBy {cte : List (Nat × Option Int)} {n : Nat}
    {values : List (Option Int)} {id : Nat} (aggregate : List (Option Int) → Option Int)
    (hnil : aggregate [] = none) (hgroup : Relational.group cte id = if 1 < n then values else []) :
    (Relational.scalar (Relational.groupBy cte aggregate) id).join = if 1 < n then aggregate values
    else none := by
  rw [Relational.scalar_groupBy, hgroup]
  by_cases hn : 1 < n
  · rw [if_pos hn, if_pos hn]
    by_cases hvalues : values = []
    · rw [if_pos hvalues, hvalues, hnil]
      rfl
    · rw [if_neg hvalues]
      rfl
  · rw [if_neg hn, if_neg hn, if_pos rfl]
    rfl

/-! The gaps. -/

theorem reduceOption_lagGaps (ratings : List Int) :
    (lagGaps none ratings).reduceOption = differences ratings := by
  have hlag (rating : Int) (rest : List Int) :
      (lagGaps (some rating) rest).reduceOption = differences (rating :: rest) := by
    induction rest generalizing rating with
    | nil => rfl
    | cons next rest ih =>
        rw [lagGaps, Option.map_some, List.reduceOption_cons_of_some, ih, differences, abs_sub_comm]
  cases ratings with
  | nil => rfl
  | cons rating rest =>
      rw [lagGaps, Option.map_none, List.reduceOption_cons_of_none, hlag]

theorem differences_ne_nil {ratings : List Int} (h : 1 < ratings.length) :
    differences ratings ≠ [] := by
  match ratings with
  | a :: b :: rest => exact List.cons_ne_nil _ _
  | [a] => exact absurd h (by simp)
  | [] => exact absurd h (by simp)

/-- Loading the relationship in another order gives the same sorted ratings. -/
theorem mergeSort_of_perm {l l' : List Int} (h : l.Perm l') : l.mergeSort = l'.mergeSort := by
  have hperm : l.mergeSort.Perm l'.mergeSort :=
    (List.mergeSort_perm l _).trans (h.trans (List.mergeSort_perm l' _).symm)
  exact hperm.eq_of_pairwise' (List.pairwise_mergeSort' (· ≤ ·) l)
    (List.pairwise_mergeSort' (· ≤ ·) l')

theorem min?_of_perm {l l' : List Int} (h : l.Perm l') : l.min? = l'.min? := by
  apply Option.ext
  intro n
  rw [List.min?_eq_some_iff, List.min?_eq_some_iff]
  constructor
  · exact fun ⟨hmem, hle⟩ => ⟨h.subset hmem, fun b hb => hle b (h.symm.subset hb)⟩
  · exact fun ⟨hmem, hle⟩ => ⟨h.symm.subset hmem, fun b hb => hle b (h.subset hb)⟩

theorem max?_of_perm {l l' : List Int} (h : l.Perm l') : l.max? = l'.max? := by
  apply Option.ext
  intro n
  rw [List.max?_eq_some_iff, List.max?_eq_some_iff]
  constructor
  · exact fun ⟨hmem, hle⟩ => ⟨h.subset hmem, fun b hb => hle b (h.symm.subset hb)⟩
  · exact fun ⟨hmem, hle⟩ => ⟨h.symm.subset hmem, fun b hb => hle b (h.subset hb)⟩

/-! Agreement. -/

namespace Hybrid

section Aggregate

variable {aggregate : List Int → Option Int}
  (haggregate : ∀ values, aggregate values = none ↔ values = [])

include haggregate

theorem agrees_of_ne_nil {values : List Int} (h : values ≠ []) :
    Agrees (((aggregate values).map .value).getD .valueError) (aggregate values) := by
  cases hvalue : aggregate values with
  | none => exact absurd ((haggregate values).mp hvalue) h
  | some n => rfl

/-- With one rating there is no gap: the list is empty in Python and null in SQL. -/
theorem agrees_srGaps_iff (beatmapSnapshots : List BeatmapSnapshot) :
    Agrees (((srGaps beatmapSnapshots).map fun gaps =>
      ((aggregate gaps).map .value).getD .valueError).getD
        .attributeError)
      (if 1 < beatmapSnapshots.length then
        aggregate (differences (beatmapSnapshots.map BeatmapSnapshot.difficultyRating).mergeSort)
      else none) ↔ beatmapSnapshots.length ≠ 1 := by
  have hlength : ((beatmapSnapshots.map BeatmapSnapshot.difficultyRating).mergeSort).length =
      beatmapSnapshots.length := by rw [List.length_mergeSort, List.length_map]
  rw [srGaps]
  match hcount : beatmapSnapshots.length with
  | 0 =>
      rw [List.length_eq_zero_iff] at hcount
      subst hcount
      simp [Agrees]
  | 1 =>
      have hne : beatmapSnapshots.isEmpty = false := by
        rw [List.isEmpty_eq_false_iff, ← List.length_pos_iff]
        omega
      have hnone : aggregate [] = none := (haggregate []).mpr rfl
      simp [hne, hlength, hcount, hnone, Agrees]
  | n + 2 =>
      have hne : beatmapSnapshots.isEmpty = false := by
        rw [List.isEmpty_eq_false_iff, ← List.length_pos_iff]
        omega
      have hmany :
          1 < (beatmapSnapshots.map BeatmapSnapshot.difficultyRating).mergeSort.length := by omega
      have hgaps := agrees_of_ne_nil haggregate (differences_ne_nil hmany)
      simp only [hne, hlength, hcount, Bool.false_eq_true, if_false, Option.map_some,
        Option.getD_some]
      rw [if_pos (by omega)]
      constructor
      · intro _
        omega
      · exact fun _ => hgaps

/-- One length is a value in Python and null in SQL. -/
theorem agrees_hitLengths_iff (beatmapSnapshots : List BeatmapSnapshot) :
    Agrees (((hitLengths beatmapSnapshots).map fun lengths => ((aggregate lengths).map .value).getD
        .valueError).getD .attributeError)
      (if 1 < beatmapSnapshots.length then
        aggregate (beatmapSnapshots.map BeatmapSnapshot.hitLength) else none) ↔
        beatmapSnapshots.length ≠ 1 := by
  rw [hitLengths]
  match beatmapSnapshots with
  | [] => simp [Agrees]
  | [s] =>
      cases hvalue : aggregate [s.hitLength] with
      | none => cases (haggregate _).mp hvalue
      | some n => simp [hvalue, Agrees]
  | s :: s' :: rest =>
      have hlengths := agrees_of_ne_nil haggregate
        (List.cons_ne_nil s.hitLength ((s' :: rest).map BeatmapSnapshot.hitLength))
      have hmany : 1 < (s :: s' :: rest).length := by
        rw [List.length_cons, List.length_cons]
        omega
      rw [if_pos hmany]
      constructor
      · intro _
        omega
      · exact fun _ => hlengths

end Aggregate

section Loaded

variable {db : Database} {id : Nat} {beatmapSnapshots : List BeatmapSnapshot}

/-- The two definitions agree exactly for the sizes that both of them handle alike. -/
theorem agrees_iff (hloaded : beatmapSnapshots.Perm (db.beatmapSnapshotsOf id)) (hybrid : Hybrid) :
    Agrees (hybrid.get beatmapSnapshots) (hybrid.expression db id) ↔
      hybrid.Sized beatmapSnapshots.length := by
  have hlength := hloaded.length_eq
  have hratings := mergeSort_of_perm (hloaded.map BeatmapSnapshot.difficultyRating)
  have hlengths := hloaded.map BeatmapSnapshot.hitLength
  have hgaps (aggregate : List Int → Option Int) (hnil : aggregate [] = none) :
      (Relational.scalar
        (Relational.groupBy db.srGapCte fun values => aggregate values.reduceOption) id).join =
        if 1 < beatmapSnapshots.length then
          aggregate (differences (beatmapSnapshots.map BeatmapSnapshot.difficultyRating).mergeSort)
        else none := by
    rw [join_scalar_groupBy (fun values => aggregate values.reduceOption) hnil
      (group_srGapCte db id), windowGaps,
      reduceOption_lagGaps, hlength, hratings]
  have hhits (aggregate : List Int → Option Int) (hnil : aggregate [] = none)
      (hperm : ∀ {l l' : List Int}, l.Perm l' → aggregate l = aggregate l') :
      (Relational.scalar
        (Relational.groupBy db.hitLengthCte fun values => aggregate values.reduceOption) id).join =
        if 1 < beatmapSnapshots.length then
        aggregate (beatmapSnapshots.map BeatmapSnapshot.hitLength) else none := by
    have hsome : ((db.beatmapSnapshotsOf id).map fun s => some s.hitLength).reduceOption =
        (db.beatmapSnapshotsOf id).map BeatmapSnapshot.hitLength := by
      rw [List.reduceOption, List.filterMap_map]
      exact congrFun List.filterMap_eq_map' _
    rw [join_scalar_groupBy (fun values => aggregate values.reduceOption) hnil
      (group_hitLengthCte db id), hsome,
      hlength, hperm hlengths]
  have hmin : ∀ values : List Int, values.min? = none ↔ values = [] :=
    fun _ => List.min?_eq_none_iff
  have hmax : ∀ values : List Int, values.max? = none ↔ values = [] :=
    fun _ => List.max?_eq_none_iff
  cases hybrid with
  | numDifficulties =>
      have hcount : (Relational.scalar db.numDifficultiesCte id).map Int.ofNat =
          if beatmapSnapshots.length = 0 then none else some (beatmapSnapshots.length : Int) := by
        rw [Database.numDifficultiesCte, Relational.scalar_groupBy, hlength]
        cases hrows : Relational.group db.joined id with
        | nil => simp [Database.beatmapSnapshotsOf, hrows]
        | cons s rest => simp [Database.beatmapSnapshotsOf, hrows]
      rw [expression, get, Sized, hcount]
      by_cases h : beatmapSnapshots.length = 0
      · simp [h, Agrees]
      · simp [h, Agrees]
  | srGapsMin =>
      have h := agrees_srGaps_iff hmin beatmapSnapshots
      rw [← hgaps List.min? rfl] at h
      exact h
  | srGapsMax =>
      have h := agrees_srGaps_iff hmax beatmapSnapshots
      rw [← hgaps List.max? rfl] at h
      exact h
  | hitLengthsMin =>
      have h := agrees_hitLengths_iff hmin beatmapSnapshots
      rw [← hhits List.min? rfl min?_of_perm] at h
      exact h
  | hitLengthsMax =>
      have h := agrees_hitLengths_iff hmax beatmapSnapshots
      rw [← hhits List.max? rfl max?_of_perm] at h
      exact h

end Loaded

/-- Three beatmap snapshots, two of one rating, and one in a second beatmapset snapshot. -/
def sample : Database :=
  { beatmapSnapshots := [⟨1, 350, 90⟩, ⟨2, 210, 95⟩, ⟨3, 350, 100⟩]
    association := [⟨1, 7⟩, ⟨2, 7⟩, ⟨3, 7⟩, ⟨2, 8⟩] }

theorem agrees_iff_sample :
    Agrees (srGapsMin.get (sample.beatmapSnapshotsOf 7)) (srGapsMin.expression sample 7) ↔
      srGapsMin.Sized (sample.beatmapSnapshotsOf 7).length :=
  agrees_iff (List.Perm.refl _) srGapsMin

/-- With one beatmap snapshot both minima differ, with none the number of difficulties. -/
theorem single_not_agrees :
    ¬ Agrees (srGapsMin.get (sample.beatmapSnapshotsOf 8)) (srGapsMin.expression sample 8) ∧
      ¬ Agrees (hitLengthsMin.get (sample.beatmapSnapshotsOf 8))
      (hitLengthsMin.expression sample 8) ∧
      ¬ Agrees (numDifficulties.get (sample.beatmapSnapshotsOf 9))
      (numDifficulties.expression sample 9) := by
  have hgaps : srGapsMin.get (sample.beatmapSnapshotsOf 8) = .valueError := by decide +kernel
  have hlengths : hitLengthsMin.get (sample.beatmapSnapshotsOf 8) = .value 95 ∧
      hitLengthsMin.expression sample 8 = none := by decide +kernel
  have hnone : numDifficulties.get (sample.beatmapSnapshotsOf 9) = .value 0 ∧
      numDifficulties.expression sample 9 = none := by decide +kernel
  rw [hgaps, hlengths.1, hlengths.2, hnone.1, hnone.2]
  exact ⟨id, id, id⟩

end Hybrid

end Graveboards.Snapshots.Derived
