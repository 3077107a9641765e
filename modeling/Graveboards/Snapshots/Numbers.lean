import Mathlib.Data.List.Sort
import Mathlib.Data.Int.Interval
import Graveboards.Library.Text

/-!
The endpoints that take a snapshot number. A positive number is compared with a column;
a negative one counts from the latest snapshot, with an order and an offset that are
passed to the query as keywords. The query knows the offset, and takes the order for the
name of a column.
-/

namespace Graveboards.Snapshots.Numbers

open Graveboards.Library

/-- A row of `beatmap_snapshots` or `beatmapset_snapshots`; `parentId` is the
`beatmap_id` or the `beatmapset_id`. -/
structure Snapshot where
  id : Nat
  parentId : Int
  snapshotNumber : Int
  deriving DecidableEq

inductive Table where
  | beatmapSnapshots
  | beatmapsetSnapshots
  deriving DecidableEq

namespace Table

def parentColumn : Table → String
  | beatmapSnapshots => "beatmap_id"
  | beatmapsetSnapshots => "beatmapset_id"

/-- The columns that the endpoints compare; no table has an attribute `_order_by`. -/
def column (table : Table) (name : String) : Option (Snapshot → Int) :=
  if name = table.parentColumn then some Snapshot.parentId
  else if name = "snapshot_number" then some Snapshot.snapshotNumber
  else none

end Table

/-- What is passed for a keyword of a query. -/
inductive Argument where
  | int (n : Int)
  | clause
  | include_
  deriving DecidableEq

abbrev Kwargs := List (String × Argument)

/-- What reaches the caller as an internal error. -/
inductive Failure where
  | typeError (message : String)
  | invalidRequestError (message : String)
  | dataError (message : String)
  | fileNotFoundError (message : String)
  deriving DecidableEq

/-! The query. -/

/-- The keywords that `_get_instance` has a parameter for. -/
def parameters : List String :=
  ["_select", "_join", "_where", "_sorting", "_filters", "_search", "_search_mode",
    "_search_relevance", "_include", "_offset"]

/-- What fits the 32 bits of an INTEGER. -/
def Fits (n : Int) : Prop := -2 ^ 31 ≤ n ∧ n < 2 ^ 31

instance (n : Int) : Decidable (Fits n) := inferInstanceAs (Decidable (_ ∧ _))

/-- `filter_by` looks its keywords up as attributes of the model. -/
def filterBy (table : Table) (kwargs : Kwargs) :
    Except Failure (List ((Snapshot → Int) × Argument)) :=
  kwargs.mapM fun x =>
    match table.column x.1 with
    | some column => .ok (column, x.2)
    | none => .error (.invalidRequestError ("Entity namespace has no property \"" ++ x.1 ++ "\""))

/-- A value is bound to its column when the statement is executed. -/
def bindParameter (filter : (Snapshot → Int) × Argument) : Except Failure (Snapshot → Bool) :=
  match filter.2 with
  | .int n =>
      if Fits n then .ok fun s => filter.1 s = n else .error (.dataError "value out of int32 range")
  | _ => .error (.dataError "expected an integer")

/-- `_offset`, which is 0 if it is not given. -/
def offset (kwargs : Kwargs) : Nat :=
  match kwargs.find? fun x => x.1 = "_offset" with
  | some (_, .int n) => n.toNat
  | _ => 0

/-- `_get_instance`: the first row behind the offset, by the primary key. -/
def getInstance (table : Table) (rows : List Snapshot) (kwargs : Kwargs) :
    Except Failure (Option Snapshot) := do
  let filters ← filterBy table (kwargs.filter fun x => !parameters.contains x.1)
  let conditions ← filters.mapM bindParameter
  let selected := (rows.filter fun s => conditions.all fun condition => condition s).mergeSort
    fun a b => a.id ≤ b.id
  pure (selected.drop (offset kwargs)).head?

/-- The selection that every endpoint makes. -/
def select (table : Table) (rows : List Snapshot) (parentId snapshotNumber : Int)
    (kwargs : Kwargs) :
    Except Failure (Option Snapshot) :=
  if snapshotNumber < 0 then
    getInstance table rows
      ([(table.parentColumn, .int parentId), ("_order_by", .clause),
        ("_offset", .int (|snapshotNumber| - 1))] ++
        kwargs)
  else
    getInstance table rows
      ([(table.parentColumn, .int parentId), ("snapshot_number", .int snapshotNumber)] ++ kwargs)

/-! The endpoints. -/

/-- A row of `leaderboards`. -/
structure Leaderboard where
  beatmapId : Int
  beatmapSnapshotId : Nat
  deriving DecidableEq

/-- The `.osu` file of a beatmap snapshot, by `beatmap_id` and `snapshot_number`. -/
abbrev DotOsu := Int × Int

structure World where
  beatmapSnapshots : List Snapshot
  beatmapsetSnapshots : List Snapshot
  leaderboards : List Leaderboard
  /-- The beatmap snapshots of a beatmapset snapshot. -/
  contents : Nat → List DotOsu
  /-- The files on disk. -/
  files : List DotOsu

/-- What the path holds where `^(latest|-?[1-9][0-9]*)$` is expected. -/
inductive PathArgument where
  | latest
  | number (k : Int)
  deriving DecidableEq

/-- `int` of a text reads at most 4300 digits. -/
def coerceArguments : PathArgument → Except Failure Int
  | .latest => .ok (-1)
  | .number k =>
      if |k| < 10 ^ 4300 then .ok k
      else .error (.typeError "Failed to coerce parameter 'snapshot_number' to int")

inductive Response where
  | found (s : Snapshot)
  | noLeaderboard (s : Snapshot)
  | notFound
  | serverError (failure : Failure)
  deriving DecidableEq

def Response.ofExcept : Except Failure Response → Response
  | .ok response => response
  | .error failure => .serverError failure

/-- `GET /beatmaps/{beatmap_id}/snapshots/{snapshot_number}`. -/
def beatmapSnapshot (w : World) (beatmapId : Int) (argument : PathArgument) :
    Except Failure Response := do
  let snapshotNumber ← coerceArguments argument
  match ← select .beatmapSnapshots w.beatmapSnapshots beatmapId snapshotNumber
    [("_include", .include_)] with
  | some s => pure (.found s)
  | none => pure .notFound

/-- `GET /beatmapsets/{beatmapset_id}/snapshots/{snapshot_number}`. -/
def beatmapsetSnapshot (w : World) (beatmapsetId : Int) (argument : PathArgument) :
    Except Failure Response := do
  let snapshotNumber ← coerceArguments argument
  match ← select .beatmapsetSnapshots w.beatmapsetSnapshots beatmapsetId snapshotNumber
    [("_include", .include_)] with
  | some s => pure (.found s)
  | none => pure .notFound

/-- `GET /beatmaps/{beatmap_id}/snapshots/{snapshot_number}/leaderboard`. -/
def leaderboard (w : World) (beatmapId : Int) (argument : PathArgument) :
    Except Failure Response := do
  let snapshotNumber ← coerceArguments argument
  match ← select .beatmapSnapshots w.beatmapSnapshots beatmapId snapshotNumber [] with
  | some s =>
      pure (if w.leaderboards.contains ⟨beatmapId, s.id⟩ then .found s else .noLeaderboard s)
  | none => pure .notFound

/-- `get_path` of every file, which raises before the file can be skipped. -/
def getPaths (w : World) (dotOsus : List DotOsu) : Except Failure Unit :=
  dotOsus.forM fun dotOsu =>
    if w.files.contains dotOsu then .ok ()
    else .error
      (.fileNotFoundError
        ("No .osu file found for beatmap " ++ toString dotOsu.1 ++ ", snapshot " ++
      toString dotOsu.2))

/-- `GET /beatmapsets/{beatmapset_id}/snapshots/{snapshot_number}/zip`, with `get_zip`. -/
def zip (w : World) (beatmapsetId : Int) (argument : PathArgument) : Except Failure Response := do
  let snapshotNumber ← coerceArguments argument
  match ← select .beatmapsetSnapshots w.beatmapsetSnapshots beatmapsetId snapshotNumber
    [("_include", .include_)] with
  | some s => do
      getPaths w (w.contents s.id)
      pure (.found s)
  | none => pure .notFound

inductive Endpoint where
  | beatmapSnapshot
  | beatmapsetSnapshot
  | leaderboard
  | zip
  deriving DecidableEq

namespace Endpoint

def table : Endpoint → Table
  | beatmapSnapshot | leaderboard => .beatmapSnapshots
  | beatmapsetSnapshot | zip => .beatmapsetSnapshots

def rows (w : World) (endpoint : Endpoint) : List Snapshot :=
  match endpoint.table with
  | .beatmapSnapshots => w.beatmapSnapshots
  | .beatmapsetSnapshots => w.beatmapsetSnapshots

def run (w : World) (parentId : Int) (argument : PathArgument) : Endpoint → Response
  | beatmapSnapshot => .ofExcept (Numbers.beatmapSnapshot w parentId argument)
  | beatmapsetSnapshot => .ofExcept (Numbers.beatmapsetSnapshot w parentId argument)
  | leaderboard => .ofExcept (Numbers.leaderboard w parentId argument)
  | zip => .ofExcept (Numbers.zip w parentId argument)

end Endpoint

/-! What the number means. -/

/-- The snapshots of the parent have the numbers 1 to `n`, each once. -/
def Numbered (rows : List Snapshot) (parentId : Int) (n : Nat) : Prop :=
  ((rows.filter fun s => s.parentId = parentId).map Snapshot.snapshotNumber).Perm
    ((List.range n).map fun i : Nat => (i : Int) + 1)

/-- The number that is asked for, of `n` snapshots. -/
def target (n : Nat) : PathArgument → Int
  | .latest => n
  | .number k => if k < 0 then n + 1 + k else k

/-- The response is about the snapshot; that it has no leaderboard is such a response. -/
def Response.IsAbout (response : Response) (s : Snapshot) : Prop :=
  response = .found s ∨ response = .noLeaderboard s

/-- The snapshot with the number is found if there is one, and reported missing if not. -/
def Resolves (w : World) (parentId : Int) (n : Nat) (argument : PathArgument)
    (endpoint : Endpoint) : Prop :=
  if 1 ≤ target n argument ∧ target n argument ≤ n then
    ∃ s ∈ endpoint.rows w, s.parentId = parentId ∧ s.snapshotNumber = target n argument ∧
      (endpoint.run w parentId argument).IsAbout s
  else endpoint.run w parentId argument = .notFound

/-- A positive number that fits the column, and for the archive all files of the snapshot. -/
def Endpoint.Supports (w : World) (parentId : Int) (argument : PathArgument) (endpoint : Endpoint) :
    Prop :=
  ∃ k, argument = .number k ∧ 0 < k ∧ Fits k ∧
    (endpoint = .zip → ∀ s ∈ w.beatmapsetSnapshots, s.parentId = parentId → s.snapshotNumber = k →
      ∀ dotOsu ∈ w.contents s.id, dotOsu ∈ w.files)

/-! The selection. -/

section Select

variable {table : Table} {rows : List Snapshot} {parentId k : Int} {kwargs : Kwargs}

theorem filter_parameters (hkwargs : ∀ x ∈ kwargs, x.1 = "_include") :
    (kwargs.filter fun x => !parameters.contains x.1) = [] := by
  rw [List.filter_eq_nil_iff]
  intro x hx
  rw [hkwargs x hx]
  decide

/-- Counting from the latest snapshot fails before anything is read. -/
theorem select_of_neg (hkwargs : ∀ x ∈ kwargs, x.1 = "_include") (hk : k < 0) :
    select table rows parentId k kwargs =
      .error (.invalidRequestError "Entity namespace has no property \"_order_by\"") := by
  have hfilter :
      (([(table.parentColumn, .int parentId), ("_order_by", .clause),
        ("_offset", .int (|k| - 1))] ++
      kwargs : Kwargs).filter fun x => !parameters.contains x.1) =
        [(table.parentColumn, .int parentId), ("_order_by", .clause)] := by
    rw [List.filter_append, filter_parameters hkwargs, List.append_nil]
    cases table <;> rfl
  rw [select, if_pos hk, getInstance, hfilter]
  cases table <;> rfl

/-- A number that is not negative is compared with the column. -/
theorem select_of_nonneg (hkwargs : ∀ x ∈ kwargs, x.1 = "_include")
    (hparent : Fits parentId) (hk : 0 ≤ k) :
    select table rows parentId k kwargs =
      if Fits k then
        .ok ((rows.filter fun s => s.parentId = parentId && s.snapshotNumber = k).mergeSort
          fun a b =>
          a.id ≤ b.id).head?
      else .error (.dataError "value out of int32 range") := by
  have hfilter :
      (([(table.parentColumn, .int parentId), ("snapshot_number", .int k)] ++
        kwargs : Kwargs).filter
      fun x => !parameters.contains x.1) =
        [(table.parentColumn, .int parentId), ("snapshot_number", .int k)] := by
    rw [List.filter_append, filter_parameters hkwargs, List.append_nil]
    cases table <;> rfl
  have hoffset :
      offset ([(table.parentColumn, .int parentId), ("snapshot_number", .int k)] ++ kwargs) =
        0 := by
    have hnone :
        (([(table.parentColumn, .int parentId), ("snapshot_number", .int k)] ++
          kwargs : Kwargs).find?
        fun x => x.1 = "_offset") = none := by
      rw [List.find?_eq_none]
      intro x hx
      rcases List.mem_append.mp hx with hx | hx
      · cases table <;> fin_cases hx <;> simp [Table.parentColumn]
      · rw [hkwargs x hx]
        decide
    rw [offset, hnone]
  have hcolumns :
      filterBy table [(table.parentColumn, .int parentId), ("snapshot_number", .int k)] =
      .ok [(Snapshot.parentId, .int parentId), (Snapshot.snapshotNumber, .int k)] := by
    cases table <;> rfl
  rw [select, if_neg (by omega), getInstance, hfilter, hoffset, hcolumns, ok_bind, List.mapM_cons,
    List.mapM_cons, List.mapM_nil, bindParameter, bindParameter]
  dsimp only
  rw [if_pos hparent, ok_bind]
  split
  · simp only [pure_bind, ok_bind, List.drop_zero, List.all_cons, List.all_nil, Bool.and_true]
    rfl
  · rfl

end Select

section Numbered

variable {rows : List Snapshot} {parentId : Int} {n : Nat}

theorem mem_numbers_iff {k : Int} :
    k ∈ (List.range n).map (fun i : Nat => (i : Int) + 1) ↔ 1 ≤ k ∧ k ≤ n := by
  rw [List.mem_map]
  constructor
  · rintro ⟨i, hi, rfl⟩
    have := List.mem_range.mp hi
    omega
  · rintro ⟨hpos, hle⟩
    refine ⟨(k - 1).toNat, List.mem_range.mpr (by omega), by omega⟩

/-- Among numbered snapshots each number selects one. -/
theorem length_selected (h : Numbered rows parentId n) (k : Int) :
    (rows.filter fun s => s.parentId = parentId && s.snapshotNumber = k).length =
      if 1 ≤ k ∧ k ≤ n then 1 else 0 := by
  have hcount : (rows.filter fun s => s.parentId = parentId && s.snapshotNumber = k).length =
      ((rows.filter fun s => s.parentId = parentId).map Snapshot.snapshotNumber).count k := by
    rw [List.count_eq_length_filter, List.filter_map, List.length_map, List.filter_filter]
    congr 1
    apply List.filter_congr
    intro s _
    rw [Bool.and_comm]
    rfl
  have hnodup : ((List.range n).map fun i : Nat => (i : Int) + 1).Nodup := by
    apply List.Nodup.map _ List.nodup_range
    intro i j hij
    simpa using hij
  rw [hcount, h.count_eq]
  split
  case isTrue hk => exact List.count_eq_one_of_mem hnodup (mem_numbers_iff.mpr hk)
  case isFalse hk => exact List.count_eq_zero.mpr fun hmem => hk (mem_numbers_iff.mp hmem)

theorem head?_selected (h : Numbered rows parentId n) (k : Int) :
    (1 ≤ k ∧ k ≤ n → ∃ s ∈ rows, s.parentId = parentId ∧ s.snapshotNumber = k ∧
      (∀ s' ∈ rows, s'.parentId = parentId → s'.snapshotNumber = k → s' = s) ∧
      ((rows.filter fun s => s.parentId = parentId && s.snapshotNumber = k).mergeSort fun a b =>
        a.id ≤ b.id).head? = some s) ∧
    (¬ (1 ≤ k ∧ k ≤ n) →
      ((rows.filter fun s => s.parentId = parentId && s.snapshotNumber = k).mergeSort fun a b =>
        a.id ≤ b.id).head? = none) := by
  have hlength := length_selected h k
  constructor
  · intro hk
    rw [if_pos hk] at hlength
    obtain ⟨s, hs⟩ := List.length_eq_one_iff.mp hlength
    have hmem (s' : Snapshot) :
        s' = s ↔ s' ∈ rows ∧ s'.parentId = parentId ∧ s'.snapshotNumber = k := by
      rw [← List.mem_singleton, ← hs, List.mem_filter]
      simp
    obtain ⟨hrow, hparent, hnumber⟩ := (hmem s).mp rfl
    refine ⟨s, hrow, hparent, hnumber, fun s' hs' hp hn => (hmem s').mpr ⟨hs', hp, hn⟩, ?_⟩
    rw [hs, List.mergeSort_singleton]
    rfl
  · intro hk
    rw [if_neg hk, List.length_eq_zero_iff] at hlength
    rw [hlength, List.mergeSort_nil]
    rfl

end Numbered

/-! The endpoints answer what is selected. -/

section Endpoint

variable {w : World} {parentId k : Int} {argument : PathArgument} {endpoint : Endpoint}

theorem run_of_coerce_error {failure : Failure} (h : coerceArguments argument = .error failure) :
    endpoint.run w parentId argument = .serverError failure := by
  cases endpoint <;>
    simp only [Endpoint.run, beatmapSnapshot, beatmapsetSnapshot, leaderboard, zip, h,
      error_bind] <;> rfl

theorem run_of_select_error {failure : Failure} (hcoerce : coerceArguments argument = .ok k)
    (h : ∀ kwargs : Kwargs, (∀ x ∈ kwargs, x.1 = "_include") →
      select endpoint.table (endpoint.rows w) parentId k kwargs = .error failure) :
    endpoint.run w parentId argument = .serverError failure := by
  have hinclude := h [("_include", .include_)] (by simp)
  have hnone := h [] (by simp)
  cases endpoint <;> simp only [Endpoint.table, Endpoint.rows] at hinclude hnone <;>
    simp only [Endpoint.run, beatmapSnapshot, beatmapsetSnapshot, leaderboard, zip, hcoerce,
      ok_bind, hinclude, hnone, error_bind] <;> rfl

theorem run_of_select_none (hcoerce : coerceArguments argument = .ok k)
    (h : ∀ kwargs : Kwargs, (∀ x ∈ kwargs, x.1 = "_include") →
      select endpoint.table (endpoint.rows w) parentId k kwargs = .ok none) :
    endpoint.run w parentId argument = .notFound := by
  have hinclude := h [("_include", .include_)] (by simp)
  have hnone := h [] (by simp)
  cases endpoint <;> simp only [Endpoint.table, Endpoint.rows] at hinclude hnone <;>
    simp only [Endpoint.run, beatmapSnapshot, beatmapsetSnapshot, leaderboard, zip, hcoerce,
      ok_bind, hinclude, hnone] <;> rfl

theorem getPaths_isOk_iff (dotOsus : List DotOsu) :
    (getPaths w dotOsus = .ok ()) ↔ ∀ dotOsu ∈ dotOsus, dotOsu ∈ w.files := by
  induction dotOsus with
  | nil => simp [getPaths, pure, Except.pure]
  | cons dotOsu rest ih =>
      rw [getPaths, List.forM_eq_forM, List.forM_cons, List.forall_mem_cons, ← ih]
      by_cases h : dotOsu ∈ w.files
      · simp [h, getPaths, ok_bind]
      · simp [h, error_bind]

/-- A selected snapshot is answered, unless a file is missing. -/
theorem isAbout_run_iff {s : Snapshot} (hcoerce : coerceArguments argument = .ok k)
    (h : ∀ kwargs : Kwargs, (∀ x ∈ kwargs, x.1 = "_include") →
      select endpoint.table (endpoint.rows w) parentId k kwargs = .ok (some s)) :
    (endpoint.run w parentId argument).IsAbout s ↔
      (endpoint = .zip → ∀ dotOsu ∈ w.contents s.id, dotOsu ∈ w.files) := by
  have hinclude := h [("_include", .include_)] (by simp)
  have hnone := h [] (by simp)
  cases endpoint with
  | beatmapSnapshot =>
      simp only [Endpoint.table, Endpoint.rows] at hinclude
      simp only [Endpoint.run, beatmapSnapshot, hcoerce, ok_bind, hinclude]
      exact iff_of_true (.inl rfl) (fun hzip => by cases hzip)
  | beatmapsetSnapshot =>
      simp only [Endpoint.table, Endpoint.rows] at hinclude
      simp only [Endpoint.run, beatmapsetSnapshot, hcoerce, ok_bind, hinclude]
      exact iff_of_true (.inl rfl) (fun hzip => by cases hzip)
  | leaderboard =>
      simp only [Endpoint.table, Endpoint.rows] at hnone
      simp only [Endpoint.run, leaderboard, hcoerce, ok_bind, hnone]
      apply iff_of_true _ (fun hzip => by cases hzip)
      split
      · exact .inl rfl
      · exact .inr rfl
  | zip =>
      simp only [Endpoint.table, Endpoint.rows] at hinclude
      simp only [Endpoint.run, zip, hcoerce, ok_bind, hinclude, forall_const]
      rw [← getPaths_isOk_iff]
      cases hpaths : getPaths w (w.contents s.id) with
      | ok paths => exact iff_of_true (.inl rfl) rfl
      | error failure =>
          apply iff_of_false
          · rintro (habout | habout) <;> cases habout
          · intro hok
            cases hok

end Endpoint

/-! The numbers that are resolved. -/

theorem abs_lt_of_fits {k : Int} (h : Fits k) : |k| < 10 ^ 4300 := by
  have hpow : (2 : Int) ^ 31 < 10 ^ 4300 :=
    calc (2 : Int) ^ 31 < 10 ^ 31 := by norm_num
      _ ≤ 10 ^ 4300 := pow_le_pow_right₀ (by norm_num) (by norm_num)
  have habs : |k| ≤ 2 ^ 31 := abs_le.mpr ⟨h.1, h.2.le⟩
  exact lt_of_le_of_lt habs hpow

section Resolves

variable {w : World} {parentId : Int} {n : Nat} {argument : PathArgument} {endpoint : Endpoint}

theorem not_resolves_of_serverError {failure : Failure}
    (h : endpoint.run w parentId argument = .serverError failure) :
    ¬ Resolves w parentId n argument endpoint := by
  rw [Resolves]
  split
  · rintro ⟨s, -, -, -, habout⟩
    rw [h] at habout
    rcases habout with habout | habout <;> cases habout
  · rw [h]
    intro hnot
    cases hnot

/-- Exactly the positive numbers that fit the column are resolved. -/
theorem resolves_iff (hnumbered : Numbered (endpoint.rows w) parentId n) (hparent : Fits parentId)
    (hne : argument ≠ .number 0) :
    Resolves w parentId n argument endpoint ↔ endpoint.Supports w parentId argument := by
  -- Without a positive number that fits, the endpoint fails.
  have hfails (hnot : ∀ k, argument = .number k → 0 < k → ¬ Fits k) :
      ∃ failure, endpoint.run w parentId argument = .serverError failure := by
    cases hcoerce : coerceArguments argument with
    | error failure => exact ⟨failure, run_of_coerce_error hcoerce⟩
    | ok k =>
        rcases Int.lt_or_le k 0 with hk | hk
        · exact ⟨_, run_of_select_error hcoerce fun kwargs hkwargs => select_of_neg hkwargs hk⟩
        · refine ⟨.dataError "value out of int32 range",
            run_of_select_error hcoerce fun kwargs hkwargs => ?_⟩
          rw [select_of_nonneg hkwargs hparent hk, if_neg]
          cases argument with
          | latest =>
              cases hcoerce
              omega
          | number k' =>
              rw [coerceArguments] at hcoerce
              split at hcoerce
              · obtain rfl := Except.ok.inj hcoerce
                apply hnot k' rfl
                have hzero : k' ≠ 0 := fun h => hne (by rw [h])
                omega
              · cases hcoerce
  by_cases hsome : ∃ k, argument = .number k ∧ 0 < k ∧ Fits k
  · obtain ⟨k, rfl, hpos, hfits⟩ := hsome
    have hcoerce : coerceArguments (.number k) = .ok k := if_pos (abs_lt_of_fits hfits)
    have htarget : target n (.number k) = k := if_neg (by omega)
    have hselect (kwargs : Kwargs) (hkwargs : ∀ x ∈ kwargs, x.1 = "_include") :
        select endpoint.table (endpoint.rows w) parentId k kwargs =
          .ok (((endpoint.rows w).filter fun s => s.parentId = parentId &&
            s.snapshotNumber = k).mergeSort fun a b =>
            a.id ≤ b.id).head? := by
      rw [select_of_nonneg hkwargs hparent (by omega), if_pos hfits]
    have hsupports : endpoint.Supports w parentId (.number k) ↔
        (endpoint = .zip → ∀ s ∈ endpoint.rows w, s.parentId = parentId → s.snapshotNumber = k →
          ∀ dotOsu ∈ w.contents s.id, dotOsu ∈ w.files) := by
      constructor
      · rintro ⟨k', heq, -, -, hfiles⟩ rfl
        cases heq
        exact hfiles rfl
      · intro hfiles
        refine ⟨k, rfl, hpos, hfits, ?_⟩
        rintro rfl
        exact hfiles rfl
    rw [hsupports, Resolves, htarget]
    obtain ⟨hexists, hnone⟩ := head?_selected hnumbered k
    by_cases hk : 1 ≤ k ∧ k ≤ n
    · obtain ⟨s, hrow, hsparent, hsnumber, hunique, hhead⟩ := hexists hk
      rw [hhead] at hselect
      have habout := isAbout_run_iff hcoerce hselect
      rw [if_pos hk]
      constructor
      · rintro ⟨s', hrow', hparent', hnumber', habout'⟩ hzip s'' hrow'' hparent'' hnumber''
        rw [hunique s' hrow' hparent' hnumber'] at habout'
        rw [hunique s'' hrow'' hparent'' hnumber'']
        exact habout.mp habout' hzip
      · intro hfiles
        exact ⟨s, hrow, hsparent, hsnumber,
          habout.mpr fun hzip => hfiles hzip s hrow hsparent hsnumber⟩
    · rw [hnone hk] at hselect
      rw [if_neg hk]
      apply iff_of_true (run_of_select_none hcoerce hselect)
      intro _ s hrow hsparent hsnumber
      -- No snapshot has a number outside of 1 to `n`.
      have hlength := length_selected hnumbered k
      rw [if_neg hk, List.length_eq_zero_iff, List.filter_eq_nil_iff] at hlength
      exact absurd (by simp [hsparent, hsnumber]) (hlength s hrow)
  · have hnot : ∀ k, argument = .number k → 0 < k → ¬ Fits k :=
      fun k heq hpos hfits => hsome ⟨k, heq, hpos, hfits⟩
    obtain ⟨failure, hrun⟩ := hfails hnot
    apply iff_of_false (not_resolves_of_serverError hrun)
    rintro ⟨k, heq, hpos, hfits, -⟩
    exact hnot k heq hpos hfits

end Resolves

/-- Two snapshots of beatmap 5, and one of beatmapset 6. -/
def sample : World :=
  { beatmapSnapshots := [⟨1, 5, 1⟩, ⟨2, 5, 2⟩]
    beatmapsetSnapshots := [⟨1, 6, 1⟩]
    leaderboards := [⟨5, 2⟩]
    contents := fun _ => [(5, 2)]
    files := [(5, 2)] }

theorem resolves_iff_second :
    Resolves sample 5 2 (.number 2) .leaderboard ↔
      Endpoint.leaderboard.Supports sample 5 (.number 2) :=
  resolves_iff (show ([1, 2] : List Int).Perm [1, 2] from List.Perm.refl _) (by decide)
    (fun h => by cases h)

/-- The latest snapshot is not resolved by any endpoint. -/
theorem latest_not_resolves :
    Numbered (Endpoint.beatmapSnapshot.rows sample) 5 2 ∧
    ¬ Resolves sample 5 2 .latest .beatmapSnapshot ∧
      ¬ Resolves sample 5 2 (.number (-1)) .leaderboard ∧ ¬ Resolves sample 6 1 .latest .zip := by
  have hnumbered : Numbered (Endpoint.beatmapSnapshot.rows sample) 5 2 :=
    show ([1, 2] : List Int).Perm [1, 2] from List.Perm.refl _
  have hcoerce : coerceArguments (.number (-1)) = .ok (-1) := by
    rw [coerceArguments, if_pos (abs_lt_of_fits (show Fits (-1) by decide))]
  refine ⟨hnumbered, ?_, ?_, ?_⟩
  · exact not_resolves_of_serverError
      (run_of_select_error rfl fun kwargs hkwargs => select_of_neg hkwargs (by decide))
  · exact not_resolves_of_serverError
      (run_of_select_error hcoerce fun kwargs hkwargs => select_of_neg hkwargs (by decide))
  · exact not_resolves_of_serverError
      (run_of_select_error rfl fun kwargs hkwargs => select_of_neg hkwargs (by decide))

end Graveboards.Snapshots.Numbers
