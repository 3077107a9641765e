import Graveboards.Library.Selection
import Graveboards.Scores.Parents
import Graveboards.Search.Operators

/-!
The tables that the search engine reads and the joins that lead from the root
of a scope to the rows of a category: one set of joins for filters, one for
sorting and one for search terms. They differ where requests are involved.
Search terms reach every snapshot of the requested beatmapset, the others only
the snapshot of the request; and a filter on a queue is not joined with the
queue.
-/

namespace Graveboards.Engine

open Library Library.Relational Search

/-- The foreign keys of a `BeatmapsetSnapshot`. -/
structure BeatmapsetKeys where
  beatmapset_id : Int
  user_id : Int

/-- The foreign keys of a `Request`. -/
structure RequestKeys where
  user_id : Int
  beatmapset_id : Int
  beatmapset_snapshot_id : Int
  queue_id : Int

/-- The rows of the models by their ids, with the columns that joins compare and
those that can be filtered and sorted by. -/
structure World (α : Type) extends Scores.Database where
  /-- `beatmap_snapshot_beatmapset_snapshot_association` -/
  links : List (Int × Int)
  /-- `beatmap_snapshot_owner_association`: a profile and a beatmap snapshot. -/
  owners : List (Int × Int)
  beatmapset : Int → BeatmapsetKeys
  request : Int → RequestKeys
  queueUser : Int → Int
  profileUser : Int → Int
  /-- The `beatmap_snapshot_id` and `beatmapset_snapshot_id` of the listings. -/
  beatmapListings : List Int
  beatmapsetListings : List Int
  value : ModelField → Int → Option α

/-- Rows of a join so far: the id of the root and the row that was joined last. -/
abbrev Joins (β : Type) := List (Int × β)

namespace Joins

variable {β γ : Type}

/-- `JOIN table ON …`, where the condition looks at the row that was joined last. -/
def follow (rows : Joins β) (table : List γ) (on : β → γ → Bool) : Joins γ :=
  (join rows table fun row other => on row.2 other).map fun x => (x.1.1, x.2)

@[simp] theorem mem_follow {rows : Joins β} {table : List γ} {on : β → γ → Bool}
    {root : Int} {c : γ} :
    (root, c) ∈ rows.follow table on ↔ ∃ b, (root, b) ∈ rows ∧ c ∈ table ∧ on b c = true := by
  rw [follow, List.mem_map]
  constructor
  · rintro ⟨⟨⟨root', b⟩, c'⟩, hjoin, h⟩
    obtain ⟨rfl, rfl⟩ := Prod.mk.inj h
    exact ⟨b, mem_join.mp hjoin⟩
  · rintro ⟨b, hjoin⟩
    exact ⟨((root, b), c), mem_join.mpr hjoin, rfl⟩

theorem group_follow (rows : Joins β) (table : List γ) (on : β → γ → Bool) (root : Int) :
    group (rows.follow table on) root = (group rows root).flatMap fun b => table.filter (on b) := by
  rw [follow, join]
  induction rows with
  | nil => rfl
  | cons row rest ih =>
      rw [List.flatMap_cons, List.map_append, group_append, ih, List.map_map]
      have hfirst := group_map_pair (table.filter (on row.2)) root row.1
      rw [show ((fun x : (Int × β) × γ => (x.1.1, x.2)) ∘ fun b => (row, b)) = fun c =>
        (row.1, c) from rfl,
        hfirst, ← List.singleton_append (x := row), group_append, List.flatMap_append]
      refine congrArg (· ++ _) ?_
      by_cases h : row.1 = root
      · simp [group, h]
      · simp [group, h]

/-- Joining with at most one row keeps at most one row of a root. -/
theorem length_group_follow_le {rows : Joins β} {table : List γ} {on : β → γ → Bool} {root : Int}
    (hrows : (group rows root).length ≤ 1) (htable : ∀ b, (table.filter (on b)).length ≤ 1) :
    (group (rows.follow table on) root).length ≤ 1 := by
  rw [group_follow]
  cases hgroup : group rows root with
  | nil => exact Nat.zero_le 1
  | cons b rest =>
      rw [hgroup, List.length_cons] at hrows
      obtain rfl : rest = [] := List.eq_nil_of_length_eq_zero (by omega)
      rw [List.flatMap_singleton]
      exact htable b

end Joins

namespace World

variable {α : Type} (w : World α)

def ids (category : SearchableFieldCategory) : List Int := (w.table category).ids

/-- `select_from(model)` -/
def roots (category : SearchableFieldCategory) : Joins Int :=
  (w.ids category).map fun id => (id, id)

/-! The steps of the joins. -/

variable (rows : Joins Int)

def beatmapsetsOfBeatmaps : Joins Int :=
  (rows.follow w.links fun b link => link.1 = b).follow (w.ids .beatmapset) fun link s => s = link.2

def beatmapsOfBeatmapsets : Joins Int :=
  (rows.follow w.links fun s link => link.2 = s).follow (w.ids .beatmap) fun link b => b = link.1

/-- `Queue.requests` -/
def requestsOfQueues : Joins Int :=
  rows.follow (w.ids .request) fun q r => (w.request r).queue_id = q

/-- `Request.beatmapset_snapshot` -/
def snapshotOfRequests : Joins Int :=
  rows.follow (w.ids .beatmapset) fun r s => s = (w.request r).beatmapset_snapshot_id

/-- `BeatmapsetSnapshot.beatmapset_id == Request.beatmapset_id` -/
def snapshotsOfRequests : Joins Int :=
  rows.follow (w.ids .beatmapset) fun r s =>
    (w.beatmapset s).beatmapset_id = (w.request r).beatmapset_id

def requestsOfBeatmapsets : Joins Int :=
  rows.follow (w.ids .request) fun s r =>
    (w.request r).beatmapset_id = (w.beatmapset s).beatmapset_id

def queueOfRequests : Joins Int :=
  rows.follow (w.ids .queue) fun r q => q = (w.request r).queue_id

/-- A model that is selected from and not joined. -/
def everyQueue : Joins Int := rows.follow (w.ids .queue) fun _ _ => true

def ownerProfiles : Joins Int :=
  (rows.follow w.owners fun b owner => owner.2 = b).follow (w.ids .profile) fun owner p =>
    p = owner.1

/-- `user_profile` -/
def userProfile (user : Int → Int) : Joins Int :=
  rows.follow (w.ids .profile) fun x p => w.profileUser p = user x

/-! From the root of a scope to the rows of a category. -/

/-- The joins of the filtering factories. There is no factory for scores. -/
def filteringRows : Scope → SearchableFieldCategory → Joins Int
  | .scores, _ => []
  | .beatmaps, .profile => w.ownerProfiles (w.roots .beatmap)
  | .beatmaps, .beatmap => w.roots .beatmap
  | .beatmaps, .beatmapset => w.beatmapsetsOfBeatmaps (w.roots .beatmap)
  | .beatmaps, .queue =>
      w.everyQueue (w.requestsOfBeatmapsets (w.beatmapsetsOfBeatmaps (w.roots .beatmap)))
  | .beatmaps, .request => w.requestsOfBeatmapsets (w.beatmapsetsOfBeatmaps (w.roots .beatmap))
  | .beatmapsets, .profile => w.userProfile (w.roots .beatmapset) fun s => (w.beatmapset s).user_id
  | .beatmapsets, .beatmap => w.beatmapsOfBeatmapsets (w.roots .beatmapset)
  | .beatmapsets, .beatmapset => w.roots .beatmapset
  | .beatmapsets, .queue => w.everyQueue (w.requestsOfBeatmapsets (w.roots .beatmapset))
  | .beatmapsets, .request => w.requestsOfBeatmapsets (w.roots .beatmapset)
  | .queues, .profile => w.userProfile (w.roots .queue) w.queueUser
  | .queues, .beatmap =>
      w.beatmapsOfBeatmapsets (w.snapshotOfRequests (w.requestsOfQueues (w.roots .queue)))
  | .queues, .beatmapset => w.snapshotOfRequests (w.requestsOfQueues (w.roots .queue))
  | .queues, .queue =>
      (w.requestsOfQueues (w.roots .queue)).map fun x => (x.1, x.1)
  | .queues, .request => w.requestsOfQueues (w.roots .queue)
  | .requests, .profile => w.userProfile (w.roots .request) fun r => (w.request r).user_id
  | .requests, .beatmap => w.beatmapsOfBeatmapsets (w.snapshotOfRequests (w.roots .request))
  | .requests, .beatmapset => w.snapshotOfRequests (w.roots .request)
  | .requests, .queue => w.everyQueue (w.roots .request)
  | .requests, .request => w.roots .request

/-- The joins of the sorting factories: those of the filters, but for queues. -/
def sortingRows : Scope → SearchableFieldCategory → Joins Int
  | .beatmaps, .queue => w.queueOfRequests
      (w.requestsOfBeatmapsets (w.beatmapsetsOfBeatmaps (w.roots .beatmap)))
  | .beatmapsets, .queue => w.queueOfRequests (w.requestsOfBeatmapsets (w.roots .beatmapset))
  | .queues, .queue => w.roots .queue
  | .requests, .queue => w.queueOfRequests (w.roots .request)
  | scope, category => w.filteringRows scope category

/-- The joins of `get_filter_stmt`, for the categories of the scope. For any other one it raises a
ValueError, and there are no rows here; the engine passes the categories of the scope. -/
def termRows : Scope → SearchableFieldCategory → Joins Int
  | .beatmaps, .beatmap => w.roots .beatmap
  | .beatmaps, .beatmapset => w.beatmapsetsOfBeatmaps (w.roots .beatmap)
  | .beatmapsets, .beatmap => w.beatmapsOfBeatmapsets (w.roots .beatmapset)
  | .beatmapsets, .beatmapset => w.roots .beatmapset
  | .queues, .beatmap =>
      w.beatmapsOfBeatmapsets (w.snapshotsOfRequests (w.requestsOfQueues (w.roots .queue)))
  | .queues, .beatmapset => w.snapshotsOfRequests (w.requestsOfQueues (w.roots .queue))
  | .queues, .queue => w.roots .queue
  | .queues, .request => w.requestsOfQueues (w.roots .queue)
  | .requests, .beatmap => w.beatmapsOfBeatmapsets (w.snapshotsOfRequests (w.roots .request))
  | .requests, .beatmapset => w.snapshotsOfRequests (w.roots .request)
  | .requests, .request => w.roots .request
  | _, _ => []

/-- The rows that a scope selects from. -/
def base : Scope → List Int
  | .beatmaps =>
      ((w.roots .beatmap).follow w.beatmapListings fun b listed => listed = b).map Prod.fst
  | .beatmapsets =>
      ((w.roots .beatmapset).follow w.beatmapsetListings fun s listed => listed = s).map Prod.fst
  | .scores => []
  | .queues => w.ids .queue
  | .requests => (w.snapshotOfRequests (w.roots .request)).map Prod.fst

/-- The constraints of the schema that joins rely on. -/
structure Constrained : Prop where
  links : w.links.Nodup
  owners : w.owners.Nodup
  beatmapListings : w.beatmapListings.Nodup
  beatmapsetListings : w.beatmapsetListings.Nodup
  profiles :
      ∀ p ∈ w.ids .profile, ∀ p' ∈ w.ids .profile, w.profileUser p = w.profileUser p' → p = p'

/-! Rows of one root. -/

theorem nodup_ids (category : SearchableFieldCategory) : (w.ids category).Nodup :=
  (w.table category).nodup

@[simp] theorem mem_roots {category : SearchableFieldCategory} {root id : Int} :
    (root, id) ∈ w.roots category ↔ id = root ∧ root ∈ w.ids category := by
  rw [roots, List.mem_map]
  constructor
  · rintro ⟨id', hid, h⟩
    obtain ⟨rfl, rfl⟩ := Prod.mk.inj h
    exact ⟨rfl, hid⟩
  · rintro ⟨rfl, hid⟩
    exact ⟨id, hid, rfl⟩

theorem length_group_roots_le (category : SearchableFieldCategory) (root : Int) :
    (group (w.roots category) root).length ≤ 1 := by
  have hgroup : group (w.roots category) root = (w.ids category).filter fun id => id = root := by
    rw [group, roots, List.filter_map, List.map_map]
    exact List.map_id _
  rw [hgroup, ← List.countP_eq_length_filter]
  exact List.nodup_iff_count_le_one.mp (w.nodup_ids category) root

/-- At most one row has the key. -/
theorem length_filter_le {γ : Type} {table : List γ} (hnodup : table.Nodup) {p : γ → Bool}
    (hone : ∀ c ∈ table, ∀ c' ∈ table, p c = true → p c' = true → c = c') :
    (table.filter p).length ≤ 1 := by
  match hfilter : table.filter p with
  | [] => exact Nat.zero_le 1
  | [c] => exact Nat.le_refl 1
  | c :: c' :: rest =>
      have hmem (x : γ) (hx : x ∈ c :: c' :: rest) : x ∈ table ∧ p x = true :=
        List.mem_filter.mp (hfilter ▸ hx)
      have hc := hmem c List.mem_cons_self
      have hc' := hmem c' (List.mem_cons_of_mem _ List.mem_cons_self)
      have hnodup := hnodup.filter p
      rw [hfilter, hone c hc.1 c' hc'.1 hc.2 hc'.2] at hnodup
      exact absurd List.mem_cons_self (List.nodup_cons.mp hnodup).1

/-- A scope selects from each row of its model once. -/
theorem nodup_base (hw : w.Constrained) (scope : Scope) : (w.base scope).Nodup := by
  have hfst (rows : Joins Int) (hone : ∀ root, (group rows root).length ≤ 1) :
      (rows.map Prod.fst).Nodup := by
    refine List.nodup_iff_count_le_one.mpr (fun root => ?_)
    have hcount : (rows.map Prod.fst).count root = (group rows root).length := by
      rw [List.count, List.countP_map, List.countP_eq_length_filter, group, List.length_map]
      rfl
    exact hcount ▸ hone root
  have hlisted (category : SearchableFieldCategory) (listings : List Int)
      (hlistings : listings.Nodup) :
      (((w.roots category).follow listings fun id listed => listed = id).map Prod.fst).Nodup := by
    refine hfst _
      (fun root => Joins.length_group_follow_le (w.length_group_roots_le category root) ?_)
    intro id
    refine length_filter_le hlistings (fun c _ c' _ h h' => ?_)
    exact (of_decide_eq_true h).trans (of_decide_eq_true h').symm
  cases scope with
  | beatmaps => exact hlisted .beatmap w.beatmapListings hw.beatmapListings
  | beatmapsets => exact hlisted .beatmapset w.beatmapsetListings hw.beatmapsetListings
  | scores => exact List.nodup_nil
  | queues => exact w.nodup_ids .queue
  | requests =>
      refine hfst _
        (fun root => Joins.length_group_follow_le (w.length_group_roots_le .request root) ?_)
      intro r
      refine length_filter_le (w.nodup_ids .beatmapset) (fun s _ s' _ h h' => ?_)
      exact (of_decide_eq_true h).trans (of_decide_eq_true h').symm

end World

/-! What the parts of a search share. -/

/-- Why a query cannot be composed. -/
inductive EngineError where
  | unsupportedScope
  | indexError
  | keyError (term : PyStr)
  | argumentError (error : Operators.ArgumentError)
  | attributeError
  | compileError
  deriving DecidableEq

/-- The columns of a joined table beside its id. -/
inductive Columns (α : Type) where
  | key
  | target (value : Option α)
  | array (targets : List (Option α))
  | ranked (target : Option α) (rank : Nat)

namespace Columns

/-- `cte.c.target`, where it is a value. -/
def value : Columns α → Option α
  | .target v => v
  | .ranked v _ => v
  | _ => none

/-- `cte.c.target`, where it is an array. -/
def targets : Columns α → List (Option α)
  | .array vs => vs
  | _ => []

def rank : Columns α → Nat
  | .ranked _ n => n
  | _ => 0

end Columns

end Graveboards.Engine
