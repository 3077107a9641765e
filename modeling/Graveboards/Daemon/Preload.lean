import Graveboards.Paging.Walk
import Graveboards.Daemon.Scheduler

/-!
What the two fetchers load at start-up. Both read the enabled records through
`get_many`, which returns one page of the default size.
-/

namespace Graveboards.Daemon

open Library Paging

/-! `get_many`. -/

/-- The rows that meet a condition, ordered by their primary key. -/
def conditionQuery {α : Type} (primaryKey : α → Nat) (condition : α → Bool) (rows : List α) :
    GetMany α :=
  let key : Clause α := ⟨compareOn primaryKey, inferInstance⟩
  { source := ⟨⟨"", [], fun _ => key⟩, ["id"], []⟩
    sorting := none
    score := none
    rows := rows.filter condition
    clauses := [key]
    accepted := rfl }

/-- Its answer. -/
def sortedRows {α : Type} (primaryKey : α → Nat) (condition : α → Bool) (rows : List α) : List α :=
  (rows.filter condition).insertionSort (fun a b => primaryKey a ≤ primaryKey b)

/-- The first page of it. -/
def getMany {α : Type} (primaryKey : α → Nat) (condition : α → Bool) (limit : Nat) (rows : List α) :
    List α :=
  ((conditionQuery primaryKey condition rows).getInstances ⟨limit, 0, false, false⟩
    (sortedRows primaryKey condition rows)).results

/-- A row of `profile_fetcher_tasks` or `score_fetcher_tasks`. -/
structure FetcherTask where
  id : Nat
  userId : Nat
  enabled : Bool
  lastFetch : Option Nat
  deriving DecidableEq

structure User where
  id : Nat
  hasProfile : Bool
  deriving DecidableEq

/-- The tables the preload reads. The id of a task is its primary key. -/
structure Database where
  tasks : List FetcherTask
  users : List User
  primaryKey : (tasks.map (fun task => task.id)).Nodup

def Database.enabledTasks (db : Database) : List FetcherTask :=
  db.tasks.filter (fun task => task.enabled)

/-- The user is there and has no profile. -/
def Database.lacksProfile (db : Database) (userId : Nat) : Bool :=
  db.users.any (fun user => user.id = userId && !user.hasProfile)

/-- `get_many(ProfileFetcherTask, enabled=True)`. -/
def Database.enabledPage (db : Database) : List FetcherTask :=
  getMany FetcherTask.id (fun task => task.enabled) queryDefaultLimit db.tasks

/-- `get_many(User, profile=None, _select="id")`. -/
def Database.missingProfileUserIds (db : Database) : List Nat :=
  (getMany User.id (fun user => !user.hasProfile) queryDefaultLimit db.users).map
    (fun user => user.id)

def profileInstruction (missingProfileUserIds : List Nat) (clock : Nat → Nat)
    (record : FetcherTask) :
    JobLoadInstruction where
  executionTime := if record.userId ∈ missingProfileUserIds then some (clock record.id) else none
  lastExecution := record.lastFetch

def scoreInstruction (record : FetcherTask) : JobLoadInstruction where
  lastExecution := record.lastFetch

namespace Scheduler

variable (service : Service)

/-- `_load_job` for each record, with the instruction for it and the time at
which it is loaded. -/
def loadRecords (instruction : FetcherTask → JobLoadInstruction) (clock : Nat → Nat)
    (records : List FetcherTask) (s : Scheduler) : Scheduler :=
  records.foldl (fun s record =>
    if !record.enabled then s
    else s.loadJob service record.id (some (instruction record)) (clock record.id)) s

/-- `ProfileFetcher._preload_jobs`. -/
def preloadProfiles (db : Database) (clock : Nat → Nat) (s : Scheduler) : Scheduler :=
  s.loadRecords service (profileInstruction db.missingProfileUserIds clock) clock db.enabledPage

/-- `ScoreFetcher._preload_jobs`. -/
def preloadScores (db : Database) (clock : Nat → Nat) (s : Scheduler) : Scheduler :=
  s.loadRecords service scoreInstruction clock db.enabledPage

end Scheduler

/-! What the preload should do. -/

/-- Once an interval after the last fetch, or at once. -/
def dueTime (service : Service) (clock : Nat → Nat) (task : FetcherTask) : Nat :=
  match task.lastFetch with
  | none => clock task.id
  | some lastFetch => lastFetch + service.jobInterval

/-- At once for a user without a profile. -/
def profileTime (service : Service) (db : Database) (clock : Nat → Nat) (task : FetcherTask) :
    Nat :=
  if db.lacksProfile task.userId then clock task.id else dueTime service clock task

/-- The heap holds the enabled tasks, each once and at its time. -/
def Preloaded (db : Database) (time : FetcherTask → Nat) (heap : JobHeap) : Prop :=
  heap.entries.Perm (db.enabledTasks.map (fun task => ⟨time task, task.id⟩))

section Proofs

variable {service : Service} {db : Database} {clock : Nat → Nat}

theorem sortedRows_answer {α : Type} (primaryKey : α → Nat) (condition : α → Bool)
    (rows : List α) :
    (Query.many (conditionQuery primaryKey condition rows)).Answer
      (sortedRows primaryKey condition rows) := by
  have hpairwise := List.pairwise_insertionSort (fun a b => primaryKey a ≤ primaryKey b)
    (rows.filter condition)
  refine ⟨List.perm_insertionSort _ _, hpairwise.imp fun {a b} hle => ?_⟩
  change (compareLex (compareOn primaryKey) (Clause.order []) a b).isLE = true
  simp only [compareLex, compareOn, Clause.order, Ordering.then_eq]
  exact Nat.isLE_compare.mpr hle

theorem getMany_eq_page {α : Type} (primaryKey : α → Nat) (condition : α → Bool) (limit : Nat)
    (rows : List α) :
    getMany primaryKey condition limit rows =
      Pages.page (clamp limit queryMinLimit queryMaxLimit).toNat 0
        (sortedRows primaryKey condition rows) :=
  rfl

theorem getMany_length {α : Type} (primaryKey : α → Nat) (condition : α → Bool) (rows : List α) :
    (getMany primaryKey condition queryDefaultLimit rows).length =
      min queryDefaultLimit (rows.filter condition).length := by
  rw [getMany_eq_page, Pages.page, List.drop_zero, List.length_take,
    (sortedRows_answer primaryKey condition rows).perm.length_eq]
  rfl

/-- A page that holds all the rows. -/
theorem getMany_perm {α : Type} {primaryKey : α → Nat} {condition : α → Bool} {rows : List α}
    (h : (rows.filter condition).length ≤ queryDefaultLimit) :
    (getMany primaryKey condition queryDefaultLimit rows).Perm (rows.filter condition) := by
  have hanswer := sortedRows_answer primaryKey condition rows
  rw [getMany_eq_page, Pages.page, List.drop_zero, List.take_of_length_le]
  · exact hanswer.perm
  · rw [hanswer.perm.length_eq]
    exact h

theorem mem_of_mem_getMany {α : Type} {primaryKey : α → Nat} {condition : α → Bool} {limit : Nat}
    {rows : List α} {row : α} (h : row ∈ getMany primaryKey condition limit rows) :
    row ∈ rows ∧ condition row = true := by
  have hmem := (sortedRows_answer primaryKey condition rows).perm.mem_iff.mp
    (Pages.mem_of_mem_page h)
  exact List.mem_filter.mp hmem

/-- Loading records pushes one entry for each enabled one. -/
theorem loadRecords_heap {instruction : FetcherTask → JobLoadInstruction}
    {time : FetcherTask → Nat} (records : List FetcherTask) (s : Scheduler)
    (htime : ∀ record ∈ records, ∀ heap,
      Scheduler.loadTime service heap (clock record.id) (some (instruction record)) =
        some (time record)) (henabled : ∀ record ∈ records, record.enabled = true) :
    (s.loadRecords service instruction clock records).heap.entries.Perm
      (records.map (fun record => ⟨time record, record.id⟩) ++ s.heap.entries) := by
  induction records generalizing s with
  | nil => exact List.Perm.refl _
  | cons record rest ih =>
      have hload : s.loadJob service record.id (some (instruction record)) (clock record.id) =
          { s with
            heap := s.heap.push ⟨time record, record.id⟩
            loaded := insert record.id s.loaded } := by
        simp only [Scheduler.loadJob, htime record List.mem_cons_self]
      have hstep : s.loadRecords service instruction clock (record :: rest) =
          Scheduler.loadRecords service instruction clock rest
            (s.loadJob service record.id (some (instruction record)) (clock record.id)) := by
        simp [Scheduler.loadRecords, henabled record List.mem_cons_self]
      rw [hstep]
      refine (ih _ (fun r hr => htime r (List.mem_cons_of_mem _ hr))
        (fun r hr => henabled r (List.mem_cons_of_mem _ hr))).trans ?_
      rw [hload]
      refine ((PriorityQueue.push_perm _ _).append_left _).trans ?_
      exact List.perm_middle

/-- The time a record is loaded at by `ScoreFetcher`. -/
theorem loadTime_lastFetch (record : FetcherTask) (heap : JobHeap) :
    Scheduler.loadTime service heap (clock record.id) (some (scoreInstruction record)) =
      some (dueTime service clock record) := by
  unfold Scheduler.loadTime dueTime scoreInstruction
  cases record.lastFetch <;> rfl

/-- The time a record is loaded at by `ProfileFetcher`. -/
theorem loadTime_missing (missing : List Nat) (record : FetcherTask) (heap : JobHeap) :
    Scheduler.loadTime service heap (clock record.id)
        (some (profileInstruction missing clock record)) =
      some (if record.userId ∈ missing then clock record.id else dueTime service clock record) := by
  unfold profileInstruction
  split
  · rfl
  · exact loadTime_lastFetch record heap

/-- A page of tasks loaded at some times is the whole of the enabled tasks at
the times they are due exactly if the page holds them all and the times agree. -/
theorem perm_page_iff {time due : FetcherTask → Nat} :
    (db.enabledPage.map (fun task => (⟨time task, task.id⟩ : Job))).Perm
        (db.enabledTasks.map (fun task => ⟨due task, task.id⟩)) ↔
      db.enabledTasks.length ≤ queryDefaultLimit ∧ ∀ task ∈ db.enabledTasks,
      time task = due task := by
  constructor
  · intro hperm
    have hlength := hperm.length_eq
    rw [List.length_map, List.length_map, Database.enabledPage, getMany_length] at hlength
    have hall : db.enabledTasks.length ≤ queryDefaultLimit := by
      change min queryDefaultLimit db.enabledTasks.length = _ at hlength
      omega
    refine ⟨hall, fun task htask => ?_⟩
    have hpage := (@getMany_perm _ FetcherTask.id _ _ hall).mem_iff.mpr htask
    have hmem := hperm.mem_iff.mp (List.mem_map_of_mem hpage)
    obtain ⟨other, hother, heq⟩ := List.mem_map.mp hmem
    obtain ⟨hdue, hid⟩ := Job.mk.inj heq
    obtain rfl : other = task := by
      refine List.inj_on_of_nodup_map db.primaryKey ?_ ?_ hid
      · exact (List.mem_filter.mp hother).1
      · exact (List.mem_filter.mp htask).1
    exact hdue.symm
  · rintro ⟨hall, htimes⟩
    refine ((getMany_perm hall).map _).trans (List.Perm.of_eq (List.map_congr_left ?_))
    exact fun task htask => by rw [htimes task htask]

/-- The heap after loading the page of enabled tasks. -/
theorem loaded_heap {instruction : FetcherTask → JobLoadInstruction} {time : FetcherTask → Nat}
    (htime : ∀ (record : FetcherTask) (heap : JobHeap),
      Scheduler.loadTime service heap (clock record.id) (some (instruction record)) =
        some (time record)) (db : Database) :
    ((Scheduler.initially service).loadRecords service instruction clock
        db.enabledPage).heap.entries.Perm
      (db.enabledPage.map (fun task => ⟨time task, task.id⟩)) := by
  have hperm := @loadRecords_heap service clock instruction time
    db.enabledPage (Scheduler.initially service) (fun record _ => htime record)
    (fun record hrecord => (mem_of_mem_getMany hrecord).2)
  rw [show (Scheduler.initially service).heap.entries = [] from rfl, List.append_nil] at hperm
  exact hperm

theorem mem_missing {userId : Nat}
    (h : userId ∈ db.missingProfileUserIds) : db.lacksProfile userId = true := by
  obtain ⟨user, huser, rfl⟩ := List.mem_map.mp h
  obtain ⟨hmem, hmissing⟩ := mem_of_mem_getMany huser
  exact List.any_eq_true.mpr ⟨user, hmem, by simpa using hmissing⟩

end Proofs

/-- The preload of either fetcher loads every enabled task exactly when a page
holds them all. The profile fetcher also needs every user without a profile
whose task has been fetched before to be on the first page of such users, unless
that task is due at that very moment. -/
theorem preload_complete_iff (service : Service) (db : Database) (clock : Nat → Nat) :
    (Preloaded db (dueTime service clock)
        ((Scheduler.initially service).preloadScores service db clock).heap ↔
      db.enabledTasks.length ≤ queryDefaultLimit) ∧
    (Preloaded db (profileTime service db clock)
        ((Scheduler.initially service).preloadProfiles service db clock).heap ↔
      db.enabledTasks.length ≤ queryDefaultLimit ∧
        ∀ task ∈ db.enabledTasks, db.lacksProfile task.userId = true →
          ∀ lastFetch, task.lastFetch = some lastFetch →
            task.userId ∈ db.missingProfileUserIds ∨
            lastFetch + service.jobInterval = clock task.id) := by
  constructor
  · have hheap := @loaded_heap service clock _ _ loadTime_lastFetch db
    rw [Preloaded, Scheduler.preloadScores, hheap.congr_left, perm_page_iff]
    exact ⟨fun h => h.1, fun h => ⟨h, fun _ _ => rfl⟩⟩
  · have hheap := @loaded_heap service clock _ _ (loadTime_missing db.missingProfileUserIds) db
    rw [Preloaded, Scheduler.preloadProfiles, hheap.congr_left, perm_page_iff]
    refine and_congr_right fun _ => forall₂_congr fun task htask => ?_
    unfold profileTime
    by_cases hpage : task.userId ∈ db.missingProfileUserIds
    · simp [hpage, mem_missing hpage]
    · cases hlacks : db.lacksProfile task.userId with
      | false => simp [hpage]
      | true =>
          unfold dueTime
          cases hfetch : task.lastFetch with
          | none => simp
          | some lastFetch => simp [hpage]

/-- As many enabled tasks as given, one for each user. -/
def enabledTasks (count : Nat) : List FetcherTask :=
  (List.range count).map (fun i => ⟨i + 1, i + 1, true, some 0⟩)

/-- Fifty-one enabled tasks. -/
def crowdedDatabase : Database :=
  ⟨enabledTasks 51, [], by decide +kernel⟩

/-- Fifty-one users without a profile, and one task, for the last of them. -/
def newUsersDatabase : Database :=
  ⟨[⟨1, 51, true, some 0⟩], (List.range 51).map (fun i => ⟨i + 1, false⟩), by decide +kernel⟩

/-- The last of fifty-one enabled tasks is not loaded, and a task whose user is
the fifty-first without a profile is not loaded for now. -/
theorem secondPage_notLoaded :
    ¬ Preloaded crowdedDatabase (dueTime ⟨true, 5, 10⟩ (fun _ => 5))
        ((Scheduler.initially ⟨true, 5, 10⟩).preloadScores ⟨true, 5, 10⟩ crowdedDatabase
          (fun _ => 5)).heap ∧
    ¬ Preloaded newUsersDatabase (profileTime ⟨true, 5, 10⟩ newUsersDatabase (fun _ => 5))
        ((Scheduler.initially ⟨true, 5, 10⟩).preloadProfiles ⟨true, 5, 10⟩ newUsersDatabase
          (fun _ => 5)).heap := by
  constructor
  · intro hperm
    have hlength := hperm.length_eq
    revert hlength
    decide +kernel
  · unfold Preloaded
    decide +kernel

end Graveboards.Daemon
