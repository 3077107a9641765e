import Graveboards.Daemon.Preload
import Graveboards.Daemon.Representation
import Graveboards.Requests.World

/-!
A fetcher service over its database: the preload, the subscriber, the handlers'
programs, and the sessions that create records and change their `enabled` flag.
A step runs one coroutine or one session to its next await.
-/

namespace Graveboards.Daemon

open Library

inductive FetcherKind where
  | profile
  | score
  deriving DecidableEq

/-- `DEFAULT` of the column `enabled`. -/
def FetcherKind.enabledDefault : FetcherKind → Bool
  | .profile => true
  | .score => false

structure FetcherConfig where
  kind : FetcherKind
  fetchConcurrency : Nat
  fetchInterval : Nat
  fallbackDelay : Nat

def FetcherConfig.service (config : FetcherConfig) : Service :=
  ⟨true, config.fetchConcurrency, config.fetchInterval⟩

def FetcherConfig.preloadInstruction (config : FetcherConfig) (missingProfileUserIds : List Nat)
    (clock : Nat → Nat) (record : FetcherTask) : JobLoadInstruction :=
  match config.kind with
  | .profile => profileInstruction missingProfileUserIds clock record
  | .score => scoreInstruction record

/-! The rows. -/

namespace Database

def has (db : Database) (id : Nat) : Bool := db.tasks.any (fun task => task.id = id)

/-- Some task of that id is committed as disabled. -/
def disabled (db : Database) (id : Nat) : Prop :=
  ∃ task ∈ db.tasks, task.id = id ∧ task.enabled = false

instance (db : Database) (id : Nat) : Decidable (db.disabled id) :=
  inferInstanceAs (Decidable (∃ task ∈ db.tasks, task.id = id ∧ task.enabled = false))

def find (db : Database) (id : Nat) : Option FetcherTask :=
  db.tasks.find? (fun task => task.id = id)

/-- An update of one task that leaves its id alone. -/
def updateTask (db : Database) (id : Nat) (enabled : Option Bool) (lastFetch : Option Nat) :
    Database where
  tasks := db.tasks.map (fun task =>
    if task.id = id then
      { task with
        enabled := enabled.getD task.enabled
        lastFetch := lastFetch.or task.lastFetch }
    else task)
  users := db.users
  primaryKey := by
    have hids : ((fun task : FetcherTask => task.id) ∘ fun task =>
        if task.id = id then { task with
          enabled := enabled.getD task.enabled
          lastFetch := lastFetch.or task.lastFetch } else task) = fun task => task.id := by
      funext task
      dsimp only [Function.comp_apply]
      split <;> rfl
    rw [List.map_map, hids]
    exact db.primaryKey

/-- A new user and its task. The id of the task comes from a sequence. -/
def insertUser (db : Database) (task : FetcherTask) (hnew : db.has task.id = false) : Database where
  tasks := task :: db.tasks
  users := ⟨task.userId, false⟩ :: db.users
  primaryKey := by
    refine List.nodup_cons.mpr ⟨fun hmem => ?_, db.primaryKey⟩
    obtain ⟨other, hother, hid⟩ := List.mem_map.mp hmem
    have hhas : db.has task.id = true := List.any_eq_true.mpr ⟨other, hother, by simpa using hid⟩
    rw [hnew] at hhas
    cases hhas

def addProfile (db : Database) (userId : Nat) : Database :=
  { db with users := db.users.map (fun user => if user.id = userId then ⟨userId, true⟩ else user) }

end Database

/-! `_execute_job` under `auto_retry`. -/

inductive FetchFailure where
  | connectTimeout
  | readTimeout
  | httpStatusError
  | lockTimeout
  | other
  deriving DecidableEq

/-- Where `_execute_job` stands: reading the record, before the request (the
locks, the rate limits and the token), awaiting the response, storing what came
back, committing enabled=False, asleep before the next attempt. -/
inductive FetchStage where
  | idle
  | read (attempt : Nat)
  | prepare (attempt : Nat)
  | fetch (attempt : Nat)
  | store
  | disable
  | backoff (attempt : Nat)
  | returned (raised : Bool)
  deriving DecidableEq

/-- How an await ends. `skipped`: the lock of the profile is held by another
procedure. `lost`: the commit went through and its reply did not. -/
inductive Answer where
  | ok
  | skipped
  | failed (failure : FetchFailure)
  | lost
  deriving DecidableEq

/-- The handlers of `ProfileFetcher._execute_job` around the request; `ScoreFetcher`
has none. `auto_retry` repeats after a `ConnectTimeout`. -/
def FetcherKind.afterFailure (kind : FetcherKind) (attempt : Nat) (failure : FetchFailure) :
    FetchStage :=
  match kind, failure with
  | _, .connectTimeout =>
      if attempt < Requests.maxAttempts then .backoff attempt else .returned true
  | .profile, .httpStatusError => .disable
  | .profile, .readTimeout | .profile, .lockTimeout => .returned false
  | _, _ => .returned true

/-! The state. -/

/-- Where the subscriber stands. -/
inductive Subscriber where
  | listening
  | resolving (recordId : Nat)
  | loading (recordId : Nat) (instruction : JobLoadInstruction)
  deriving DecidableEq

/-- `assigned`: what open sessions have set the flag of a record to; `preloading`:
the records read at start-up, until they are loaded and the channel is subscribed
to. `enabling` are the records set to true and `announced` those published, in
both cases not committed as disabled since; `fetches` are the records fetched,
and whether they were off. -/
structure Fetcher where
  db : Database
  assigned : List (Nat × Bool)
  enabling : Finset Nat
  preloading : Option (List FetcherTask)
  messages : List Nat
  subscriber : Subscriber
  scheduler : Scheduler
  programs : Nat → FetchStage
  announced : Finset Nat
  fetches : List (Nat × Bool)

/-- How `_resolve_job_instruction` ends. -/
inductive Resolution where
  | found
  | timeout
  | raised
  deriving DecidableEq

/-- `sent`: the publication reached Redis. -/
inductive FetcherEvent where
  | start
  | preloaded (clock : Nat → Nat)
  | userAfterInsert (recordId : Nat) (sent : Bool)
  | commitUser (recordId userId : Nat)
  | enabledSet (recordId : Nat) (value sent : Bool)
  | commit (recordId : Nat) (value : Bool)
  | rollback (recordId : Nat) (value : Bool)
  | listen
  | resolved (resolution : Resolution) (now : Nat)
  | load (now : Nat)
  | handle (action : Action)
  | execute (i : Nat) (answer : Answer)

namespace Fetcher

/-- Committed as disabled, and not set to true since. -/
def off (f : Fetcher) (recordId : Nat) : Prop := f.db.disabled recordId ∧ recordId ∉ f.enabling

instance (f : Fetcher) (recordId : Nat) : Decidable (f.off recordId) :=
  inferInstanceAs (Decidable (f.db.disabled recordId ∧ recordId ∉ f.enabling))

/-- A message reaches the service only once it has subscribed. -/
def publish (recordId : Nat) (f : Fetcher) : Fetcher :=
  { f with
    messages := if f.preloading.isSome then f.messages else f.messages ++ [recordId]
    announced := insert recordId f.announced }

/-- An open session sets the flag. -/
def assign (recordId : Nat) (value : Bool) (f : Fetcher) : Fetcher :=
  { f with
    assigned := (recordId, value) :: f.assigned
    enabling := if value then insert recordId f.enabling else f.enabling }

/-- A commit of the flag. -/
def commitEnabled (recordId : Nat) (value : Bool) (f : Fetcher) : Fetcher :=
  { f with
    db := f.db.updateTask recordId (some value) none
    enabling := if value then f.enabling else f.enabling.erase recordId
    announced := if value then f.announced else f.announced.erase recordId }

def setProgram (i : Nat) (stage : FetchStage) (f : Fetcher) : Fetcher :=
  { f with programs := Function.update f.programs i stage }

variable (config : FetcherConfig)

/-- The next await of `_execute_job` for the handler's record. -/
def advance (i recordId : Nat) : FetchStage → Answer → Fetcher → Option Fetcher
  | .read attempt, .ok, f =>
      -- `ValueError` when there is no such record.
      some (f.setProgram i (if f.db.has recordId then .prepare attempt else .returned true))
  | .read _, .failed _, f => some (f.setProgram i (.returned true))
  | .prepare attempt, .ok, f =>
      some { f.setProgram i (.fetch attempt) with
        fetches := f.fetches ++ [(recordId, decide (f.off recordId))] }
  | .prepare _, .skipped, f =>
      if config.kind = .profile then some (f.setProgram i (.returned false)) else none
  | .prepare attempt, .failed failure, f =>
      some (f.setProgram i (config.kind.afterFailure attempt failure))
  | .fetch _, .ok, f => some (f.setProgram i .store)
  | .fetch attempt, .failed failure, f =>
      some (f.setProgram i (config.kind.afterFailure attempt failure))
  | .store, .ok, f => do
      let task ← f.db.find recordId
      let db := if config.kind = .profile then f.db.addProfile task.userId else f.db
      return { f.setProgram i (.returned false) with db := db }
  | .store, .failed _, f => some (f.setProgram i (.returned true))
  | .disable, .ok, f => some ((f.commitEnabled recordId false).setProgram i (.returned false))
  | .disable, .lost, f => some ((f.commitEnabled recordId false).setProgram i (.returned true))
  | .disable, .failed _, f => some (f.setProgram i (.returned true))
  | .backoff attempt, .ok, f => some (f.setProgram i (.read (attempt + 1)))
  | _, _, _ => none

/-- `_execute_job` is entered with the semaphore, and left when it has returned. -/
def permits (f : Fetcher) : Action → Bool
  | .receive _ _ _ => false
  | .executed i raised => f.programs i = .returned raised
  | _ => true

/-- What an action of the scheduler does besides. `_on_job_success` sets the time
of the last fetch. -/
def effect : Action → Fetcher → Fetcher
  | .acquire i, f => f.setProgram i (.read 1)
  | .hooked i raised now, f =>
      match f.scheduler.handlers[i]? with
      | some ⟨recordId, .hook false⟩ =>
          if raised then f else { f with db := f.db.updateTask recordId none (some now) }
      | _ => f
  | _, f => f

def step : FetcherEvent → Fetcher → Option Fetcher
  | .start, f =>
      some { f with
        preloading := some f.db.enabledPage
        messages := []
        subscriber := .listening
        scheduler := .initially config.service
        programs := fun _ => .idle }
  | .preloaded clock, f => do
      let records ← f.preloading
      return { f with
        preloading := none
        scheduler := f.scheduler.loadRecords config.service
          (config.preloadInstruction f.db.missingProfileUserIds clock) clock records }
  | .userAfterInsert recordId sent, f =>
      -- The profile task is published, before its row is committed.
      if f.db.has recordId then none
      else some (if config.kind = .profile && sent then f.publish recordId else f)
  | .commitUser recordId userId, f =>
      if hnew : f.db.has recordId = false then
        some { f with
          db := f.db.insertUser ⟨recordId, userId, config.kind.enabledDefault, none⟩ hnew }
      else none
  | .enabledSet recordId value sent, f =>
      if f.db.has recordId then
        -- `score_fetcher_task_enabled_set`; nothing listens to the other table.
        some (if config.kind = .score && value &&
          sent then (f.assign recordId value).publish recordId
          else f.assign recordId value)
      else none
  | .commit recordId value, f =>
      if (recordId, value) ∈ f.assigned then
        some { f.commitEnabled recordId value with assigned := f.assigned.erase (recordId, value) }
      else none
  | .rollback recordId value, f =>
      if (recordId, value) ∈ f.assigned then
        let rest := f.assigned.erase (recordId, value)
        some { f with
          assigned := rest
          enabling := if (recordId, true) ∈ rest then f.enabling else f.enabling.erase recordId }
      else none
  | .listen, f =>
      match f.subscriber, f.messages with
      | .listening, recordId :: rest =>
          some { f with subscriber := .resolving recordId, messages := rest }
      | _, _ => none
  | .resolved resolution now, f =>
      match f.subscriber, resolution with
      | .resolving recordId, .found => do
          let record ← f.db.find recordId
          return { f with subscriber := .loading recordId { lastExecution := record.lastFetch } }
      | .resolving recordId, .timeout =>
          some { f with
            subscriber := .loading recordId { executionTime := some (now + config.fallbackDelay) } }
      | .resolving _, .raised => some { f with subscriber := .listening }
      | _, _ => none
  | .load now, f =>
      match f.subscriber with
      | .loading recordId instruction => do
          let scheduler ← Scheduler.step config.service
            (.receive recordId (some instruction) now) f.scheduler
          return { f with subscriber := .listening, scheduler := scheduler }
      | _ => none
  | .handle action, f =>
      if f.permits action then do
        let scheduler ← Scheduler.step config.service action f.scheduler
        return { f.effect action with scheduler := scheduler }
      else none
  | .execute i answer, f => do
      let h ← f.scheduler.handlers[i]?
      if h.stage = .executing then f.advance config i h.jobId (f.programs i) answer else none

/-- The first start, over any database. -/
def initially (db : Database) : Fetcher where
  db := db
  assigned := []
  enabling := ∅
  preloading := some db.enabledPage
  messages := []
  subscriber := .listening
  scheduler := .initially config.service
  programs := fun _ => .idle
  announced := ∅
  fetches := []

end Fetcher

/-! What one step can do. -/

namespace Database

variable {db : Database} {id recordId : Nat}

/-- An update that does not touch the flags. -/
@[simp] theorem disabled_updateTask_none (lastFetch : Option Nat) :
    (db.updateTask recordId none lastFetch).disabled id ↔ db.disabled id := by
  simp only [disabled, updateTask, List.mem_map, exists_exists_and_eq_and]
  refine exists_congr fun task => and_congr_right fun _ => ?_
  split <;> rfl

/-- The flags after a commit. -/
theorem disabled_updateTask_some {value : Bool}
    (h : (db.updateTask recordId (some value) none).disabled id) :
    id = recordId ∧ value = false ∨ db.disabled id := by
  obtain ⟨task, htask, hid, hflag⟩ := h
  obtain ⟨old, hold, rfl⟩ := List.mem_map.mp htask
  split at hid
  · next hrecord =>
      rw [if_pos hrecord] at hflag
      exact Or.inl ⟨hid.symm.trans hrecord, hflag⟩
  · next hrecord =>
      rw [if_neg hrecord] at hflag
      exact Or.inr ⟨old, hold, hid, hflag⟩

theorem disabled_insertUser {task : FetcherTask} (hnew : db.has task.id = false) :
    (db.insertUser task hnew).disabled id ↔
      task.id = id ∧ task.enabled = false ∨ db.disabled id := by
  simp only [disabled, insertUser, List.exists_mem_cons_iff]

theorem has_of_disabled (h : db.disabled id) : db.has id = true := by
  obtain ⟨task, htask, rfl, -⟩ := h
  exact List.any_eq_true.mpr ⟨task, htask, by simp⟩

/-- An enabled task is not disabled, its id being the primary key. -/
theorem not_disabled_of_enabled {task : FetcherTask} (htask : task ∈ db.tasks)
    (henabled : task.enabled = true) : ¬ db.disabled task.id := by
  rintro ⟨other, hother, hid, hflag⟩
  obtain rfl := List.inj_on_of_nodup_map db.primaryKey hother htask hid
  rw [henabled] at hflag
  cases hflag

end Database

namespace Fetcher

/-- `programs` and `db` are what a step may change of the handlers' own state:
the tables keep their flags. -/
inductive Move (config : FetcherConfig) (f : Fetcher) : FetcherEvent → Fetcher → Prop where
  | start : Move config f .start { f with
      preloading := some f.db.enabledPage
      messages := []
      subscriber := .listening
      scheduler := .initially config.service
      programs := fun _ => .idle }
  | preloaded (clock : Nat → Nat) (records : List FetcherTask)
      (hrecords : f.preloading = some records) :
      Move config f (.preloaded clock) { f with
        preloading := none
        scheduler := f.scheduler.loadRecords config.service
          (config.preloadInstruction f.db.missingProfileUserIds clock) clock records }
  | unsent (recordId : Nat) (sent : Bool) : Move config f (.userAfterInsert recordId sent) f
  | inserted (recordId : Nat) (hkind : config.kind = .profile) (hnew : f.db.has recordId = false) :
      Move config f (.userAfterInsert recordId true) (f.publish recordId)
  | commitUser (recordId userId : Nat) (hnew : f.db.has recordId = false) :
      Move config f (.commitUser recordId userId) { f with
        db := f.db.insertUser ⟨recordId, userId, config.kind.enabledDefault, none⟩ hnew }
  | assigned (recordId : Nat) (value sent : Bool) :
      Move config f (.enabledSet recordId value sent) (f.assign recordId value)
  | enabled (recordId : Nat) (hkind : config.kind = .score) :
      Move config f (.enabledSet recordId true true) ((f.assign recordId true).publish recordId)
  | commit (recordId : Nat) (value : Bool) : Move config f (.commit recordId value)
      { f.commitEnabled recordId value with assigned := f.assigned.erase (recordId, value) }
  | rollback (recordId : Nat) (value : Bool) : Move config f (.rollback recordId value) { f with
      assigned := f.assigned.erase (recordId, value)
      enabling := if (recordId, true) ∈ f.assigned.erase (recordId, value) then f.enabling
        else f.enabling.erase recordId }
  | listen (recordId : Nat) (rest : List Nat) (hfrom : f.subscriber = .listening)
      (hmessages : f.messages = recordId :: rest) :
      Move config f .listen { f with subscriber := .resolving recordId, messages := rest }
  | resolved (recordId : Nat) (resolution : Resolution) (now : Nat)
      (instruction : JobLoadInstruction) (hfrom : f.subscriber = .resolving recordId)
      (hskip : instruction.skip = false) :
      Move config f (.resolved resolution now)
      { f with subscriber := .loading recordId instruction }
  | unresolved (recordId now : Nat) (hfrom : f.subscriber = .resolving recordId) :
      Move config f (.resolved .raised now) { f with subscriber := .listening }
  | load (recordId now : Nat) (instruction : JobLoadInstruction) (scheduler : Scheduler)
      (hfrom : f.subscriber = .loading recordId instruction)
      (hmove : Scheduler.Move config.service f.scheduler
        (.receive recordId (some instruction) now) scheduler) :
      Move config f (.load now) { f with subscriber := .listening, scheduler := scheduler }
  | handle (action : Action) (scheduler : Scheduler) (programs : Nat → FetchStage) (db : Database)
      (hreceive : ∀ id instruction now, action ≠ .receive id instruction now)
      (hmove : Scheduler.Move config.service f.scheduler action scheduler)
      (hdb : ∀ id, db.disabled id ↔ f.db.disabled id) :
      Move config f (.handle action) { f with
        scheduler := scheduler
        programs := programs
        db := db }
  | execute (i : Nat) (answer : Answer) (programs : Nat → FetchStage) (db : Database)
      (hdb : ∀ id, db.disabled id ↔ f.db.disabled id) :
      Move config f (.execute i answer) { f with programs := programs, db := db }
  | fetch (i attempt : Nat) (h : Handler) (hget : f.scheduler.handlers[i]? = some h)
      (hstage : h.stage = .executing) :
      Move config f (.execute i .ok) { f.setProgram i (.fetch attempt) with
        fetches := f.fetches ++ [(h.jobId, decide (f.off h.jobId))] }
  | disable (i : Nat) (h : Handler) (answer : Answer) (raised : Bool)
      (hget : f.scheduler.handlers[i]? = some h) (hprogram : f.programs i = .disable)
      (hanswer : answer = .ok ∨ answer = .lost) :
      Move config f (.execute i answer)
        ((f.commitEnabled h.jobId false).setProgram i (.returned raised))

variable {config : FetcherConfig} {f f' : Fetcher}

/-- The awaits of `_execute_job`. -/
theorem advance_move {i : Nat} {h : Handler} {answer : Answer}
    (hget : f.scheduler.handlers[i]? = some h) (hstage : h.stage = .executing)
    (hadvance : f.advance config i h.jobId (f.programs i) answer = some f') :
    Move config f (.execute i answer) f' := by
  have program (stage : FetchStage) : Move config f (.execute i answer) (f.setProgram i stage) :=
    .execute i answer _ f.db (fun _ => Iff.rfl)
  generalize hprogram : f.programs i = stage at hadvance
  unfold advance at hadvance
  split at hadvance
  case h_3 =>
      obtain rfl := Option.some.inj hadvance
      exact .fetch i _ h hget hstage
  case h_4 =>
      split at hadvance
      · exact Option.some.inj hadvance ▸ program _
      · cases hadvance
  case h_8 =>
      obtain ⟨task, -, hadvance⟩ := Option.bind_eq_some_iff.mp hadvance
      obtain rfl := Option.some.inj hadvance
      refine .execute i .ok _ _ (fun id => ?_)
      split <;> rfl
  case h_10 =>
      obtain rfl := Option.some.inj hadvance
      exact .disable i h .ok _ hget hprogram (Or.inl rfl)
  case h_11 =>
      obtain rfl := Option.some.inj hadvance
      exact .disable i h .lost _ hget hprogram (Or.inr rfl)
  case h_14 => cases hadvance
  all_goals exact Option.some.inj hadvance ▸ program _

/-- What an action does besides leaves the flags alone. -/
theorem effect_eq (action : Action) (f : Fetcher) : ∃ programs db,
    (∀ id, db.disabled id ↔ f.db.disabled id) ∧
      f.effect action = { f with programs := programs, db := db } := by
  cases action with
  | acquire i => exact ⟨_, f.db, fun _ => Iff.rfl, rfl⟩
  | hooked i raised now =>
      unfold effect
      dsimp only
      split
      · split
        · exact ⟨f.programs, f.db, fun _ => Iff.rfl, rfl⟩
        · exact ⟨f.programs, _, fun _ => Database.disabled_updateTask_none _, rfl⟩
      · exact ⟨f.programs, f.db, fun _ => Iff.rfl, rfl⟩
  | receive | schedule | wake | executed | reschedule | finished =>
      exact ⟨f.programs, f.db, fun _ => Iff.rfl, rfl⟩

theorem step_move {event : FetcherEvent} (hstep : step config event f = some f') :
    Move config f event f' := by
  cases event with
  | start => exact Option.some.inj hstep ▸ .start
  | preloaded clock =>
      obtain ⟨records, hrecords, hstep⟩ := Option.bind_eq_some_iff.mp hstep
      exact Option.some.inj hstep ▸ .preloaded clock records hrecords
  | userAfterInsert recordId sent =>
      obtain ⟨hnew, hstep⟩ := Option.ite_none_left_eq_some.mp hstep
      obtain rfl := Option.some.inj hstep
      split
      · next hsent =>
          obtain ⟨hkind, rfl⟩ : config.kind = .profile ∧ sent = true := by simpa using hsent
          exact .inserted recordId hkind (by simpa using hnew)
      · exact .unsent recordId sent
  | commitUser recordId userId =>
      unfold step at hstep
      dsimp only at hstep
      split at hstep
      · next hnew => exact Option.some.inj hstep ▸ .commitUser recordId userId hnew
      · cases hstep
  | enabledSet recordId value sent =>
      obtain ⟨-, hstep⟩ := Option.ite_none_right_eq_some.mp hstep
      obtain rfl := Option.some.inj hstep
      split
      · next hsent =>
          obtain ⟨⟨hkind, rfl⟩, rfl⟩ : (config.kind = .score ∧ value = true) ∧ sent = true := by
            simpa using hsent
          exact .enabled recordId hkind
      · exact .assigned recordId value sent
  | commit recordId value =>
      obtain ⟨-, hstep⟩ := Option.ite_none_right_eq_some.mp hstep
      exact Option.some.inj hstep ▸ .commit recordId value
  | rollback recordId value =>
      obtain ⟨-, hstep⟩ := Option.ite_none_right_eq_some.mp hstep
      exact Option.some.inj hstep ▸ .rollback recordId value
  | listen =>
      unfold step at hstep
      dsimp only at hstep
      split at hstep
      · next recordId rest hfrom hmessages =>
          exact Option.some.inj hstep ▸ .listen recordId rest hfrom hmessages
      · cases hstep
  | resolved resolution now =>
      unfold step at hstep
      dsimp only at hstep
      split at hstep
      · next recordId hfrom =>
          obtain ⟨record, -, hstep⟩ := Option.bind_eq_some_iff.mp hstep
          exact Option.some.inj hstep ▸ .resolved recordId .found now _ hfrom rfl
      · next recordId hfrom =>
          exact Option.some.inj hstep ▸ .resolved recordId .timeout now _ hfrom rfl
      · next recordId hfrom => exact Option.some.inj hstep ▸ .unresolved recordId now hfrom
      · cases hstep
  | load now =>
      unfold step at hstep
      dsimp only at hstep
      split at hstep
      · next recordId instruction hfrom =>
          obtain ⟨scheduler, hscheduler, hstep⟩ := Option.bind_eq_some_iff.mp hstep
          obtain rfl := Option.some.inj hstep
          exact .load recordId now instruction scheduler hfrom (Scheduler.step_move hscheduler)
      · cases hstep
  | handle action =>
      obtain ⟨hpermits, hstep⟩ := Option.ite_none_right_eq_some.mp hstep
      obtain ⟨scheduler, hscheduler, hstep⟩ := Option.bind_eq_some_iff.mp hstep
      obtain rfl := Option.some.inj hstep
      obtain ⟨programs, db, hdb, heffect⟩ := effect_eq action f
      rw [heffect]
      refine .handle action scheduler programs db ?_ (Scheduler.step_move hscheduler) hdb
      rintro id instruction now rfl
      cases hpermits
  | execute i answer =>
      obtain ⟨h, hget, hstep⟩ := Option.bind_eq_some_iff.mp hstep
      obtain ⟨hstage, hstep⟩ := Option.ite_none_right_eq_some.mp hstep
      exact advance_move hget hstage hstep

end Fetcher

end Graveboards.Daemon
