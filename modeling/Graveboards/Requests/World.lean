import Graveboards.Library.Runs
import Graveboards.Requests.Task

/-!
The life of one (queue, beatmapset) pair: any number of `POST /requests` calls,
`QueueRequestHandler` jobs and `DELETE /requests` calls, interleaved at their
database and Redis commands. A program stands before the command it issues
next; a step executes that command and runs the program to its next one. Every
command may fail, before or after it has taken effect.
-/

namespace Graveboards.Requests

open Library

/-- The pair all the programs are about. -/
structure Pair where
  queueId : Nat
  beatmapsetId : Nat
  deriving DecidableEq

/-- The shared state of the pair. `failures` counts the writes of `failed_at`;
`validationStored` and `validationPublished` record the requests whose
validation task was stored and whose id was published. -/
structure Shared where
  hash : Option Fields
  row : Option Nat
  nextId : Nat
  failures : Nat
  validationStored : List Nat
  validationPublished : List Nat

/-! `POST /requests`. -/

inductive HttpError where
  | notFound (message : String)
  | forbidden (message : String)
  | conflict (message : String)
  | badRequest (message : String)
  | internal
  deriving DecidableEq

structure QueueRow where
  name : String
  isOpen : Bool
  enforceUserIdMatch : Bool
  deriving DecidableEq

/-- The request body with the caller's authenticated id. -/
structure Submission where
  caller : Option Nat
  userId : Option Nat
  comment : String
  mvChecked : Bool
  httpRequestId : String
  deriving DecidableEq

/-- The command a `POST` stands before, with its local variables. The awaits of
`_run_phase1_checks`, `reserve_stateful_rules` and `rollback_reservations` are
one stage each: they do not touch the hash or the row. -/
inductive PostStage where
  | queue
  | admin (queue : QueueRow) (caller : Nat)
  | row (queue : QueueRow) (task : QueueRequestHandlerTask)
  | beatmapset (queue : QueueRow) (task : QueueRequestHandlerTask)
  | phase1 (queue : QueueRow) (task : QueueRequestHandlerTask)
  | check (queue : QueueRow) (task : QueueRequestHandlerTask)
  | read (queue : QueueRow) (task : QueueRequestHandlerTask)
  | clear (task : QueueRequestHandlerTask)
  | reserve (task : QueueRequestHandlerTask)
  | store (task : QueueRequestHandlerTask)
  | publish
  | rollback
  | accepted
  | refused (e : HttpError)
  deriving DecidableEq

/-- `reserved`: the stateful reservations are held. `storedIn`: the number of
failures there had been when it stored the hash. -/
structure Post where
  submission : Submission
  stage : PostStage
  reserved : Bool
  storedIn : Option Nat
  deriving DecidableEq

/-- What the environment answers to the awaited call. -/
inductive PostAnswer where
  | queue (row : Option QueueRow)
  | admin (isAdmin : Bool)
  | status (status : String)
  | passed
  | refusedWith (e : HttpError)
  | replied (delivery : Delivery)
  deriving DecidableEq

def alreadyOnOsu : List String := ["ranked", "approved", "qualified", "loved"]

/-- `body.get("user_id") or _caller_user_id`. -/
def submittedOr (submission : Submission) (caller : Nat) : Nat :=
  match submission.userId with
  | some userId => if userId = 0 then caller else userId
  | none => caller

/-- Whose request it is. -/
def resolveUser (submission : Submission) (queue : QueueRow) (caller : Nat) (isAdmin : Bool) :
    Except HttpError Nat :=
  if isAdmin then .ok (submittedOr submission caller)
  else if queue.enforceUserIdMatch then
    match submission.userId with
    | some userId =>
        if userId ≠ caller then
          .error (.forbidden "You may not submit a request on behalf of another user")
        else .ok caller
    | none => .ok caller
  else .ok (submittedOr submission caller)

section Programs

variable (pair : Pair)

def Submission.task (submission : Submission) (userId : Nat) : QueueRequestHandlerTask where
  userId := userId
  beatmapsetId := pair.beatmapsetId
  queueId := pair.queueId
  comment := submission.comment
  mvChecked := submission.mvChecked
  httpRequestId := submission.httpRequestId
  completedAt := none
  failedAt := none

/-- From the queue row to the next await. -/
def openQueue (submission : Submission) : Option QueueRow → PostStage
  | none => .refused (.notFound ("The queue with ID '" ++ toString pair.queueId ++ "' not found"))
  | some queue =>
      if !queue.isOpen then .refused (.forbidden ("The queue '" ++ queue.name ++ "' is closed"))
      else match submission.caller with
        | none => .refused (.forbidden "Authenticated user could not be determined")
        | some caller => .admin queue caller

/-- The task found under the key: a failed one is cleared, any other is a
conflict, and an unreadable one an exception. -/
def existingTask (queue : QueueRow) (task : QueueRequestHandlerTask) (fields : Fields) :
    PostStage :=
  match QueueRequestHandlerTask.deserialize fields with
  | .error _ => .refused .internal
  | .ok existing =>
      if existing.failedAt.isSome then .clear task
      else .refused (.conflict ("The request with beatmapset ID '" ++ toString pair.beatmapsetId ++
        "' in queue '" ++ queue.name ++ "' is currently being processed"))

/-- Write the task's fields into the hash, which is created if need be. -/
def storeTask (task : QueueRequestHandlerTask) (s : Shared) : Shared :=
  { s with hash := some ((s.hash.getD Fields.empty).setAll task.serialize) }

/-- One step of a `POST`, and whether it published the handler job. -/
def postStep (p : Post) (answer : PostAnswer) (s : Shared) : Option (Post × Shared × Bool) :=
  let go (stage : PostStage) : Option (Post × Shared × Bool) :=
    some ({ p with stage := stage }, s, false)
  match p.stage, answer with
  | .queue, .queue row => go (openQueue pair p.submission row)
  | .queue, .replied .failed => go (.refused .internal)
  | .admin queue caller, .admin isAdmin =>
      match resolveUser p.submission queue caller isAdmin with
      | .error e => go (.refused e)
      | .ok userId => go (.row queue (p.submission.task pair userId))
  | .admin _ _, .replied .failed => go (.refused .internal)
  | .row queue task, .replied .done =>
      if s.row.isSome then
        go (.refused (.conflict ("The request with beatmapset ID '" ++ toString pair.beatmapsetId ++
          "' already exists in queue '" ++ queue.name ++ "'")))
      else go (.beatmapset queue task)
  | .row _ _, .replied .failed => go (.refused .internal)
  | .beatmapset queue task, .status status =>
      if status ∈ alreadyOnOsu then
        go (.refused (.badRequest ("The beatmapset is already " ++ status ++ " on osu!")))
      else go (.phase1 queue task)
  | .beatmapset _ _, .refusedWith e => go (.refused e)
  | .phase1 queue task, .passed => go (.check queue task)
  | .phase1 _ _, .refusedWith e => go (.refused e)
  | .check queue task, .replied .done =>
      if s.hash.isSome then go (.read queue task) else go (.reserve task)
  | .check _ _, .replied .failed => go (.refused .internal)
  | .read queue task, .replied .done =>
      -- `HGETALL` of a key that has gone meanwhile is an empty mapping.
      go (existingTask pair queue task (s.hash.getD Fields.empty))
  | .read _ _, .replied .failed => go (.refused .internal)
  | .clear task, .replied .done =>
      some ({ p with stage := .reserve task }, { s with hash := none }, false)
  | .clear _, .replied .lost =>
      some ({ p with stage := .refused .internal }, { s with hash := none }, false)
  | .clear _, .replied .failed => go (.refused .internal)
  | .reserve task, .passed =>
      some ({ p with stage := .store task, reserved := true }, s, false)
  | .reserve _, .refusedWith e => go (.refused e)
  | .store task, .replied .done =>
      some ({ p with stage := .publish, storedIn := some s.failures }, storeTask task s, false)
  | .store task, .replied .lost =>
      some ({ p with stage := .rollback, storedIn := some s.failures }, storeTask task s, false)
  | .store _, .replied .failed => go .rollback
  | .publish, .replied .done => some ({ p with stage := .accepted }, s, true)
  | .publish, .replied .lost => some ({ p with stage := .rollback }, s, true)
  | .publish, .replied .failed => go .rollback
  | .rollback, .passed =>
      some ({ p with stage := .refused .internal, reserved := false }, s, false)
  | _, _ => none

/-! `QueueRequestHandler._execute_job` under `@auto_retry`. -/

/-- `MAX_ATTEMPTS`. -/
def maxAttempts : Nat := 5

/-- The command a job stands before, in its current attempt. `waiting`:
published and not started; `sleep`: between two attempts; `closing`: the
attempts are over, and the handler has still to discard the id from
`_active_job_ids`. -/
inductive JobStage where
  | waiting
  | read (attempt : Nat)
  | archive (attempt : Nat) (task : QueueRequestHandlerTask)
  | insert (attempt : Nat) (task : QueueRequestHandlerTask)
  | snapshot (attempt : Nat) (task : QueueRequestHandlerTask) (requestId : Nat)
  | storeValidation (attempt requestId : Nat)
  | publishValidation (attempt requestId : Nat)
  | complete (attempt requestId : Nat)
  | fail (attempt : Nat) (retryable : Bool)
  | sleep (attempt : Nat)
  | closing
  | finished
  deriving DecidableEq

/-- `raised`: the call raised, something `@auto_retry` repeats or not. Only the
archive, which talks to osu!, can raise `ConnectTimeout`. `dropped`: the
scheduler has popped the job while its id was active. -/
inductive JobAnswer where
  | started
  | dropped
  | passed
  | raised (retryable : Bool)
  | replied (delivery : Delivery)
  | marked (at_ : Iso.Moment) (delivery : Delivery)

/-- A marker written into the hash, which is created if need be. -/
def markHash (marker : String) (m : Iso.Moment) (s : Shared) : Shared :=
  { s with hash := some ((s.hash.getD Fields.empty).mark marker m) }

def markFailed (m : Iso.Moment) (s : Shared) : Shared :=
  { markHash "failed_at" m s with failures := s.failures + 1 }

def insertRow (s : Shared) : Shared := { s with row := some s.nextId, nextId := s.nextId + 1 }

def storeValidation (requestId : Nat) (s : Shared) : Shared :=
  { s with validationStored := requestId :: s.validationStored }

def publishValidation (requestId : Nat) (s : Shared) : Shared :=
  { s with validationPublished := requestId :: s.validationPublished }

/-- What `HGETALL` and `deserialize` lead to. -/
def readTask (attempt : Nat) : Option Fields → JobStage
  | none => .fail attempt false
  | some fields =>
      match QueueRequestHandlerTask.deserialize fields with
      | .error _ => .fail attempt false
      | .ok task => .archive attempt task

def jobStep (stage : JobStage) (answer : JobAnswer) (s : Shared) : Option (JobStage × Shared) :=
  match stage, answer with
  | .waiting, .started => some (.read 1, s)
  | .waiting, .dropped => some (.finished, s)
  | .sleep k, .started => some (.read (k + 1), s)
  | .read k, .replied .done => some (readTask k s.hash, s)
  | .read k, .replied .failed => some (.fail k false, s)
  | .archive k task, .passed => some (.insert k task, s)
  | .archive k _, .raised retryable => some (.fail k retryable, s)
  | .insert k task, .replied .done =>
      -- The unique constraint on (beatmapset_id, queue_id).
      if s.row.isSome then some (.fail k false, s)
      else some (.snapshot k task s.nextId, insertRow s)
  | .insert k _, .replied .lost =>
      if s.row.isSome then some (.fail k false, s) else some (.fail k false, insertRow s)
  | .insert k _, .replied .failed => some (.fail k false, s)
  | .snapshot k _ requestId, .passed => some (.storeValidation k requestId, s)
  | .snapshot k _ _, .raised _ => some (.fail k false, s)
  | .storeValidation k requestId, .replied .done =>
      some (.publishValidation k requestId, storeValidation requestId s)
  | .storeValidation k requestId, .replied .lost =>
      some (.fail k false, storeValidation requestId s)
  | .storeValidation k _, .replied .failed => some (.fail k false, s)
  | .publishValidation k requestId, .replied .done =>
      some (.complete k requestId, publishValidation requestId s)
  | .publishValidation k requestId, .replied .lost =>
      some (.fail k false, publishValidation requestId s)
  | .publishValidation k _, .replied .failed => some (.fail k false, s)
  | .complete _ _, .marked m .done => some (.closing, markHash "completed_at" m s)
  | .complete k _, .marked m .lost => some (.fail k false, markHash "completed_at" m s)
  | .complete k _, .marked _ .failed => some (.fail k false, s)
  | .fail k retryable, .marked m .done =>
      some (if retryable && decide (k < maxAttempts) then .sleep k else .closing, markFailed m s)
  -- An exception of the marker's own `HSET` takes the place of the first one.
  | .fail _ _, .marked m .lost => some (.closing, markFailed m s)
  | .fail _ _, .marked _ .failed => some (.closing, s)
  | .closing, .passed => some (.finished, s)
  | _, _ => none

/-- The handler is live: the job is neither waiting nor over. -/
def JobStage.running : JobStage → Bool
  | .waiting | .finished => false
  | _ => true

/-! `DELETE /requests/{id}`. -/

inductive DeleteStage where
  | find | dropTask | dropValidation | dropRow | deleted | refused
  deriving DecidableEq

structure Delete where
  requestId : Nat
  stage : DeleteStage
  deriving DecidableEq

def dropRow (requestId : Nat) (s : Shared) : Shared :=
  if s.row = some requestId then { s with row := none } else s

def deleteStep (d : Delete) (delivery : Delivery) (s : Shared) : Option (Delete × Shared) :=
  match d.stage, delivery with
  | .find, .done =>
      if s.row = some d.requestId then some ({ d with stage := .dropTask }, s)
      else some ({ d with stage := .refused }, s)
  | .dropTask, .done => some ({ d with stage := .dropValidation }, { s with hash := none })
  | .dropTask, .lost => some ({ d with stage := .refused }, { s with hash := none })
  | .dropValidation, .done => some ({ d with stage := .dropRow }, s)
  | .dropValidation, .lost => some ({ d with stage := .refused }, s)
  | .dropRow, .done => some ({ d with stage := .deleted }, dropRow d.requestId s)
  | .dropRow, .lost => some ({ d with stage := .refused }, dropRow d.requestId s)
  | .find, .failed | .dropTask, .failed | .dropValidation, .failed | .dropRow, .failed =>
      some ({ d with stage := .refused }, s)
  | _, _ => none

/-! The pair's world. -/

structure World where
  shared : Shared
  posts : List Post
  jobs : List JobStage
  deletes : List Delete

inductive Label where
  | post (submission : Submission)
  | advancePost (i : Nat) (answer : PostAnswer)
  | advanceJob (i : Nat) (answer : JobAnswer)
  | delete (requestId : Nat)
  | advanceDelete (i : Nat) (delivery : Delivery)

def initially : World := ⟨⟨none, none, 1, 0, [], []⟩, [], [], []⟩

/-- The scheduler has one handler at a time for an id: a job starts only when
no other handler of the pair is live, and one that is popped while another job
has the id active is dropped. -/
def mayMove (jobs : List JobStage) (stage : JobStage) (answer : JobAnswer) : Bool :=
  match stage, answer with
  | .waiting, .dropped => 1 < jobs.countP (fun other => other ≠ .finished)
  | .waiting, _ => jobs.all (fun other => !other.running)
  | _, _ => true

def step (label : Label) (w : World) : Option World :=
  match label with
  | .post submission =>
      some { w with posts := w.posts ++ [⟨submission, .queue, false, none⟩] }
  | .advancePost i answer => do
      let p ← w.posts[i]?
      let (p', s, published) ← postStep pair p answer w.shared
      return { w with
        shared := s
        posts := w.posts.set i p'
        jobs := if published then w.jobs ++ [.waiting] else w.jobs }
  | .advanceJob i answer => do
      let stage ← w.jobs[i]?
      if mayMove w.jobs stage answer then
        let (stage', s) ← jobStep stage answer w.shared
        return { w with shared := s, jobs := w.jobs.set i stage' }
      else none
  | .delete requestId => some { w with deletes := w.deletes ++ [⟨requestId, .find⟩] }
  | .advanceDelete i delivery => do
      let d ← w.deletes[i]?
      let (d', s) ← deleteStep d delivery w.shared
      return { w with shared := s, deletes := w.deletes.set i d' }

end Programs

end Graveboards.Requests
