import Graveboards.Library.PriorityQueue
import Graveboards.Library.Runs

/-!
The scheduler of a `ScheduledService`: the subscriber loads jobs into the heap,
the scheduler pops them and spawns a handler for each, and the handler sleeps,
executes the job and reschedules it. A step runs one coroutine from one await to
its next; times are in microseconds.
-/

namespace Graveboards.Daemon

open Library

/-- An entry of the heap. -/
structure Job where
  executionTime : Nat
  jobId : Nat
  deriving DecidableEq

/-- The order of the pairs (execution_time, job_id). -/
def Job.le (a b : Job) : Prop :=
  a.executionTime < b.executionTime ∨ (a.executionTime = b.executionTime ∧ a.jobId ≤ b.jobId)

instance : DecidableRel Job.le := fun a b =>
  inferInstanceAs (Decidable (a.executionTime < b.executionTime ∨
    (a.executionTime = b.executionTime ∧ a.jobId ≤ b.jobId)))

instance : Std.Total Job.le := ⟨fun a b => by unfold Job.le; omega⟩

instance : IsTrans Job Job.le := ⟨fun a b c => by unfold Job.le; omega⟩

abbrev JobHeap := PriorityQueue Job.le

structure JobLoadInstruction where
  executionTime : Option Nat := none
  lastExecution : Option Nat := none
  interval : Option Nat := none
  skip : Bool := false
  deriving DecidableEq

/-- The constants of a service. -/
structure Service where
  shouldReschedule : Bool
  jobConcurrency : Nat
  jobInterval : Nat

/-- Where a handler stands: spawned or asleep until its time, waiting for the
semaphore, inside `_execute_job`, inside the success or error hook, waiting for
the condition to reschedule, inside the finish hook. -/
inductive HandlerStage where
  | sleeping (executionTime : Nat)
  | queued
  | executing
  | hook (failed : Bool)
  | rescheduling (next : Nat)
  | finishing
  | ended
  deriving DecidableEq

structure Handler where
  jobId : Nat
  stage : HandlerStage
  deriving DecidableEq

/-- `locked`: somebody awaits inside `async with self._job_condition`. `loaded`
records the ids that have been pushed, `owed` those that have been received and
not executed since. -/
structure Scheduler where
  heap : JobHeap
  activeJobIds : Finset Nat
  handlers : List Handler
  semaphore : Nat
  locked : Bool
  loaded : Finset Nat
  owed : Finset Nat

/-- `raised`: the awaited call raised. -/
inductive Action where
  | receive (jobId : Nat) (instruction : Option JobLoadInstruction) (now : Nat)
  | schedule
  | wake (i : Nat) (now : Nat)
  | acquire (i : Nat)
  | executed (i : Nat) (raised : Bool)
  | hooked (i : Nat) (raised : Bool) (now : Nat)
  | reschedule (i : Nat)
  | finished (i : Nat) (raised : Bool)

namespace Scheduler

/-- `_get_latest_execution_time`. -/
def latestExecutionTime (heap : JobHeap) (now : Nat) : Nat :=
  match heap.entries.getLast? with
  | none => now
  | some job => job.executionTime

variable (service : Service)

/-- The execution time `_load_job` computes, or none for a skipped job. -/
def loadTime (heap : JobHeap) (now : Nat) : Option JobLoadInstruction → Option Nat
  | none => some (latestExecutionTime heap now + 1)
  | some instruction =>
      if instruction.skip then none
      else match instruction.executionTime, instruction.lastExecution with
        | some executionTime, _ => some executionTime
        | none, none => some now
        | none, some lastExecution =>
            match instruction.interval with
            | none => some (lastExecution + service.jobInterval)
            | some interval =>
                -- `instruction.interval_hours or self._job_interval_hours`
                some (lastExecution + if interval = 0 then service.jobInterval else interval)

/-- `_load_job`. -/
def loadJob (jobId : Nat) (instruction : Option JobLoadInstruction) (now : Nat) (s : Scheduler) :
    Scheduler :=
  match loadTime service s.heap now instruction with
  | none => s
  | some executionTime =>
      { s with heap := s.heap.push ⟨executionTime, jobId⟩, loaded := insert jobId s.loaded }

def setStage (i : Nat) (h : Handler) (stage : HandlerStage) (s : Scheduler) : Scheduler :=
  { s with handlers := s.handlers.set i { h with stage := stage } }

/-- One coroutine runs to its next await. An exception of the job or of a hook
decides which hook is awaited next, and nothing else. -/
def step : Action → Scheduler → Option Scheduler
  | .receive jobId instruction now, s =>
      if s.locked then none
      else some { s.loadJob service jobId instruction now with owed := insert jobId s.owed }
  | .schedule, s =>
      if s.locked then none
      else do
        let (job, heap) ← s.heap.pop
        if job.jobId ∈ s.activeJobIds then return { s with heap := heap }
        else return { s with
          heap := heap
          activeJobIds := insert job.jobId s.activeJobIds
          handlers := s.handlers ++ [⟨job.jobId, .sleeping job.executionTime⟩] }
  | .wake i now, s => do
      let h ← s.handlers[i]?
      match h.stage with
      | .sleeping executionTime =>
          if now < executionTime then none else some (s.setStage i h .queued)
      | _ => none
  | .acquire i, s => do
      let h ← s.handlers[i]?
      match h.stage, s.semaphore with
      | .queued, free + 1 =>
          some { s.setStage i h .executing with semaphore := free, owed := s.owed.erase h.jobId }
      | _, _ => none
  | .executed i raised, s => do
      let h ← s.handlers[i]?
      match h.stage with
      | .executing => some { s.setStage i h (.hook raised) with semaphore := s.semaphore + 1 }
      | _ => none
  | .hooked i _ now, s => do
      let h ← s.handlers[i]?
      match h.stage with
      | .hook _ =>
          if service.shouldReschedule then
            some (s.setStage i h (.rescheduling (now + service.jobInterval)))
          else some { s.setStage i h .ended with activeJobIds := s.activeJobIds.erase h.jobId }
      | _ => none
  | .reschedule i, s => do
      let h ← s.handlers[i]?
      match h.stage with
      | .rescheduling next =>
          if s.locked then none
          else some { s.setStage i h .finishing with
            heap := s.heap.push ⟨next, h.jobId⟩
            activeJobIds := s.activeJobIds.erase h.jobId
            locked := true }
      | _ => none
  | .finished i _, s => do
      let h ← s.handlers[i]?
      match h.stage with
      | .finishing => some { s.setStage i h .ended with locked := false }
      | _ => none

def initially : Scheduler := ⟨.empty, ∅, [], service.jobConcurrency, false, ∅, ∅⟩

end Scheduler

/-! What one step can do. -/

/-- Between its spawning and the moment its id leaves `_active_job_ids`. -/
def HandlerStage.holding : HandlerStage → Bool
  | .sleeping _ | .queued | .executing | .hook _ | .rescheduling _ => true
  | .finishing | .ended => false

/-- The handler's coroutine has not returned. -/
def HandlerStage.live : HandlerStage → Bool
  | .ended => false
  | _ => true

/-- It has still to call `_execute_job`. -/
def HandlerStage.waiting : HandlerStage → Bool
  | .sleeping _ | .queued => true
  | _ => false

def HandlerStage.isExecuting : HandlerStage → Bool
  | .executing => true
  | _ => false

def HandlerStage.isFinishing : HandlerStage → Bool
  | .finishing => true
  | _ => false

namespace Scheduler

inductive Move (service : Service) (s : Scheduler) : Action → Scheduler → Prop where
  | load (jobId : Nat) (instruction : Option JobLoadInstruction) (now executionTime : Nat)
      (hfree : s.locked = false)
      (htime : loadTime service s.heap now instruction = some executionTime) :
      Move service s (.receive jobId instruction now) { s with
        heap := s.heap.push ⟨executionTime, jobId⟩
        loaded := insert jobId s.loaded
        owed := insert jobId s.owed }
  | skip (jobId : Nat) (instruction : Option JobLoadInstruction) (now : Nat)
      (hfree : s.locked = false) (htime : loadTime service s.heap now instruction = none) :
      Move service s (.receive jobId instruction now) { s with owed := insert jobId s.owed }
  | drop (job : Job) (heap : JobHeap) (hfree : s.locked = false)
      (hpop : s.heap.pop = some (job, heap)) (hactive : job.jobId ∈ s.activeJobIds) :
      Move service s .schedule { s with heap := heap }
  | spawn (job : Job) (heap : JobHeap) (hfree : s.locked = false)
      (hpop : s.heap.pop = some (job, heap)) (hactive : job.jobId ∉ s.activeJobIds) :
      Move service s .schedule { s with
        heap := heap
        activeJobIds := insert job.jobId s.activeJobIds
        handlers := s.handlers ++ [⟨job.jobId, .sleeping job.executionTime⟩] }
  | wake (i now : Nat) (h : Handler) (executionTime : Nat) (hget : s.handlers[i]? = some h)
      (hfrom : h.stage = .sleeping executionTime) :
      Move service s (.wake i now) (s.setStage i h .queued)
  | acquire (i : Nat) (h : Handler) (free : Nat) (hget : s.handlers[i]? = some h)
      (hfrom : h.stage = .queued) (hsemaphore : s.semaphore = free + 1) :
      Move service s (.acquire i)
        { s.setStage i h .executing with semaphore := free, owed := s.owed.erase h.jobId }
  | executed (i : Nat) (h : Handler) (raised : Bool) (hget : s.handlers[i]? = some h)
      (hfrom : h.stage = .executing) :
      Move service s (.executed i raised)
        { s.setStage i h (.hook raised) with semaphore := s.semaphore + 1 }
  | hooked (i : Nat) (h : Handler) (failed raised : Bool) (now : Nat)
      (hget : s.handlers[i]? = some h) (hfrom : h.stage = .hook failed)
      (hservice : service.shouldReschedule = true) :
      Move service s (.hooked i raised now)
      (s.setStage i h (.rescheduling (now + service.jobInterval)))
  | discard (i : Nat) (h : Handler) (failed raised : Bool) (now : Nat)
      (hget : s.handlers[i]? = some h) (hfrom : h.stage = .hook failed)
      (hservice : service.shouldReschedule = false) :
      Move service s (.hooked i raised now)
        { s.setStage i h .ended with activeJobIds := s.activeJobIds.erase h.jobId }
  | reschedule (i : Nat) (h : Handler) (next : Nat) (hget : s.handlers[i]? = some h)
      (hfrom : h.stage = .rescheduling next) (hfree : s.locked = false) :
      Move service s (.reschedule i) { s.setStage i h .finishing with
        heap := s.heap.push ⟨next, h.jobId⟩
        activeJobIds := s.activeJobIds.erase h.jobId
        locked := true }
  | finished (i : Nat) (h : Handler) (raised : Bool) (hget : s.handlers[i]? = some h)
      (hfrom : h.stage = .finishing) :
      Move service s (.finished i raised) { s.setStage i h .ended with locked := false }

theorem step_move {service : Service} {action : Action} {s s' : Scheduler}
    (hstep : step service action s = some s') : Move service s action s' := by
  cases action with
  | receive jobId instruction now =>
      obtain ⟨hfree, hstep⟩ := Option.ite_none_left_eq_some.mp hstep
      obtain rfl := Option.some.inj hstep
      have hunlocked : s.locked = false := by simpa using hfree
      cases htime : loadTime service s.heap now instruction with
      | none =>
          simp only [loadJob, htime]
          exact .skip jobId instruction now hunlocked htime
      | some executionTime =>
          simp only [loadJob, htime]
          exact .load jobId instruction now executionTime hunlocked htime
  | schedule =>
      obtain ⟨hfree, hstep⟩ := Option.ite_none_left_eq_some.mp hstep
      have hunlocked : s.locked = false := by simpa using hfree
      obtain ⟨⟨job, heap⟩, hpop, hstep⟩ := Option.bind_eq_some_iff.mp hstep
      dsimp only at hstep
      split at hstep
      · next hactive =>
          obtain rfl := Option.some.inj hstep
          exact .drop job heap hunlocked hpop hactive
      · next hactive =>
          obtain rfl := Option.some.inj hstep
          exact .spawn job heap hunlocked hpop hactive
  | wake i now =>
      obtain ⟨h, hget, hstep⟩ := Option.bind_eq_some_iff.mp hstep
      split at hstep
      · next executionTime hfrom =>
          obtain ⟨-, hstep⟩ := Option.ite_none_left_eq_some.mp hstep
          obtain rfl := Option.some.inj hstep
          exact .wake i now h executionTime hget hfrom
      · cases hstep
  | acquire i =>
      obtain ⟨h, hget, hstep⟩ := Option.bind_eq_some_iff.mp hstep
      split at hstep
      · next free hfrom hsemaphore =>
          obtain rfl := Option.some.inj hstep
          exact .acquire i h free hget hfrom hsemaphore
      · cases hstep
  | executed i raised =>
      obtain ⟨h, hget, hstep⟩ := Option.bind_eq_some_iff.mp hstep
      split at hstep
      · next hfrom =>
          obtain rfl := Option.some.inj hstep
          exact .executed i h raised hget hfrom
      · cases hstep
  | hooked i raised now =>
      obtain ⟨h, hget, hstep⟩ := Option.bind_eq_some_iff.mp hstep
      split at hstep
      · next failed hfrom =>
          split at hstep
          · next hservice =>
              obtain rfl := Option.some.inj hstep
              exact .hooked i h failed raised now hget hfrom hservice
          · next hservice =>
              obtain rfl := Option.some.inj hstep
              exact .discard i h failed raised now hget hfrom (by simpa using hservice)
      · cases hstep
  | reschedule i =>
      obtain ⟨h, hget, hstep⟩ := Option.bind_eq_some_iff.mp hstep
      split at hstep
      · next next' hfrom =>
          obtain ⟨hfree, hstep⟩ := Option.ite_none_left_eq_some.mp hstep
          obtain rfl := Option.some.inj hstep
          exact .reschedule i h next' hget hfrom (by simpa using hfree)
      · cases hstep
  | finished i raised =>
      obtain ⟨h, hget, hstep⟩ := Option.bind_eq_some_iff.mp hstep
      split at hstep
      · next hfrom =>
          obtain rfl := Option.some.inj hstep
          exact .finished i h raised hget hfrom
      · cases hstep

end Scheduler

end Graveboards.Daemon
