import Graveboards.Library.Runs

/-!
The life cycle of a `Service`: any number of `start`, `stop` and `register_task`
calls, one stretch between two awaits at a time, with hooks that may raise. A
`ScheduledService` is a service whose start hook registers its two tasks; a
`ServiceSupervisor` starts the same instance again after a failed attempt.
-/

namespace Graveboards.Daemon

open Library

/-- What a hook awaits: work that may raise, or `register_task`. -/
inductive HookAction where
  | work
  | register (name : String) (critical : Bool)
  deriving DecidableEq

/-- The life-cycle hooks of a service class. -/
structure Hooks where
  onStart : List HookAction
  onStarted : List HookAction
  onStop : List HookAction
  onStopped : List HookAction

/-- `ScheduledService`: the preload, the two tasks, `subscribe`; `unsubscribe`; `close`. -/
def scheduledService : Hooks where
  onStart := [.work, .register "job_scheduler" true, .register "job_subscriber" true, .work]
  onStarted := []
  onStop := [.work]
  onStopped := [.work]

/-- The hooks start the scheduler of jobs. -/
def Hooks.schedules (hooks : Hooks) : Bool :=
  hooks.onStart.any fun action =>
    match action with
    | .work => false
    | .register name _ => name = "job_scheduler"

inductive TaskState where
  | live
  | ended
  | raised
  deriving DecidableEq

structure ServiceTask where
  name : String
  critical : Bool
  state : TaskState
  deriving DecidableEq

/-- `asyncio.TaskGroup`, entered. `exiting`: its `__aexit__` has been called. -/
structure TaskGroup where
  tasks : List ServiceTask
  exiting : Bool
  deriving DecidableEq

namespace TaskGroup

/-- A task has raised, and the group cancels the others. -/
def aborting (g : TaskGroup) : Bool := g.tasks.any (·.state = .raised)

def finished (g : TaskGroup) : Bool := g.tasks.all (·.state ≠ .live)

def createTask (name : String) (critical : Bool) (g : TaskGroup) : Option TaskGroup :=
  if g.exiting && g.finished || g.aborting then none
  else some { g with tasks := g.tasks ++ [⟨name, critical, .live⟩] }

def names (g : TaskGroup) : List String := g.tasks.map ServiceTask.name

def setState (k : Nat) (task : ServiceTask) (state : TaskState) (g : TaskGroup) : TaskGroup :=
  { g with tasks := g.tasks.set k { task with state := state } }

end TaskGroup

/-- The ephemeral group: the jobs whose handlers live in it. -/
structure JobGroup where
  jobs : Finset Nat
  exiting : Bool
  deriving DecidableEq

inductive StartError where
  | alreadyRunning
  | notRunning
  | hook
  deriving DecidableEq

/-- Where a call stands. `start`: before its first lock, in `_on_start`, before its
second lock, in `_on_started`, ended. `stop`: before its first lock, in `_on_stop`,
before its second lock, awaiting the `__aexit__` of either group, in `_on_stopped`,
ended. `failed`: `_on_stop` has raised. A hook comes with what it has left to do. -/
inductive CallStage where
  | start
  | onStart (rest : List HookAction)
  | opening
  | onStarted (rest : List HookAction)
  | started
  | startRaised (error : StartError)
  | stop
  | onStop (rest : List HookAction)
  | closing (failed : Bool)
  | closingJobs (failed : Bool)
  | closingTasks (failed : Bool)
  | onStopped (rest : List HookAction) (failed : Bool)
  | stopped
  | stopRaised
  deriving DecidableEq

/-- A hook that is running: what it has left to do, and the stages while it goes on,
after it, and after it has raised. -/
structure HookFrame where
  rest : List HookAction
  resume : List HookAction → CallStage
  done : CallStage
  raised : CallStage

namespace CallStage

def frame : CallStage → Option HookFrame
  | .onStart rest => some ⟨rest, .onStart, .opening, .startRaised .hook⟩
  | .onStarted rest => some ⟨rest, .onStarted, .started, .startRaised .hook⟩
  | .onStop rest => some ⟨rest, .onStop, .closing false, .closing true⟩
  | .onStopped rest failed =>
      some ⟨rest, fun rest => .onStopped rest failed,
        if failed then .stopRaised else .stopped, .stopRaised⟩
  | _ => none

def ended : CallStage → Bool
  | .started | .startRaised _ | .stopped | .stopRaised => true
  | _ => false

/-- Between the two locks of `start`. -/
def opens : CallStage → Bool
  | .onStart _ | .opening => true
  | _ => false

end CallStage

/-- What the supervisor's task does with the service: nothing yet, `start`,
`serve_forever`, a failed attempt that will be repeated, ended. -/
inductive Supervision where
  | idle
  | starting (i : Nat)
  | serving
  | failed
  | ended
  deriving DecidableEq

/-- The fields of a service, and its calls. -/
structure ServiceState where
  running : Bool
  stopEvent : Bool
  stoppedEvent : Bool
  tg : Option TaskGroup
  ephemeral : Option JobGroup
  specs : List (String × Bool)
  activeJobIds : Finset Nat
  lock : Option Nat
  calls : List CallStage
  supervision : Supervision

/-- `enter`, `open`, `close`: a call executes its first or second locked section, up
to the first await; `act`: its hook goes on, and may raise; `closed`: the
`__aexit__` it awaits ends; `register`: a `register_task` call; `taskEnds`,
`taskRaises`: a task of the group; `pop`: the scheduler takes a job; `handled`,
`cancelled`: a handler ends; `supervise`: the supervisor's task goes on. -/
inductive LifeEvent where
  | callStart
  | callStop
  | enter (i : Nat)
  | act (i : Nat) (raises : Bool)
  | open (i : Nat)
  | close (i : Nat)
  | closed (i : Nat)
  | register (name : String) (critical : Bool)
  | taskEnds (k : Nat)
  | taskRaises (k : Nat)
  | pop (k jobId : Nat)
  | handled (jobId : Nat)
  | cancelled (jobId : Nat)
  | supervise
  deriving DecidableEq

namespace ServiceState

def initially : ServiceState where
  running := false
  stopEvent := false
  stoppedEvent := true
  tg := none
  ephemeral := none
  specs := []
  activeJobIds := ∅
  lock := none
  calls := []
  supervision := .idle

def setCall (i : Nat) (stage : CallStage) (s : ServiceState) : ServiceState :=
  { s with calls := s.calls.set i stage }

def names (s : ServiceState) : List String := s.specs.map Prod.fst

/-- The body of `register_task`, and whether it returns. -/
def registerTask (name : String) (critical : Bool) (s : ServiceState) : Bool × ServiceState :=
  if name ∈ s.names then (false, s)
  else
    let s' := { s with specs := s.specs ++ [(name, critical)] }
    match s.running, s.tg with
    | true, some g =>
        match g.createTask name critical with
        | some g' => (true, { s' with tg := some g' })
        | none => (false, s')
    | _, _ => (true, s')

/-- The first locked section of `start`. -/
def enterStart (hooks : Hooks) (i : Nat) (s : ServiceState) : ServiceState :=
  if s.running then s.setCall i (.startRaised .alreadyRunning)
  else
    { s.setCall i (.onStart hooks.onStart) with
      running := true, stopEvent := false, stoppedEvent := false }

/-- The second locked section of `start`. -/
def openGroups (hooks : Hooks) (i : Nat) (s : ServiceState) : ServiceState :=
  if !s.running && s.specs ≠ [] then
    -- `_start_task` raises at the first task
    { s.setCall i (.startRaised .notRunning) with
      tg := some ⟨[], false⟩, ephemeral := some ⟨∅, false⟩ }
  else
    { s.setCall i (.onStarted hooks.onStarted) with
      tg := some ⟨s.specs.map fun spec => ⟨spec.1, spec.2, .live⟩, false⟩
      ephemeral := some ⟨∅, false⟩ }

/-- The first locked section of `stop`. -/
def enterStop (hooks : Hooks) (i : Nat) (s : ServiceState) : ServiceState :=
  if s.running then { s.setCall i (.onStop hooks.onStop) with stopEvent := true }
  else s.setCall i .stopped

/-- The end of the second locked section of `stop`. -/
def finishClose (hooks : Hooks) (i : Nat) (failed : Bool) (s : ServiceState) : ServiceState :=
  { s.setCall i (.onStopped hooks.onStopped failed) with
    running := false, stoppedEvent := true, lock := none }

/-- From the ephemeral group on. -/
def closeTasks (hooks : Hooks) (i : Nat) (failed : Bool) (s : ServiceState) : ServiceState :=
  match s.tg with
  | some g => { s.setCall i (.closingTasks failed) with
      tg := some { g with exiting := true }, lock := some i }
  | none => s.finishClose hooks i failed

/-- The second locked section of `stop`. -/
def closeGroups (hooks : Hooks) (i : Nat) (failed : Bool) (s : ServiceState) : ServiceState :=
  match s.ephemeral with
  | some e => { s.setCall i (.closingJobs failed) with
      ephemeral := some { e with exiting := true }, lock := some i }
  | none => s.closeTasks hooks i failed

/-- The scheduler takes a job: one that is active is skipped, another becomes active
and gets a handler, if the group still takes one. -/
def popJob (k : Nat) (task : ServiceTask) (g : TaskGroup) (jobId : Nat) (s : ServiceState) :
    ServiceState :=
  if jobId ∈ s.activeJobIds then s
  else
    let s' := { s with activeJobIds := insert jobId s.activeJobIds }
    match s.running, s.ephemeral with
    | true, some e =>
        if e.exiting && e.jobs = ∅ then { s' with tg := some (g.setState k task .raised) }
        else { s' with ephemeral := some { e with jobs := insert jobId e.jobs } }
    | _, _ => { s' with tg := some (g.setState k task .raised) }

/-- One step of the runner of `register_service`. -/
def superviseStep (s : ServiceState) : Option ServiceState :=
  match s.supervision with
  | .idle | .failed =>
      some { s with calls := s.calls ++ [.start], supervision := .starting s.calls.length }
  | .starting i =>
      match s.calls[i]? with
      | some .started => some { s with supervision := .serving }
      | some (.startRaised _) => some { s with supervision := .failed }
      | _ => none
  | .serving =>
      -- a group that aborts cancels the task that has entered it
      if s.stopEvent || s.tg.any TaskGroup.aborting then
        some { s with supervision := .ended } else none
  | .ended => none

def step (hooks : Hooks) : LifeEvent → ServiceState → Option ServiceState
  | .callStart, s => some { s with calls := s.calls ++ [.start] }
  | .callStop, s => some { s with calls := s.calls ++ [.stop] }
  | .enter i, s => do
      let stage ← s.calls[i]?
      if s.lock.isSome then none
      else
        match stage with
        | .start => some (s.enterStart hooks i)
        | .stop => some (s.enterStop hooks i)
        | _ => none
  | .act i raises, s => do
      let stage ← s.calls[i]?
      let hook ← stage.frame
      match hook.rest with
      | [] => if raises then none else some (s.setCall i hook.done)
      | .work :: rest => some (s.setCall i (if raises then hook.raised else hook.resume rest))
      | .register name critical :: rest =>
          if s.lock.isSome then none
          else
            let result := s.registerTask name critical
            some (result.2.setCall i (if result.1 then hook.resume rest else hook.raised))
  | .open i, s => do
      let stage ← s.calls[i]?
      if stage = .opening ∧ s.lock = none then some (s.openGroups hooks i) else none
  | .close i, s => do
      let stage ← s.calls[i]?
      if s.lock.isSome then none
      else
        match stage with
        | .closing failed => some (s.closeGroups hooks i failed)
        | _ => none
  | .closed i, s => do
      let stage ← s.calls[i]?
      match stage with
      | .closingJobs failed =>
          let e ← s.ephemeral
          if e.jobs = ∅ then some ({ s with ephemeral := none }.closeTasks hooks i failed) else none
      | .closingTasks failed =>
          let g ← s.tg
          if !g.finished then none
          else if g.aborting then some { s.setCall i .stopRaised with lock := none }
          else some ({ s with tg := none }.finishClose hooks i failed)
      | _ => none
  | .register name critical, s =>
      if s.lock.isSome then none else some (s.registerTask name critical).2
  | .taskEnds k, s => do
      let g ← s.tg
      let task ← g.tasks[k]?
      if task.state = .live then some { s with tg := some (g.setState k task .ended) } else none
  | .taskRaises k, s => do
      let g ← s.tg
      let task ← g.tasks[k]?
      if task.state = .live ∧ task.critical = true then
        some { s with tg := some (g.setState k task .raised) }
      else none
  | .pop k jobId, s => do
      let g ← s.tg
      let task ← g.tasks[k]?
      if hooks.schedules ∧ task.name = "job_scheduler" ∧ task.state = .live ∧
        s.stopEvent = false then
        some (s.popJob k task g jobId)
      else none
  | .handled jobId, s => do
      let e ← s.ephemeral
      if jobId ∈ e.jobs then
        some { s with
          ephemeral := some { e with jobs := e.jobs.erase jobId }
          activeJobIds := s.activeJobIds.erase jobId }
      else none
  | .cancelled jobId, s => do
      let e ← s.ephemeral
      if jobId ∈ e.jobs ∧ e.exiting = true then
        some { s with ephemeral := some { e with jobs := e.jobs.erase jobId } }
      else none
  | .supervise, s => s.superviseStep

end ServiceState

/-! What a service is for: the phases it goes through. -/

/-- The phase of a service, with the call that carries it on. -/
inductive Phase where
  | stopped
  | opening (i : Nat)
  | serving
  | closingJobs (i : Nat)
  | closingTasks (i : Nat)
  deriving DecidableEq

namespace Phase

def running (phase : Phase) : Bool := phase ≠ .stopped

/-- Whether there is a task group, and whether it is exiting. -/
def tasks : Phase → Option Bool
  | .stopped | .opening _ => none
  | .serving | .closingJobs _ => some false
  | .closingTasks _ => some true

def jobs : Phase → Option Bool
  | .serving => some false
  | .closingJobs _ => some true
  | _ => none

def lock : Phase → Option Nat
  | .closingJobs i | .closingTasks i => some i
  | _ => none

def caller : Phase → Option Nat
  | .opening i | .closingJobs i | .closingTasks i => some i
  | _ => none

end Phase

/-- The phase that a call at a stage carries on. -/
def CallStage.phase (i : Nat) : CallStage → Option Phase
  | .onStart _ | .opening => some (.opening i)
  | .closingJobs _ => some (.closingJobs i)
  | .closingTasks _ => some (.closingTasks i)
  | _ => none

/-- What holds of a call: a start hook has no active job before it, or has still to
register the scheduler; and a start raises only if the service is running. -/
def CallStage.Kept (activeJobIds : Finset Nat) : CallStage → Prop
  | .onStart rest => activeJobIds = ∅ ∨ ∃ critical, .register "job_scheduler" critical ∈ rest
  | .opening => activeJobIds = ∅
  | .startRaised error => error = .alreadyRunning
  | _ => True

namespace ServiceState

variable {hooks : Hooks} {event : LifeEvent} {s s' : ServiceState}

/-- The fields are those of the phase. -/
structure At (s : ServiceState) (phase : Phase) : Prop where
  running : s.running = phase.running
  stoppedEvent : s.stoppedEvent = !phase.running
  tasks : s.tg.map TaskGroup.exiting = phase.tasks
  jobs : s.ephemeral.map JobGroup.exiting = phase.jobs
  lock : s.lock = phase.lock
  calls : ∀ (i : Nat) (stage : CallStage), s.calls[i]? = some stage →
    stage.phase i = none ∨ stage.phase i = some phase
  caller : ∀ i, phase.caller = some i →
    ∃ stage, s.calls[i]? = some stage ∧ stage.phase i = some phase

/-- What holds of the tasks, the jobs and the calls in every phase. -/
structure Kept (s : ServiceState) (hooks : Hooks) : Prop where
  names : s.names.Nodup
  started : ∀ g, s.tg = some g → g.names = s.names
  jobs : ∀ e, s.ephemeral = some e → e.exiting = false → s.activeJobIds ⊆ e.jobs
  scheduled : s.activeJobIds ≠ ∅ → hooks.schedules = true ∧ "job_scheduler" ∈ s.names
  calls : ∀ stage ∈ s.calls, stage.Kept s.activeJobIds

/-- A phase, with everything that holds in it. -/
def Sound (hooks : Hooks) (s : ServiceState) : Prop := ∃ phase, s.At phase ∧ s.Kept hooks

/-! The runs in which nothing comes between. -/

/-- The group has a task that has raised. -/
def broken (s : ServiceState) : Bool := s.tg.any TaskGroup.aborting

/-- A start hook raises, or a registration finds its name taken (in a start hook) or
the group broken. -/
def hookDisturbs (raises : Bool) (stage : CallStage) (s : ServiceState) : Bool :=
  match stage with
  | .onStart (.work :: _) | .onStarted (.work :: _) => raises
  | .onStart (.register name _ :: _) | .onStarted (.register name _ :: _) =>
      name ∈ s.names || s.broken
  | .onStop (.register name _ :: _) | .onStopped (.register name _ :: _) _ =>
      name ∉ s.names && s.broken
  | _ => false

/-- What disturbs the life cycle: a start hook that raises; a stop that closes the
groups while a start is about to open them; a task that has raised before the stop
has ended, or before another is registered. -/
def disturbs (event : LifeEvent) (s : ServiceState) : Bool :=
  match event with
  | .act i raises =>
      match s.calls[i]? with
      | some stage => s.hookDisturbs raises stage
      | none => false
  | .register name _ => name ∉ s.names && s.broken
  | .close _ => s.calls.any CallStage.opens
  | .closed i =>
      match s.calls[i]? with
      | some (.closingTasks _) => s.broken
      | _ => false
  | _ => false

def Undisturbed (event : LifeEvent) (s : ServiceState) : Prop := s.disturbs event = false

instance (event : LifeEvent) (s : ServiceState) : Decidable (Undisturbed event s) :=
  inferInstanceAs (Decidable (s.disturbs event = false))

/-! One step. -/

theorem phase_caller {i : Nat} {stage : CallStage} {phase : Phase}
    (h : stage.phase i = some phase) :
    phase.caller = some i := by
  cases stage <;> cases h <;> rfl

/-- A phase is carried on by one call. -/
theorem At.others {phase : Phase} {i j : Nat} {stage : CallStage} (hs : s.At phase)
    (hcaller : ∀ j, phase.caller = some j → j = i) (hget : s.calls[j]? = some stage) (hne : j ≠ i) :
    stage.phase j = none := by
  rcases hs.calls j stage hget with hnone | hphase
  · exact hnone
  · exact absurd (hcaller j (phase_caller hphase)) hne

/-- A step after which the phase is the same. -/
theorem At.of_fields {phase : Phase} (hs : s.At phase) (hrunning : s'.running = s.running)
    (hstopped : s'.stoppedEvent = s.stoppedEvent)
    (htasks : s'.tg.map TaskGroup.exiting = s.tg.map TaskGroup.exiting)
    (hjobs : s'.ephemeral.map JobGroup.exiting = s.ephemeral.map JobGroup.exiting)
    (hlock : s'.lock = s.lock) (hcalls : s'.calls = s.calls) : s'.At phase := by
  refine ⟨hrunning.trans hs.running, hstopped.trans hs.stoppedEvent, htasks.trans hs.tasks,
    hjobs.trans hs.jobs, hlock.trans hs.lock, ?_, ?_⟩
  · rw [hcalls]
    exact hs.calls
  · rw [hcalls]
    exact hs.caller

/-- A call that moves on within the phase. -/
theorem At.setCall {phase : Phase} {i : Nat} {stage stage' : CallStage} (hs : s.At phase)
    (hget : s.calls[i]? = some stage) (hphase : stage'.phase i = stage.phase i) :
    (s.setCall i stage').At phase := by
  refine ⟨hs.running, hs.stoppedEvent, hs.tasks, hs.jobs, hs.lock, ?_, ?_⟩
  · intro j other hother
    rcases Runs.getElem?_set_cases hother with ⟨rfl, rfl⟩ | ⟨-, hother⟩
    · rw [hphase]
      exact hs.calls _ stage hget
    · exact hs.calls j other hother
  · intro j hcaller
    obtain ⟨other, hother, hcarries⟩ := hs.caller j hcaller
    by_cases hj : j = i
    · subst hj
      obtain rfl : other = stage := Option.some.inj (hother.symm.trans hget)
      refine ⟨stage', ?_, hphase.trans hcarries⟩
      exact List.getElem?_set_self (List.getElem?_eq_some_iff.mp hget).1
    · exact ⟨other, (List.getElem?_set_ne (Ne.symm hj)).trans hother, hcarries⟩

/-- A call that carries the service from one phase to the next. -/
theorem At.change {phase phase' : Phase} {i : Nat} {stage : CallStage} (stage' : CallStage)
    (hs : s.At phase) (hcaller : ∀ j, phase.caller = some j → j = i)
    (hcaller' : ∀ j, phase'.caller = some j → j = i) (hget : s.calls[i]? = some stage)
    (hcarries : stage'.phase i = if phase'.caller = some i then some phase' else none)
    (hrunning : s'.running = phase'.running) (hstopped : s'.stoppedEvent = !phase'.running)
    (htasks : s'.tg.map TaskGroup.exiting = phase'.tasks)
    (hjobs : s'.ephemeral.map JobGroup.exiting = phase'.jobs) (hlock : s'.lock = phase'.lock)
    (hcalls : s'.calls = s.calls.set i stage') : s'.At phase' := by
  refine ⟨hrunning, hstopped, htasks, hjobs, hlock, ?_, ?_⟩
  · intro j other hother
    rw [hcalls] at hother
    rcases Runs.getElem?_set_cases hother with ⟨rfl, rfl⟩ | ⟨hne, hother⟩
    · rw [hcarries]
      split
      · exact Or.inr rfl
      · exact Or.inl rfl
    · exact Or.inl (hs.others hcaller hother hne)
  · intro j hj
    obtain rfl := hcaller' j hj
    refine ⟨stage', ?_, hcarries.trans (if_pos hj)⟩
    rw [hcalls]
    exact List.getElem?_set_self (List.getElem?_eq_some_iff.mp hget).1

theorem Kept.setCall {i : Nat} (stage' : CallStage) (hs : s.Kept hooks)
    (hstage : stage'.Kept s.activeJobIds) : (s.setCall i stage').Kept hooks :=
  ⟨hs.names, hs.started, hs.jobs, hs.scheduled, Runs.forall_mem_set hs.calls hstage⟩

theorem Sound.setCall {i : Nat} {stage : CallStage} (stage' : CallStage) (hs : s.Sound hooks)
    (hget : s.calls[i]? = some stage) (hphase : stage'.phase i = stage.phase i)
    (hstage : stage'.Kept s.activeJobIds) : (s.setCall i stage').Sound hooks := by
  obtain ⟨phase, hat, hkept⟩ := hs
  exact ⟨phase, hat.setCall hget hphase, hkept.setCall stage' hstage⟩

/-- A call that has just been made. -/
theorem Sound.addCall {stage : CallStage} (supervision : Supervision) (hs : s.Sound hooks)
    (hphase : ∀ i, stage.phase i = none) (hstage : stage.Kept s.activeJobIds) :
    { s with calls := s.calls ++ [stage], supervision := supervision }.Sound hooks := by
  obtain ⟨phase, hat, hkept⟩ := hs
  refine ⟨phase, ⟨hat.running, hat.stoppedEvent, hat.tasks, hat.jobs, hat.lock, ?_, ?_⟩,
    hkept.names, hkept.started, hkept.jobs, hkept.scheduled, ?_⟩
  · intro i other hother
    rcases Runs.getElem?_concat_cases hother with ⟨-, rfl⟩ | hother
    · exact Or.inl (hphase i)
    · exact hat.calls i other hother
  · intro i hcaller
    obtain ⟨other, hother, hcarries⟩ := hat.caller i hcaller
    have hi := (List.getElem?_eq_some_iff.mp hother).1
    exact ⟨other, (List.getElem?_append_left hi).trans hother, hcarries⟩
  · intro other hother
    rcases List.mem_append.mp hother with hold | hnew
    · exact hkept.calls other hold
    · exact List.mem_singleton.mp hnew ▸ hstage

theorem names_append {name : String} {critical : Bool} :
    { s with specs := s.specs ++ [(name, critical)] }.names = s.names ++ [name] := by
  simp [names]

/-- The phases in which no call holds the lock. -/
theorem At.unlocked {phase : Phase} (hs : s.At phase) (hlock : s.lock = none) :
    s.tg = none ∧ s.ephemeral = none ∨
      ∃ g e, phase = .serving ∧ s.tg = some g ∧ s.ephemeral = some e ∧ g.exiting = false ∧
        e.exiting = false ∧ s.running = true := by
  have htasks := hs.tasks
  have hjobs := hs.jobs
  have hheld := hs.lock
  rw [hlock] at hheld
  cases phase with
  | stopped => exact Or.inl ⟨Option.map_eq_none_iff.mp htasks, Option.map_eq_none_iff.mp hjobs⟩
  | opening i => exact Or.inl ⟨Option.map_eq_none_iff.mp htasks, Option.map_eq_none_iff.mp hjobs⟩
  | serving =>
      obtain ⟨g, hg, hexiting⟩ := Option.map_eq_some_iff.mp htasks
      obtain ⟨e, he, hexiting'⟩ := Option.map_eq_some_iff.mp hjobs
      exact Or.inr ⟨g, e, rfl, hg, he, hexiting, hexiting', hs.running⟩
  | closingJobs i => cases hheld
  | closingTasks i => cases hheld

theorem registerTask_frame (name : String) (critical : Bool) (s : ServiceState) :
    (s.registerTask name critical).2.calls = s.calls ∧
      (s.registerTask name critical).2.activeJobIds = s.activeJobIds ∧
      (s.registerTask name critical).2.lock = s.lock ∧
      (s.registerTask name critical).2.running = s.running := by
  unfold registerTask
  split
  · exact ⟨rfl, rfl, rfl, rfl⟩
  · dsimp only
    split
    · split <;> exact ⟨rfl, rfl, rfl, rfl⟩
    · exact ⟨rfl, rfl, rfl, rfl⟩

/-- `register_task` while no call holds the lock: it returns exactly when the name is
free, unless the group is broken. -/
theorem Sound.register {name : String} (critical : Bool) (hs : s.Sound hooks)
    (hlock : s.lock = none) (hgroup : name ∈ s.names ∨ s.broken = false) :
    (s.registerTask name critical).2.Sound hooks ∧
      (s.registerTask name critical).1 = !decide (name ∈ s.names) := by
  by_cases hname : name ∈ s.names
  · rw [registerTask, if_pos hname]
    exact ⟨hs, by simp [hname]⟩
  obtain ⟨phase, hat, hkept⟩ := hs
  have hbroken : s.broken = false := hgroup.resolve_left hname
  have hnodup : (s.names ++ [name]).Nodup := by
    rw [List.nodup_append]
    refine ⟨hkept.names, List.nodup_singleton name, ?_⟩
    rintro other hother _ hmem rfl
    exact hname (List.mem_singleton.mp hmem ▸ hother)
  have hscheduled (hactive : s.activeJobIds ≠ ∅) :
      hooks.schedules = true ∧ "job_scheduler" ∈ s.names ++ [name] := by
    obtain ⟨hschedules, hmem⟩ := hkept.scheduled hactive
    exact ⟨hschedules, List.mem_append_left _ hmem⟩
  rcases hat.unlocked hlock with ⟨htg, he⟩ | ⟨g, e, -, htg, he, hexiting, -, hrunning⟩
  · have heq : s.registerTask name critical =
        (true, { s with specs := s.specs ++ [(name, critical)] }) := by
      rw [registerTask, if_neg hname, htg]
      cases s.running <;> rfl
    rw [heq]
    refine ⟨⟨phase, hat.of_fields rfl rfl rfl rfl rfl rfl, ?_⟩, by simp [hname]⟩
    refine ⟨names_append ▸ hnodup, ?_, hkept.jobs, names_append ▸ hscheduled, hkept.calls⟩
    intro g hg
    rw [htg] at hg
    cases hg
  · have haborting : g.aborting = false := by simpa [broken, htg] using hbroken
    have heq : s.registerTask name critical =
        (true, { s with
          specs := s.specs ++ [(name, critical)]
          tg := some { g with tasks := g.tasks ++ [⟨name, critical, .live⟩] } }) := by
      simp [registerTask, hname, hrunning, htg, TaskGroup.createTask, hexiting, haborting]
    rw [heq]
    refine ⟨⟨phase, hat.of_fields rfl rfl ?_ rfl rfl rfl, ?_⟩, by simp [hname]⟩
    · rw [htg]
      rfl
    · refine ⟨by simpa [names] using hnodup, ?_, hkept.jobs, by simpa [names] using hscheduled,
        hkept.calls⟩
      intro g' hg'
      obtain rfl := Option.some.inj hg'
      simpa [TaskGroup.names, names] using hkept.started g htg

theorem Sound.enterStart {i : Nat} (hs : s.Sound hooks) (hget : s.calls[i]? = some .start) :
    (s.enterStart hooks i).Sound hooks := by
  rw [ServiceState.enterStart]
  split
  case isTrue hrunning => exact hs.setCall _ hget rfl rfl
  case isFalse hrunning =>
      obtain ⟨phase, hat, hkept⟩ := hs
      obtain rfl : phase = .stopped := by
        have hphase := hat.running
        cases phase <;> first | rfl | exact absurd hphase hrunning
      refine ⟨.opening i, ?_, hkept.names, hkept.started, hkept.jobs, hkept.scheduled, ?_⟩
      · exact hat.change (.onStart hooks.onStart) nofun (fun j hj => (Option.some.inj hj).symm) hget
          (if_pos rfl).symm rfl rfl hat.tasks hat.jobs hat.lock rfl
      · apply Runs.forall_mem_set hkept.calls
        by_cases hactive : s.activeJobIds = ∅
        · exact Or.inl hactive
        · obtain ⟨action, hmem, haction⟩ := List.any_eq_true.mp (hkept.scheduled hactive).1
          cases action with
          | work => cases haction
          | register name critical =>
              obtain rfl : name = "job_scheduler" := by simpa using haction
              exact Or.inr ⟨critical, hmem⟩

theorem Sound.openGroups {i : Nat} (hs : s.Sound hooks) (hget : s.calls[i]? = some .opening) :
    (s.openGroups hooks i).Sound hooks := by
  obtain ⟨phase, hat, hkept⟩ := hs
  obtain rfl : phase = .opening i := by
    rcases hat.calls i _ hget with hnone | hphase
    · cases hnone
    · exact (Option.some.inj hphase).symm
  have hrunning : s.running = true := hat.running
  have hactive : s.activeJobIds = ∅ := hkept.calls _ (List.mem_of_getElem? hget)
  rw [ServiceState.openGroups, if_neg (by simp [hrunning])]
  refine ⟨.serving, ?_, hkept.names, ?_, ?_, hkept.scheduled, ?_⟩
  · exact hat.change (.onStarted hooks.onStarted) (fun j hj => (Option.some.inj hj).symm) nofun hget
      rfl hrunning hat.stoppedEvent rfl rfl hat.lock rfl
  · intro g hg
    obtain rfl := Option.some.inj hg
    simp only [TaskGroup.names, List.map_map]
    rfl
  · intro e he _
    exact hactive.le.trans (Finset.empty_subset _)
  · exact Runs.forall_mem_set hkept.calls trivial

theorem Sound.enterStop {i : Nat} (hs : s.Sound hooks) (hget : s.calls[i]? = some .stop) :
    (s.enterStop hooks i).Sound hooks := by
  rw [ServiceState.enterStop]
  split
  · obtain ⟨phase, hat, hkept⟩ := hs.setCall (.onStop hooks.onStop) hget rfl trivial
    exact ⟨phase, hat.of_fields rfl rfl rfl rfl rfl rfl, hkept.names, hkept.started, hkept.jobs,
      hkept.scheduled, hkept.calls⟩
  · exact hs.setCall .stopped hget rfl trivial

/-- The groups have been closed. -/
theorem Sound.finishClose {phase : Phase} {i : Nat} {stage : CallStage} {failed : Bool}
    (hat : s.At phase) (hkept : s.Kept hooks) (hcaller : ∀ j, phase.caller = some j → j = i)
    (hget : s.calls[i]? = some stage) (htg : s'.tg = none) (he : s'.ephemeral = none)
    (hcalls : s'.calls = s.calls) (hspecs : s'.specs = s.specs)
    (hactive : s'.activeJobIds = s.activeJobIds) :
    (s'.finishClose hooks i failed).Sound hooks := by
  refine ⟨.stopped, ?_, ?_, ?_, ?_, ?_, ?_⟩
  · refine hat.change (.onStopped hooks.onStopped failed) hcaller
      (fun _ hj => by cases hj) hget rfl rfl
      rfl ?_ ?_ rfl ?_
    · simp [ServiceState.finishClose, ServiceState.setCall, htg, Phase.tasks]
    · simp [ServiceState.finishClose, ServiceState.setCall, he, Phase.jobs]
    · simp [ServiceState.finishClose, ServiceState.setCall, hcalls]
  · simpa [ServiceState.finishClose, ServiceState.setCall, names, hspecs] using hkept.names
  · simp [ServiceState.finishClose, ServiceState.setCall, htg]
  · simp [ServiceState.finishClose, ServiceState.setCall, he]
  · simpa [ServiceState.finishClose, ServiceState.setCall, names, hspecs, hactive]
      using hkept.scheduled
  · have hstages := (hkept.setCall (i := i) (.onStopped hooks.onStopped failed) trivial).calls
    simpa [ServiceState.finishClose, ServiceState.setCall, hcalls, hactive] using hstages

/-- `stop` closes the groups, if no start is about to open them. -/
theorem Sound.closeGroups {i : Nat} {failed : Bool} (hs : s.Sound hooks) (hlock : s.lock = none)
    (hopens : s.calls.any CallStage.opens = false) (hget : s.calls[i]? = some (.closing failed)) :
    (s.closeGroups hooks i failed).Sound hooks := by
  obtain ⟨phase, hat, hkept⟩ := hs
  rw [ServiceState.closeGroups]
  rcases hat.unlocked hlock with ⟨htg, he⟩ | ⟨g, e, rfl, htg, he, -, -, hrunning⟩
  · rw [he]
    dsimp only
    rw [ServiceState.closeTasks, htg]
    apply Sound.finishClose hat hkept (fun j hj => ?_) hget htg he rfl rfl rfl
    -- only a start could carry the service on
    obtain ⟨stage, hstage, hphase⟩ := hat.caller j hj
    have hclosed := List.any_eq_false.mp hopens stage (List.mem_of_getElem? hstage)
    have hheld := hat.lock
    cases phase with
    | stopped | serving => cases hj
    | closingJobs k | closingTasks k => exact nomatch hlock.symm.trans hheld
    | opening k =>
        cases stage with
        | onStart | opening => exact absurd rfl hclosed
        | _ => cases hphase
  · rw [he]
    refine ⟨.closingJobs i, ?_, hkept.names, hkept.started, ?_, hkept.scheduled, ?_⟩
    · exact hat.change (.closingJobs failed) (fun _ hj => by cases hj)
        (fun j hj => (Option.some.inj hj).symm) hget (if_pos rfl).symm hrunning hat.stoppedEvent
        hat.tasks rfl rfl rfl
    · intro e' he' hexiting
      obtain rfl := Option.some.inj he'
      cases hexiting
    · exact Runs.forall_mem_set hkept.calls trivial

/-- The `__aexit__` of the ephemeral group has ended. -/
theorem Sound.closedJobs {i : Nat} {failed : Bool} (hs : s.Sound hooks)
    (hget : s.calls[i]? = some (.closingJobs failed)) :
    ({ s with ephemeral := none }.closeTasks hooks i failed).Sound hooks := by
  obtain ⟨phase, hat, hkept⟩ := hs
  obtain rfl : phase = .closingJobs i := by
    rcases hat.calls i _ hget with hnone | hphase
    · cases hnone
    · exact (Option.some.inj hphase).symm
  obtain ⟨g, hg, -⟩ := Option.map_eq_some_iff.mp hat.tasks
  rw [ServiceState.closeTasks]
  dsimp only
  rw [hg]
  refine ⟨.closingTasks i, ?_, hkept.names, ?_, nofun, hkept.scheduled, ?_⟩
  · exact hat.change (.closingTasks failed) (fun j hj => (Option.some.inj hj).symm)
      (fun j hj => (Option.some.inj hj).symm) hget (if_pos rfl).symm hat.running hat.stoppedEvent
      rfl rfl rfl rfl
  · intro g' hg'
    obtain rfl := Option.some.inj hg'
    exact hkept.started g hg
  · exact Runs.forall_mem_set hkept.calls trivial

/-- The `__aexit__` of the task group has ended without an error. -/
theorem Sound.closedTasks {i : Nat} {failed : Bool} (hs : s.Sound hooks)
    (hget : s.calls[i]? = some (.closingTasks failed)) :
    ({ s with tg := none }.finishClose hooks i failed).Sound hooks := by
  obtain ⟨phase, hat, hkept⟩ := hs
  obtain rfl : phase = .closingTasks i := by
    rcases hat.calls i _ hget with hnone | hphase
    · cases hnone
    · exact (Option.some.inj hphase).symm
  have he : s.ephemeral = none := Option.map_eq_none_iff.mp hat.jobs
  exact Sound.finishClose hat hkept (fun j hj => (Option.some.inj hj).symm) hget rfl he rfl rfl rfl

/-- A task of the group that changes its state. -/
theorem names_setState {g : TaskGroup} {k : Nat} {task : ServiceTask} {state : TaskState}
    (hget : g.tasks[k]? = some task) : (g.setState k task state).names = g.names := by
  have hk := (List.getElem?_eq_some_iff.mp hget).1
  have htask : g.tasks[k] = task := (List.getElem?_eq_some_iff.mp hget).2
  rw [TaskGroup.names, TaskGroup.setState, List.map_set]
  apply List.ext_getElem?
  intro j
  by_cases hj : k = j
  · subst hj
    simp [TaskGroup.names, hk, htask]
  · simp [TaskGroup.names, hj]

theorem Sound.setTask {g : TaskGroup} {k : Nat} {task : ServiceTask} {state : TaskState}
    (hs : s.Sound hooks) (hg : s.tg = some g) (hget : g.tasks[k]? = some task) :
    { s with tg := some (g.setState k task state) }.Sound hooks := by
  obtain ⟨phase, hat, hkept⟩ := hs
  refine ⟨phase, hat.of_fields rfl rfl ?_ rfl rfl rfl, hkept.names, ?_, hkept.jobs,
    hkept.scheduled, hkept.calls⟩
  · rw [hg]
    rfl
  · intro g' hg'
    obtain rfl := Option.some.inj hg'
    exact (names_setState hget).trans (hkept.started g hg)

/-- No start is about to open the groups while they are open. -/
theorem kept_of_open {phase : Phase} {g : TaskGroup} {stage : CallStage} {activeJobIds : Finset Nat}
    (hat : s.At phase) (hg : s.tg = some g) (hmem : stage ∈ s.calls)
    (hstage : stage.Kept s.activeJobIds) : stage.Kept activeJobIds := by
  obtain ⟨i, hi, hget⟩ := List.getElem_of_mem hmem
  have hphase := hat.calls i stage ((List.getElem?_eq_some_iff).mpr ⟨hi, hget⟩)
  have htasks := hat.tasks
  rw [hg] at htasks
  have hopen : stage.phase i ≠ some (.opening i) := by
    intro hopening
    rcases hphase with hnone | hphase
    · exact nomatch hnone.symm.trans hopening
    · obtain rfl := Option.some.inj (hphase.symm.trans hopening)
      cases htasks
  cases stage with
  | onStart | opening => exact absurd rfl hopen
  | startRaised error => exact hstage
  | _ => trivial

/-- The scheduler takes a job. -/
theorem Sound.popJob {g : TaskGroup} {k jobId : Nat} {task : ServiceTask} (hs : s.Sound hooks)
    (hg : s.tg = some g) (hget : g.tasks[k]? = some task) (hschedules : hooks.schedules = true)
    (hname : task.name = "job_scheduler") : (s.popJob k task g jobId).Sound hooks := by
  rw [ServiceState.popJob]
  split
  case isTrue => exact hs
  case isFalse hactive =>
      obtain ⟨phase, hat, hkept⟩ := hs
      have hmem : "job_scheduler" ∈ s.names := by
        rw [← hkept.started g hg, ← hname]
        exact List.mem_map_of_mem (List.mem_of_getElem? hget)
      have hcalls : ∀ stage ∈ s.calls, stage.Kept (insert jobId s.activeJobIds) :=
        fun stage hstage => kept_of_open hat hg hstage (hkept.calls stage hstage)
      have hraises (hnone : ∀ e, s.ephemeral = some e → e.exiting = true) :
          { s with
            activeJobIds := insert jobId s.activeJobIds
            tg := some (g.setState k task .raised) }.Sound hooks := by
        refine ⟨phase, hat.of_fields rfl rfl ?_ rfl rfl rfl, hkept.names, ?_, ?_,
          fun _ => ⟨hschedules, hmem⟩, hcalls⟩
        · rw [hg]
          rfl
        · intro g' hg'
          obtain rfl := Option.some.inj hg'
          exact (names_setState hget).trans (hkept.started g hg)
        · intro e he hexiting
          exact absurd (hnone e he) (by simp [hexiting])
      dsimp only
      split
      case h_1 e hrunning he =>
          split
          case isTrue hfinished =>
              apply hraises
              intro e' he'
              obtain rfl := Option.some.inj (he'.symm.trans he)
              simp only [Bool.and_eq_true] at hfinished
              exact hfinished.1
          case isFalse =>
              refine ⟨phase, hat.of_fields rfl rfl rfl ?_ rfl rfl, hkept.names, hkept.started, ?_,
                fun _ => ⟨hschedules, hmem⟩, hcalls⟩
              · rw [he]
                rfl
              · intro e' he' hexiting
                obtain rfl := Option.some.inj he'
                exact Finset.insert_subset_insert _ (hkept.jobs e he hexiting)
      case h_2 hclosed =>
          apply hraises
          intro e he
          -- without a group of jobs there is none that is exiting
          have hrunning : s.running = true := by
            have hphase := hat.running
            have htasks := hat.tasks
            rw [hg] at htasks
            cases phase with
            | stopped => cases htasks
            | _ => exact hphase
          exact absurd he (hclosed e hrunning)

/-- A handler ends: the jobs that are active become fewer. -/
theorem Sound.endJob {e : JobGroup} {activeJobIds : Finset Nat} {jobId : Nat} (hs : s.Sound hooks)
    (he : s.ephemeral = some e) (hless : activeJobIds ⊆ s.activeJobIds)
    (hjobs : e.exiting = true ∨ activeJobIds = s.activeJobIds.erase jobId) :
    { s with
      ephemeral := some { e with jobs := e.jobs.erase jobId }
      activeJobIds := activeJobIds }.Sound hooks := by
  obtain ⟨phase, hat, hkept⟩ := hs
  refine ⟨phase, hat.of_fields rfl rfl rfl ?_ rfl rfl, hkept.names, hkept.started, ?_, ?_, ?_⟩
  · rw [he]
    rfl
  · intro e' he' hexiting
    obtain rfl := Option.some.inj he'
    rcases hjobs with hclosing | rfl
    · exact absurd hclosing (by simp [show e.exiting = false from hexiting])
    · exact Finset.erase_subset_erase _ (hkept.jobs e he hexiting)
  · intro hactive
    apply hkept.scheduled
    rintro hempty
    exact hactive (Finset.subset_empty.mp (hempty ▸ hless))
  · intro stage hmem
    have hstage := hkept.calls stage hmem
    cases stage with
    | onStart rest =>
        rcases hstage with hempty | hlater
        · exact Or.inl (Finset.subset_empty.mp (hempty ▸ hless))
        · exact Or.inr hlater
    | opening => exact Finset.subset_empty.mp (hless.trans hstage.le)
    | startRaised error => exact hstage
    | _ => trivial

/-- A hook of `start`. -/
def startHook : CallStage → Bool
  | .onStart _ | .onStarted _ => true
  | _ => false

theorem frame_phase {stage : CallStage} {hook : HookFrame} (i : Nat)
    (hframe : stage.frame = some hook) :
    (∀ rest, (hook.resume rest).phase i = stage.phase i) ∧ hook.done.phase i = stage.phase i := by
  cases stage with
  | onStart | onStarted | onStop =>
      cases hframe
      exact ⟨fun _ => rfl, rfl⟩
  | onStopped rest failed =>
      cases hframe
      cases failed <;> exact ⟨fun _ => rfl, rfl⟩
  | _ => cases hframe

/-- After a hook of `stop` has raised, the service goes on all the same. -/
theorem frame_raised {stage : CallStage} {hook : HookFrame} (i : Nat) (activeJobIds : Finset Nat)
    (hframe : stage.frame = some hook) (hstop : startHook stage = false) :
    hook.raised.phase i = stage.phase i ∧ hook.raised.Kept activeJobIds := by
  cases stage with
  | onStop | onStopped =>
      cases hframe
      exact ⟨rfl, trivial⟩
  | onStart | onStarted => cases hstop
  | _ => cases hframe

theorem frame_resume {stage : CallStage} {hook : HookFrame} {action : HookAction}
    {rest : List HookAction} (hframe : stage.frame = some hook) (hrest : hook.rest = action :: rest)
    (hkept : stage.Kept s.activeJobIds)
    (haction : ∀ critical, action = .register "job_scheduler" critical → s.activeJobIds = ∅ ∨
      startHook stage = false) : (hook.resume rest).Kept s.activeJobIds := by
  cases stage with
  | onStart =>
      cases hframe
      obtain rfl := hrest
      rcases hkept with hempty | ⟨critical, hmem⟩
      · exact Or.inl hempty
      · rcases List.mem_cons.mp hmem with hhead | htail
        · exact Or.inl ((haction critical hhead.symm).resolve_right nofun)
        · exact Or.inr ⟨critical, htail⟩
  | onStarted | onStop | onStopped =>
      cases hframe
      trivial
  | _ => cases hframe

theorem frame_done {stage : CallStage} {hook : HookFrame} (hframe : stage.frame = some hook)
    (hrest : hook.rest = []) (hkept : stage.Kept s.activeJobIds) :
    hook.done.Kept s.activeJobIds := by
  cases stage with
  | onStart =>
      cases hframe
      obtain rfl := hrest
      rcases hkept with hempty | ⟨critical, hmem⟩
      · exact hempty
      · cases hmem
  | onStarted | onStop =>
      cases hframe
      trivial
  | onStopped rest failed =>
      cases hframe
      cases failed <;> trivial
  | _ => cases hframe

theorem frame_work {stage : CallStage} {hook : HookFrame} {raises : Bool} {rest : List HookAction}
    (hframe : stage.frame = some hook) (hrest : hook.rest = .work :: rest)
    (hquiet : s.hookDisturbs raises stage = false) (hraises : raises = true) :
    startHook stage = false := by
  cases stage with
  | onStart | onStarted =>
      cases hframe
      obtain rfl := hrest
      exact absurd hraises (by simpa [hookDisturbs] using hquiet)
  | onStop | onStopped => rfl
  | _ => cases hframe

theorem frame_register {stage : CallStage} {hook : HookFrame} {raises critical : Bool}
    {name : String} {rest : List HookAction} (hframe : stage.frame = some hook)
    (hrest : hook.rest = .register name critical :: rest)
    (hquiet : s.hookDisturbs raises stage = false) :
    (name ∈ s.names ∨ s.broken = false) ∧ (startHook stage = true → name ∉ s.names) := by
  cases stage with
  | onStart | onStarted =>
      cases hframe
      obtain rfl := hrest
      simp only [hookDisturbs, Bool.or_eq_false_iff, decide_eq_false_iff_not] at hquiet
      exact ⟨Or.inr hquiet.2, fun _ => hquiet.1⟩
  | onStop | onStopped =>
      cases hframe
      obtain rfl := hrest
      simp only [hookDisturbs, Bool.and_eq_false_iff, decide_eq_false_iff_not, not_not] at hquiet
      exact ⟨hquiet, nofun⟩
  | _ => cases hframe

/-- A hook goes on. -/
theorem Sound.act {i : Nat} {raises : Bool} (hs : s.Sound hooks)
    (hquiet : Undisturbed (.act i raises) s)
    (hstep : ServiceState.step hooks (.act i raises) s = some s') : s'.Sound hooks := by
  obtain ⟨stage, hget, hstep⟩ := Option.bind_eq_some_iff.mp hstep
  obtain ⟨hook, hframe, hstep⟩ := Option.bind_eq_some_iff.mp hstep
  have hquiet : s.hookDisturbs raises stage = false := by
    simpa [Undisturbed, disturbs, hget] using hquiet
  obtain ⟨phase, hat, hkept⟩ := id hs
  have hstage := hkept.calls stage (List.mem_of_getElem? hget)
  obtain ⟨hresumes, hends⟩ := frame_phase i hframe
  cases hrest : hook.rest with
  | nil =>
      simp only [hrest] at hstep
      obtain ⟨-, hstep⟩ := Option.ite_none_left_eq_some.mp hstep
      obtain rfl := Option.some.inj hstep
      exact hs.setCall hook.done hget hends (frame_done hframe hrest hstage)
  | cons action rest =>
      cases action with
      | work =>
          simp only [hrest] at hstep
          obtain rfl := Option.some.inj hstep
          cases hraises : raises with
          | true =>
              have hstop := frame_work hframe hrest hquiet hraises
              obtain ⟨hphase, hraised⟩ := frame_raised i s.activeJobIds hframe hstop
              exact hs.setCall hook.raised hget hphase hraised
          | false =>
              apply hs.setCall (hook.resume rest) hget (hresumes rest)
              exact frame_resume hframe hrest hstage nofun
      | register name critical =>
          simp only [hrest] at hstep
          obtain ⟨hlock, hstep⟩ := Option.ite_none_left_eq_some.mp hstep
          obtain rfl := Option.some.inj hstep
          obtain ⟨hgroup, hfree⟩ := frame_register hframe hrest hquiet
          obtain ⟨hregistered, hreturns⟩ := hs.register critical
            (Option.not_isSome_iff_eq_none.mp hlock) hgroup
          obtain ⟨hcalls, hactive, -, -⟩ := registerTask_frame name critical s
          rw [← hcalls] at hget
          cases hresult : (s.registerTask name critical).1 with
          | true =>
              have hnew : name ∉ s.names := by simpa [hresult] using hreturns
              refine hregistered.setCall (hook.resume rest) hget (hresumes rest) ?_
              rw [hactive]
              refine frame_resume hframe hrest hstage fun _ heq => Or.inl ?_
              by_contra hsome
              cases heq
              exact hnew (hkept.scheduled hsome).2
          | false =>
              have htaken : name ∈ s.names := by simpa [hresult] using hreturns
              have hstop : startHook stage = false := by
                by_contra hstart
                exact hfree (by simpa using hstart) htaken
              obtain ⟨hphase, hraised⟩ := frame_raised i
                (s.registerTask name critical).2.activeJobIds hframe hstop
              exact hregistered.setCall hook.raised hget hphase hraised

/-- The supervisor's task touches nothing but its calls. -/
theorem Sound.superviseStep (hs : s.Sound hooks) (hstep : s.superviseStep = some s') :
    s'.Sound hooks := by
  have moves (supervision : Supervision) : { s with supervision := supervision }.Sound hooks := by
    obtain ⟨phase, hat, hkept⟩ := hs
    exact ⟨phase, hat.of_fields rfl rfl rfl rfl rfl rfl, hkept.names, hkept.started, hkept.jobs,
      hkept.scheduled, hkept.calls⟩
  unfold ServiceState.superviseStep at hstep
  split at hstep
  case h_1 | h_2 => exact Option.some.inj hstep ▸ hs.addCall _ (fun _ => rfl) trivial
  case h_3 i _ =>
      split at hstep
      case h_1 | h_2 => exact Option.some.inj hstep ▸ moves _
      case h_3 => cases hstep
  case h_4 =>
      obtain ⟨-, hstep⟩ := Option.ite_none_right_eq_some.mp hstep
      exact Option.some.inj hstep ▸ moves _
  case h_5 => cases hstep

theorem Sound.step (hs : s.Sound hooks) (hquiet : Undisturbed event s)
    (hstep : ServiceState.step hooks event s = some s') : s'.Sound hooks := by
  cases event with
  | callStart =>
      obtain rfl := Option.some.inj hstep
      exact hs.addCall s.supervision (fun _ => rfl) trivial
  | callStop =>
      obtain rfl := Option.some.inj hstep
      exact hs.addCall s.supervision (fun _ => rfl) trivial
  | enter i =>
      obtain ⟨stage, hget, hstep⟩ := Option.bind_eq_some_iff.mp hstep
      obtain ⟨hlock, hstep⟩ := Option.ite_none_left_eq_some.mp hstep
      cases stage with
      | start => exact Option.some.inj hstep ▸ hs.enterStart hget
      | stop => exact Option.some.inj hstep ▸ hs.enterStop hget
      | _ => cases hstep
  | act i raises => exact hs.act hquiet hstep
  | «open» i =>
      obtain ⟨stage, hget, hstep⟩ := Option.bind_eq_some_iff.mp hstep
      obtain ⟨⟨hopening, -⟩, hstep⟩ := Option.ite_none_right_eq_some.mp hstep
      exact Option.some.inj hstep ▸ hs.openGroups (hopening ▸ hget)
  | close i =>
      obtain ⟨stage, hget, hstep⟩ := Option.bind_eq_some_iff.mp hstep
      obtain ⟨hlock, hstep⟩ := Option.ite_none_left_eq_some.mp hstep
      cases stage with
      | closing failed =>
          exact Option.some.inj hstep ▸
            hs.closeGroups (Option.not_isSome_iff_eq_none.mp hlock) hquiet hget
      | _ => cases hstep
  | closed i =>
      obtain ⟨stage, hget, hstep⟩ := Option.bind_eq_some_iff.mp hstep
      cases stage with
      | closingJobs failed =>
          obtain ⟨e, he, hstep⟩ := Option.bind_eq_some_iff.mp hstep
          obtain ⟨-, hstep⟩ := Option.ite_none_right_eq_some.mp hstep
          exact Option.some.inj hstep ▸ hs.closedJobs hget
      | closingTasks failed =>
          obtain ⟨g, hg, hstep⟩ := Option.bind_eq_some_iff.mp hstep
          obtain ⟨-, hstep⟩ := Option.ite_none_left_eq_some.mp hstep
          have hbroken : g.aborting = false := by
            simpa [Undisturbed, disturbs, hget, broken, hg] using hquiet
          rw [hbroken] at hstep
          exact Option.some.inj hstep ▸ hs.closedTasks hget
      | _ => cases hstep
  | register name critical =>
      obtain ⟨hlock, hstep⟩ := Option.ite_none_left_eq_some.mp hstep
      have hgroup : name ∈ s.names ∨ s.broken = false := by
        simpa [Undisturbed, disturbs, Classical.or_iff_not_imp_left] using hquiet
      exact Option.some.inj hstep ▸
        (hs.register critical (Option.not_isSome_iff_eq_none.mp hlock) hgroup).1
  | taskEnds k =>
      obtain ⟨g, hg, hstep⟩ := Option.bind_eq_some_iff.mp hstep
      obtain ⟨task, htask, hstep⟩ := Option.bind_eq_some_iff.mp hstep
      obtain ⟨-, hstep⟩ := Option.ite_none_right_eq_some.mp hstep
      exact Option.some.inj hstep ▸ hs.setTask hg htask
  | taskRaises k =>
      obtain ⟨g, hg, hstep⟩ := Option.bind_eq_some_iff.mp hstep
      obtain ⟨task, htask, hstep⟩ := Option.bind_eq_some_iff.mp hstep
      obtain ⟨-, hstep⟩ := Option.ite_none_right_eq_some.mp hstep
      exact Option.some.inj hstep ▸ hs.setTask hg htask
  | pop k jobId =>
      obtain ⟨g, hg, hstep⟩ := Option.bind_eq_some_iff.mp hstep
      obtain ⟨task, htask, hstep⟩ := Option.bind_eq_some_iff.mp hstep
      obtain ⟨⟨hschedules, hname, -⟩, hstep⟩ := Option.ite_none_right_eq_some.mp hstep
      exact Option.some.inj hstep ▸ hs.popJob hg htask hschedules hname
  | handled jobId =>
      obtain ⟨e, he, hstep⟩ := Option.bind_eq_some_iff.mp hstep
      obtain ⟨-, hstep⟩ := Option.ite_none_right_eq_some.mp hstep
      exact Option.some.inj hstep ▸ hs.endJob he (Finset.erase_subset _ _) (Or.inr rfl)
  | cancelled jobId =>
      obtain ⟨e, he, hstep⟩ := Option.bind_eq_some_iff.mp hstep
      obtain ⟨⟨-, hexiting⟩, hstep⟩ := Option.ite_none_right_eq_some.mp hstep
      exact Option.some.inj hstep ▸ hs.endJob he (Finset.Subset.refl _) (Or.inl hexiting)
  | supervise => exact hs.superviseStep hstep

theorem sound_initially : initially.Sound hooks := by
  refine ⟨.stopped, ⟨rfl, rfl, rfl, rfl, rfl, nofun, nofun⟩, List.nodup_nil, nofun,
    nofun, ?_, nofun⟩
  exact fun hactive => absurd rfl hactive

/-! Between the calls. -/

/-- No start or stop is in progress. -/
def Idle (s : ServiceState) : Prop := ∀ stage ∈ s.calls, stage.ended = true

instance (s : ServiceState) : Decidable s.Idle :=
  inferInstanceAs (Decidable (∀ stage ∈ s.calls, stage.ended = true))

/-- Every registered task has been started exactly once in the group of this run,
and nothing else has. -/
def StartedOnce (s : ServiceState) : Prop :=
  ∃ g, s.tg = some g ∧ (∀ name ∈ s.names, g.names.count name = 1) ∧ ∀ name ∈ g.names, name ∈ s.names

/-- The flag, the groups, the event, the tasks and the jobs say the same. -/
structure Consistent (s : ServiceState) : Prop where
  groups : s.running = true ↔
    s.tg.map TaskGroup.exiting = some false ∧ s.ephemeral.map JobGroup.exiting = some false
  closed : s.running = false → s.tg = none ∧ s.ephemeral = none
  event : s.running = true ↔ s.stoppedEvent = false
  started : s.running = true ↔ s.StartedOnce
  jobs : s.running = true → ∀ jobId ∈ s.activeJobIds, ∃ e, s.ephemeral = some e ∧ jobId ∈ e.jobs

theorem At.of_idle {phase : Phase} (hs : s.At phase) (hidle : s.Idle) : phase.caller = none := by
  cases hcaller : phase.caller with
  | none => rfl
  | some i =>
      obtain ⟨stage, hget, hphase⟩ := hs.caller i hcaller
      have hended := hidle stage (List.mem_of_getElem? hget)
      cases stage with
      | onStart | opening | closingJobs | closingTasks => cases hended
      | _ => cases hphase

theorem Sound.unlocked (hs : s.Sound hooks) (hidle : s.Idle) : s.lock = none := by
  obtain ⟨phase, hat, -⟩ := hs
  have hcaller := hat.of_idle hidle
  have hlock := hat.lock
  cases phase with
  | closingJobs | closingTasks => cases hcaller
  | _ => exact hlock

theorem Sound.consistent (hs : s.Sound hooks) (hidle : s.Idle) : s.Consistent := by
  have hlock := hs.unlocked hidle
  obtain ⟨phase, hat, hkept⟩ := hs
  have hcaller := hat.of_idle hidle
  have hrunning := hat.running
  have hevent := hat.stoppedEvent
  rcases hat.unlocked hlock with ⟨htg, he⟩ | ⟨g, e, rfl, htg, he, hexiting, hexiting', -⟩
  · have hphase : phase = .stopped := by
      have htasks := hat.tasks
      rw [htg] at htasks
      cases phase with
      | stopped => rfl
      | opening i => cases hcaller
      | _ => cases htasks
    subst hphase
    refine ⟨?_, fun _ => ⟨htg, he⟩, ?_, ?_, ?_⟩ <;>
      simp_all [Phase.running, StartedOnce]
  · have hcount : s.StartedOnce := by
      refine ⟨g, htg, ?_, ?_⟩
      · rw [hkept.started g htg]
        exact fun name hname => List.count_eq_one_of_mem hkept.names hname
      · rw [hkept.started g htg]
        exact fun _ hname => hname
    refine ⟨?_, ?_, ?_, ?_, ?_⟩
    · simp [hrunning, htg, he, hexiting, hexiting', Phase.running]
    · simp [hrunning, Phase.running]
    · simp [hrunning, hevent, Phase.running]
    · exact ⟨fun _ => hcount, fun _ => hrunning⟩
    · exact fun _ jobId hactive => ⟨e, he, hkept.jobs e he hexiting' hactive⟩

/-! The next start. -/

/-- A hook whose work returns, to its end. -/
theorem hook_run {i : Nat} (frame : List HookAction → CallStage) {done raised : CallStage}
    (hframe : ∀ rest, (frame rest).frame = some ⟨rest, frame, done, raised⟩)
    (hstart : ∀ rest, startHook (frame rest) = true) {rest : List HookAction} (hs : s.Sound hooks)
    (hget : s.calls[i]? = some (frame rest)) (hlock : s.lock = none)
    (hquiet : Runs.Meets (ServiceState.step hooks) Undisturbed
      (List.replicate (rest.length + 1) (.act i false)) s) :
    ∃ s', Runs.run (ServiceState.step hooks) (List.replicate (rest.length + 1) (.act i false)) s =
      some s' ∧
      s'.Sound hooks ∧ s'.calls = s.calls.set i done ∧ s'.lock = none ∧ s'.running = s.running := by
  induction rest generalizing s with
  | nil =>
      have hstep : ServiceState.step hooks (.act i false) s = some (s.setCall i done) := by
        simp [ServiceState.step, hget, hframe]
      refine ⟨s.setCall i done, ?_, hs.step hquiet.1 hstep, rfl, hlock, rfl⟩
      simp [Runs.run, hstep]
  | cons action rest ih =>
      have hi := (List.getElem?_eq_some_iff.mp hget).1
      rw [List.replicate_succ] at hquiet ⊢
      have goes (next : ServiceState) (hstep : ServiceState.step hooks (.act i false) s = some next)
          (hcalls : next.calls = s.calls.set i (frame rest)) (hnext : next.lock = none)
          (hrunning : next.running = s.running) :
          ∃ s', Runs.run (ServiceState.step hooks)
              (.act i false :: List.replicate (rest.length + 1) (.act i false)) s = some s' ∧
            s'.Sound hooks ∧ s'.calls = s.calls.set i done ∧ s'.lock = none ∧
            s'.running = s.running := by
        have hget' : next.calls[i]? = some (frame rest) := by
          rw [hcalls]
          exact List.getElem?_set_self hi
        obtain ⟨s', hrun, hsound, hcalls', hlock', hrunning'⟩ :=
          ih (hs.step hquiet.1 hstep) hget' hnext (hquiet.2 next hstep)
        refine ⟨s', ?_, hsound, ?_, hlock', hrunning'.trans hrunning⟩
        · rw [Runs.run, hstep]
          exact hrun
        · rw [hcalls', hcalls, List.set_set]
      cases action with
      | work =>
          apply goes (s.setCall i (frame rest)) _ rfl hlock rfl
          simp [ServiceState.step, hget, hframe]
      | register name critical =>
          have hdisturbs :
              s.hookDisturbs false (frame (.register name critical :: rest)) = false := by
            simpa [Undisturbed, disturbs, hget] using hquiet.1
          obtain ⟨hgroup, hfree⟩ := frame_register (hframe _) rfl hdisturbs
          have hreturns : (s.registerTask name critical).1 = true := by
            rw [(hs.register critical hlock hgroup).2]
            simp [hfree (hstart _)]
          obtain ⟨hcalls, -, hlock', hrunning⟩ := registerTask_frame name critical s
          apply goes ((s.registerTask name critical).2.setCall i (frame rest)) _ _ _ hrunning
          · simp [ServiceState.step, hget, hframe, hlock, hreturns]
          · exact congrArg (·.set i (frame rest)) hcalls
          · exact hlock'.trans hlock

/-- A start by itself, whose hooks succeed. -/
def startEvents (hooks : Hooks) (i : Nat) : List LifeEvent :=
  [.callStart, .enter i] ++ (List.replicate (hooks.onStart.length + 1) (.act i false) ++
    ([.open i] ++ List.replicate (hooks.onStarted.length + 1) (.act i false)))

theorem set_last (calls : List CallStage) (stage stage' : CallStage) :
    (calls ++ [stage]).set calls.length stage' = calls ++ [stage'] := by
  rw [List.set_append_right _ _ (Nat.le_refl _), Nat.sub_self]
  rfl

theorem Sound.run (hs : s.Sound hooks) {events : List LifeEvent}
    (hquiet : Runs.Meets (ServiceState.step hooks) Undisturbed events s)
    (hrun : Runs.run (ServiceState.step hooks) events s = some s') : s'.Sound hooks :=
  Runs.invariant_of_run (Sound hooks)
    (fun _ _ _ hs hquiet hstep => hs.step hquiet hstep) hs hquiet hrun

/-- The call of `start` and its first locked section. -/
theorem enter_run (hooks : Hooks) (hlock : s.lock = none) (hstopped : s.running = false) :
    ∃ s', Runs.run (ServiceState.step hooks) [.callStart, .enter s.calls.length] s = some s' ∧
      s'.calls = s.calls ++ [.onStart hooks.onStart] ∧ s'.lock = none ∧ s'.running = true := by
  let entered : ServiceState := { s with
    calls := s.calls ++ [.onStart hooks.onStart]
    running := true, stopEvent := false, stoppedEvent := false }
  refine ⟨entered, ?_, rfl, hlock, rfl⟩
  simp [Runs.run, ServiceState.step, hlock, ServiceState.enterStart, hstopped, setCall, entered]

/-- The second locked section of `start`. -/
theorem open_run {i : Nat} (hooks : Hooks) (hget : s.calls[i]? = some .opening)
    (hlock : s.lock = none) (hrunning : s.running = true) :
    ∃ s', Runs.run (ServiceState.step hooks) [.open i] s = some s' ∧
      s'.calls = s.calls.set i (.onStarted hooks.onStarted) ∧ s'.lock = none ∧
      s'.running = true := by
  refine ⟨s.openGroups hooks i, ?_, ?_, ?_, ?_⟩
  · simp [Runs.run, ServiceState.step, hget, hlock]
  · simp [ServiceState.openGroups, hrunning, setCall]
  · simpa [ServiceState.openGroups, hrunning, setCall] using hlock
  · simp [ServiceState.openGroups, hrunning, setCall]

/-- A start of a service at rest runs to its end. -/
theorem Sound.starts (hs : s.Sound hooks) (hidle : s.Idle) (hstopped : s.running = false)
    (hquiet : Runs.Meets (ServiceState.step hooks) Undisturbed
      (startEvents hooks s.calls.length) s) :
    ∃ s', Runs.run (ServiceState.step hooks) (startEvents hooks s.calls.length) s = some s' ∧
      s'.Sound hooks ∧ s'.calls = s.calls ++ [.started] ∧ s'.running = true := by
  have hlast (stage : CallStage) : (s.calls ++ [stage])[s.calls.length]? = some stage := by simp
  obtain ⟨hquiet₁, hquiet⟩ := Runs.meets_append_iff.mp hquiet
  obtain ⟨entered, hrun₁, hcalls₁, hlock₁, hrunning₁⟩ := enter_run hooks
    (hs.unlocked hidle) hstopped
  have hs₁ := hs.run hquiet₁ hrun₁
  obtain ⟨hquiet₂, hquiet⟩ := Runs.meets_append_iff.mp (hquiet entered hrun₁)
  obtain ⟨prepared, hrun₂, hs₂, hcalls₂, hlock₂, hrunning₂⟩ := hook_run .onStart (fun _ => rfl)
    (fun _ => rfl) hs₁ (by rw [hcalls₁]; exact hlast _) hlock₁ hquiet₂
  rw [hcalls₁, set_last] at hcalls₂
  obtain ⟨hquiet₃, hquiet⟩ := Runs.meets_append_iff.mp (hquiet prepared hrun₂)
  obtain ⟨opened, hrun₃, hcalls₃, hlock₃, hrunning₃⟩ := open_run hooks
    (by rw [hcalls₂]; exact hlast _) hlock₂ (hrunning₂.trans hrunning₁)
  have hs₃ := hs₂.run hquiet₃ hrun₃
  rw [hcalls₂, set_last] at hcalls₃
  obtain ⟨s', hrun₄, hs₄, hcalls₄, -, hrunning₄⟩ := hook_run .onStarted (fun _ => rfl)
    (fun _ => rfl) hs₃ (by rw [hcalls₃]; exact hlast _) hlock₃ (hquiet opened hrun₃)
  refine ⟨s', ?_, hs₄, ?_, hrunning₄.trans hrunning₃⟩
  · exact Runs.run_append_of hrun₁ (Runs.run_append_of hrun₂ (Runs.run_append_of hrun₃ hrun₄))
  · rw [hcalls₄, hcalls₃, set_last]

theorem popJob_frame (s : ServiceState) (k : Nat) (task : ServiceTask) (g : TaskGroup)
    (jobId : Nat) :
    (s.popJob k task g jobId).calls = s.calls ∧ (s.popJob k task g jobId).running = s.running := by
  unfold popJob
  split
  · exact ⟨rfl, rfl⟩
  · dsimp only
    split
    · split <;> exact ⟨rfl, rfl⟩
    · exact ⟨rfl, rfl⟩

/-! After a stop. -/

/-- A call that can still make the service run. -/
def starting : CallStage → Bool
  | .start | .onStart _ | .opening => true
  | _ => false

/-- A stop that has not closed the groups yet. -/
def stopping : CallStage → Bool
  | .stop | .onStop _ | .closing _ | .closingJobs _ | .closingTasks _ => true
  | _ => false

/-- A start is called, by the supervisor too. -/
def begins (event : LifeEvent) (s : ServiceState) : Bool :=
  match event with
  | .callStart => true
  | .supervise => s.supervision = .idle || s.supervision = .failed
  | _ => false

/-- Nothing comes between, and no start is called. -/
def Ending (event : LifeEvent) (s : ServiceState) : Prop :=
  Undisturbed event s ∧ s.begins event = false

instance (event : LifeEvent) (s : ServiceState) : Decidable (Ending event s) :=
  inferInstanceAs (Decidable (_ ∧ _))

/-- No start is under way, and while the service runs a stop is. -/
structure Halting (s : ServiceState) : Prop where
  quiet : ∀ stage ∈ s.calls, starting stage = false
  stopping : s.running = true → ∃ stage ∈ s.calls, stopping stage = true

theorem Halting.of_fields (hs : s.Halting) (hcalls : s'.calls = s.calls)
    (hrunning : s'.running = s.running) : s'.Halting := by
  refine ⟨?_, ?_⟩
  · rw [hcalls]
    exact hs.quiet
  · rw [hcalls, hrunning]
    exact hs.stopping

/-- A call moves on, and goes on stopping the service if it does so. -/
theorem Halting.setCall {i : Nat} {stage : CallStage} (stage' : CallStage) (hs : s.Halting)
    (hget : s.calls[i]? = some stage) (hcalls : s'.calls = s.calls.set i stage')
    (hquiet : starting stage' = false)
    (hstopping : s'.running = true → s.running = true ∧
      (ServiceState.stopping stage = true → ServiceState.stopping stage' = true)) : s'.Halting := by
  refine ⟨?_, ?_⟩
  · rw [hcalls]
    exact Runs.forall_mem_set hs.quiet hquiet
  · intro hrunning
    obtain ⟨hbefore, hkeeps⟩ := hstopping hrunning
    rw [hcalls]
    have hmoved :=
      Runs.exists_mem_set (Q := False) hget (fun h => Or.inr (hkeeps h)) (hs.stopping hbefore)
    exact hmoved.resolve_left id

theorem frame_halting {stage : CallStage} {hook : HookFrame} (hframe : stage.frame = some hook)
    (hquiet : starting stage = false) (stage' : CallStage)
    (hmoves : (∃ rest, stage' = hook.resume rest) ∨ stage' = hook.done ∨ stage' = hook.raised) :
    starting stage' = false ∧ (stopping stage = true → stopping stage' = true) := by
  cases stage with
  | onStart => cases hquiet
  | onStarted | onStop =>
      cases hframe
      rcases hmoves with ⟨rest, rfl⟩ | rfl | rfl <;> simp [starting, stopping]
  | onStopped rest failed =>
      cases hframe
      rcases hmoves with ⟨rest, rfl⟩ | rfl | rfl
      · simp [starting, stopping]
      · cases failed <;> simp [starting, stopping]
      · simp [starting, stopping]
  | _ => cases hframe

theorem Halting.act {i : Nat} {raises : Bool} (hs : s.Halting)
    (hstep : ServiceState.step hooks (.act i raises) s = some s') : s'.Halting := by
  obtain ⟨stage, hget, hstep⟩ := Option.bind_eq_some_iff.mp hstep
  obtain ⟨hook, hframe, hstep⟩ := Option.bind_eq_some_iff.mp hstep
  have hquiet := hs.quiet stage (List.mem_of_getElem? hget)
  have hmoves (stage' : CallStage)
      (hstage : (∃ rest, stage' = hook.resume rest) ∨ stage' = hook.done ∨ stage' = hook.raised) :=
    frame_halting hframe hquiet stage' hstage
  cases hrest : hook.rest with
  | nil =>
      simp only [hrest] at hstep
      obtain ⟨-, hstep⟩ := Option.ite_none_left_eq_some.mp hstep
      obtain rfl := Option.some.inj hstep
      obtain ⟨hstarting, hkeeps⟩ := hmoves hook.done (Or.inr (Or.inl rfl))
      exact hs.setCall _ hget rfl hstarting fun hrunning => ⟨hrunning, hkeeps⟩
  | cons action rest =>
      cases action with
      | work =>
          simp only [hrest] at hstep
          obtain rfl := Option.some.inj hstep
          have hstage :
              (∃ rest', (if raises then hook.raised else hook.resume rest) = hook.resume rest') ∨
              (if raises then hook.raised else hook.resume rest) = hook.done ∨
              (if raises then hook.raised else hook.resume rest) = hook.raised := by
            cases raises
            · exact Or.inl ⟨rest, rfl⟩
            · exact Or.inr (Or.inr rfl)
          obtain ⟨hstarting, hkeeps⟩ := hmoves _ hstage
          exact hs.setCall _ hget rfl hstarting fun hrunning => ⟨hrunning, hkeeps⟩
      | register name critical =>
          simp only [hrest] at hstep
          obtain ⟨-, hstep⟩ := Option.ite_none_left_eq_some.mp hstep
          obtain rfl := Option.some.inj hstep
          obtain ⟨hcalls, -, -, hrunning⟩ := registerTask_frame name critical s
          have hs' := hs.of_fields hcalls hrunning
          have hstage : (∃ rest', (if (s.registerTask name critical).1 then hook.resume rest
                else hook.raised) = hook.resume rest') ∨
              (if (s.registerTask name critical).1 then hook.resume rest else hook.raised) =
                hook.done ∨
              (if (s.registerTask name critical).1 then hook.resume rest else hook.raised) =
                hook.raised := by
            split
            · exact Or.inl ⟨rest, rfl⟩
            · exact Or.inr (Or.inr rfl)
          obtain ⟨hstarting, hkeeps⟩ := hmoves _ hstage
          rw [← hcalls] at hget
          exact hs'.setCall _ hget rfl hstarting fun hrunning => ⟨hrunning, hkeeps⟩

/-- The task groups of a service that a stop closes. -/
theorem Halting.closeTasks {i : Nat} {failed : Bool} {stage : CallStage} (hs : s.Halting)
    (hget : s.calls[i]? = some stage) : (s.closeTasks hooks i failed).Halting := by
  rw [ServiceState.closeTasks]
  split
  · exact hs.setCall (.closingTasks failed) hget rfl rfl
      fun hrunning => ⟨hrunning, fun _ => rfl⟩
  · exact hs.setCall (.onStopped hooks.onStopped failed) hget rfl rfl nofun

theorem Halting.step (hs : s.Halting) (hending : Ending event s)
    (hstep : ServiceState.step hooks event s = some s') : s'.Halting := by
  obtain ⟨hundisturbed, hbegins⟩ := hending
  cases event with
  | callStart => cases hbegins
  | callStop =>
      obtain rfl := Option.some.inj hstep
      refine ⟨?_, fun _ => ⟨.stop, List.mem_append_right _ List.mem_cons_self, rfl⟩⟩
      intro stage hmem
      rcases List.mem_append.mp hmem with hold | hnew
      · exact hs.quiet stage hold
      · exact List.mem_singleton.mp hnew ▸ rfl
  | enter i =>
      obtain ⟨stage, hget, hstep⟩ := Option.bind_eq_some_iff.mp hstep
      obtain ⟨-, hstep⟩ := Option.ite_none_left_eq_some.mp hstep
      cases stage with
      | start => exact nomatch hs.quiet _ (List.mem_of_getElem? hget)
      | stop =>
          obtain rfl := Option.some.inj hstep
          rw [enterStop]
          split
          · exact hs.setCall (.onStop hooks.onStop) hget rfl rfl
              fun hrunning => ⟨hrunning, fun _ => rfl⟩
          case isFalse hstopped =>
              exact hs.setCall .stopped hget rfl rfl fun hrunning => absurd hrunning hstopped
      | _ => cases hstep
  | act i raises => exact hs.act hstep
  | «open» i =>
      obtain ⟨stage, hget, hstep⟩ := Option.bind_eq_some_iff.mp hstep
      obtain ⟨⟨hopening, -⟩, -⟩ := Option.ite_none_right_eq_some.mp hstep
      subst hopening
      exact nomatch hs.quiet _ (List.mem_of_getElem? hget)
  | close i =>
      obtain ⟨stage, hget, hstep⟩ := Option.bind_eq_some_iff.mp hstep
      obtain ⟨-, hstep⟩ := Option.ite_none_left_eq_some.mp hstep
      cases stage with
      | closing failed =>
          obtain rfl := Option.some.inj hstep
          rw [closeGroups]
          split
          · exact hs.setCall (.closingJobs failed) hget rfl rfl
              fun hrunning => ⟨hrunning, fun _ => rfl⟩
          · exact hs.closeTasks hget
      | _ => cases hstep
  | closed i =>
      obtain ⟨stage, hget, hstep⟩ := Option.bind_eq_some_iff.mp hstep
      cases stage with
      | closingJobs failed =>
          obtain ⟨e, he, hstep⟩ := Option.bind_eq_some_iff.mp hstep
          obtain ⟨-, hstep⟩ := Option.ite_none_right_eq_some.mp hstep
          have hs' : { s with ephemeral := none }.Halting := hs.of_fields rfl rfl
          exact Option.some.inj hstep ▸ hs'.closeTasks hget
      | closingTasks failed =>
          obtain ⟨g, hg, hstep⟩ := Option.bind_eq_some_iff.mp hstep
          obtain ⟨-, hstep⟩ := Option.ite_none_left_eq_some.mp hstep
          have hbroken : g.aborting = false := by
            simpa [Undisturbed, disturbs, hget, broken, hg] using hundisturbed
          rw [hbroken] at hstep
          obtain rfl := Option.some.inj hstep
          exact hs.setCall (.onStopped hooks.onStopped failed) hget rfl rfl nofun
      | _ => cases hstep
  | register name critical =>
      obtain ⟨-, hstep⟩ := Option.ite_none_left_eq_some.mp hstep
      obtain ⟨hcalls, -, -, hrunning⟩ := registerTask_frame name critical s
      exact Option.some.inj hstep ▸ hs.of_fields hcalls hrunning
  | taskEnds k | taskRaises k =>
      obtain ⟨g, hg, hstep⟩ := Option.bind_eq_some_iff.mp hstep
      obtain ⟨task, htask, hstep⟩ := Option.bind_eq_some_iff.mp hstep
      obtain ⟨-, hstep⟩ := Option.ite_none_right_eq_some.mp hstep
      exact Option.some.inj hstep ▸ hs.of_fields rfl rfl
  | pop k jobId =>
      obtain ⟨g, hg, hstep⟩ := Option.bind_eq_some_iff.mp hstep
      obtain ⟨task, htask, hstep⟩ := Option.bind_eq_some_iff.mp hstep
      obtain ⟨-, hstep⟩ := Option.ite_none_right_eq_some.mp hstep
      obtain rfl := Option.some.inj hstep
      obtain ⟨hcalls, hrunning⟩ := popJob_frame s k task g jobId
      exact hs.of_fields hcalls hrunning
  | handled jobId | cancelled jobId =>
      obtain ⟨e, he, hstep⟩ := Option.bind_eq_some_iff.mp hstep
      obtain ⟨-, hstep⟩ := Option.ite_none_right_eq_some.mp hstep
      exact Option.some.inj hstep ▸ hs.of_fields rfl rfl
  | supervise =>
      change s.superviseStep = some s' at hstep
      unfold superviseStep at hstep
      split at hstep
      case h_1 hidle => simp [begins, hidle] at hbegins
      case h_2 hfailed => simp [begins, hfailed] at hbegins
      case h_3 =>
          split at hstep
          case h_1 | h_2 => exact Option.some.inj hstep ▸ hs.of_fields rfl rfl
          case h_3 => cases hstep
      case h_4 =>
          obtain ⟨-, hstep⟩ := Option.ite_none_right_eq_some.mp hstep
          exact Option.some.inj hstep ▸ hs.of_fields rfl rfl
      case h_5 => cases hstep

/-- A service on which `stop` is called and no start is has stopped when nothing is
in progress any more. -/
theorem stopped_of_run {later : List LifeEvent} (hidle : s.Idle)
    (hending : Runs.Meets (ServiceState.step hooks) Ending (.callStop :: later) s)
    (hrun : Runs.run (ServiceState.step hooks) (.callStop :: later) s = some s')
    (hidle' : s'.Idle) :
    s'.running = false := by
  let called : ServiceState := { s with calls := s.calls ++ [.stop] }
  have hquiet (stage : CallStage) (hmem : stage ∈ called.calls) : starting stage = false := by
    rcases List.mem_append.mp hmem with hold | hnew
    · have hended := hidle stage hold
      cases stage <;> first | rfl | cases hended
    · exact List.mem_singleton.mp hnew ▸ rfl
  have hcalled : called.Halting :=
    ⟨hquiet, fun _ => ⟨.stop, List.mem_append_right _ List.mem_cons_self, rfl⟩⟩
  have hs' : s'.Halting := Runs.invariant_of_run Halting
    (fun _ _ _ hs hending hstep => hs.step hending hstep) hcalled (hending.2 called rfl) hrun
  by_contra hrunning
  obtain ⟨stage, hmem, hstage⟩ := hs'.stopping (by simpa using hrunning)
  have hended := hidle' stage hmem
  cases stage with
  | stop | onStop | closing | closingJobs | closingTasks => cases hended
  | _ => cases hstage

/-- The life cycle of a service, in a run in which no start hook raises, no stop
closes the groups while a start is about to open them and no task raises before a
stop has ended: between the calls everything says the same; a start raises only if
the service is running; a service at rest that has stopped can be started; and it
has stopped after a stop. -/
theorem service_life_cycle (hooks : Hooks) {events : List LifeEvent}
    (hquiet : Runs.Meets (ServiceState.step hooks) Undisturbed events initially)
    (hrun : Runs.run (ServiceState.step hooks) events initially = some s) :
    (s.Idle → s.Consistent) ∧
    (∀ error, .startRaised error ∈ s.calls → error = .alreadyRunning) ∧
    (s.Idle → s.running = false →
      Runs.Meets (ServiceState.step hooks) Undisturbed (startEvents hooks s.calls.length) s →
      ∃ s', Runs.run (ServiceState.step hooks) (startEvents hooks s.calls.length) s = some s' ∧
        s'.calls = s.calls ++ [.started] ∧ s'.running = true ∧ s'.Consistent) ∧
    ∀ later s', s.Idle → Runs.Meets (ServiceState.step hooks) Ending (.callStop :: later) s →
      Runs.run (ServiceState.step hooks) (.callStop :: later) s = some s' → s'.Idle →
      s'.running = false := by
  have hs : s.Sound hooks := sound_initially.run hquiet hrun
  refine ⟨hs.consistent, ?_, ?_, ?_⟩
  · intro error hmem
    obtain ⟨phase, -, hkept⟩ := hs
    exact hkept.calls _ hmem
  · intro hidle hstopped hstart
    obtain ⟨s', hrun', hs', hcalls, hrunning⟩ := hs.starts hidle hstopped hstart
    refine ⟨s', hrun', hcalls, hrunning, hs'.consistent ?_⟩
    intro stage hmem
    rw [hcalls] at hmem
    rcases List.mem_append.mp hmem with hold | hnew
    · exact hidle stage hold
    · exact List.mem_singleton.mp hnew ▸ rfl
  · exact fun later s' hidle hending hrun' hidle' => stopped_of_run hidle hending hrun' hidle'

/-- A service whose start is undisturbed, that runs a job and is stopped. -/
def oneRun : List LifeEvent :=
  startEvents scheduledService 0 ++ [.pop 0 7, .handled 7]

def oneStop : List LifeEvent :=
  [.enter 1, .act 1 false, .act 1 false, .close 1, .closed 1, .taskEnds 0, .taskEnds 1, .closed 1,
    .act 1 false, .act 1 false]

theorem service_life_cycle_scheduled : ∃ s s',
    Runs.run (ServiceState.step scheduledService) oneRun initially = some s ∧ s.running = true ∧
    s.Consistent ∧
    Runs.run (ServiceState.step scheduledService) (.callStop :: oneStop) s = some s' ∧
    s'.running = false := by
  have hquiet : Runs.Meets (ServiceState.step scheduledService) Undisturbed oneRun initially := by
    decide +kernel
  refine ⟨_, _, rfl, by decide +kernel, ?_, rfl, ?_⟩
  · exact (service_life_cycle scheduledService hquiet rfl).1 (by decide +kernel)
  · exact (service_life_cycle scheduledService hquiet rfl).2.2.2 oneStop _ (by decide +kernel)
      (by decide +kernel) rfl (by decide +kernel)

/-- A start whose hook raises leaves the service running without groups, and the next
attempt of the supervisor is refused. A scheduled service that has been stopped
cannot be started again, though nothing its hook does fails: the name of its first
task is taken. -/
theorem service_left_running :
    (∃ s, Runs.run (ServiceState.step scheduledService)
        [.supervise, .enter 0, .act 0 true, .supervise] initially = some s ∧
      s.calls = [.startRaised .hook] ∧ s.running = true ∧ s.tg = none ∧
      ∃ s', Runs.run (ServiceState.step scheduledService) [.supervise, .enter 1] s = some s' ∧
        s'.calls = [.startRaised .hook, .startRaised .alreadyRunning]) ∧
    ∃ s, Runs.run (ServiceState.step scheduledService) (oneRun ++ .callStop :: oneStop) initially =
      some s ∧
      s.running = false ∧
      ∃ s', Runs.run (ServiceState.step scheduledService)
          [.callStart, .enter 2, .act 2 false, .act 2 false] s = some s' ∧
        s'.calls = [.started, .stopped, .startRaised .hook] ∧ s'.running = true := by
  refine ⟨⟨_, rfl, ?_, ?_, ?_, _, rfl, ?_⟩, _, rfl, ?_, _, rfl, ?_⟩ <;> decide +kernel

end ServiceState

end Graveboards.Daemon
