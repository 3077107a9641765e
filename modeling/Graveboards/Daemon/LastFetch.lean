import Graveboards.Daemon.Fetcher

/-!
Which executions advance the time of the last fetch. `_on_job_success` follows
every execution that returned without an exception, while the profile job
handles several failures itself and returns.
-/

namespace Graveboards.Daemon

open Library

namespace Database

def lastFetch (db : Database) (id : Nat) : Option Nat := (db.find id).bind FetcherTask.lastFetch

variable {db : Database} {id recordId : Nat}

theorem find_updateTask (enabled : Option Bool) (lastFetch : Option Nat) :
    (db.updateTask recordId enabled lastFetch).find id = (db.find id).map (fun task =>
      if task.id = recordId then
        { task with
          enabled := enabled.getD task.enabled
          lastFetch := lastFetch.or task.lastFetch }
      else task) := by
  simp only [find, updateTask, List.find?_map]
  congr 2
  funext task
  dsimp only [Function.comp_apply]
  split <;> rfl

/-- An update of the flag leaves the times alone. -/
@[simp] theorem lastFetch_updateTask_none (enabled : Option Bool) :
    (db.updateTask recordId enabled none).lastFetch id = db.lastFetch id := by
  rw [lastFetch, find_updateTask, lastFetch]
  cases db.find id with
  | none => rfl
  | some task =>
      change (if task.id = recordId then _ else task : FetcherTask).lastFetch = task.lastFetch
      split <;> rfl

/-- An update of the time leaves the other records alone. -/
theorem lastFetch_updateTask_ne (enabled : Option Bool) (now : Option Nat) (hne : recordId ≠ id) :
    (db.updateTask recordId enabled now).lastFetch id = db.lastFetch id := by
  rw [lastFetch, find_updateTask, lastFetch]
  cases hfind : db.find id with
  | none => rfl
  | some task =>
      have hid : task.id = id := by simpa using List.find?_some hfind
      simp [hid, Ne.symm hne]

/-- A new record has not been fetched. -/
theorem lastFetch_insertUser {task : FetcherTask} (hnew : db.has task.id = false)
    (hlast : task.lastFetch = none) : (db.insertUser task hnew).lastFetch id = db.lastFetch id := by
  unfold lastFetch find insertUser
  rw [List.find?_cons]
  by_cases hid : task.id = id
  · subst hid
    have hnone : db.tasks.find? (fun other => other.id = task.id) = none := by
      simpa [has] using hnew
    simp [hlast, hnone]
  · simp [hid]

end Database

namespace Fetcher

variable {config : FetcherConfig} {f f' : Fetcher} {event : FetcherEvent} {id : Nat}

/-- `_execute_job` does not touch it. -/
theorem lastFetch_advance {i recordId : Nat} {stage : FetchStage} {answer : Answer}
    (hadvance : f.advance config i recordId stage answer = some f') :
    f'.db.lastFetch id = f.db.lastFetch id := by
  unfold advance at hadvance
  split at hadvance
  case h_4 =>
      split at hadvance
      · exact Option.some.inj hadvance ▸ rfl
      · cases hadvance
  case h_8 =>
      obtain ⟨task, -, hadvance⟩ := Option.bind_eq_some_iff.mp hadvance
      obtain rfl := Option.some.inj hadvance
      dsimp only [setProgram]
      split <;> rfl
  case h_10 =>
      obtain rfl := Option.some.inj hadvance
      exact Database.lastFetch_updateTask_none _
  case h_11 =>
      obtain rfl := Option.some.inj hadvance
      exact Database.lastFetch_updateTask_none _
  case h_14 => cases hadvance
  all_goals exact Option.some.inj hadvance ▸ rfl

/-- It changes only through a success hook that went through. -/
theorem lastFetch_effect {action : Action}
    (hchanged : (f.effect action).db.lastFetch id ≠ f.db.lastFetch id) :
    ∃ i now, action = .hooked i false now ∧
      f.scheduler.handlers[i]? = some ⟨id, .hook false⟩ := by
  cases action with
  | hooked i raised now =>
      unfold effect at hchanged
      dsimp only at hchanged
      split at hchanged
      case h_2 => exact absurd rfl hchanged
      next recordId hget =>
      cases raised with
      | true => exact absurd rfl hchanged
      | false =>
          have hid : recordId = id := by
            by_contra hne
            exact hchanged (Database.lastFetch_updateTask_ne _ _ hne)
          exact ⟨i, now, rfl, hid ▸ hget⟩
  | acquire | receive | schedule | wake | executed | reschedule | finished =>
      exact absurd rfl hchanged

theorem lastFetch_step (hstep : step config event f = some f')
    (hchanged : f'.db.lastFetch id ≠ f.db.lastFetch id) :
    ∃ i now, event = .handle (.hooked i false now) ∧
      f.scheduler.handlers[i]? = some ⟨id, .hook false⟩ := by
  cases step_move hstep with
  | commitUser recordId userId hnew =>
      exact absurd (Database.lastFetch_insertUser hnew rfl) hchanged
  | commit recordId value => exact absurd (Database.lastFetch_updateTask_none _) hchanged
  | handle action scheduler programs db =>
      obtain ⟨-, hstep⟩ := Option.ite_none_right_eq_some.mp hstep
      obtain ⟨scheduler', -, hstep⟩ := Option.bind_eq_some_iff.mp hstep
      rw [← Option.some.inj hstep] at hchanged
      obtain ⟨i, now, rfl, hget⟩ := lastFetch_effect hchanged
      exact ⟨i, now, rfl, hget⟩
  | execute i answer | fetch i | disable i =>
      obtain ⟨h, -, hstep⟩ := Option.bind_eq_some_iff.mp hstep
      obtain ⟨-, hstep⟩ := Option.ite_none_right_eq_some.mp hstep
      exact absurd (lastFetch_advance hstep) hchanged
  | _ => exact absurd rfl hchanged

end Fetcher

namespace Scheduler

variable {service : Service} {s s' : Scheduler} {action : Action} {i : Nat} {h : Handler}

/-- Where a handler that executes its job, or runs its success hook, comes from. -/
theorem Move.origin (hmove : Move service s action s') (hget : s'.handlers[i]? = some h)
    (hstage : h.stage = .executing ∨ h.stage = .hook false) :
    action ≠ .acquire i ∧ s.handlers[i]? = some h ∨
      (action = .acquire i ∧ h.stage = .executing) ∨
      (action = .executed i false ∧ h.stage = .hook false ∧
        ∃ h₀, s.handlers[i]? = some h₀ ∧ h₀.stage = .executing) := by
  have other {j : Nat} {h₀ : Handler} {stage : HandlerStage}
      (hset : (s.handlers.set j { h₀ with stage := stage })[i]? = some h)
      (hidle : stage ≠ .executing ∧ stage ≠ .hook false) : s.handlers[i]? = some h := by
    rcases Runs.getElem?_set_cases hset with ⟨-, rfl⟩ | ⟨-, hold⟩
    · exact (hstage.elim hidle.1 hidle.2).elim
    · exact hold
  cases hmove with
  | load | skip | drop => exact Or.inl ⟨nofun, hget⟩
  | spawn job heap =>
      rcases Runs.getElem?_concat_cases hget with ⟨-, rfl⟩ | hold
      · rcases hstage with hstage | hstage <;> cases hstage
      · exact Or.inl ⟨nofun, hold⟩
  | acquire j h₀ =>
      rcases Runs.getElem?_set_cases hget with ⟨rfl, rfl⟩ | ⟨hij, hold⟩
      · exact Or.inr (Or.inl ⟨rfl, rfl⟩)
      · exact Or.inl ⟨fun heq => hij (Action.acquire.inj heq).symm, hold⟩
  | executed j h₀ raised hold₀ hfrom =>
      rcases Runs.getElem?_set_cases hget with ⟨rfl, rfl⟩ | ⟨-, hold⟩
      · cases raised with
        | true => rcases hstage with hstage | hstage <;> cases hstage
        | false => exact Or.inr (Or.inr ⟨rfl, rfl, h₀, hold₀, hfrom⟩)
      · exact Or.inl ⟨nofun, hold⟩
  | wake | hooked | discard | reschedule | finished =>
      exact Or.inl ⟨nofun, other hget ⟨nofun, nofun⟩⟩

theorem loadJob_handlers (jobId : Nat) (instruction : Option JobLoadInstruction) (now : Nat) :
    (s.loadJob service jobId instruction now).handlers = s.handlers := by
  unfold loadJob
  split <;> rfl

theorem loadRecords_handlers (instruction : FetcherTask → JobLoadInstruction) (clock : Nat → Nat)
    (records : List FetcherTask) :
    (s.loadRecords service instruction clock records).handlers = s.handlers := by
  induction records generalizing s with
  | nil => rfl
  | cons record rest ih =>
      refine Eq.trans ih ?_
      dsimp only
      split
      · rfl
      · exact loadJob_handlers _ _ _

end Scheduler

/-- A fetcher, and which handlers have stored what their execution fetched. -/
structure FetcherHistory where
  fetcher : Fetcher
  stored : Nat → Bool

namespace FetcherHistory

variable (config : FetcherConfig)

/-- `store` is entered with the response, and left once the data is committed. -/
def record (f : Fetcher) (stored : Nat → Bool) : FetcherEvent → Nat → Bool
  | .start => fun _ => false
  | .handle (.acquire i) => Function.update stored i false
  | .execute i answer =>
      if f.programs i = .store ∧ answer = .ok then Function.update stored i true else stored
  | _ => stored

def step (event : FetcherEvent) (w : FetcherHistory) : Option FetcherHistory := do
  let fetcher ← Fetcher.step config event w.fetcher
  return ⟨fetcher, record w.fetcher w.stored event⟩

def initially (db : Database) : FetcherHistory := ⟨.initially config db, fun _ => false⟩

/-- The await ends in a way that makes the profile job return normally without its
data: the lock is held by someone else, a lock or the response times out, an error
status has switched the record off. -/
def abandons (kind : FetcherKind) : FetchStage → Answer → Bool
  | .prepare _, .skipped | .disable, .ok => true
  | .prepare _, .failed failure | .fetch _, .failed failure =>
      kind = .profile && (failure = .readTimeout || failure = .lockTimeout)
  | _, _ => false

def abandoned (event : FetcherEvent) (w : FetcherHistory) : Bool :=
  match event with
  | .execute i answer => abandons config.kind (w.fetcher.programs i) answer
  | _ => false

/-- No execution is abandoned by the event. -/
def Completes (event : FetcherEvent) (w : FetcherHistory) : Prop := abandoned config event w = false

instance (event : FetcherEvent) (w : FetcherHistory) : Decidable (Completes config event w) :=
  inferInstanceAs (Decidable (abandoned config event w = false))

/-- An execution that has returned without an exception has stored its data, up to
the success hook. -/
def Truthful (w : FetcherHistory) : Prop :=
  ∀ i h, w.fetcher.scheduler.handlers[i]? = some h →
    (h.stage = .executing → w.fetcher.programs i = .returned false → w.stored i = true) ∧
    (h.stage = .hook false → w.stored i = true)

variable {config} {w w' : FetcherHistory} {event : FetcherEvent}

end FetcherHistory

/-- The awaits after which `_execute_job` returns normally. -/
inductive FetcherKind.Returns (kind : FetcherKind) : FetchStage → Answer → Prop where
  | stored : kind.Returns .store .ok
  | skipped (attempt : Nat) (hkind : kind = .profile) : kind.Returns (.prepare attempt) .skipped
  | disabled : kind.Returns .disable .ok
  | prepare (attempt : Nat) (failure : FetchFailure) (hkind : kind = .profile)
      (hfailure : failure = .readTimeout ∨ failure = .lockTimeout) :
      kind.Returns (.prepare attempt) (.failed failure)
  | fetch (attempt : Nat) (failure : FetchFailure) (hkind : kind = .profile)
      (hfailure : failure = .readTimeout ∨ failure = .lockTimeout) :
      kind.Returns (.fetch attempt) (.failed failure)

theorem afterFailure_returned {kind : FetcherKind} {attempt : Nat} {failure : FetchFailure}
    (h : kind.afterFailure attempt failure = .returned false) :
    kind = .profile ∧ (failure = .readTimeout ∨ failure = .lockTimeout) := by
  cases kind <;> cases failure <;> simp [FetcherKind.afterFailure] at h ⊢ <;> split at h <;> cases h

theorem Fetcher.advance_program {config : FetcherConfig} {f f' : Fetcher} {i recordId : Nat}
    {stage : FetchStage} {answer : Answer}
    (hadvance : f.advance config i recordId stage answer = some f') :
    f'.scheduler = f.scheduler ∧ ∃ next, f'.programs = Function.update f.programs i next ∧
      (next = .returned false → config.kind.Returns stage answer) := by
  unfold advance at hadvance
  split at hadvance
  case h_1 =>
      refine Option.some.inj hadvance ▸ ⟨rfl, _, rfl, ?_⟩
      split <;> nofun
  case h_4 =>
      obtain ⟨hkind, hadvance⟩ := Option.ite_none_right_eq_some.mp hadvance
      exact Option.some.inj hadvance ▸ ⟨rfl, _, rfl, fun _ => .skipped _ hkind⟩
  case h_5 =>
      refine Option.some.inj hadvance ▸ ⟨rfl, _, rfl, fun hreturned => ?_⟩
      obtain ⟨hkind, hfailure⟩ := afterFailure_returned hreturned
      exact .prepare _ _ hkind hfailure
  case h_7 =>
      refine Option.some.inj hadvance ▸ ⟨rfl, _, rfl, fun hreturned => ?_⟩
      obtain ⟨hkind, hfailure⟩ := afterFailure_returned hreturned
      exact .fetch _ _ hkind hfailure
  case h_8 =>
      obtain ⟨task, -, hadvance⟩ := Option.bind_eq_some_iff.mp hadvance
      exact Option.some.inj hadvance ▸ ⟨rfl, _, rfl, fun _ => .stored⟩
  case h_10 => exact Option.some.inj hadvance ▸ ⟨rfl, _, rfl, fun _ => .disabled⟩
  case h_14 => cases hadvance
  all_goals exact Option.some.inj hadvance ▸ ⟨rfl, _, rfl, nofun⟩

namespace FetcherHistory

variable {config : FetcherConfig} {w w' : FetcherHistory} {event : FetcherEvent}

/-- An execution that completes and returns has stored its data. -/
theorem stored_of_returns {i : Nat} {answer : Answer}
    (hcompletes : Completes config (.execute i answer) w)
    (hreturns : config.kind.Returns (w.fetcher.programs i) answer) :
    record w.fetcher w.stored (.execute i answer) i = true := by
  unfold Completes abandoned at hcompletes
  dsimp only at hcompletes
  generalize hprogram : w.fetcher.programs i = stage at hreturns hcompletes
  cases hreturns with
  | stored => simp [record, hprogram]
  | skipped attempt hkind => cases hcompletes
  | disabled => cases hcompletes
  | prepare attempt failure hkind hfailure | fetch attempt failure hkind hfailure =>
      rcases hfailure with rfl | rfl <;> simp [abandons, hkind] at hcompletes

theorem Truthful.execute {i : Nat} {answer : Answer} {h₀ : Handler} {fetcher : Fetcher}
    (hw : w.Truthful) (hcompletes : Completes config (.execute i answer) w)
    (hget₀ : w.fetcher.scheduler.handlers[i]? = some h₀)
    (hstage₀ : h₀.stage = .executing)
    (hadvance : w.fetcher.advance config i h₀.jobId (w.fetcher.programs i) answer = some fetcher) :
    Truthful ⟨fetcher, record w.fetcher w.stored (.execute i answer)⟩ := by
  obtain ⟨hscheduler, next, hprograms, hreturns⟩ := Fetcher.advance_program hadvance
  intro j h hget
  rw [hscheduler] at hget
  by_cases hij : j = i
  · subst hij
    obtain rfl := Option.some.inj (hget₀.symm.trans hget)
    rw [hprograms, Function.update_self]
    exact ⟨fun _ hreturned => stored_of_returns hcompletes (hreturns hreturned), by simp [hstage₀]⟩
  · have hstored : record w.fetcher w.stored (.execute i answer) j = w.stored j := by
      unfold record
      dsimp only
      split
      · exact Function.update_of_ne hij _ _
      · rfl
    dsimp only
    rw [hprograms, Function.update_of_ne hij, hstored]
    exact hw j h hget

/-- What an action of the scheduler leaves alone. -/
theorem handle_frame {action : Action} {i : Nat} (hne : action ≠ .acquire i) :
    record w.fetcher w.stored (.handle action) i = w.stored i ∧
      (w.fetcher.effect action).programs i = w.fetcher.programs i := by
  cases action with
  | acquire j =>
      have hij : i ≠ j := fun heq => hne (heq ▸ rfl)
      exact ⟨Function.update_of_ne hij _ _, Function.update_of_ne hij _ _⟩
  | hooked j raised now =>
      refine ⟨rfl, ?_⟩
      unfold Fetcher.effect
      dsimp only
      split
      · split <;> rfl
      · rfl
  | receive | schedule | wake | executed | reschedule | finished => exact ⟨rfl, rfl⟩

theorem Truthful.handle {action : Action} {scheduler : Scheduler} (hw : w.Truthful)
    (hpermits : w.fetcher.permits action = true)
    (hmove : Scheduler.Move config.service w.fetcher.scheduler action scheduler) :
    Truthful ⟨{ w.fetcher.effect action with scheduler := scheduler },
      record w.fetcher w.stored (.handle action)⟩ := by
  intro i h hget
  constructor
  · intro hstage hreturned
    rcases hmove.origin hget (Or.inl hstage) with ⟨hne, hold⟩ | ⟨rfl, -⟩ | ⟨-, hhook, -⟩
    · obtain ⟨hstored, hprogram⟩ := handle_frame hne
      exact hstored.trans ((hw i h hold).1 hstage (hprogram.symm.trans hreturned))
    · simp [Fetcher.effect, Fetcher.setProgram] at hreturned
    · rw [hhook] at hstage
      cases hstage
  · intro hstage
    rcases hmove.origin hget (Or.inr hstage) with
      ⟨hne, hold⟩ | ⟨-, hexecuting⟩ | ⟨rfl, -, h₀, hold, hexecuting⟩
    · exact (handle_frame hne).1.trans ((hw i h hold).2 hstage)
    · rw [hexecuting] at hstage
      cases hstage
    · exact (hw i h₀ hold).1 hexecuting (by simpa [Fetcher.permits] using hpermits)

theorem Truthful.step (hw : w.Truthful) (hcompletes : Completes config event w)
    (hstep : FetcherHistory.step config event w = some w') : w'.Truthful := by
  obtain ⟨fetcher, hfetcher, hstep⟩ := Option.bind_eq_some_iff.mp hstep
  obtain rfl := Option.some.inj hstep
  cases Fetcher.step_move hfetcher with
  | start => exact nofun
  | preloaded clock records =>
      intro i h hget
      rw [Scheduler.loadRecords_handlers] at hget
      exact hw i h hget
  | load recordId now instruction scheduler hfrom hmove =>
      intro i h hget
      cases hmove <;> exact hw i h hget
  | handle action scheduler programs db =>
      obtain ⟨hpermits, hfetcher⟩ := Option.ite_none_right_eq_some.mp hfetcher
      obtain ⟨scheduler', hscheduler, hfetcher⟩ := Option.bind_eq_some_iff.mp hfetcher
      rw [← Option.some.inj hfetcher]
      exact hw.handle hpermits (Scheduler.step_move hscheduler)
  | execute i answer | fetch i | disable i =>
      obtain ⟨h₀, hget₀, hfetcher⟩ := Option.bind_eq_some_iff.mp hfetcher
      obtain ⟨hstage₀, hadvance⟩ := Option.ite_none_right_eq_some.mp hfetcher
      exact hw.execute hcompletes hget₀ hstage₀ hadvance
  | _ => exact hw

theorem truthful_initially (db : Database) : (initially config db).Truthful := nofun

/-- In a run whose executions complete, the time of the last fetch of a record is
changed only by the success hook of a handler of the record that has stored the data
its execution fetched. -/
theorem lastFetch_of_stored (config : FetcherConfig) (db : Database) {events : List FetcherEvent}
    (hcompletes : Runs.Meets (FetcherHistory.step config) (Completes config) events
      (initially config db))
    (hrun : Runs.run (FetcherHistory.step config) events (initially config db) = some w)
    (hstep : FetcherHistory.step config event w = some w') (id : Nat)
    (hchanged : w'.fetcher.db.lastFetch id ≠ w.fetcher.db.lastFetch id) :
    ∃ i now, event = .handle (.hooked i false now) ∧ w.stored i = true ∧
      w.fetcher.scheduler.handlers[i]? = some ⟨id, .hook false⟩ := by
  have hw : w.Truthful := Runs.invariant_of_run Truthful
    (fun _ _ _ hw hcompletes hstep => hw.step hcompletes hstep)
    (truthful_initially db) hcompletes hrun
  obtain ⟨fetcher, hfetcher, hstep⟩ := Option.bind_eq_some_iff.mp hstep
  obtain rfl := Option.some.inj hstep
  obtain ⟨i, now, rfl, hget⟩ := Fetcher.lastFetch_step hfetcher hchanged
  exact ⟨i, now, rfl, (hw i _ hget).2 rfl, hget⟩

/-- The profile of user 7, due at start-up. -/
def oneProfile : Database := ⟨[⟨1, 7, true, none⟩], [⟨7, false⟩], List.nodup_singleton _⟩

/-- Its execution, from the start of the service to the success hook. -/
def oneExecution (awaits : List Answer) : List FetcherEvent :=
  [.preloaded (fun _ => 0), .handle .schedule, .handle (.wake 0 0), .handle (.acquire 0)] ++
    awaits.map (.execute 0) ++ [.handle (.executed 0 false)]

theorem storedProfile_lastFetch : ∃ w w',
    Runs.run (step ⟨.profile, 5, 10, 10⟩) (oneExecution [.ok, .ok, .ok, .ok])
      (initially ⟨.profile, 5, 10, 10⟩ oneProfile) = some w ∧
    step ⟨.profile, 5, 10, 10⟩ (.handle (.hooked 0 false 3)) w = some w' ∧
    w'.fetcher.db.lastFetch 1 = some 3 ∧
    ∃ i now, FetcherEvent.handle (.hooked 0 false 3) = .handle (.hooked i false now) ∧
      w.stored i = true ∧ w.fetcher.scheduler.handlers[i]? = some ⟨1, .hook false⟩ := by
  have hcompletes : Runs.Meets (step ⟨.profile, 5, 10, 10⟩) (Completes ⟨.profile, 5, 10, 10⟩)
      (oneExecution [.ok, .ok, .ok, .ok]) (initially ⟨.profile, 5, 10, 10⟩ oneProfile) := by
    decide +kernel
  refine ⟨_, _, rfl, rfl, by decide +kernel, ?_⟩
  exact lastFetch_of_stored ⟨.profile, 5, 10, 10⟩ oneProfile hcompletes rfl rfl 1
    (by decide +kernel)

/-- Another procedure holds the lock of the profile: nothing is fetched, and the
record is marked as fetched. -/
theorem skippedProfile_lastFetch : ∃ w w',
    Runs.run (step ⟨.profile, 5, 10, 10⟩) (oneExecution [.ok, .skipped])
      (initially ⟨.profile, 5, 10, 10⟩ oneProfile) = some w ∧
    step ⟨.profile, 5, 10, 10⟩ (.handle (.hooked 0 false 3)) w = some w' ∧
    w.fetcher.db.lastFetch 1 = none ∧ w'.fetcher.db.lastFetch 1 = some 3 ∧
    w.fetcher.fetches = [] ∧ w.fetcher.scheduler.handlers.length = 1 ∧ w.stored 0 = false := by
  refine ⟨_, _, rfl, rfl, ?_⟩
  decide +kernel

end FetcherHistory

end Graveboards.Daemon
