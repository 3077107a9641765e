import Graveboards.Daemon.Representation

/-!
Jobs that are received and never executed. The scheduler drops an id that is
still active; a handler keeps its id active until its last await, long after it
has begun to execute the job.
-/

namespace Graveboards.Daemon

open Library

/-- A receipt loads its job. The one-off services answer every receipt with
`JobLoadInstruction(execution_time=aware_utcnow())`. -/
def Action.loads : Action → Bool
  | .receive _ (some instruction) _ => !instruction.skip
  | _ => true

namespace Scheduler

/-- The id has an entry in the heap, or a handler that has still to execute it. -/
def pending (heap : JobHeap) (handlers : List Handler) (id : Nat) : Prop :=
  (∃ job ∈ heap.entries, job.jobId = id) ∨
    ∃ h ∈ handlers, h.stage.waiting = true ∧ h.jobId = id

instance (heap : JobHeap) (handlers : List Handler) (id : Nat) :
    Decidable (pending heap handlers id) :=
  inferInstanceAs (Decidable ((∃ job ∈ heap.entries, job.jobId = id) ∨
    ∃ h ∈ handlers, h.stage.waiting = true ∧ h.jobId = id))

/-- The scheduler drops no id that it still owes an execution, unless the id is
pending all the same. -/
def Serving : Action → Scheduler → Prop
  | .schedule, s => ∀ next ∈ s.heap.pop, next.1.jobId ∈ s.activeJobIds → next.1.jobId ∈ s.owed →
      pending next.2 s.handlers next.1.jobId
  | _, _ => True

instance : (action : Action) → (s : Scheduler) → Decidable (Serving action s)
  | .schedule, s => inferInstanceAs (Decidable (∀ next ∈ s.heap.pop,
      next.1.jobId ∈ s.activeJobIds → next.1.jobId ∈ s.owed →
        pending next.2 s.handlers next.1.jobId))
  | .receive _ _ _, _ => isTrue trivial
  | .wake _ _, _ => isTrue trivial
  | .acquire _, _ => isTrue trivial
  | .executed _ _, _ => isTrue trivial
  | .hooked _ _ _, _ => isTrue trivial
  | .reschedule _, _ => isTrue trivial
  | .finished _ _, _ => isTrue trivial

/-- Whatever is owed is pending. -/
def Served (s : Scheduler) : Prop := ∀ id ∈ s.owed, pending s.heap s.handlers id

section Moves

variable {service : Service} {s s' : Scheduler} {action : Action} {i : Nat} {h : Handler} {id : Nat}

theorem pending_push {heap : JobHeap} {handlers : List Handler} (job : Job)
    (hpending : pending heap handlers id) : pending (heap.push job) handlers id := by
  refine hpending.imp ?_ (fun hwaiting => hwaiting)
  rintro ⟨other, hother, hid⟩
  exact ⟨other, PriorityQueue.mem_push.mpr (Or.inr hother), hid⟩

/-- A handler that moves on makes no other id less pending. -/
theorem pending_set {heap : JobHeap} (hget : s.handlers[i]? = some h) (stage : HandlerStage)
    (hmoved : h.stage.waiting = true → stage.waiting = true ∨ id ≠ h.jobId)
    (hpending : pending heap s.handlers id) :
    pending heap (s.handlers.set i { h with stage := stage }) id := by
  rcases hpending with hheap | hwaiting
  · exact Or.inl hheap
  · refine Runs.exists_mem_set hget ?_ hwaiting
    rintro ⟨hstage, rfl⟩
    exact Or.inr ⟨(hmoved hstage).resolve_right (by simp), rfl⟩

theorem loadTime_of_loads {heap : JobHeap} {jobId now : Nat}
    {instruction : Option JobLoadInstruction}
    (hloads : (Action.receive jobId instruction now).loads = true) :
    loadTime service heap now instruction ≠ none := by
  cases instruction with
  | none => simp [loadTime]
  | some instruction =>
      have hskip : instruction.skip = false := by simpa [Action.loads] using hloads
      unfold loadTime
      simp only [hskip]
      split
      · next hcontra => cases hcontra
      · split
        · simp
        · simp
        · split <;> simp

theorem Served.move (hs : Served s) (hloads : action.loads = true) (hserving : Serving action s)
    (hmove : Move service s action s') : Served s' := by
  cases hmove with
  | load jobId instruction now executionTime hfree htime =>
      intro id hid
      rcases Finset.mem_insert.mp hid with rfl | hold
      · exact Or.inl ⟨_, PriorityQueue.mem_push.mpr (Or.inl rfl), rfl⟩
      · exact pending_push _ (hs id hold)
  | skip jobId instruction now hfree htime => exact absurd htime (loadTime_of_loads hloads)
  | drop job heap hfree hpop hactive =>
      intro id hid
      rcases hs id hid with ⟨other, hother, rfl⟩ | hwaiting
      · rw [PriorityQueue.entries_of_pop hpop] at hother
        rcases List.mem_cons.mp hother with rfl | hrest
        · exact hserving (other, heap) hpop hactive hid
        · exact Or.inl ⟨other, hrest, rfl⟩
      · exact Or.inr hwaiting
  | spawn job heap hfree hpop hactive =>
      intro id hid
      rcases hs id hid with ⟨other, hother, rfl⟩ | ⟨h, hh, hwaiting⟩
      · rw [PriorityQueue.entries_of_pop hpop] at hother
        rcases List.mem_cons.mp hother with rfl | hrest
        · exact Or.inr ⟨⟨other.jobId, .sleeping other.executionTime⟩, by simp, rfl, rfl⟩
        · exact Or.inl ⟨other, hrest, rfl⟩
      · exact Or.inr ⟨h, List.mem_append_left _ hh, hwaiting⟩
  | wake i now h executionTime hget hfrom =>
      exact fun id hid => pending_set hget .queued (fun _ => Or.inl rfl) (hs id hid)
  | acquire i h free hget hfrom hsemaphore =>
      intro id hid
      obtain ⟨hne, hold⟩ := Finset.mem_erase.mp hid
      exact pending_set hget .executing (fun _ => Or.inr hne) (hs id hold)
  | executed i h raised hget hfrom =>
      exact fun id hid => pending_set hget _ (by simp [hfrom, HandlerStage.waiting]) (hs id hid)
  | hooked i h failed raised now hget hfrom hservice =>
      exact fun id hid => pending_set hget _ (by simp [hfrom, HandlerStage.waiting]) (hs id hid)
  | discard i h failed raised now hget hfrom hservice =>
      exact fun id hid => pending_set hget _ (by simp [hfrom, HandlerStage.waiting]) (hs id hid)
  | reschedule i h next hget hfrom hfree =>
      exact fun id hid => pending_set hget _ (by simp [hfrom, HandlerStage.waiting])
        (pending_push _ (hs id hid))
  | finished i h raised hget hfrom =>
      exact fun id hid => pending_set hget _ (by simp [hfrom, HandlerStage.waiting]) (hs id hid)

end Moves

/-- In every run in which each receipt is loaded and the scheduler never drops
the last entry of an owed id whose handler has already begun to execute: with an
empty heap and no live handler, nothing is owed. -/
theorem every_receipt_executed (service : Service) {actions : List Action} {s : Scheduler}
    (hrun : Runs.run (step service) actions (initially service) = some s)
    (hloads : ∀ action ∈ actions, action.loads = true)
    (hmeets : Runs.Meets (step service) Serving actions (initially service))
    (hempty : s.heap.entries = []) (hidle : ∀ h ∈ s.handlers, h.stage.live = false) :
    s.owed = ∅ := by
  have hserved : Served s :=
    Runs.invariant_of_run Served
      (fun _ _ _ hs hboth hstep => hs.move hboth.1 hboth.2 (step_move hstep))
      (fun id hid => absurd hid (Finset.notMem_empty id)) (Runs.Meets.and_forall hloads hmeets) hrun
  refine Finset.eq_empty_of_forall_notMem (fun id hid => ?_)
  rcases hserved id hid with ⟨job, hjob, -⟩ | ⟨h, hh, hwaiting, -⟩
  · rw [hempty] at hjob
    cases hjob
  · have hlive := HandlerStage.live_of_holding (HandlerStage.holding_of_waiting hwaiting)
    rw [hidle h hh] at hlive
    cases hlive

/-- A one-off service with five workers. -/
def oneOff : Service := ⟨false, 5, 0⟩

/-- A receipt as the one-off services load it. -/
def receiveNow (jobId now : Nat) : Action := .receive jobId (some { executionTime := some now }) now

/-- Published again before its handler has begun, the job is executed once for
both receipts. -/
theorem earlyRepublication_executed :
    ∃ s, Runs.run (step oneOff)
        [receiveNow 7 1, .schedule, receiveNow 7 2, .schedule, .wake 0 2, .acquire 0,
          .executed 0 false, .hooked 0 false 3] (initially oneOff) = some s ∧ s.owed = ∅ := by
  refine ⟨_, rfl, @every_receipt_executed oneOff
    [receiveNow 7 1, .schedule, receiveNow 7 2, .schedule, .wake 0 2, .acquire 0,
      .executed 0 false, .hooked 0 false 3] _ rfl (by decide +kernel) (by decide +kernel)
    (by decide +kernel) (by decide +kernel)⟩

/-- Published again while its handler executes, the job is dropped: nothing is
left to do and the second receipt is still owed. -/
theorem lateRepublication_lost :
    ∃ s, Runs.run (step oneOff)
        [receiveNow 7 1, .schedule, .wake 0 1, .acquire 0, receiveNow 7 2, .schedule,
          .executed 0 true, .hooked 0 false 3] (initially oneOff) = some s ∧
      s.heap.entries = [] ∧ s.handlers = [⟨7, .ended⟩] ∧ s.owed = {7} := by
  refine ⟨_, rfl, ?_, ?_, ?_⟩ <;> decide +kernel

end Scheduler

end Graveboards.Daemon
