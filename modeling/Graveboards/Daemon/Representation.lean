import Graveboards.Daemon.Scheduler

/-!
What the heap, the set of active ids, the semaphore and the condition say about
the handlers, at every await of every coroutine.
-/

namespace Graveboards.Daemon

open Library

namespace HandlerStage

variable {stage : HandlerStage}

theorem live_of_holding (h : stage.holding = true) : stage.live = true := by
  cases stage <;> first | rfl | cases h

theorem holding_of_waiting (h : stage.waiting = true) : stage.holding = true := by
  cases stage <;> first | rfl | cases h

theorem not_finishing_of_holding (h : stage.holding = true) : stage.isFinishing = false := by
  cases stage <;> first | rfl | cases h

theorem live_iff : stage.live = true ↔ stage.holding = true ∨ stage.isFinishing = true := by
  cases stage <;> simp [live, holding, isFinishing]

end HandlerStage

namespace Scheduler

/-- The handlers of an id in a stage of the kind. -/
def count (kind : HandlerStage → Bool) (jobId : Nat) (s : Scheduler) : Nat :=
  s.handlers.countP (fun h => kind h.stage && h.jobId = jobId)

structure Consistent (service : Service) (s : Scheduler) : Prop where
  active : ∀ id, s.count HandlerStage.holding id = (decide (id ∈ s.activeJobIds)).toNat
  live : ∀ id, s.count HandlerStage.live id ≤ 1
  semaphore :
      s.semaphore + s.handlers.countP (fun h => h.stage.isExecuting) = service.jobConcurrency
  condition : s.handlers.countP (fun h => h.stage.isFinishing) = s.locked.toNat
  kept : service.shouldReschedule = true → ∀ id ∈ s.loaded,
    (∃ job ∈ s.heap.entries, job.jobId = id) ∨ id ∈ s.activeJobIds

/-- The id has an entry in the heap or is active. -/
def tracks (s : Scheduler) (id : Nat) : Prop :=
  (∃ job ∈ s.heap.entries, job.jobId = id) ∨ id ∈ s.activeJobIds

instance (s : Scheduler) (id : Nat) : Decidable (s.tracks id) :=
  inferInstanceAs (Decidable ((∃ job ∈ s.heap.entries, job.jobId = id) ∨ id ∈ s.activeJobIds))

section Moves

variable {service : Service} {s s' : Scheduler} {action : Action} {i : Nat} {h : Handler}

section Tracking

variable {id : Nat}

theorem tracks_push {jobId executionTime : Nat} :
    tracks { s with heap := s.heap.push ⟨executionTime, jobId⟩ } id ↔ id = jobId ∨ s.tracks id := by
  simp only [tracks, PriorityQueue.mem_push, exists_eq_or_imp, or_assoc, eq_comm]

/-- A step that takes an entry off the heap and leaves its id active. -/
theorem tracks_of_pop {job : Job} {heap : JobHeap} {active : Finset Nat} (handlers : List Handler)
    (hpop : s.heap.pop = some (job, heap)) (hjob : job.jobId ∈ active)
    (hactive : s.activeJobIds ⊆ active) (hid : s.tracks id) :
    tracks { s with heap := heap, activeJobIds := active, handlers := handlers } id := by
  rcases hid with ⟨other, hother, rfl⟩ | hid
  · rw [PriorityQueue.entries_of_pop hpop] at hother
    rcases List.mem_cons.mp hother with rfl | hrest
    · exact Or.inr hjob
    · exact Or.inl ⟨other, hrest, rfl⟩
  · exact Or.inr (hactive hid)

/-- A rescheduling service keeps track of every id. -/
theorem Move.tracks_mono (hservice : service.shouldReschedule = true)
    (hmove : Move service s action s') (hid : s.tracks id) : s'.tracks id := by
  cases hmove with
  | load jobId instruction now executionTime hfree htime => exact tracks_push.mpr (Or.inr hid)
  | skip | wake | acquire | executed | hooked | finished => exact hid
  | drop job heap hfree hpop hactive =>
      exact tracks_of_pop s.handlers hpop hactive (Finset.Subset.refl _) hid
  | spawn job heap hfree hpop hactive =>
      exact tracks_of_pop _ hpop (Finset.mem_insert_self _ _) (Finset.subset_insert _ _) hid
  | discard i h failed raised now hget hfrom hnot =>
      rw [hservice] at hnot
      cases hnot
  | reschedule i h next hget hfrom hfree =>
      rcases hid with ⟨job, hjob, rfl⟩ | hactive
      · exact Or.inl ⟨job, PriorityQueue.mem_push.mpr (Or.inr hjob), rfl⟩
      · by_cases heq : id = h.jobId
        · exact Or.inl ⟨_, PriorityQueue.mem_push.mpr (Or.inl rfl), heq.symm⟩
        · exact Or.inr (Finset.mem_erase.mpr ⟨heq, hactive⟩)

end Tracking

theorem count_set (hget : s.handlers[i]? = some h) (stage : HandlerStage)
    (kind : HandlerStage → Bool) (id : Nat) :
    (s.handlers.set i { h with stage := stage }).countP (fun h => kind h.stage && h.jobId = id) +
        (kind h.stage && decide (h.jobId = id)).toNat =
      s.count kind id + (kind stage && decide (h.jobId = id)).toNat :=
  Runs.countP_set_add (fun h => kind h.stage && h.jobId = id) hget { h with stage := stage }

/-- The handlers of an id after one has been spawned. -/
theorem count_spawn (handlers : List Handler) (kind : HandlerStage → Bool) (id : Nat) :
    (handlers ++ [h]).countP (fun h => kind h.stage && h.jobId = id) =
      handlers.countP (fun h => kind h.stage && h.jobId = id) +
        (kind h.stage && decide (h.jobId = id)).toNat := by
  rw [List.countP_append, List.countP_singleton]
  cases kind h.stage && decide (h.jobId = id) <;> rfl

/-- The id of a handler that holds it is active. -/
theorem Consistent.mem_active (hs : Consistent service s) (hget : s.handlers[i]? = some h)
    (hfrom : h.stage.holding = true) : h.jobId ∈ s.activeJobIds := by
  have hpos : 0 < s.count HandlerStage.holding h.jobId :=
    List.countP_pos_iff.mpr ⟨h, List.mem_of_getElem? hget, by simp [hfrom]⟩
  rw [hs.active] at hpos
  by_contra hnot
  simp [hnot] at hpos

/-- A handler that ends up less alive than it was. -/
theorem Consistent.live_set (hs : Consistent service s) (hget : s.handlers[i]? = some h)
    (stage : HandlerStage) (hfrom : h.stage.live = true) (id : Nat) :
    (s.handlers.set i { h with stage := stage }).countP
      (fun h => h.stage.live && h.jobId = id) ≤ 1 :=
  (Runs.countP_set_le hget (by simp [hfrom])).trans (hs.live id)

/-- A move between two stages in which the id is held. -/
theorem Consistent.advance (hs : Consistent service s) (hget : s.handlers[i]? = some h)
    (stage : HandlerStage) (hfrom : h.stage.holding = true) (hto : stage.holding = true)
    (free : Nat) (hfree : free + stage.isExecuting.toNat = s.semaphore + h.stage.isExecuting.toNat)
    (owed : Finset Nat) :
    Consistent service { s.setStage i h stage with semaphore := free, owed := owed } where
  active := by
    intro id
    have hcount := count_set hget stage HandlerStage.holding id
    rw [hfrom, hto, hs.active id] at hcount
    exact Nat.add_right_cancel hcount
  live := hs.live_set hget stage (HandlerStage.live_of_holding hfrom)
  semaphore := by
    have hcount := Runs.countP_set_add (fun h : Handler => h.stage.isExecuting) hget
      { h with stage := stage }
    have hbefore := hs.semaphore
    dsimp only [setStage] at hcount ⊢
    omega
  condition := by
    have hcount := Runs.countP_set_of_eq (p := fun h : Handler => h.stage.isFinishing)
      (b := { h with stage := stage }) hget (by
        rw [HandlerStage.not_finishing_of_holding hfrom, HandlerStage.not_finishing_of_holding hto])
    exact hcount.trans hs.condition
  kept := hs.kept

/-- The id of a handler that lets it go is no longer active. -/
theorem Consistent.release (hs : Consistent service s) (hget : s.handlers[i]? = some h)
    (stage : HandlerStage) (hfrom : h.stage.holding = true)
    (hto : stage.holding = false) (id : Nat) :
    (s.handlers.set i { h with stage := stage }).countP (fun h => h.stage.holding && h.jobId = id) =
      (decide (id ∈ s.activeJobIds.erase h.jobId)).toNat := by
  have hcount := count_set hget stage HandlerStage.holding id
  have hmem := hs.mem_active hget hfrom
  rw [hfrom, hto, hs.active id] at hcount
  by_cases heq : h.jobId = id
  · subst heq
    simp only [hmem, decide_true, Bool.and_true, Bool.toNat_true, Bool.toNat_false] at hcount
    simp only [Finset.notMem_erase, decide_false, Bool.toNat_false]
    omega
  · simp only [heq, decide_false, Bool.and_false, Bool.toNat_false, Nat.add_zero] at hcount
    rw [hcount]
    simp [Finset.mem_erase, Ne.symm heq]

/-- A handler that stops holding its id is not executing. -/
theorem Consistent.semaphore_set (hs : Consistent service s) (hget : s.handlers[i]? = some h)
    (stage : HandlerStage) (hfrom : h.stage.isExecuting = false) (hto : stage.isExecuting = false) :
    s.semaphore + (s.handlers.set i { h with stage := stage }).countP
    (fun h => h.stage.isExecuting) =
      service.jobConcurrency := by
  rw [Runs.countP_set_of_eq (p := fun h : Handler => h.stage.isExecuting) hget (by rw [hfrom, hto])]
  exact hs.semaphore

theorem finishing_set (hget : s.handlers[i]? = some h) (stage : HandlerStage) {before after : Bool}
    (hfrom : h.stage.isFinishing = before) (hto : stage.isFinishing = after) :
    (s.handlers.set i { h with stage := stage }).countP (fun h => h.stage.isFinishing) +
        before.toNat =
      s.handlers.countP (fun h => h.stage.isFinishing) + after.toNat := by
  subst hfrom hto
  exact Runs.countP_set_add (fun h : Handler => h.stage.isFinishing) hget { h with stage := stage }

/-- A loaded job is in the heap. -/
theorem Consistent.load (hs : Consistent service s) (jobId executionTime : Nat) :
    Consistent service { s with
      heap := s.heap.push ⟨executionTime, jobId⟩
      loaded := insert jobId s.loaded } := by
  refine { hs with kept := fun hservice id hid => ?_ }
  apply tracks_push.mpr
  exact (Finset.mem_insert.mp hid).imp_right (hs.kept hservice id)

theorem Consistent.move (hs : Consistent service s) (hmove : Move service s action s') :
    Consistent service s' := by
  have hmove' := hmove
  cases hmove with
  | load jobId instruction now executionTime hfree htime =>
      exact { hs.load jobId executionTime with }
  | skip jobId instruction now hfree htime => exact { hs with }
  | drop job heap hfree hpop hactive =>
      exact { hs with
        kept := fun hservice id hid => hmove'.tracks_mono hservice (hs.kept hservice id hid) }
  | spawn job heap hfree hpop hactive =>
      have hnone : s.count HandlerStage.holding job.jobId = 0 := by
        rw [hs.active]
        simp [hactive]
      have hlive : s.count HandlerStage.live job.jobId = 0 := by
        -- No handler awaits the finish hook, or the condition would be locked.
        have hfinishing := hs.condition
        rw [hfree, Bool.toNat_false, List.countP_eq_zero] at hfinishing
        rw [count, List.countP_eq_zero] at hnone ⊢
        intro h hh hlive
        simp only [Bool.and_eq_true, HandlerStage.live_iff, decide_eq_true_eq] at hlive
        rcases hlive with ⟨hholding | hfinish, hid⟩
        · exact hnone h hh (by simp [hholding, hid])
        · exact hfinishing h hh hfinish
      refine ⟨fun id => ?_, fun id => ?_, ?_, ?_, fun hservice id hid => ?_⟩
      · rw [count, count_spawn, ← count, hs.active]
        by_cases heq : job.jobId = id
        · subst heq
          simp [hactive, HandlerStage.holding]
        · simp [heq, Ne.symm heq]
      · rw [count, count_spawn, ← count]
        by_cases heq : job.jobId = id
        · subst heq
          rw [hlive]
          exact Nat.zero_add _ ▸ Bool.toNat_le _
        · simpa [heq] using hs.live id
      · simpa [HandlerStage.isExecuting] using hs.semaphore
      · simpa [HandlerStage.isFinishing] using hs.condition
      · exact hmove'.tracks_mono hservice (hs.kept hservice id hid)
  | wake i now h executionTime hget hfrom =>
      exact hs.advance hget .queued (by rw [hfrom]; rfl) rfl s.semaphore (by rw [hfrom]; rfl) s.owed
  | acquire i h free hget hfrom hsemaphore =>
      exact hs.advance hget .executing (by rw [hfrom]; rfl) rfl free
        (by rw [hfrom, hsemaphore]; rfl) _
  | executed i h raised hget hfrom =>
      exact hs.advance hget (.hook raised) (by rw [hfrom]; rfl) rfl _ (by rw [hfrom]; rfl) s.owed
  | hooked i h failed raised now hget hfrom hservice =>
      exact hs.advance hget (.rescheduling _) (by rw [hfrom]; rfl) rfl s.semaphore
        (by rw [hfrom]; rfl) s.owed
  | discard i h failed raised now hget hfrom hservice =>
      have hholding : h.stage.holding = true := by rw [hfrom]; rfl
      refine ⟨hs.release hget .ended hholding rfl, hs.live_set hget .ended (by rw [hfrom]; rfl),
        hs.semaphore_set hget .ended (by rw [hfrom]; rfl) rfl, ?_, ?_⟩
      · refine (Runs.countP_set_of_eq hget ?_).trans hs.condition
        rw [hfrom]
        rfl
      · intro hnot
        rw [hservice] at hnot
        cases hnot
  | reschedule i h next hget hfrom hfree =>
      have hholding : h.stage.holding = true := by rw [hfrom]; rfl
      refine ⟨hs.release hget .finishing hholding rfl,
        hs.live_set hget .finishing (by rw [hfrom]; rfl),
        hs.semaphore_set hget .finishing (by rw [hfrom]; rfl) rfl, ?_, fun hservice id hid => ?_⟩
      · have hcount :=
          finishing_set hget .finishing (show h.stage.isFinishing = false by rw [hfrom]; rfl)
          (show _ = true from rfl)
        rw [hs.condition, hfree] at hcount
        exact hcount.trans (Nat.zero_add _)
      · exact hmove'.tracks_mono hservice (hs.kept hservice id hid)
  | finished i h raised hget hfrom =>
      refine ⟨fun id => ?_, hs.live_set hget .ended (by rw [hfrom]; rfl),
        hs.semaphore_set hget .ended (by rw [hfrom]; rfl) rfl, ?_, hs.kept⟩
      · refine (Runs.countP_set_of_eq hget ?_).trans (hs.active id)
        rw [hfrom]
        rfl
      · have hcount :=
          finishing_set hget .ended (show h.stage.isFinishing = true by rw [hfrom]; rfl)
          (show _ = false from rfl)
        have hle : s.locked.toNat ≤ 1 := Bool.toNat_le _
        rw [hs.condition] at hcount
        simp only [Bool.toNat_true, Bool.toNat_false] at hcount ⊢
        dsimp only [setStage]
        omega

end Moves

theorem consistent_initially (service : Service) : Consistent service (initially service) :=
  ⟨fun id => by simp [initially, count], fun id => by simp [initially, count],
    by simp [initially], by simp [initially], by simp [initially]⟩

theorem consistent_run {service : Service} {actions : List Action} {s : Scheduler}
    (hrun : Runs.run (step service) actions (initially service) = some s) : Consistent service s :=
  Runs.invariant_of_steps (Consistent service) (fun _ _ _ hs hstep => hs.move (step_move hstep))
    (consistent_initially service) hrun

/-- In every reachable state: an id has at most one live handler; it is active
exactly while that handler is live and not in its finish hook, in which the
condition is held; no more jobs execute than the concurrency allows; and a
rescheduling service has every id it ever loaded in the heap or active. -/
theorem handlers_represented (service : Service) {actions : List Action} {s : Scheduler}
    (hrun : Runs.run (step service) actions (initially service) = some s) :
    (∀ id, s.handlers.countP (fun h => h.stage.live && h.jobId = id) ≤ 1) ∧
    (∀ id, id ∈ s.activeJobIds ↔
      ∃ h ∈ s.handlers, h.jobId = id ∧ h.stage.live = true ∧ h.stage.isFinishing = false) ∧
    (∀ h ∈ s.handlers, h.stage.isFinishing = true → s.locked = true) ∧
    s.handlers.countP (fun h => h.stage.isExecuting) ≤ service.jobConcurrency ∧
    (service.shouldReschedule = true → ∀ id ∈ s.loaded,
      (∃ job ∈ s.heap.entries, job.jobId = id) ∨ id ∈ s.activeJobIds) := by
  have hs := consistent_run hrun
  refine ⟨hs.live, fun id => ?_, fun h hh hfinishing => ?_, ?_, hs.kept⟩
  · have hactive := hs.active id
    constructor
    · intro hmem
      have hpos : 0 < s.count HandlerStage.holding id := by
        rw [hactive]
        simp [hmem]
      obtain ⟨h, hh, hboth⟩ := List.countP_pos_iff.mp hpos
      simp only [Bool.and_eq_true, decide_eq_true_eq] at hboth
      exact ⟨h, hh, hboth.2, HandlerStage.live_of_holding hboth.1,
        HandlerStage.not_finishing_of_holding hboth.1⟩
    · rintro ⟨h, hh, rfl, hlive, hnot⟩
      have hholding := (HandlerStage.live_iff.mp hlive).resolve_right (by simp [hnot])
      obtain ⟨i, hget⟩ := List.mem_iff_getElem?.mp hh
      exact hs.mem_active hget hholding
  · have hpos : 0 < s.handlers.countP (fun h => h.stage.isFinishing) :=
      List.countP_pos_iff.mpr ⟨h, hh, hfinishing⟩
    rw [hs.condition] at hpos
    cases hlocked : s.locked with
    | true => rfl
    | false => simp [hlocked] at hpos
  · have hsemaphore := hs.semaphore
    omega

/-- From the receipt of job 7 to the hook after its execution. -/
def untilHook : List Action :=
  [.receive 7 none 0, .schedule, .wake 0 1, .acquire 0, .executed 0 false]

theorem executedJob_represented :
    ∃ s, Runs.run (step ⟨true, 5, 10⟩) untilHook (initially ⟨true, 5, 10⟩) = some s ∧
      7 ∈ s.loaded ∧ ((∃ job ∈ s.heap.entries, job.jobId = 7) ∨ 7 ∈ s.activeJobIds) := by
  refine ⟨_, rfl, by decide +kernel, ?_⟩
  exact (@handlers_represented ⟨true, 5, 10⟩ untilHook _ rfl).2.2.2.2 rfl 7 (by decide +kernel)

/-- In its finish hook the handler is live and its id no longer active. -/
theorem finishHook_notActive :
    ∃ s, Runs.run (step ⟨true, 5, 10⟩) (untilHook ++ [.hooked 0 false 2, .reschedule 0])
        (initially ⟨true, 5, 10⟩) = some s ∧
      s.handlers = [⟨7, .finishing⟩] ∧ 7 ∉ s.activeJobIds := by
  refine ⟨_, rfl, rfl, by decide +kernel⟩

end Scheduler

end Graveboards.Daemon
