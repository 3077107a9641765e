import Graveboards.Requests.World

/-!
What one step of each program can do, said once. A move names the stage left,
the stage reached and the effect on the shared state; every invariant of the
pair is checked against the moves, not against the step functions.
-/

namespace Graveboards.Requests

open Library

/-- Before the check of the hash. -/
def PostStage.early : PostStage → Bool
  | .queue | .admin _ _ | .row _ _ | .beatmapset _ _ | .phase1 _ _ | .check _ _ => true
  | _ => false

/-- Before `EXISTS`. -/
def PostStage.checking : PostStage → Bool
  | .check _ _ => true
  | _ => false

/-- Between `EXISTS` and `HSET`. -/
def PostStage.critical : PostStage → Bool
  | .read _ _ | .clear _ | .reserve _ | .store _ => true
  | _ => false

/-- Past the check of the hash and before `HSET`. -/
def PostStage.cleared : PostStage → Bool
  | .clear _ | .reserve _ | .store _ => true
  | _ => false

/-- Between `HSET` and `PUBLISH`. -/
def PostStage.publishing : PostStage → Bool
  | .publish => true
  | _ => false

def PostStage.ended : PostStage → Bool
  | .accepted | .refused _ => true
  | _ => false

namespace PostStage

variable {stage : PostStage}

theorem early_outside (h : stage.early = true) :
    stage.critical = false ∧ stage.cleared = false ∧ stage.publishing = false := by
  cases stage <;> first | exact ⟨rfl, rfl, rfl⟩ | cases h

theorem cleared_critical (h : stage.cleared = true) : stage.critical = true := by
  cases stage <;> first | rfl | cases h

theorem critical_not_publishing (h : stage.critical = true) : stage.publishing = false := by
  cases stage <;> first | rfl | cases h

theorem ended_not_publishing (h : stage.ended = true) : stage.publishing = false := by
  cases stage <;> first | rfl | cases h

/-- A stage that follows an early one directly. -/
theorem next_outside (h : stage.early ∨ ∃ e, stage = .refused e) :
    stage.critical = false ∧ stage.cleared = false ∧ stage.publishing = false := by
  rcases h with hearly | ⟨e, rfl⟩
  · exact early_outside hearly
  · exact ⟨rfl, rfl, rfl⟩

end PostStage

/-- A fresh task: no marker is set. -/
def QueueRequestHandlerTask.fresh (task : QueueRequestHandlerTask) : Bool :=
  task.completedAt.isNone && task.failedAt.isNone

/-- The task a `POST` carries. -/
def PostStage.task? : PostStage → Option QueueRequestHandlerTask
  | .row _ task | .beatmapset _ task | .phase1 _ task | .check _ task | .read _ task
  | .clear task | .reserve task | .store task => some task
  | _ => none

/-- The steps of a `POST` with their effect. The last argument says whether the
handler job was published. -/
inductive PostMove (p : Post) (s : Shared) : Post → Shared → Bool → Prop where
  | early (stage : PostStage) (hfrom : p.stage.early) (hto : stage.early ∨ ∃ e, stage = .refused e)
      (htask : ∀ task ∈ stage.task?, task.fresh ∨ task ∈ p.stage.task?) :
      PostMove p s { p with stage := stage } s false
  | absent (queue : QueueRow) (task : QueueRequestHandlerTask) (hfrom : p.stage = .check queue task)
      (hhash : s.hash = none) : PostMove p s { p with stage := .reserve task } s false
  | present (queue : QueueRow) (task : QueueRequestHandlerTask) (fields : Fields)
      (hfrom : p.stage = .check queue task) (hhash : s.hash = some fields) :
      PostMove p s { p with stage := .read queue task } s false
  | refuse (e : HttpError) (hfrom : p.stage.critical) (hnot : ∀ task, p.stage ≠ .store task) :
      PostMove p s { p with stage := .refused e } s false
  | failedTask (queue : QueueRow) (task existing : QueueRequestHandlerTask) (fields : Fields)
      (hfrom : p.stage = .read queue task) (hhash : s.hash.getD Fields.empty = fields)
      (hread : QueueRequestHandlerTask.deserialize fields = .ok existing)
      (hfailed : existing.failedAt.isSome) : PostMove p s { p with stage := .clear task } s false
  | clear (task : QueueRequestHandlerTask) (stage : PostStage) (hfrom : p.stage = .clear task)
      (hto : stage = .reserve task ∨ stage = .refused .internal) :
      PostMove p s { p with stage := stage } { s with hash := none } false
  | reserve (task : QueueRequestHandlerTask) (hfrom : p.stage = .reserve task) :
      PostMove p s { p with stage := .store task, reserved := true } s false
  | store (task : QueueRequestHandlerTask) (stage : PostStage) (hfrom : p.stage = .store task)
      (hto : stage = .publish ∨ stage = .rollback) :
      PostMove p s { p with stage := stage, storedIn := some s.failures } (storeTask task s) false
  | storeFailed (task : QueueRequestHandlerTask) (hfrom : p.stage = .store task) :
      PostMove p s { p with stage := .rollback } s false
  | publish (stage : PostStage) (hfrom : p.stage = .publish)
      (hto : stage = .accepted ∨ stage = .rollback) : PostMove p s { p with stage := stage } s true
  | publishFailed (hfrom : p.stage = .publish) : PostMove p s { p with stage := .rollback } s false
  | rollback (hfrom : p.stage = .rollback) :
      PostMove p s { p with stage := .refused .internal, reserved := false } s false

/-- A call is about to store a fresh task only. -/
theorem PostMove.fresh {p p' : Post} {s s' : Shared} {b : Bool} (hmove : PostMove p s p' s' b)
    (hfresh : ∀ task ∈ p.stage.task?, task.fresh = true) :
    ∀ task ∈ p'.stage.task?, task.fresh = true := by
  cases hmove with
  | early stage hfrom hto htask =>
      intro task hmem
      rcases htask task hmem with hnew | hold
      · exact hnew
      · exact hfresh task hold
  | absent queue task hfrom hhash | present queue task fields hfrom hhash | reserve task hfrom
  | failedTask queue task existing fields hfrom hhash hread hfailed =>
      rw [hfrom] at hfresh
      exact hfresh
  | clear task stage hfrom hto =>
      rw [hfrom] at hfresh
      rcases hto with rfl | rfl
      · exact hfresh
      · simp [PostStage.task?]
  | store task stage hfrom hto => rcases hto with rfl | rfl <;> simp [PostStage.task?]
  | publish stage hfrom hto => rcases hto with rfl | rfl <;> simp [PostStage.task?]
  | refuse | storeFailed | publishFailed | rollback => simp [PostStage.task?]

/-- The critical section is entered by looking at the hash. -/
theorem PostMove.critical {p p' : Post} {s s' : Shared} {b : Bool} (hmove : PostMove p s p' s' b)
    (hto : p'.stage.critical = true) : p.stage.critical = true ∨ p.stage.checking = true := by
  cases hmove with
  | early stage hfrom hnext htask =>
      rw [(PostStage.next_outside hnext).1] at hto
      cases hto
  | absent queue task hfrom hhash | present queue task fields hfrom hhash =>
      exact Or.inr (by rw [hfrom]; rfl)
  | refuse e hfrom hnot => exact Or.inl hfrom
  | failedTask queue task existing fields hfrom hhash hread hfailed =>
      exact Or.inl (by rw [hfrom]; rfl)
  | clear task stage hfrom _ | store task stage hfrom _ => exact Or.inl (by rw [hfrom]; rfl)
  | reserve task hfrom | storeFailed task hfrom => exact Or.inl (by rw [hfrom]; rfl)
  | publish stage hfrom hnext => rcases hnext with rfl | rfl <;> cases hto
  | publishFailed | rollback => cases hto

/-- A call that looks at the hash while nobody is in the critical section is
alone there. -/
theorem PostMove.critical_le_one {p p' : Post} {s s' : Shared} {b : Bool}
    {posts : List Post} {i : Nat} (hmove : PostMove p s p' s' b) (hp : posts[i]? = some p)
    (hfree : p.stage.checking = true → ∀ q ∈ posts, q.stage.critical = false)
    (hone : posts.countP (fun q => q.stage.critical) ≤ 1) :
    (posts.set i p').countP (fun q => q.stage.critical) ≤ 1 := by
  cases hchecking : p.stage.checking with
  | true =>
      have hcount := Runs.countP_set_add (fun q : Post => q.stage.critical) hp p'
      have hzero : posts.countP (fun q => q.stage.critical) = 0 :=
        List.countP_eq_zero.mpr (by simpa using hfree hchecking)
      have hle : p'.stage.critical.toNat ≤ 1 := Bool.toNat_le _
      omega
  | false =>
      apply (Runs.countP_set_le hp ?_).trans hone
      intro hto
      exact (hmove.critical hto).resolve_right (by simp [hchecking])

theorem Submission.fresh_task (pair : Pair) (submission : Submission) (userId : Nat) :
    (submission.task pair userId).fresh = true := rfl

theorem openQueue_cases (pair : Pair) (submission : Submission) (row : Option QueueRow) :
    (∃ queue caller, openQueue pair submission row = .admin queue caller) ∨
      ∃ e, openQueue pair submission row = .refused e := by
  cases row with
  | none => exact Or.inr ⟨_, rfl⟩
  | some queue =>
      unfold openQueue
      dsimp only
      split
      · exact Or.inr ⟨_, rfl⟩
      · split
        · exact Or.inr ⟨_, rfl⟩
        · next caller _ => exact Or.inl ⟨queue, caller, rfl⟩

/-- An early stage that keeps its task or moves to an error. -/
theorem PostMove.keep {p : Post} {s : Shared} (stage : PostStage) (hfrom : p.stage.early)
    (hto : stage.early) (htask : stage.task? = p.stage.task?) :
    PostMove p s { p with stage := stage } s false :=
  .early stage hfrom (Or.inl hto) (fun _ htask' => Or.inr (htask ▸ htask'))

theorem PostMove.raise {p : Post} {s : Shared} (e : HttpError) (hfrom : p.stage.early) :
    PostMove p s { p with stage := .refused e } s false :=
  .early (.refused e) hfrom (Or.inr ⟨e, rfl⟩) (by simp [PostStage.task?])

theorem postStep_move {pair : Pair} {p p' : Post} {answer : PostAnswer} {s s' : Shared} {b : Bool}
    (h : postStep pair p answer s = some (p', s', b)) : PostMove p s p' s' b := by
  obtain ⟨submission, stage, reserved, storedIn⟩ := p
  cases stage with
  | queue =>
      rcases answer with row | _ | _ | _ | _ | (_ | _ | _) <;> cases h
      · rcases openQueue_cases pair submission row with ⟨queue, caller, hopen⟩ | ⟨e, hopen⟩
        · rw [hopen]
          exact .early _ rfl (Or.inl rfl) (by simp [PostStage.task?])
        · rw [hopen]
          exact .raise e rfl
      · exact .raise _ rfl
  | admin queue caller =>
      rcases answer with _ | isAdmin | _ | _ | _ | (_ | _ | _)
      · cases h
      · unfold postStep at h
        dsimp only at h
        split at h
        · cases h
          exact .raise _ rfl
        · cases h
          exact .early _ rfl (Or.inl rfl) (by simp [PostStage.task?, Submission.fresh_task])
      all_goals cases h
      exact .raise _ rfl
  | row queue task =>
      rcases answer with _ | _ | _ | _ | _ | (_ | _ | _)
      case replied.done =>
        unfold postStep at h
        dsimp only at h
        split at h
        · cases h
          exact .raise _ rfl
        · cases h
          exact .keep _ rfl rfl rfl
      all_goals cases h
      exact .raise _ rfl
  | beatmapset queue task =>
      rcases answer with _ | _ | status | _ | e | (_ | _ | _)
      case status =>
        unfold postStep at h
        dsimp only at h
        split at h
        · cases h
          exact .raise _ rfl
        · cases h
          exact .keep _ rfl rfl rfl
      all_goals cases h
      exact .raise e rfl
  | phase1 queue task =>
      rcases answer with _ | _ | _ | _ | e | (_ | _ | _) <;> cases h
      · exact .keep _ rfl rfl rfl
      · exact .raise e rfl
  | check queue task =>
      rcases answer with _ | _ | _ | _ | _ | (_ | _ | _)
      case replied.done =>
        unfold postStep at h
        dsimp only at h
        split at h
        · next hsome =>
            obtain ⟨fields, hhash⟩ := Option.isSome_iff_exists.mp hsome
            cases h
            exact .present queue task fields rfl hhash
        · next hnone =>
            cases h
            exact .absent queue task rfl (by simpa using hnone)
      all_goals cases h
      exact .raise _ rfl
  | read queue task =>
      rcases answer with _ | _ | _ | _ | _ | (_ | _ | _)
      case replied.done =>
        unfold postStep at h
        dsimp only at h
        unfold existingTask at h
        split at h
        · cases h
          exact .refuse _ rfl (by simp)
        · next existing hread =>
            split at h
            · next hfailed =>
                cases h
                exact .failedTask queue task existing _ rfl rfl hread hfailed
            · cases h
              exact .refuse _ rfl (by simp)
      all_goals cases h
      exact .refuse _ rfl (by simp)
  | clear task =>
      rcases answer with _ | _ | _ | _ | _ | (_ | _ | _) <;> cases h
      · exact .clear task _ rfl (Or.inl rfl)
      · exact .clear task _ rfl (Or.inr rfl)
      · exact .refuse _ rfl (by simp)
  | reserve task =>
      rcases answer with _ | _ | _ | _ | e | (_ | _ | _) <;> cases h
      · exact .reserve task rfl
      · exact .refuse e rfl (by simp)
  | store task =>
      rcases answer with _ | _ | _ | _ | _ | (_ | _ | _) <;> cases h
      · exact .store task _ rfl (Or.inl rfl)
      · exact .store task _ rfl (Or.inr rfl)
      · exact .storeFailed task rfl
  | publish =>
      rcases answer with _ | _ | _ | _ | _ | (_ | _ | _) <;> cases h
      · exact .publish _ rfl (Or.inl rfl)
      · exact .publish _ rfl (Or.inr rfl)
      · exact .publishFailed rfl
  | rollback =>
      rcases answer with _ | _ | _ | _ | _ | (_ | _ | _) <;> cases h
      exact .rollback rfl
  | accepted => rcases answer with _ | _ | _ | _ | _ | (_ | _ | _) <;> cases h
  | refused e => rcases answer with _ | _ | _ | _ | _ | (_ | _ | _) <;> cases h

/-! Jobs. -/

/-- The job has still to run, or runs. -/
def JobStage.unfinished : JobStage → Bool
  | .closing | .finished => false
  | _ => true

/-- The attempt the job is in, before it has come to its marker. -/
def JobStage.working? : JobStage → Option Nat
  | .read k | .archive k _ | .insert k _ | .snapshot k _ _ | .storeValidation k _
  | .publishValidation k _ | .complete k _ => some k
  | _ => none

/-- The row the attempt has inserted. -/
def JobStage.inserted? : JobStage → Option Nat
  | .snapshot _ _ requestId | .storeValidation _ requestId | .publishValidation _ requestId
  | .complete _ requestId => some requestId
  | _ => none

inductive JobMove (s : Shared) : JobStage → JobStage → Shared → Prop where
  | start : JobMove s .waiting (.read 1) s
  | drop : JobMove s .waiting .finished s
  | close : JobMove s .closing .finished s
  | again (k : Nat) : JobMove s (.sleep k) (.read (k + 1)) s
  | readable (k : Nat) (fields : Fields) (task : QueueRequestHandlerTask)
      (hhash : s.hash = some fields)
      (hread : QueueRequestHandlerTask.deserialize fields = .ok task) :
      JobMove s (.read k) (.archive k task) s
  | unreadable (k : Nat)
      (hread : ∀ fields, s.hash = some fields → ∀ task,
        QueueRequestHandlerTask.deserialize fields ≠ .ok task) :
      JobMove s (.read k) (.fail k false) s
  | archived (k : Nat)
      (task : QueueRequestHandlerTask) : JobMove s (.archive k task) (.insert k task) s
  | raised (k : Nat) (stage : JobStage) (retryable : Bool) (hfrom : stage.working? = some k) :
      JobMove s stage (.fail k retryable) s
  | inserted (k : Nat) (task : QueueRequestHandlerTask) (hrow : s.row = none) :
      JobMove s (.insert k task) (.snapshot k task s.nextId) (insertRow s)
  | insertLost (k : Nat) (task : QueueRequestHandlerTask) (hrow : s.row = none) :
      JobMove s (.insert k task) (.fail k false) (insertRow s)
  | snapshot (k : Nat) (task : QueueRequestHandlerTask) (requestId : Nat) :
      JobMove s (.snapshot k task requestId) (.storeValidation k requestId) s
  | validationStored (k requestId : Nat) (stage : JobStage)
      (hto : stage = .publishValidation k requestId ∨ stage = .fail k false) :
      JobMove s (.storeValidation k requestId) stage (storeValidation requestId s)
  | validationPublished (k requestId : Nat) (stage : JobStage)
      (hto : stage = .complete k requestId ∨ stage = .fail k false) :
      JobMove s (.publishValidation k requestId) stage (publishValidation requestId s)
  | completed (k requestId : Nat) (m : Iso.Moment) (stage : JobStage)
      (hto : stage = .closing ∨ stage = .fail k false) :
      JobMove s (.complete k requestId) stage (markHash "completed_at" m s)
  | failed (k : Nat) (retryable : Bool) (m : Iso.Moment) (stage : JobStage)
      (hto : stage = .closing ∨ (stage = .sleep k ∧ retryable = true ∧ k < maxAttempts)) :
      JobMove s (.fail k retryable) stage (markFailed m s)
  | unmarked (k : Nat) (retryable : Bool) : JobMove s (.fail k retryable) .closing s

theorem jobStep_move {stage stage' : JobStage} {answer : JobAnswer} {s s' : Shared}
    (h : jobStep stage answer s = some (stage', s')) : JobMove s stage stage' s' := by
  cases stage with
  | waiting =>
      rcases answer with _ | _ | _ | _ | (_ | _ | _) | ⟨_, _ | _ | _⟩ <;> cases h
      · exact .start
      · exact .drop
  | read k =>
      rcases answer with _ | _ | _ | _ | (_ | _ | _) | ⟨_, _ | _ | _⟩ <;> cases h
      · cases hhash : s.hash with
        | none =>
            refine .unreadable k (fun fields hfields => ?_)
            rw [hhash] at hfields
            cases hfields
        | some fields =>
            cases hread : QueueRequestHandlerTask.deserialize fields with
            | error e =>
                rw [readTask]
                simp only [hread]
                refine .unreadable k (fun fields' hfields' task htask => ?_)
                obtain rfl := Option.some.inj (hhash.symm.trans hfields')
                rw [hread] at htask
                cases htask
            | ok task =>
                rw [readTask]
                simp only [hread]
                exact .readable k fields task hhash hread
      · exact .raised k _ false rfl
  | archive k task =>
      rcases answer with _ | _ | _ | retryable | (_ | _ | _) | ⟨_, _ | _ | _⟩ <;> cases h
      · exact .archived k task
      · exact .raised k _ retryable rfl
  | insert k task =>
      rcases answer with _ | _ | _ | _ | (_ | _ | _) | ⟨_, _ | _ | _⟩
      case replied.done =>
        unfold jobStep at h
        dsimp only at h
        split at h
        · cases h
          exact .raised k _ false rfl
        · next hrow =>
            cases h
            exact .inserted k task (by simpa using hrow)
      case replied.lost =>
        unfold jobStep at h
        dsimp only at h
        split at h
        · cases h
          exact .raised k _ false rfl
        · next hrow =>
            cases h
            exact .insertLost k task (by simpa using hrow)
      all_goals cases h
      exact .raised k _ false rfl
  | snapshot k task requestId =>
      rcases answer with _ | _ | _ | _ | (_ | _ | _) | ⟨_, _ | _ | _⟩ <;> cases h
      · exact .snapshot k task requestId
      · exact .raised k _ false rfl
  | storeValidation k requestId =>
      rcases answer with _ | _ | _ | _ | (_ | _ | _) | ⟨_, _ | _ | _⟩ <;> cases h
      · exact .validationStored k requestId _ (Or.inl rfl)
      · exact .validationStored k requestId _ (Or.inr rfl)
      · exact .raised k _ false rfl
  | publishValidation k requestId =>
      rcases answer with _ | _ | _ | _ | (_ | _ | _) | ⟨_, _ | _ | _⟩ <;> cases h
      · exact .validationPublished k requestId _ (Or.inl rfl)
      · exact .validationPublished k requestId _ (Or.inr rfl)
      · exact .raised k _ false rfl
  | complete k requestId =>
      rcases answer with _ | _ | _ | _ | (_ | _ | _) | ⟨m, _ | _ | _⟩ <;> cases h
      · exact .completed k requestId m _ (Or.inl rfl)
      · exact .completed k requestId m _ (Or.inr rfl)
      · exact .raised k _ false rfl
  | fail k retryable =>
      rcases answer with _ | _ | _ | _ | (_ | _ | _) | ⟨m, _ | _ | _⟩ <;> cases h
      · by_cases hagain : retryable = true ∧ k < maxAttempts
        · rw [if_pos (by simpa using hagain)]
          exact .failed k retryable m _ (Or.inr ⟨rfl, hagain⟩)
        · rw [if_neg (by simpa using hagain)]
          exact .failed k retryable m _ (Or.inl rfl)
      · exact .failed k retryable m _ (Or.inl rfl)
      · exact .unmarked k retryable
  | sleep k =>
      rcases answer with _ | _ | _ | _ | (_ | _ | _) | ⟨_, _ | _ | _⟩ <;> cases h
      exact .again k
  | closing =>
      rcases answer with _ | _ | _ | _ | (_ | _ | _) | ⟨_, _ | _ | _⟩ <;> cases h
      exact .close
  | finished => rcases answer with _ | _ | _ | _ | (_ | _ | _) | ⟨_, _ | _ | _⟩ <;> cases h

/-- A job whose attempts are over is only closed. -/
theorem jobStep_unfinished {stage stage' : JobStage} {answer : JobAnswer} {s s' : Shared}
    (h : jobStep stage answer s = some (stage', s')) :
    stage.unfinished = true ∨ stage = .closing ∧ stage' = .finished ∧ s' = s := by
  cases stage with
  | closing =>
      cases jobStep_move h with
      | raised _ _ _ hfrom => cases hfrom
      | close => exact Or.inr ⟨rfl, rfl, rfl⟩
  | finished => rcases answer with _ | _ | _ | _ | (_ | _ | _) | ⟨_, _ | _ | _⟩ <;> cases h
  | _ => exact Or.inl rfl

/-- What a job does to the hash: nothing, or one marker. -/
theorem JobMove.hash {s s' : Shared} {stage stage' : JobStage} (h : JobMove s stage stage' s') :
    (s'.hash = s.hash ∧ s'.failures = s.failures) ∨
      (∃ m, s' = markHash "completed_at" m s) ∨ ∃ m, s' = markFailed m s := by
  cases h with
  | completed k requestId m stage hto => exact Or.inr (Or.inl ⟨m, rfl⟩)
  | failed k retryable m stage hto => exact Or.inr (Or.inr ⟨m, rfl⟩)
  | _ => exact Or.inl ⟨rfl, rfl⟩

/-! Steps of the world. -/

section Step

variable {pair : Pair} {i : Nat} {w w' : World}

theorem advancePost_eq_some {answer : PostAnswer}
    (h : step pair (.advancePost i answer) w = some w') :
    ∃ p p' s b, w.posts[i]? = some p ∧ postStep pair p answer w.shared = some (p', s, b) ∧
      w' = { w with
        shared := s
        posts := w.posts.set i p'
        jobs := if b then w.jobs ++ [.waiting] else w.jobs } := by
  obtain ⟨p, hp, h⟩ := Option.bind_eq_some_iff.mp h
  obtain ⟨⟨p', s, b⟩, hstep, h⟩ := Option.bind_eq_some_iff.mp h
  exact ⟨p, p', s, b, hp, hstep, (Option.some.inj h).symm⟩

theorem advanceJob_eq_some {answer : JobAnswer} (h : step pair (.advanceJob i answer) w = some w') :
    ∃ stage stage' s, w.jobs[i]? = some stage ∧ mayMove w.jobs stage answer = true ∧
      jobStep stage answer w.shared = some (stage', s) ∧
      w' = { w with shared := s, jobs := w.jobs.set i stage' } := by
  obtain ⟨stage, hstage, h⟩ := Option.bind_eq_some_iff.mp h
  dsimp only at h
  split at h
  · next hmay =>
      obtain ⟨⟨stage', s⟩, hstep, h⟩ := Option.bind_eq_some_iff.mp h
      exact ⟨stage, stage', s, hstage, hmay, hstep, (Option.some.inj h).symm⟩
  · cases h

theorem advanceDelete_eq_some {delivery : Delivery}
    (h : step pair (.advanceDelete i delivery) w = some w') :
    ∃ d d' s, w.deletes[i]? = some d ∧ deleteStep d delivery w.shared = some (d', s) ∧
      w' = { w with shared := s, deletes := w.deletes.set i d' } := by
  obtain ⟨d, hd, h⟩ := Option.bind_eq_some_iff.mp h
  obtain ⟨⟨d', s⟩, hstep, h⟩ := Option.bind_eq_some_iff.mp h
  exact ⟨d, d', s, hd, hstep, (Option.some.inj h).symm⟩

end Step

end Graveboards.Requests
