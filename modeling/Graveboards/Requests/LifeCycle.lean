import Graveboards.Requests.Single
import Graveboards.Requests.Validation

/-!
The markers of a task. `completed_at` and `failed_at` are written
inside the function that `@auto_retry` repeats, once per attempt; this module
finds the runs in which they are nevertheless final.
-/

namespace Graveboards.Requests

open Library

/-- A marker write that `_execute_job` treats as final but that is not: an
attempt that will be repeated writes `failed_at`, or `completed_at` is written
and the call raises all the same. -/
def JobStage.premature : JobStage → JobAnswer → Bool
  | .fail k retryable, .marked _ .done => retryable && k < maxAttempts
  | .complete _ _, .marked _ .lost => true
  | _, _ => false

/-- No job writes a marker prematurely, and no `POST` issues its `EXISTS` while
another is between its `EXISTS` and its `HSET`. -/
def Orderly : Label → World → Prop
  | .advanceJob i answer, w => ∀ stage ∈ w.jobs[i]?, stage.premature answer = false
  | .post submission, w => Exclusive (.post submission) w
  | .advancePost i answer, w => Exclusive (.advancePost i answer) w
  | .delete requestId, w => Exclusive (.delete requestId) w
  | .advanceDelete i delivery, w => Exclusive (.advanceDelete i delivery) w

instance : (label : Label) → (w : World) → Decidable (Orderly label w)
  | .advanceJob i answer, w =>
      inferInstanceAs (Decidable (∀ stage ∈ w.jobs[i]?, stage.premature answer = false))
  | .post submission, w => inferInstanceAs (Decidable (Exclusive (.post submission) w))
  | .advancePost i answer, w => inferInstanceAs (Decidable (Exclusive (.advancePost i answer) w))
  | .delete requestId, w => inferInstanceAs (Decidable (Exclusive (.delete requestId) w))
  | .advanceDelete i delivery, w =>
      inferInstanceAs (Decidable (Exclusive (.advanceDelete i delivery) w))

/-- The jobs that have still to run or are running, and the calls that have
stored the hash and have still to publish. -/
def World.busy (w : World) : Nat :=
  w.jobs.countP JobStage.unfinished + w.posts.countP (fun p => p.stage.publishing)

/-- The hash is there with neither marker. -/
def Unmarked (s : Shared) : Prop :=
  ∃ fields, s.hash = some fields ∧ marked "completed_at" fields = false ∧
    marked "failed_at" fields = false

/-- While a job of the pair has work to do, its hash is unmarked and no call
has decided to replace it. -/
structure LifeCycle (w : World) : Prop where
  critical : w.posts.countP (fun p => p.stage.critical) ≤ 1
  fresh : ∀ p ∈ w.posts, ∀ task ∈ p.stage.task?, task.fresh = true
  busy : w.busy ≤ 1
  working : 0 < w.busy → Unmarked w.shared ∧ ∀ p ∈ w.posts, p.stage.cleared = false
  markers : ∀ fields, w.shared.hash = some fields →
    (marked "completed_at" fields && marked "failed_at" fields) = false

section Posts

variable {w : World} {i : Nat} {p : Post} {s : Shared} {b : Bool}

theorem LifeCycle.idle (h : LifeCycle w) (hp : p ∈ w.posts) (hcleared : p.stage.cleared = true) :
    w.busy = 0 := by
  by_contra hbusy
  have hnot := (h.working (Nat.pos_of_ne_zero hbusy)).2 p hp
  rw [hcleared] at hnot
  cases hnot

/-- A move that neither stores nor publishes. -/
theorem LifeCycle.quiet {p' : Post} (h : LifeCycle w) (hp : w.posts[i]? = some p)
    (hfree : p.stage.checking = true → ∀ q ∈ w.posts, q.stage.critical = false)
    (hmove : PostMove p w.shared p' s b) (hpublishing : p'.stage.publishing = p.stage.publishing)
    (hhash : s.hash = w.shared.hash ∨ s.hash = none)
    (hworking : 0 < w.busy → s.hash = w.shared.hash ∧ p'.stage.cleared = false) :
    LifeCycle { w with shared := s, posts := w.posts.set i p' } := by
  have hsame : ({ w with shared := s, posts := w.posts.set i p' } : World).busy = w.busy := by
    unfold World.busy
    rw [Runs.countP_set_of_eq (p := fun q : Post => q.stage.publishing) hp hpublishing]
  refine ⟨hmove.critical_le_one hp hfree h.critical,
    Runs.forall_mem_set h.fresh (hmove.fresh (h.fresh p (List.mem_of_getElem? hp))), hsame ▸ h.busy,
    fun hbusy => ?_, ?_⟩
  · rw [hsame] at hbusy
    obtain ⟨⟨fields, hfields, hunmarked⟩, hcleared⟩ := h.working hbusy
    exact ⟨⟨fields, (hworking hbusy).1.trans hfields, hunmarked⟩,
      Runs.forall_mem_set hcleared (hworking hbusy).2⟩
  · intro fields hfields
    rcases hhash with hhash | hhash
    · exact h.markers fields (hhash ▸ hfields)
    · exact absurd (hhash.symm.trans hfields) (by simp)

theorem unmarked_storeTask {task : QueueRequestHandlerTask}
    (hfresh : task.fresh = true) (s : Shared) :
    Unmarked (storeTask task s) := by
  have hstored := QueueRequestHandlerTask.storedIn_setAll task (s.hash.getD Fields.empty)
  simp only [QueueRequestHandlerTask.fresh, Bool.and_eq_true, Option.isNone_iff_eq_none] at hfresh
  refine ⟨_, rfl, ?_, ?_⟩
  · rw [hstored.marked_completed, hfresh.1]
    rfl
  · rw [hstored.marked_failed, hfresh.2]
    rfl

theorem Unmarked.markers {s : Shared} (h : Unmarked s) :
    ∀ fields, s.hash = some fields →
      (marked "completed_at" fields && marked "failed_at" fields) = false := by
  intro fields hfields
  obtain ⟨fields', hfields', hcompleted, -⟩ := h
  obtain rfl := Option.some.inj (hfields'.symm.trans hfields)
  rw [hcompleted, Bool.false_and]

theorem LifeCycle.store (h : LifeCycle w) (hp : w.posts[i]? = some p)
    {task : QueueRequestHandlerTask} (hat : p.stage = .store task) {stage : PostStage}
    (hstage : stage = .publish ∨ stage = .rollback) :
    LifeCycle { w with
      shared := storeTask task w.shared
      posts := w.posts.set i { p with stage := stage, storedIn := some w.shared.failures } } := by
  have hmem := List.mem_of_getElem? hp
  have hcritical : p.stage.critical = true := by rw [hat]; rfl
  have hnot : stage.critical = false := by rcases hstage with rfl | rfl <;> rfl
  have hidle := h.idle hmem (by rw [hat]; rfl)
  have hfresh := h.fresh p hmem task (by simp [hat, PostStage.task?])
  have hothers := Runs.uncounted_of_set
    (b := ({ p with stage := stage, storedIn := some w.shared.failures } : Post)) hp h.critical
    hcritical hnot
  have hmove := PostMove.store (s := w.shared) task stage hat hstage
  refine ⟨hmove.critical_le_one hp (by simp [hat, PostStage.checking]) h.critical,
    Runs.forall_mem_set h.fresh (hmove.fresh (h.fresh p hmem)), ?_, fun _ => ?_, ?_⟩
  · have hcount := Runs.countP_set_add (fun q : Post => q.stage.publishing) hp
      { p with stage := stage, storedIn := some w.shared.failures }
    have hle : stage.publishing.toNat ≤ 1 := Bool.toNat_le _
    unfold World.busy at hidle ⊢
    dsimp only at hcount ⊢
    omega
  · refine ⟨unmarked_storeTask hfresh _, fun q hq => ?_⟩
    cases hcleared : q.stage.cleared with
    | false => rfl
    | true => exact absurd (PostStage.cleared_critical hcleared) (by simp [hothers q hq])
  · exact (unmarked_storeTask hfresh w.shared).markers

/-- A call publishes its job, or fails to. -/
theorem LifeCycle.publish (h : LifeCycle w) (hp : w.posts[i]? = some p) (hat : p.stage = .publish)
    {stage : PostStage} (hstage : stage = .accepted ∨ stage = .rollback)
    (hmove : PostMove p w.shared { p with stage := stage } w.shared b) :
    LifeCycle { w with
      posts := w.posts.set i { p with stage := stage }
      jobs := if b then w.jobs ++ [.waiting] else w.jobs } := by
  have hcount :=
    Runs.countP_set_add (fun q : Post => q.stage.publishing) hp { p with stage := stage }
  have hbefore : p.stage.publishing = true := by rw [hat]; rfl
  have hafter : stage.publishing = false := by rcases hstage with rfl | rfl <;> rfl
  have hbusy : ({ w with
      posts := w.posts.set i { p with stage := stage }
      jobs := if b then w.jobs ++ [.waiting] else w.jobs } : World).busy ≤ w.busy := by
    unfold World.busy
    simp only [hbefore, hafter, Bool.toNat_true, Bool.toNat_false] at hcount
    cases b
    · simp only [Bool.false_eq_true, if_false]
      omega
    · simp only [if_true, List.countP_append]
      have hone : [JobStage.waiting].countP JobStage.unfinished = 1 := rfl
      omega
  refine ⟨hmove.critical_le_one hp (by simp [hat, PostStage.checking]) h.critical,
    Runs.forall_mem_set h.fresh (hmove.fresh (h.fresh p (List.mem_of_getElem? hp))),
    hbusy.trans h.busy, fun hpos => ?_, h.markers⟩
  obtain ⟨hunmarked, hcleared⟩ := h.working (lt_of_lt_of_le hpos hbusy)
  refine ⟨hunmarked, Runs.forall_mem_set hcleared ?_⟩
  rcases hstage with rfl | rfl <;> rfl

theorem LifeCycle.post {p' : Post} (h : LifeCycle w) (hp : w.posts[i]? = some p)
    (hfree : p.stage.checking = true → ∀ q ∈ w.posts, q.stage.critical = false)
    (hmove : PostMove p w.shared p' s b) :
    LifeCycle { w with
      shared := s
      posts := w.posts.set i p'
      jobs := if b then w.jobs ++ [.waiting] else w.jobs } := by
  have hnever {P : Prop} (hcleared : p.stage.cleared = true) (hbusy : 0 < w.busy) : P :=
    absurd (h.idle (List.mem_of_getElem? hp) hcleared) hbusy.ne'
  have quiet := h.quiet hp hfree hmove
  have hmove' := hmove
  cases hmove with
  | early stage hfrom hto htask =>
      obtain ⟨-, hcleared, hafter⟩ := PostStage.next_outside hto
      have hbefore := (PostStage.early_outside hfrom).2.2
      exact quiet (hafter.trans hbefore.symm) (Or.inl rfl) (fun _ => ⟨rfl, hcleared⟩)
  | absent queue task hfrom hhash =>
      apply quiet (by rw [hfrom]; rfl) (Or.inl rfl)
      intro hbusy
      obtain ⟨fields, hfields, -⟩ := (h.working hbusy).1
      exact absurd (hhash.symm.trans hfields) (by simp)
  | present queue task fields hfrom hhash =>
      exact quiet (by rw [hfrom]; rfl) (Or.inl rfl) (fun _ => ⟨rfl, rfl⟩)
  | refuse e hfrom hnot =>
      exact quiet (PostStage.critical_not_publishing hfrom).symm (Or.inl rfl) (fun _ => ⟨rfl, rfl⟩)
  | failedTask queue task existing fields hfrom hhash hread hfailed =>
      apply quiet (by rw [hfrom]; rfl) (Or.inl rfl)
      intro hbusy
      -- The hash of a working job is not marked as failed.
      obtain ⟨⟨fields', hfields', -, hunmarked⟩, -⟩ := h.working hbusy
      rw [hfields', Option.getD_some] at hhash
      rw [QueueRequestHandlerTask.failedAt_of_deserialize hread, ← hhash, hunmarked] at hfailed
      cases hfailed
  | clear task stage hfrom hto =>
      apply quiet ?_ (Or.inr rfl) (hnever (by rw [hfrom]; rfl))
      rw [hfrom]
      rcases hto with rfl | rfl <;> rfl
  | reserve task hfrom | storeFailed task hfrom =>
      exact quiet (by rw [hfrom]; rfl) (Or.inl rfl) (hnever (by rw [hfrom]; rfl))
  | store task stage hfrom hto => exact h.store hp hfrom hto
  | publish stage hfrom hto => exact h.publish hp hfrom hto hmove'
  | publishFailed hfrom => exact h.publish hp hfrom (Or.inr rfl) hmove'
  | rollback hfrom =>
      exact quiet (by rw [hfrom]; rfl) (Or.inl rfl) (fun _ => ⟨rfl, rfl⟩)

end Posts

/-! Jobs. -/

section Jobs

variable {w : World} {i : Nat} {stage stage' : JobStage} {s : Shared} {answer : JobAnswer}

/-- A step of a job that has still to run, or runs, either leaves the hash or
writes a marker and ends the attempts. -/
theorem jobStep_cases (h : jobStep stage answer w.shared = some (stage', s))
    (hpremature : stage.premature answer = false) (hfrom : stage.unfinished = true) :
    (s.hash = w.shared.hash ∧ s.failures = w.shared.failures) ∨
      (stage' = .closing ∧ ((∃ m, s = markHash "completed_at" m w.shared) ∨
        ∃ m, s = markFailed m w.shared)) := by
  have hmove := jobStep_move h
  cases stage with
  | complete k requestId =>
      rcases answer with _ | _ | _ | _ | (_ | _ | _) | ⟨m, _ | _ | _⟩ <;> cases h
      · exact Or.inr ⟨rfl, Or.inl ⟨m, rfl⟩⟩
      · cases hpremature
      · exact Or.inl ⟨rfl, rfl⟩
  | fail k retryable =>
      rcases answer with _ | _ | _ | _ | (_ | _ | _) | ⟨m, _ | _ | _⟩ <;> cases h
      · refine Or.inr ⟨?_, Or.inr ⟨m, rfl⟩⟩
        change (retryable && decide (k < maxAttempts)) = false at hpremature
        rw [hpremature]
        rfl
      · exact Or.inr ⟨rfl, Or.inr ⟨m, rfl⟩⟩
      · exact Or.inl ⟨rfl, rfl⟩
  | closing | finished => cases hfrom
  | _ => cases hmove <;> exact Or.inl ⟨rfl, rfl⟩

theorem busy_set_job (s : Shared) (stage' : JobStage) (hjob : w.jobs[i]? = some stage)
    (hfrom : stage.unfinished = true) :
    ({ w with shared := s, jobs := w.jobs.set i stage' } : World).busy + 1 =
      w.busy + stage'.unfinished.toNat := by
  have hcount := Runs.countP_set_add JobStage.unfinished hjob stage'
  rw [hfrom, Bool.toNat_true] at hcount
  unfold World.busy
  dsimp only
  omega

theorem LifeCycle.job (h : LifeCycle w) (hjob : w.jobs[i]? = some stage)
    (hstep : jobStep stage answer w.shared = some (stage', s))
    (hpremature : stage.premature answer = false) :
    LifeCycle { w with shared := s, jobs := w.jobs.set i stage' } := by
  rcases jobStep_unfinished hstep with hfrom | ⟨rfl, rfl, rfl⟩
  case inr =>
      have hsame : ({ w with jobs := w.jobs.set i .finished } : World).busy = w.busy := by
        unfold World.busy
        exact congrArg (· + _) (Runs.countP_set_of_eq (p := JobStage.unfinished) hjob rfl)
      exact ⟨h.critical, h.fresh, hsame ▸ h.busy, hsame ▸ h.working, h.markers⟩
  have heffect := jobStep_cases hstep hpremature hfrom
  have hbusy := busy_set_job s stage' hjob hfrom
  have hle : stage'.unfinished.toNat ≤ 1 := Bool.toNat_le _
  have hpos : 0 < w.busy := by
    have := List.countP_pos_iff.mpr ⟨stage, List.mem_of_getElem? hjob, hfrom⟩
    unfold World.busy
    omega
  obtain ⟨⟨fields, hfields, hcompleted, hfailed⟩, hcleared⟩ := h.working hpos
  rcases heffect with ⟨hhash, -⟩ | ⟨rfl, hmark⟩
  · refine ⟨h.critical, h.fresh, by have := h.busy; omega, fun _ => ⟨⟨fields, ?_⟩, hcleared⟩, ?_⟩
    · exact ⟨hhash.trans hfields, hcompleted, hfailed⟩
    · intro fields' hfields'
      exact h.markers fields' (hhash ▸ hfields')
  · have hidle : ({ w with shared := s, jobs := w.jobs.set i .closing } : World).busy = 0 := by
      have hone := h.busy
      have hzero : JobStage.closing.unfinished.toNat = 0 := rfl
      omega
    refine ⟨h.critical, h.fresh, by rw [hidle]; exact Nat.zero_le _, fun hpos' => ?_, ?_⟩
    · rw [hidle] at hpos'
      exact absurd hpos' (Nat.lt_irrefl 0)
    · intro fields' hfields'
      rcases hmark with ⟨m, rfl⟩ | ⟨m, rfl⟩ <;> obtain rfl := Option.some.inj hfields' <;>
        rw [hfields, Option.getD_some]
      · rw [marked_mark_of_ne (show "failed_at" ≠ "completed_at" by decide), hfailed,
          Bool.and_false]
      · rw [marked_mark_of_ne (show "completed_at" ≠ "failed_at" by decide), hcompleted,
          Bool.false_and]

end Jobs

theorem LifeCycle.initially : LifeCycle initially :=
  ⟨by simp [Requests.initially], by simp [Requests.initially], by decide,
    fun hbusy => absurd hbusy (by decide), by simp [Requests.initially]⟩

theorem lifeCycle_step {pair : Pair} {label : Label} {w w' : World} (h : LifeCycle w)
    (hdelete : label.isDelete = false) (horderly : Orderly label w)
    (hstep : step pair label w = some w') : LifeCycle w' := by
  cases label with
  | post submission =>
      obtain rfl := Option.some.inj hstep
      have hsame :
          ({ w with posts := w.posts ++ [⟨submission, .queue, false, none⟩] } : World).busy =
          w.busy := by
        simp [World.busy, PostStage.publishing]
      refine ⟨?_, ?_, hsame ▸ h.busy, fun hbusy => ?_, h.markers⟩
      · simpa [PostStage.critical] using h.critical
      · simpa [or_imp, forall_and, PostStage.task?] using h.fresh
      · simpa [or_imp, forall_and, PostStage.cleared] using h.working (hsame ▸ hbusy)
  | advancePost i answer =>
      obtain ⟨p, p', s, b, hp, hpost, rfl⟩ := advancePost_eq_some hstep
      exact h.post hp (horderly p hp) (postStep_move hpost)
  | advanceJob i answer =>
      obtain ⟨stage, stage', s, hjob, -, hmove, rfl⟩ := advanceJob_eq_some hstep
      exact h.job hjob hmove (horderly stage hjob)
  | delete requestId => cases hdelete
  | advanceDelete i delivery => cases hdelete

/-! Validation tasks. -/

namespace Validation

def Stage.premature : Stage → Label → Bool
  | .fail k retryable, .marked _ .done => retryable && k < maxAttempts
  | .complete _, .marked _ .lost => true
  | _, _ => false

/-- The task writes no marker prematurely. -/
def Orderly (label : Label) (at_ : Stage × State) : Prop := at_.1.premature label = false

instance (label : Label) (at_ : Stage × State) : Decidable (Orderly label at_) :=
  inferInstanceAs (Decidable (at_.1.premature label = false))

/-- Until its job is finished the hash of a task has no marker, and then it has
at most one. -/
structure FinalMarkers (at_ : Stage × State) : Prop where
  unmarked : at_.1 ≠ .finished → ∀ fields, at_.2.hash = some fields →
    marked "completed_at" fields = false ∧ marked "failed_at" fields = false
  markers : ∀ fields, at_.2.hash = some fields →
    (marked "completed_at" fields && marked "failed_at" fields) = false

variable {loads : String → Option (List Json)} {label : Label} {stage stage' : Stage}
  {s s' : State}

theorem step_cases (h : step loads label (stage, s) = some (stage', s'))
    (hpremature : stage.premature label = false) :
    stage ≠ .finished ∧
      (s'.hash = s.hash ∨
        (stage' = .finished ∧ ((∃ m, s' = mark "completed_at" m s) ∨
          ∃ m, s' = mark "failed_at" m s))) := by
  cases stage with
  | complete k =>
      refine ⟨by simp, ?_⟩
      cases label with
      | marked m delivery =>
          cases delivery with
          | done =>
              cases h
              exact Or.inr ⟨rfl, Or.inl ⟨m, rfl⟩⟩
          | lost => cases hpremature
          | failed =>
              cases h
              exact Or.inl rfl
      | _ => cases h
  | fail k retryable =>
      refine ⟨by simp, ?_⟩
      cases label with
      | marked m delivery =>
          cases delivery with
          | done =>
              cases h
              refine Or.inr ⟨?_, Or.inr ⟨m, rfl⟩⟩
              change (retryable && decide (k < maxAttempts)) = false at hpremature
              rw [hpremature]
              rfl
          | lost =>
              cases h
              exact Or.inr ⟨rfl, Or.inr ⟨m, rfl⟩⟩
          | failed =>
              cases h
              exact Or.inl rfl
      | _ => cases h
  | update k rejected =>
      refine ⟨by simp, Or.inl ?_⟩
      cases label with
      | updated delivery => cases delivery <;> cases h <;> rfl
      | _ => cases h
  | request k snapshot =>
      refine ⟨by simp, Or.inl ?_⟩
      cases label with
      | row found => cases found <;> cases snapshot <;> cases h <;> rfl
      | raised retryable =>
          cases h
          rfl
      | _ => cases h
  | validate k taskRules rules =>
      refine ⟨by simp, Or.inl ?_⟩
      cases label with
      | outcomes outcomes =>
          unfold step at h
          dsimp only at h
          split at h
          · cases h
            rfl
          · split at h <;> cases h
            rfl
      | raised retryable =>
          cases h
          rfl
      | _ => cases h
  | finished => cases label <;> cases h
  | _ =>
      refine ⟨by simp, Or.inl ?_⟩
      cases label <;> cases h <;> rfl

theorem FinalMarkers.step (h : FinalMarkers (stage, s))
    (hstep : Validation.step loads label (stage, s) = some (stage', s'))
    (hpremature : stage.premature label = false) : FinalMarkers (stage', s') := by
  obtain ⟨hunfinished, hhash | ⟨rfl, hmark⟩⟩ := step_cases hstep hpremature
  · exact ⟨fun _ fields hfields => h.unmarked hunfinished fields (hhash ▸ hfields),
      fun fields hfields => h.markers fields (hhash ▸ hfields)⟩
  · refine ⟨fun hnot => absurd rfl hnot, fun fields hfields => ?_⟩
    -- The fields before the marker: those of the hash, or none.
    have hbefore : marked "completed_at" (s.hash.getD Fields.empty) = false ∧
        marked "failed_at" (s.hash.getD Fields.empty) = false := by
      cases hold : s.hash with
      | none => exact ⟨rfl, rfl⟩
      | some old => exact h.unmarked hunfinished old hold
    rcases hmark with ⟨m, rfl⟩ | ⟨m, rfl⟩ <;> obtain rfl := Option.some.inj hfields
    · rw [marked_mark_of_ne (show "failed_at" ≠ "completed_at" by decide), hbefore.2,
        Bool.and_false]
    · rw [marked_mark_of_ne (show "completed_at" ≠ "failed_at" by decide), hbefore.1,
        Bool.false_and]

theorem finalMarkers_published {task : QueueRequestValidationTask}
    (hcompleted : task.completedAt = none) (hfailed : task.failedAt = none) :
    FinalMarkers (published task) := by
  have hunmarked : marked "completed_at" (Fields.empty.setAll task.serialize) = false ∧
      marked "failed_at" (Fields.empty.setAll task.serialize) = false := by
    constructor <;> simp [marked, Fields.setAll, QueueRequestValidationTask.serialize, Fields.set,
      Function.update, hcompleted, hfailed, strMarker]
  refine ⟨fun _ fields hfields => ?_, fun fields hfields => ?_⟩ <;>
    obtain rfl := Option.some.inj hfields
  · exact hunmarked
  · rw [hunmarked.1, Bool.false_and]

end Validation

/-- The markers of both kinds of task are final. For a handler task, in every
run of calls and jobs in which no marker is written prematurely and no two
`POST` calls are between `EXISTS` and `HSET` together: the hash never has both
markers, one marked as failed has no job left to run, and a call that replaces
it replaces no task in work. For a validation task likewise. -/
theorem markers_final (pair : Pair) (loads : String → Option (List Json)) :
    (∀ (labels : List Label) (w : World),
      Runs.run (step pair) labels initially = some w →
      (∀ label ∈ labels, label.isDelete = false) →
      Runs.Meets (step pair) Orderly labels initially →
      (∀ fields, w.shared.hash = some fields →
        (marked "completed_at" fields && marked "failed_at" fields) = false ∧
        (marked "failed_at" fields = true → ∀ job ∈ w.jobs, job.unfinished = false)) ∧
      ∀ p ∈ w.posts, p.stage.cleared = true → ∀ job ∈ w.jobs, job.unfinished = false) ∧
    (∀ (task : QueueRequestValidationTask) (labels : List Validation.Label)
      (at_ : Validation.Stage × Validation.State),
      task.completedAt = none → task.failedAt = none →
      Runs.run (Validation.step loads) labels (Validation.published task) = some at_ →
      Runs.Meets (Validation.step loads) Validation.Orderly labels (Validation.published task) →
      ∀ fields, at_.2.hash = some fields →
        (marked "completed_at" fields && marked "failed_at" fields) = false ∧
        (marked "failed_at" fields = true → at_.1 = .finished)) := by
  constructor
  · intro labels w hrun hlabels hmeets
    have hcycle : LifeCycle w :=
      Runs.invariant_of_run LifeCycle
        (fun _ _ _ h hboth hstep => lifeCycle_step h hboth.1 hboth.2 hstep)
        LifeCycle.initially (Runs.Meets.and_forall hlabels hmeets) hrun
    have hidle (hbusy : w.busy = 0) : ∀ job ∈ w.jobs, job.unfinished = false := by
      intro job hjob
      have hzero : w.jobs.countP JobStage.unfinished = 0 := by
        unfold World.busy at hbusy
        omega
      simpa using List.countP_eq_zero.mp hzero job hjob
    refine ⟨fun fields hfields => ⟨hcycle.markers fields hfields, fun hfailed => hidle ?_⟩,
      fun p hp hcleared => hidle (hcycle.idle hp hcleared)⟩
    by_contra hbusy
    obtain ⟨fields', hfields', -, hunmarked⟩ := (hcycle.working (Nat.pos_of_ne_zero hbusy)).1
    obtain rfl := Option.some.inj (hfields'.symm.trans hfields)
    rw [hfailed] at hunmarked
    cases hunmarked
  · intro task labels at_ hcompleted hfailed hrun hmeets fields hfields
    have hfinal : Validation.FinalMarkers at_ :=
      Runs.invariant_of_run Validation.FinalMarkers
        (fun _ _ _ h horderly hstep => h.step hstep horderly)
        (Validation.finalMarkers_published hcompleted hfailed) hmeets hrun
    refine ⟨hfinal.markers fields hfields, fun hmarked => ?_⟩
    by_contra hunfinished
    have hnot := (hfinal.unmarked hunfinished fields hfields).2
    rw [hmarked] at hnot
    cases hnot

/-- From the publication to the archive of job 0. -/
def untilArchive : List Label := [.advanceJob 0 .started, .advanceJob 0 (.replied .done)]

/-- A posted request whose first attempt times out towards osu!. -/
def firstAttemptTimesOut : List Label :=
  .post (sampleSubmission 3) :: untilCheck 0 ++ .advancePost 0 (.replied .done) ::
    untilAccepted 0 ++
    untilArchive ++ [.advanceJob 0 (.raised true), .advanceJob 0 (.marked Iso.newYear .done)]

/-- An attempt of job `i` that inserts the row, dispatches the validation and
completes. -/
def attemptCompletes (i : Nat) : List Label :=
  [ .advanceJob i .started, .advanceJob i (.replied .done), .advanceJob i .passed,
    .advanceJob i (.replied .done), .advanceJob i .passed, .advanceJob i (.replied .done),
    .advanceJob i (.replied .done), .advanceJob i (.marked Iso.newYear .done) ]

/-- The first attempt marks the task as failed and is repeated; the second one
completes it, and the hash carries both markers. -/
theorem retriedTask_bothMarkers :
    (∃ w, Runs.run (step samplePair) firstAttemptTimesOut initially = some w ∧
      w.shared.hash.any (marked "failed_at") = true ∧ w.jobs = [.sleep 1]) ∧
    ∃ w, Runs.run (step samplePair) (firstAttemptTimesOut ++ attemptCompletes 0) initially =
        some w ∧
      w.shared.hash.any (fun fields =>
        marked "completed_at" fields && marked "failed_at" fields) = true := by
  refine ⟨⟨_, rfl, ?_, ?_⟩, _, rfl, ?_⟩ <;> decide +kernel

/-- A request whose first job fails is submitted again and handled; its
validation is rejected in one attempt. -/
theorem resubmittedTask_final :
    (∃ w, Runs.run (step samplePair) (interleavedCalls ++ attemptCompletes 1) initially = some w ∧
      w.shared.failures = 1 ∧ w.shared.hash.any (marked "completed_at") = true ∧
      (∀ fields, w.shared.hash = some fields →
        (marked "completed_at" fields && marked "failed_at" fields) = false ∧
        (marked "failed_at" fields = true → ∀ job ∈ w.jobs, job.unfinished = false)) ∧
      ∀ p ∈ w.posts, p.stage.cleared = true → ∀ job ∈ w.jobs, job.unfinished = false) ∧
    ∃ at_, Runs.run (Validation.step Validation.loadNeverRanked) Validation.rejecting
        (Validation.published Validation.neverRankedTask) = some at_ ∧
      at_.2.hash.any (marked "completed_at") = true ∧
      ∀ fields, at_.2.hash = some fields →
        (marked "completed_at" fields && marked "failed_at" fields) = false ∧
        (marked "failed_at" fields = true → at_.1 = .finished) := by
  have hends : (Runs.run (step samplePair) (interleavedCalls ++ attemptCompletes 1) initially).map
      (fun w => (w.shared.failures, w.shared.hash.any (marked "completed_at"))) =
        some (1, true) := by
    decide +kernel
  have hmarked : (Runs.run (Validation.step Validation.loadNeverRanked) Validation.rejecting
      (Validation.published Validation.neverRankedTask)).map
        (fun at_ => at_.2.hash.any (marked "completed_at")) = some true := by decide +kernel
  obtain ⟨w, hw, hends⟩ := Option.map_eq_some_iff.mp hends
  obtain ⟨hfailures, hcompleted⟩ := Prod.mk.inj hends
  obtain ⟨at_, hat, hmarked⟩ := Option.map_eq_some_iff.mp hmarked
  obtain ⟨hhandler, hvalidation⟩ := markers_final samplePair Validation.loadNeverRanked
  exact ⟨⟨w, hw, hfailures, hcompleted, hhandler _ w hw (by decide +kernel) (by decide +kernel)⟩,
    at_, hat, hmarked, hvalidation _ _ at_ rfl rfl hat (by decide +kernel)⟩

end Graveboards.Requests
