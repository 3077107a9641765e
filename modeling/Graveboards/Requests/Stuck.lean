import Graveboards.Requests.Dispatch

/-!
Whether a pair can be submitted again. The hash under the pair's key is created
by `POST`, removed by `POST` and `DELETE` and marked by the handler job with a
single-field `HSET`, which creates a key that is not there.
-/

namespace Graveboards.Requests

open Library

/-- The answer executes the `HSET` of a marker. -/
def JobStage.marks : JobStage → JobAnswer → Bool
  | .complete _ _, .marked _ .done => true
  | .complete _ _, .marked _ .lost => true
  | .fail _ _, .marked _ .done => true
  | .fail _ _, .marked _ .lost => true
  | _, _ => false

/-- The attempt has failed and cannot say so. -/
def JobStage.silent : JobStage → JobAnswer → Bool
  | .fail _ _, .marked _ .failed => true
  | _, _ => false

/-- The call ends with its hash stored and its job unpublished. -/
def PostStage.strands : PostStage → PostAnswer → Bool
  | .store _, .replied .lost => true
  | .publish, .replied .failed => true
  | _, _ => false

/-- The scheduler drops the job. -/
def JobAnswer.drops : JobAnswer → Bool
  | .dropped => true
  | _ => false

/-- The job has still to insert its row or to say that it has failed. -/
def JobStage.undecided (stage : JobStage) : Bool := stage.unfinished && stage.inserted?.isNone

/-- The `DELETE` has found its row. -/
def Delete.found (d : Delete) : Bool :=
  match d.stage with
  | .dropTask | .dropValidation | .dropRow => true
  | _ => false

/-- It has removed the hash and not yet the row. -/
def Delete.dropping (d : Delete) : Bool :=
  match d.stage with
  | .dropValidation | .dropRow => true
  | _ => false

theorem Delete.found_of_dropping {d : Delete} (h : d.dropping = true) : d.found = true := by
  obtain ⟨requestId, stage⟩ := d
  cases stage <;> first | rfl | cases h

namespace World

variable (w : World)

/-- The row is there and no `DELETE` is about to remove it. -/
def kept : Prop :=
  ∃ requestId ∈ w.shared.row, ∀ d ∈ w.deletes, d.dropping = true → d.requestId ≠ requestId

/-- The hash is absent or marked as failed. -/
def submittable : Prop := w.shared.hash.all (marked "failed_at") = true

/-- A job that waits can be dropped: a `POST` has still to publish or another
job to decide, or the hash is as it may be left. -/
def covered : Prop :=
  (∃ p ∈ w.posts, p.stage.publishing = true) ∨ 2 ≤ w.jobs.countP JobStage.undecided ∨
    w.submittable ∨ w.kept

end World

/-- A stored hash is published, a failure is marked, a marker is written into a
hash that is there, and a job is dropped only where that leaves the pair
covered. -/
def Traceable : Label → World → Prop
  | .advancePost i answer, w => ∀ p ∈ w.posts[i]?, p.stage.strands answer = false
  | .advanceJob i answer, w => ∀ stage ∈ w.jobs[i]?, stage.silent answer = false ∧
      (stage.marks answer = true → w.shared.hash.isSome = true) ∧
      (answer.drops = true → w.covered)
  | _, _ => True

instance (w : World) : Decidable w.kept :=
  inferInstanceAs (Decidable (∃ requestId ∈ w.shared.row, ∀ d ∈ w.deletes,
    d.dropping = true → d.requestId ≠ requestId))

instance (w : World) : Decidable w.submittable :=
  inferInstanceAs (Decidable (w.shared.hash.all (marked "failed_at") = true))

instance (w : World) : Decidable w.covered :=
  inferInstanceAs (Decidable ((∃ p ∈ w.posts, p.stage.publishing = true) ∨
    2 ≤ w.jobs.countP JobStage.undecided ∨ w.submittable ∨ w.kept))

instance : (label : Label) → (w : World) → Decidable (Traceable label w)
  | .advancePost i answer, w =>
      inferInstanceAs (Decidable (∀ p ∈ w.posts[i]?, p.stage.strands answer = false))
  | .advanceJob i answer, w =>
      inferInstanceAs (Decidable (∀ stage ∈ w.jobs[i]?, stage.silent answer = false ∧
        (stage.marks answer = true → w.shared.hash.isSome = true) ∧
        (answer.drops = true → w.covered)))
  | .post _, _ => isTrue trivial
  | .delete _, _ => isTrue trivial
  | .advanceDelete _ _, _ => isTrue trivial

/-- What holds between the commands: while a job has inserted its row, and when
nobody is busy, the hash is as it may be left, or somebody else is busy. -/
structure Recoverable (w : World) : Prop where
  readable : ∀ fields, w.shared.hash = some fields →
    ∃ task : QueueRequestHandlerTask, task.StoredIn fields
  row : ∀ requestId, w.shared.row = some requestId → requestId < w.shared.nextId
  found : ∀ d ∈ w.deletes, d.found = true → d.requestId < w.shared.nextId
  single : w.jobs.countP JobStage.running ≤ 1
  inserted : (∃ stage ∈ w.jobs, stage.inserted?.isSome = true) →
    w.submittable ∨ 2 ≤ w.busy ∨ w.kept
  idle : w.busy = 0 → w.submittable ∨ w.kept

theorem World.submittable_of_absent {w : World} (h : w.shared.hash = none) : w.submittable := by
  rw [World.submittable, h]
  rfl

/-! Jobs. -/

section Jobs

variable {stage stage' : JobStage} {answer : JobAnswer} {s s' : Shared}

theorem JobStage.running_of_inserted (h : stage.inserted?.isSome = true) :
    stage.running = true := by
  cases stage <;> first | rfl | cases h

theorem JobStage.unfinished_of_inserted (h : stage.inserted?.isSome = true) :
    stage.unfinished = true := by
  cases stage <;> first | rfl | cases h

theorem JobStage.running_of_unfinished (h : stage.unfinished = true) (hne : stage ≠ .waiting) :
    stage.running = true := by
  cases stage <;> first | rfl | cases h
  exact absurd rfl hne

/-- What a step of a job does to the hash and the row, unless the job is dropped
or closed: nothing, the insertion, or one of the two markers. -/
theorem jobStep_traceable (h : jobStep stage answer s = some (stage', s'))
    (hfrom : stage.unfinished = true) (hdrops : answer.drops = false)
    (hsilent : stage.silent answer = false)
    (hmarks : stage.marks answer = true → s.hash.isSome = true) :
    (s'.hash = s.hash ∧ s'.row = s.row ∧ s'.nextId = s.nextId ∧ stage'.unfinished = true ∧
        (stage'.inserted?.isSome = true → stage.inserted?.isSome = true)) ∨
      (s.row = none ∧ s' = insertRow s ∧ stage'.unfinished = true) ∨
      (∃ fields m, s.hash = some fields ∧ s' = markHash "completed_at" m s ∧
        stage.inserted?.isSome = true ∧ stage'.inserted? = none) ∨
      ∃ fields m, s.hash = some fields ∧ s' = markFailed m s ∧ stage'.inserted? = none := by
  have hmove := jobStep_move h
  cases stage with
  | complete k requestId =>
      rcases answer with _ | _ | _ | _ | (_ | _ | _) | ⟨m, _ | _ | _⟩ <;> cases h
      · obtain ⟨fields, hfields⟩ := Option.isSome_iff_exists.mp (hmarks rfl)
        exact Or.inr (Or.inr (Or.inl ⟨fields, m, hfields, rfl, rfl, rfl⟩))
      · obtain ⟨fields, hfields⟩ := Option.isSome_iff_exists.mp (hmarks rfl)
        exact Or.inr (Or.inr (Or.inl ⟨fields, m, hfields, rfl, rfl, rfl⟩))
      · exact Or.inl ⟨rfl, rfl, rfl, rfl, by simp [JobStage.inserted?]⟩
  | fail k retryable =>
      rcases answer with _ | _ | _ | _ | (_ | _ | _) | ⟨m, _ | _ | _⟩ <;> cases h
      · obtain ⟨fields, hfields⟩ := Option.isSome_iff_exists.mp (hmarks rfl)
        refine Or.inr (Or.inr (Or.inr ⟨fields, m, hfields, rfl, ?_⟩))
        split <;> rfl
      · obtain ⟨fields, hfields⟩ := Option.isSome_iff_exists.mp (hmarks rfl)
        exact Or.inr (Or.inr (Or.inr ⟨fields, m, hfields, rfl, rfl⟩))
      · cases hsilent
  | insert k task =>
      cases hmove with
      | raised _ _ retryable hfrom =>
          exact Or.inl ⟨rfl, rfl, rfl, rfl, by simp [JobStage.inserted?]⟩
      | inserted _ _ hrow =>
          exact Or.inr (Or.inl ⟨hrow, rfl, rfl⟩)
      | insertLost _ _ hrow =>
          exact Or.inr (Or.inl ⟨hrow, rfl, rfl⟩)
  | storeValidation k requestId =>
      cases hmove with
      | raised _ _ retryable hfrom =>
          exact Or.inl ⟨rfl, rfl, rfl, rfl, by simp [JobStage.inserted?]⟩
      | validationStored _ _ _ hto =>
          rcases hto with rfl | rfl <;>
            exact Or.inl ⟨rfl, rfl, rfl, rfl, by simp [JobStage.inserted?]⟩
  | publishValidation k requestId =>
      cases hmove with
      | raised _ _ retryable hfrom =>
          exact Or.inl ⟨rfl, rfl, rfl, rfl, by simp [JobStage.inserted?]⟩
      | validationPublished _ _ _ hto =>
          rcases hto with rfl | rfl <;>
            exact Or.inl ⟨rfl, rfl, rfl, rfl, by simp [JobStage.inserted?]⟩
  | waiting =>
      rcases answer with _ | _ | _ | _ | (_ | _ | _) | ⟨_, _ | _ | _⟩ <;> cases h
      · exact Or.inl ⟨rfl, rfl, rfl, rfl, by simp [JobStage.inserted?]⟩
      · cases hdrops
  | closing | finished => cases hfrom
  | _ => cases hmove <;> exact Or.inl ⟨rfl, rfl, rfl, rfl, by simp [JobStage.inserted?]⟩

theorem idle_of_mayMove {jobs : List JobStage} (hmay : mayMove jobs .waiting answer = true)
    (hdrops : answer.drops = false) : ∀ other ∈ jobs, other.running = false := by
  cases answer with
  | dropped => cases hdrops
  | _ => simpa [mayMove] using hmay

/-- Only a job that waits is dropped. -/
theorem jobStep_drop (h : jobStep stage answer s = some (stage', s'))
    (hdrops : answer.drops = true) :
    stage = .waiting ∧ stage' = .finished ∧ s' = s := by
  cases answer with
  | dropped =>
      cases stage <;> cases h
      exact ⟨rfl, rfl, rfl⟩
  | _ => cases hdrops

/-- When a job moves, no other one is running. -/
theorem running_alone {jobs : List JobStage} {i : Nat} (hsingle : jobs.countP JobStage.running ≤ 1)
    (hjob : jobs[i]? = some stage) (hmay : mayMove jobs stage answer = true)
    (hfrom : stage.unfinished = true) (hdrops : answer.drops = false) :
    ∀ x ∈ jobs.set i stage', x.running = true → x = stage' := by
  have hothers : ∀ x ∈ jobs.set i .finished, x.running = false := by
    by_cases hwaiting : stage = .waiting
    · subst hwaiting
      exact Runs.forall_mem_set (idle_of_mayMove hmay hdrops) rfl
    · exact Runs.uncounted_of_set hjob hsingle (JobStage.running_of_unfinished hfrom hwaiting) rfl
  intro x hx hrunning
  obtain ⟨j, hj⟩ := List.mem_iff_getElem?.mp hx
  rcases Runs.getElem?_set_cases hj with ⟨-, hsame⟩ | ⟨hne, hold⟩
  · exact hsame
  · have hmem : x ∈ jobs.set i .finished :=
      List.mem_of_getElem? (by rw [List.getElem?_set_ne (Ne.symm hne), hold])
    rw [hothers x hmem] at hrunning
    cases hrunning

theorem running_single {jobs : List JobStage} {i : Nat} (hsingle : jobs.countP JobStage.running ≤ 1)
    (stage' : JobStage) (hjob : jobs[i]? = some stage) (hmay : mayMove jobs stage answer = true)
    (hfrom : stage.unfinished = true) (hdrops : answer.drops = false) :
    (jobs.set i stage').countP JobStage.running ≤ 1 := by
  by_cases hwaiting : stage = .waiting
  · subst hwaiting
    have hzero : jobs.countP JobStage.running = 0 :=
      List.countP_eq_zero.mpr (by simpa using idle_of_mayMove hmay hdrops)
    have hcount := Runs.countP_set_add JobStage.running hjob stage'
    have hle : stage'.running.toNat ≤ 1 := Bool.toNat_le _
    omega
  · refine (Runs.countP_set_le hjob (fun _ => ?_)).trans hsingle
    exact JobStage.running_of_unfinished hfrom hwaiting

/-- A job that runs, or has still to, has inserted its row or is undecided. -/
theorem countP_unfinished (jobs : List JobStage) : jobs.countP JobStage.unfinished =
    jobs.countP JobStage.undecided + jobs.countP (fun stage => stage.inserted?.isSome) := by
  induction jobs with
  | nil => rfl
  | cons stage rest ih =>
      simp only [List.countP_cons, ih]
      cases stage <;> simp [JobStage.undecided, JobStage.unfinished, JobStage.inserted?] <;> omega

theorem mem_of_inserted {jobs : List JobStage} {i : Nat} (hnone : stage'.inserted? = none)
    (h : ∃ x ∈ jobs.set i stage', x.inserted?.isSome = true) :
    ∃ x ∈ jobs, x.inserted?.isSome = true := by
  obtain ⟨x, hx, hsome⟩ := h
  rcases List.mem_or_eq_of_mem_set hx with hold | rfl
  · exact ⟨x, hold, hsome⟩
  · rw [hnone] at hsome
    cases hsome

/-- The handler discards its id. -/
theorem Recoverable.close {w : World} {i : Nat} (hw : Recoverable w)
    (hjob : w.jobs[i]? = some .closing) :
    Recoverable { w with jobs := w.jobs.set i .finished } := by
  have hbusy : ({ w with jobs := w.jobs.set i .finished } : World).busy = w.busy :=
    congrArg (· + _) (Runs.countP_set_of_eq (p := JobStage.unfinished) hjob rfl)
  refine ⟨hw.readable, hw.row, hw.found,
    (Runs.countP_set_le hjob (fun h => by cases h)).trans hw.single, fun hinserted => ?_, ?_⟩
  · rw [hbusy]
    exact hw.inserted (mem_of_inserted rfl hinserted)
  · rw [hbusy]
    exact hw.idle

/-- The scheduler drops a job where that leaves the pair covered. -/
theorem Recoverable.drop {w : World} {i : Nat} (hw : Recoverable w)
    (hjob : w.jobs[i]? = some .waiting) (hcovered : w.covered) :
    Recoverable { w with jobs := w.jobs.set i .finished } := by
  have hsplit := countP_unfinished (w.jobs.set i .finished)
  refine ⟨hw.readable, hw.row, hw.found,
    (Runs.countP_set_le hjob (fun h => by cases h)).trans hw.single, fun hinserted => ?_, ?_⟩
  · have hone : 0 < (w.jobs.set i .finished).countP (fun stage => stage.inserted?.isSome) :=
      List.countP_pos_iff.mpr hinserted
    rcases hcovered with hpublishing | hundecided | hsubmittable | hkept
    · have hpost : 0 < w.posts.countP (fun p => p.stage.publishing) :=
        List.countP_pos_iff.mpr hpublishing
      refine Or.inr (Or.inl ?_)
      unfold World.busy
      dsimp only
      omega
    · have hother := Runs.countP_set_add JobStage.undecided hjob .finished
      have hwaiting : JobStage.waiting.undecided.toNat = 1 := rfl
      refine Or.inr (Or.inl ?_)
      unfold World.busy
      dsimp only
      omega
    · exact Or.inl hsubmittable
    · exact Or.inr (Or.inr hkept)
  · intro hidle
    unfold World.busy at hidle
    dsimp only at hidle
    rcases hcovered with hpublishing | hundecided | hsubmittable | hkept
    · have hpost : 0 < w.posts.countP (fun p => p.stage.publishing) :=
        List.countP_pos_iff.mpr hpublishing
      omega
    · have hother := Runs.countP_set_add JobStage.undecided hjob .finished
      have hwaiting : JobStage.waiting.undecided.toNat = 1 := rfl
      omega
    · exact Or.inl hsubmittable
    · exact Or.inr hkept

theorem Recoverable.job {w : World} {i : Nat} (hw : Recoverable w) (hjob : w.jobs[i]? = some stage)
    (hmay : mayMove w.jobs stage answer = true)
    (h : jobStep stage answer w.shared = some (stage', s')) (hfrom : stage.unfinished = true)
    (hdrops : answer.drops = false) (hsilent : stage.silent answer = false)
    (hmarks : stage.marks answer = true → w.shared.hash.isSome = true) :
    Recoverable { w with shared := s', jobs := w.jobs.set i stage' } := by
  have hmem := List.mem_of_getElem? hjob
  have hsingle := running_single hw.single stage' hjob hmay hfrom hdrops
  have hbusy := busy_set_job s' stage' hjob hfrom
  -- Only the attempt that moves can have a row of its own.
  have halone (hinserted : ∃ x ∈ w.jobs.set i stage', x.inserted?.isSome = true) :
      stage'.inserted?.isSome = true := by
    obtain ⟨x, hx, hsome⟩ := hinserted
    obtain rfl := running_alone hw.single hjob hmay hfrom hdrops x hx
      (JobStage.running_of_inserted hsome)
    exact hsome
  have hpos : 0 < w.busy := by
    have hone := List.countP_pos_iff.mpr ⟨stage, hmem, hfrom⟩
    unfold World.busy
    omega
  rcases jobStep_traceable h hfrom hdrops hsilent hmarks with
    ⟨hhash, hrow, hnext, hto, hinserted⟩ | ⟨hrow, rfl, hto⟩ | ⟨fields, m, hhash, rfl, hat, hnone⟩ |
    ⟨fields, m, hhash, rfl, hnone⟩
  · rw [hto, Bool.toNat_true] at hbusy
    refine ⟨?_, ?_, ?_, hsingle, fun hsome => ?_, fun hidle => by omega⟩
    · rw [hhash]
      exact hw.readable
    · rw [hrow, hnext]
      exact hw.row
    · rw [hnext]
      exact hw.found
    · rcases hw.inserted ⟨stage, hmem, hinserted (halone hsome)⟩ with hsubmittable | htwo | hkept
      · refine Or.inl ?_
        rw [World.submittable, hhash]
        exact hsubmittable
      · exact Or.inr (Or.inl (by omega))
      · refine Or.inr (Or.inr ?_)
        rw [World.kept, hrow]
        exact hkept
  · rw [hto, Bool.toNat_true] at hbusy
    refine ⟨hw.readable, ?_, ?_, hsingle, fun _ => Or.inr (Or.inr ?_), fun hidle => by omega⟩
    · intro requestId hr
      obtain rfl : w.shared.nextId = requestId := Option.some.inj hr
      exact Nat.lt_succ_self _
    · exact fun d hd hfound => Nat.lt_succ_of_lt (hw.found d hd hfound)
    · refine ⟨w.shared.nextId, rfl, fun d hd hdropping => ?_⟩
      exact (hw.found d hd (Delete.found_of_dropping hdropping)).ne
  · refine ⟨?_, hw.row, hw.found, hsingle, fun hsome => ?_, fun hidle => ?_⟩
    · intro fields' hfields'
      obtain ⟨task, hstored⟩ := hw.readable fields hhash
      obtain rfl : fields.mark "completed_at" m = fields' := by
        simpa [markHash, hhash] using hfields'
      exact ⟨_, hstored.markCompleted m⟩
    · have hsome := halone hsome
      rw [hnone] at hsome
      cases hsome
    · rcases hw.inserted ⟨stage, hmem, hat⟩ with hsubmittable | htwo | hkept
      · refine Or.inl ?_
        rw [World.submittable, hhash] at hsubmittable
        rw [World.submittable, markHash, hhash]
        exact (marked_mark_of_ne (by decide) m fields).trans hsubmittable
      · have hle : stage'.unfinished.toNat ≤ 1 := Bool.toNat_le _
        omega
      · exact Or.inr hkept
  · refine ⟨?_, hw.row, hw.found, hsingle, fun hsome => ?_, fun _ => Or.inl ?_⟩
    · intro fields' hfields'
      obtain ⟨task, hstored⟩ := hw.readable fields hhash
      obtain rfl : fields.mark "failed_at" m = fields' := by
        simpa [markFailed, markHash, hhash] using hfields'
      exact ⟨_, hstored.markFailed m⟩
    · have hsome := halone hsome
      rw [hnone] at hsome
      cases hsome
    · exact marked_mark "failed_at" m (w.shared.hash.getD Fields.empty)

end Jobs

/-! Calls of `POST`. -/

section Posts

variable {pair : Pair} {p p' : Post} {answer : PostAnswer} {s s' : Shared} {b : Bool}

/-- What a step of a call does to the hash and the jobs: nothing, the removal,
the storing or the publication. -/
theorem postStep_traceable (h : postStep pair p answer s = some (p', s', b))
    (hstrands : p.stage.strands answer = false) :
    (s' = s ∧ p'.stage.publishing = p.stage.publishing ∧ b = false) ∨
      (s' = { s with hash := none } ∧ p'.stage.publishing = p.stage.publishing ∧ b = false) ∨
      (∃ task, s' = storeTask task s ∧ p.stage.publishing = false ∧ p'.stage.publishing = true ∧
        b = false) ∨
      (s' = s ∧ p.stage.publishing = true ∧ p'.stage.publishing = false ∧ b = true) := by
  by_cases hstore : ∃ task, p.stage = .store task
  · obtain ⟨submission, stage, reserved, storedIn⟩ := p
    obtain ⟨task, rfl⟩ := hstore
    rcases answer with _ | _ | _ | _ | _ | (_ | _ | _) <;> cases h
    · exact Or.inr (Or.inr (Or.inl ⟨task, rfl, rfl, rfl, rfl⟩))
    · cases hstrands
    · exact Or.inl ⟨rfl, rfl, rfl⟩
  by_cases hpublish : p.stage = .publish
  · obtain ⟨submission, stage, reserved, storedIn⟩ := p
    obtain rfl : stage = .publish := hpublish
    rcases answer with _ | _ | _ | _ | _ | (_ | _ | _) <;> cases h
    · exact Or.inr (Or.inr (Or.inr ⟨rfl, rfl, rfl, rfl⟩))
    · exact Or.inr (Or.inr (Or.inr ⟨rfl, rfl, rfl, rfl⟩))
    · cases hstrands
  cases postStep_move h with
  | early stage hfrom hto htask =>
      obtain ⟨-, -, hbefore⟩ := PostStage.early_outside hfrom
      obtain ⟨-, -, hafter⟩ := PostStage.next_outside hto
      exact Or.inl ⟨rfl, hafter.trans hbefore.symm, rfl⟩
  | refuse e hfrom hnot =>
      exact Or.inl ⟨rfl, (PostStage.critical_not_publishing hfrom).symm, rfl⟩
  | clear task stage hfrom hto =>
      refine Or.inr (Or.inl ⟨rfl, ?_, rfl⟩)
      rw [hfrom]
      rcases hto with rfl | rfl <;> rfl
  | store task stage hfrom hto => exact absurd ⟨task, hfrom⟩ hstore
  | storeFailed task hfrom => exact absurd ⟨task, hfrom⟩ hstore
  | publish stage hfrom hto => exact absurd hfrom hpublish
  | publishFailed hfrom => exact absurd hfrom hpublish
  | absent queue task hfrom hhash => exact Or.inl ⟨rfl, by rw [hfrom]; rfl, rfl⟩
  | present queue task fields hfrom hhash => exact Or.inl ⟨rfl, by rw [hfrom]; rfl, rfl⟩
  | failedTask queue task existing fields hfrom hhash hread hfailed =>
      exact Or.inl ⟨rfl, by rw [hfrom]; rfl, rfl⟩
  | reserve task hfrom => exact Or.inl ⟨rfl, by rw [hfrom]; rfl, rfl⟩
  | rollback hfrom => exact Or.inl ⟨rfl, by rw [hfrom]; rfl, rfl⟩

theorem Recoverable.post {w : World} {i : Nat} (hw : Recoverable w) (hp : w.posts[i]? = some p)
    (h : postStep pair p answer w.shared = some (p', s', b))
    (hstrands : p.stage.strands answer = false) :
    Recoverable { w with
      shared := s'
      posts := w.posts.set i p'
      jobs := if b then w.jobs ++ [.waiting] else w.jobs } := by
  have hcount := Runs.countP_set_add (fun q : Post => q.stage.publishing) hp p'
  rcases postStep_traceable h hstrands with ⟨rfl, hsame, rfl⟩ | ⟨rfl, hsame, rfl⟩ |
    ⟨task, rfl, hbefore, hafter, rfl⟩ | ⟨rfl, hbefore, hafter, rfl⟩
  · have hbusy : ({ w with posts := w.posts.set i p' } : World).busy = w.busy := by
      unfold World.busy
      rw [Runs.countP_set_of_eq (p := fun q : Post => q.stage.publishing) hp hsame]
    refine ⟨hw.readable, hw.row, hw.found, hw.single, ?_, ?_⟩
    · rw [if_neg Bool.false_ne_true, hbusy]
      exact hw.inserted
    · rw [if_neg Bool.false_ne_true, hbusy]
      exact hw.idle
  · exact ⟨by simp, hw.row, hw.found, hw.single, fun _ => Or.inl (World.submittable_of_absent rfl),
      fun _ => Or.inl (World.submittable_of_absent rfl)⟩
  · have hbusy : ({ w with
        shared := storeTask task w.shared
        posts := w.posts.set i p'
        jobs := if false then w.jobs ++ [.waiting] else w.jobs } : World).busy = w.busy + 1 := by
      unfold World.busy
      simp only [hbefore, hafter, Bool.toNat_true, Bool.toNat_false] at hcount
      simp only [Bool.false_eq_true, if_false]
      omega
    refine ⟨?_, hw.row, hw.found, hw.single, ?_, fun hidle => by omega⟩
    · intro fields hfields
      obtain rfl := Option.some.inj hfields
      exact ⟨task, QueueRequestHandlerTask.storedIn_setAll task _⟩
    · rintro ⟨stage, hstage, hsome⟩
      have hone := List.countP_pos_iff.mpr ⟨stage, hstage, JobStage.unfinished_of_inserted hsome⟩
      refine Or.inr (Or.inl ?_)
      rw [hbusy, World.busy]
      simp only [Bool.false_eq_true, if_false] at hone
      omega
  · have hbusy : ({ w with
        posts := w.posts.set i p'
        jobs := if true then w.jobs ++ [.waiting] else w.jobs } : World).busy = w.busy := by
      unfold World.busy
      simp only [hbefore, hafter, Bool.toNat_true, Bool.toNat_false] at hcount
      have hone : [JobStage.waiting].countP JobStage.unfinished = 1 := rfl
      simp only [if_true, List.countP_append]
      omega
    refine ⟨hw.readable, hw.row, hw.found, ?_, ?_, ?_⟩
    · rw [if_pos rfl, List.countP_append]
      exact hw.single
    · rw [hbusy]
      rintro ⟨stage, hstage, hsome⟩
      rcases List.mem_append.mp hstage with hold | hnew
      · exact hw.inserted ⟨stage, hold, hsome⟩
      · obtain rfl := List.mem_singleton.mp hnew
        cases hsome
    · rw [hbusy]
      exact hw.idle

end Posts

/-! Calls of `DELETE`. -/

section Deletes

variable {d d' : Delete} {delivery : Delivery} {s s' : Shared}

/-- What a step of a `DELETE` does: it removes the hash, or it keeps it and
removes at most the row it has been dropping. -/
theorem deleteStep_cases (h : deleteStep d delivery s = some (d', s')) :
    d'.requestId = d.requestId ∧ s'.nextId = s.nextId ∧
      (d'.found = true → d.found = true ∨ s.row = some d.requestId) ∧
      ((s'.hash = none ∧ s'.row = s.row) ∨
        (s'.hash = s.hash ∧ (d'.dropping = true → d.dropping = true) ∧
          (s'.row = s.row ∨ (d.dropping = true ∧ s.row = some d.requestId ∧ s'.row = none)))) := by
  obtain ⟨requestId, stage⟩ := d
  cases stage with
  | find =>
      cases delivery with
      | done =>
          simp only [deleteStep] at h
          split at h
          · next hrow =>
              cases h
              exact ⟨rfl, rfl, fun _ => Or.inr hrow,
                Or.inr ⟨rfl, by simp [Delete.dropping], Or.inl rfl⟩⟩
          · cases h
            exact ⟨rfl, rfl, by simp [Delete.found],
              Or.inr ⟨rfl, by simp [Delete.dropping], Or.inl rfl⟩⟩
      | lost => cases h
      | failed =>
          cases h
          exact ⟨rfl, rfl, by simp [Delete.found],
            Or.inr ⟨rfl, by simp [Delete.dropping], Or.inl rfl⟩⟩
  | dropTask =>
      cases delivery <;> cases h
      · exact ⟨rfl, rfl, fun _ => Or.inl rfl, Or.inl ⟨rfl, rfl⟩⟩
      · exact ⟨rfl, rfl, fun _ => Or.inl rfl, Or.inl ⟨rfl, rfl⟩⟩
      · exact ⟨rfl, rfl, fun _ => Or.inl rfl, Or.inr ⟨rfl, by simp [Delete.dropping], Or.inl rfl⟩⟩
  | dropValidation =>
      cases delivery <;> cases h <;>
        exact ⟨rfl, rfl, fun _ => Or.inl rfl, Or.inr ⟨rfl, fun _ => rfl, Or.inl rfl⟩⟩
  | dropRow =>
      cases delivery <;> cases h
      case dropRow.failed.refl =>
        exact ⟨rfl, rfl, fun _ => Or.inl rfl, Or.inr ⟨rfl, fun _ => rfl, Or.inl rfl⟩⟩
      all_goals
        unfold dropRow
        split
        · next hrow =>
            exact ⟨rfl, rfl, fun _ => Or.inl rfl,
              Or.inr ⟨rfl, fun _ => rfl, Or.inr ⟨rfl, hrow, rfl⟩⟩⟩
        · exact ⟨rfl, rfl, fun _ => Or.inl rfl, Or.inr ⟨rfl, fun _ => rfl, Or.inl rfl⟩⟩
  | deleted => cases delivery <;> cases h
  | refused => cases delivery <;> cases h

theorem Recoverable.delete {w : World} {i : Nat} (hw : Recoverable w)
    (hd : w.deletes[i]? = some d) (h : deleteStep d delivery w.shared = some (d', s')) :
    Recoverable { w with shared := s', deletes := w.deletes.set i d' } := by
  have hmem := List.mem_of_getElem? hd
  obtain ⟨hid, hnext, hfound, hcases⟩ := deleteStep_cases h
  have hfound' : ∀ e ∈ w.deletes.set i d', e.found = true → e.requestId < s'.nextId := by
    rw [hnext]
    refine Runs.forall_mem_set hw.found (fun hto => ?_)
    rw [hid]
    exact (hfound hto).elim (hw.found d hmem) (hw.row d.requestId)
  rcases hcases with ⟨hhash, hrow⟩ | ⟨hhash, hdropping, hrow⟩
  · refine ⟨by simp [hhash], ?_, hfound', hw.single,
      fun _ => Or.inl (World.submittable_of_absent hhash),
      fun _ => Or.inl (World.submittable_of_absent hhash)⟩
    rw [hrow, hnext]
    exact hw.row
  · have hkept (h : w.kept) :
        ({ w with shared := s', deletes := w.deletes.set i d' } : World).kept := by
      obtain ⟨requestId, hat, hnot⟩ := h
      refine ⟨requestId, ?_, Runs.forall_mem_set hnot (fun hto => ?_)⟩
      · rcases hrow with hsame | ⟨hd, hold, -⟩
        · exact hsame.trans hat
        · exact absurd (Option.some.inj (hold.symm.trans hat)) (hnot d hmem hd)
      · rw [hid]
        exact hnot d hmem (hdropping hto)
    have hsubmittable (h : w.submittable) :
        ({ w with shared := s', deletes := w.deletes.set i d' } : World).submittable := by
      rw [World.submittable, hhash]
      exact h
    refine ⟨?_, ?_, hfound', hw.single, fun hinserted => ?_, fun hidle => ?_⟩
    · rw [hhash]
      exact hw.readable
    · rw [hnext]
      rcases hrow with hsame | ⟨-, -, hnone⟩
      · rw [hsame]
        exact hw.row
      · simp [hnone]
    · exact (hw.inserted hinserted).imp hsubmittable (Or.imp id hkept)
    · exact (hw.idle hidle).imp hsubmittable hkept

end Deletes

theorem recoverable_step {pair : Pair} {label : Label} {w w' : World} (hw : Recoverable w)
    (htraceable : Traceable label w) (hstep : step pair label w = some w') : Recoverable w' := by
  cases label with
  | post submission =>
      obtain rfl := Option.some.inj hstep
      have hbusy :
          ({ w with posts := w.posts ++ [⟨submission, .queue, false, none⟩] } : World).busy =
          w.busy := by
        simp [World.busy, PostStage.publishing]
      refine ⟨hw.readable, hw.row, hw.found, hw.single, ?_, ?_⟩
      · rw [hbusy]
        exact hw.inserted
      · rw [hbusy]
        exact hw.idle
  | advancePost i answer =>
      obtain ⟨p, p', s, b, hp, hpost, rfl⟩ := advancePost_eq_some hstep
      exact hw.post hp hpost (htraceable p hp)
  | advanceJob i answer =>
      obtain ⟨stage, stage', s, hjob, hmay, hmove, rfl⟩ := advanceJob_eq_some hstep
      obtain ⟨hsilent, hmarks, hcovered⟩ := htraceable stage hjob
      rcases jobStep_unfinished hmove with hfrom | ⟨rfl, rfl, rfl⟩
      · cases hdrops : answer.drops with
        | false => exact hw.job hjob hmay hmove hfrom hdrops hsilent hmarks
        | true =>
            obtain ⟨rfl, rfl, rfl⟩ := jobStep_drop hmove hdrops
            exact hw.drop hjob (hcovered hdrops)
      · exact hw.close hjob
  | delete requestId =>
      obtain rfl := Option.some.inj hstep
      have hkept (h : w.kept) :
          ({ w with deletes := w.deletes ++ [⟨requestId, .find⟩] } : World).kept := by
        obtain ⟨r, hat, hnot⟩ := h
        exact ⟨r, hat, by simpa [or_imp, forall_and, Delete.dropping] using hnot⟩
      refine ⟨hw.readable, hw.row, ?_, hw.single, fun hinserted => ?_, fun hidle => ?_⟩
      · simpa [or_imp, forall_and, Delete.found] using hw.found
      · exact (hw.inserted hinserted).imp id (Or.imp id hkept)
      · exact (hw.idle hidle).imp id hkept
  | advanceDelete i delivery =>
      obtain ⟨d, d', s, hd, hdelete, rfl⟩ := advanceDelete_eq_some hstep
      exact hw.delete hd hdelete

theorem recoverable_initially : Recoverable initially := by
  constructor <;> simp [initially, World.busy, World.submittable]

/-- In every run whose calls publish what they store, whose failed attempts are
marked, whose markers find their hash and whose dropped jobs leave the pair
covered: the hash is absent or readable, and once no job has an attempt left,
every `POST` has ended and there is no row, the check of the hash lets a new
`POST` through. -/
theorem pair_never_stuck (pair : Pair) {labels : List Label} {w : World}
    (hrun : Runs.run (step pair) labels initially = some w)
    (hmeets : Runs.Meets (step pair) Traceable labels initially) :
    (∀ fields, w.shared.hash = some fields →
      ∃ task, QueueRequestHandlerTask.deserialize fields = .ok task) ∧
    ((∀ stage ∈ w.jobs, stage.unfinished = false) → (∀ p ∈ w.posts, p.stage.ended = true) →
      w.shared.row = none → ∀ fields, w.shared.hash = some fields →
        ∀ queue task, existingTask pair queue task fields = .clear task) := by
  have hw : Recoverable w :=
    Runs.invariant_of_run Recoverable
      (fun _ _ _ h hcondition hstep => recoverable_step h hcondition hstep)
      recoverable_initially hmeets hrun
  refine ⟨fun fields hfields => ?_, fun hjobs hposts hrow fields hfields queue task => ?_⟩
  · obtain ⟨task, hstored⟩ := hw.readable fields hfields
    exact ⟨task, hstored.deserialize⟩
  · have hidle : w.busy = 0 := by
      have hzero : w.jobs.countP JobStage.unfinished = 0 :=
        List.countP_eq_zero.mpr (by simpa using hjobs)
      have hzero' : w.posts.countP (fun p => p.stage.publishing) = 0 := by
        refine List.countP_eq_zero.mpr (fun p hp => ?_)
        simp [PostStage.ended_not_publishing (hposts p hp)]
      rw [World.busy, hzero, hzero']
    obtain ⟨existing, hstored⟩ := hw.readable fields hfields
    rcases hw.idle hidle with hsubmittable | ⟨requestId, hat, -⟩
    · rw [World.submittable, hfields, Option.all_some, hstored.marked_failed] at hsubmittable
      simp only [existingTask, hstored.deserialize, hsubmittable, if_true]
    · exact absurd (hrow.symm.trans hat) (by simp)

/-- Two calls publish one job each. The second job is dropped while the first
one runs, the first one fails, and a `DELETE` finds no row. -/
def droppedJob : List Label :=
  .post (sampleSubmission 3) :: .post (sampleSubmission 4) :: untilCheck 0 ++ untilCheck 1 ++
    [.advancePost 0 (.replied .done), .advancePost 1 (.replied .done)] ++ untilAccepted 0 ++
    untilAccepted 1 ++ untilArchive ++
    [ .advanceJob 1 .dropped, .delete 1, .advanceJob 0 (.raised false), .advanceDelete 0 .done,
      .advanceJob 0 (.marked Iso.newYear .done), .advanceJob 0 .passed ]

/-- The pair can be submitted again. -/
theorem droppedJob_resubmittable :
    ∃ w, Runs.run (step samplePair) droppedJob initially = some w ∧
      w.jobs = [.finished, .finished] ∧ w.shared.hash.isSome = true ∧
      (∀ fields, w.shared.hash = some fields →
        ∃ task, QueueRequestHandlerTask.deserialize fields = .ok task) ∧
      ∀ fields, w.shared.hash = some fields →
        ∀ queue task, existingTask samplePair queue task fields = .clear task := by
  have hends : (Runs.run (step samplePair) droppedJob initially).map (fun w =>
      (w.jobs, w.shared.hash.isSome, w.posts.map (fun p => p.stage), w.shared.row)) =
      some ([.finished, .finished], true, [.accepted, .accepted], none) := by decide +kernel
  obtain ⟨w, hrun, hends⟩ := Option.map_eq_some_iff.mp hends
  simp only [Prod.mk.injEq] at hends
  obtain ⟨hjobs, hhash, hposts, hrow⟩ := hends
  have hmeets : Runs.Meets (step samplePair) Traceable droppedJob initially := by decide +kernel
  obtain ⟨hreadable, hfree⟩ := pair_never_stuck samplePair hrun hmeets
  refine ⟨w, hrun, hjobs, hhash, hreadable, hfree ?_ ?_ hrow⟩
  · rw [hjobs]
    decide
  · intro p hp
    have hstage : p.stage ∈ [PostStage.accepted, .accepted] := hposts ▸ List.mem_map_of_mem hp
    obtain heq : p.stage = .accepted := by simpa using hstage
    rw [heq]
    rfl

/-- The check of the hash that refuses a `POST`. -/
def refusal (w : World) : Option PostStage :=
  w.shared.hash.map (existingTask samplePair sampleQueue ((sampleSubmission 4).task samplePair 4))

def processing : PostStage := .refused (.conflict
  "The request with beatmapset ID '1000' in queue 'Mapping queue' is currently being processed")

/-- How a run ends: its jobs, its calls, no row, and what the check of the hash makes of another
call. -/
theorem exists_stranded {labels : List Label} {jobs : List JobStage} {stages : List PostStage}
    {refused : Option PostStage}
    (h : (Runs.run (step samplePair) labels initially).map (fun w =>
      (w.jobs, w.posts.map (fun p => p.stage), w.shared.row, refusal w)) =
        some (jobs, stages, none, refused)) :
    ∃ w, Runs.run (step samplePair) labels initially = some w ∧ w.jobs = jobs ∧
      w.posts.map (fun p => p.stage) = stages ∧ w.shared.row = none ∧ refusal w = refused := by
  obtain ⟨w, hrun, hends⟩ := Option.map_eq_some_iff.mp h
  simp only [Prod.mk.injEq] at hends
  exact ⟨w, hrun, hends⟩

/-- One failing `PUBLISH` leaves an unmarked hash that nobody works on. Without
any failure, a `DELETE` between the insertion and the last marker leaves a hash
with that marker only. A `POST` that comes while the handler of a failed job
has still to discard its id publishes a job that is dropped. All three refuse
every later `POST`. -/
theorem strandedHash_refuses :
    (∃ w, Runs.run (step samplePair)
        (.post (sampleSubmission 3) :: untilCheck 0 ++
          [ .advancePost 0 (.replied .done), .advancePost 0 .passed,
            .advancePost 0 (.replied .done), .advancePost 0 (.replied .failed),
            .advancePost 0 .passed ]) initially = some w ∧
      w.jobs = [] ∧ w.posts.map (fun p => p.stage) = [.refused .internal] ∧ w.shared.row = none ∧
      refusal w = some processing) ∧
    (∃ w, Runs.run (step samplePair)
        (.post (sampleSubmission 3) :: untilCheck 0 ++ .advancePost 0 (.replied .done) ::
          untilAccepted 0 ++ untilArchive ++
          [ .advanceJob 0 .passed, .advanceJob 0 (.replied .done), .delete 1,
            .advanceDelete 0 .done, .advanceDelete 0 .done, .advanceJob 0 .passed,
            .advanceJob 0 (.replied .done),
            .advanceJob 0 (.replied .done), .advanceJob 0 (.marked Iso.newYear .done),
            .advanceJob 0 .passed, .advanceDelete 0 .done, .advanceDelete 0 .done ]) initially =
        some w ∧
      w.jobs = [.finished] ∧ w.posts.map (fun p => p.stage) = [.accepted] ∧ w.shared.row = none ∧
      refusal w = some (.refused .internal)) ∧
    ∃ w, Runs.run (step samplePair)
        (.post (sampleSubmission 3) :: untilCheck 0 ++ .advancePost 0 (.replied .done) ::
          untilAccepted 0 ++ untilArchive ++
          [.advanceJob 0 (.raised false), .advanceJob 0 (.marked Iso.newYear .done)] ++
          .post (sampleSubmission 3) :: untilCheck 1 ++
          [ .advancePost 1 (.replied .done), .advancePost 1 (.replied .done),
            .advancePost 1 (.replied .done) ] ++ untilAccepted 1 ++
          [.advanceJob 1 .dropped, .advanceJob 0 .passed]) initially = some w ∧
      w.jobs = [.finished, .finished] ∧ w.posts.map (fun p => p.stage) = [.accepted, .accepted] ∧
      w.shared.row = none ∧ refusal w = some processing := by
  refine ⟨exists_stranded ?_, exists_stranded ?_, exists_stranded ?_⟩ <;> decide +kernel

end Graveboards.Requests
