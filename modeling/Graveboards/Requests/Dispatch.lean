import Graveboards.Requests.LifeCycle

/-!
The dispatch of the validation task. The row is inserted first; the snapshot of
the rules, the validation hash and the publication of its id follow as separate
commands, and no later attempt or call makes up for one that was lost.
-/

namespace Graveboards.Requests

open Library

/-- The answer leaves the row of the attempt without its validation task. A
publication whose reply was lost has still been made. -/
def JobStage.abandons (row : Option Nat) : JobStage → JobAnswer → Bool
  | .insert _ _, .replied .lost => row.isNone
  | .snapshot _ _ _, .raised _ => true
  | .storeValidation _ _, .replied .lost => true
  | .storeValidation _ _, .replied .failed => true
  | .publishValidation _ _, .replied .failed => true
  | _, _ => false

def Dispatching : Label → World → Prop
  | .advanceJob i answer, w => ∀ stage ∈ w.jobs[i]?, stage.abandons w.shared.row answer = false
  | _, _ => True

instance : (label : Label) → (w : World) → Decidable (Dispatching label w)
  | .advanceJob i answer, w =>
      inferInstanceAs (Decidable (∀ stage ∈ w.jobs[i]?, stage.abandons w.shared.row answer = false))
  | .post _, _ => isTrue trivial
  | .advancePost _ _, _ => isTrue trivial
  | .delete _, _ => isTrue trivial
  | .advanceDelete _ _, _ => isTrue trivial

/-- The validation task of the request has been stored and its id published. -/
def Shared.dispatched (s : Shared) (requestId : Nat) : Prop :=
  requestId ∈ s.validationStored ∧ requestId ∈ s.validationPublished

/-- The attempt has inserted the row and is on its way to the publication. -/
def JobStage.dispatching? : JobStage → Option Nat
  | .snapshot _ _ requestId | .storeValidation _ requestId | .publishValidation _ requestId =>
      some requestId
  | _ => none

/-- The attempt has stored the validation task and has still to publish it. -/
def JobStage.stored? : JobStage → Option Nat
  | .publishValidation _ requestId => some requestId
  | _ => none

structure Dispatched (w : World) : Prop where
  row : ∀ requestId, w.shared.row = some requestId →
    w.shared.dispatched requestId ∨ ∃ stage ∈ w.jobs, stage.dispatching? = some requestId
  stored : ∀ stage ∈ w.jobs, ∀ requestId ∈ stage.stored?, requestId ∈ w.shared.validationStored

section Jobs

variable {stage stage' : JobStage} {answer : JobAnswer} {s s' : Shared}

/-- What one step of a job does to the dispatch: nothing, the insertion, the
storing or the publication. -/
theorem jobStep_dispatch (h : jobStep stage answer s = some (stage', s'))
    (hkeeps : stage.abandons s.row answer = false) :
    (s'.row = s.row ∧ s'.validationStored = s.validationStored ∧
        s'.validationPublished = s.validationPublished ∧
        stage'.dispatching? = stage.dispatching? ∧ stage'.stored? = none) ∨
      (s' = insertRow s ∧ stage'.dispatching? = some s.nextId ∧ stage'.stored? = none ∧
        stage.dispatching? = none) ∨
      (∃ requestId, s' = storeValidation requestId s ∧ stage.dispatching? = some requestId ∧
        stage'.dispatching? = some requestId ∧ stage'.stored? = some requestId) ∨
      ∃ requestId, s' = publishValidation requestId s ∧ stage.dispatching? = some requestId ∧
        stage.stored? = some requestId ∧ stage'.stored? = none := by
  have hmove := jobStep_move h
  cases stage with
  | insert k task =>
      rcases answer with _ | _ | _ | _ | (_ | _ | _) | ⟨_, _ | _ | _⟩
      case replied.failed =>
        cases h
        exact Or.inl ⟨rfl, rfl, rfl, rfl, rfl⟩
      case replied.lost =>
        -- The row was there, or the lost insertion would have abandoned its own.
        have hrow : s.row.isSome := by simpa [JobStage.abandons] using hkeeps
        simp only [jobStep, hrow, if_true] at h
        cases h
        exact Or.inl ⟨rfl, rfl, rfl, rfl, rfl⟩
      case replied.done =>
        simp only [jobStep] at h
        split at h <;> cases h
        · exact Or.inl ⟨rfl, rfl, rfl, rfl, rfl⟩
        · exact Or.inr (Or.inl ⟨rfl, rfl, rfl, rfl⟩)
      all_goals cases h
  | snapshot k task requestId =>
      rcases answer with _ | _ | _ | _ | (_ | _ | _) | ⟨_, _ | _ | _⟩ <;> cases h
      · exact Or.inl ⟨rfl, rfl, rfl, rfl, rfl⟩
      · cases hkeeps
  | storeValidation k requestId =>
      rcases answer with _ | _ | _ | _ | (_ | _ | _) | ⟨_, _ | _ | _⟩ <;> cases h
      · exact Or.inr (Or.inr (Or.inl ⟨requestId, rfl, rfl, rfl, rfl⟩))
      · cases hkeeps
      · cases hkeeps
  | publishValidation k requestId =>
      rcases answer with _ | _ | _ | _ | (_ | _ | _) | ⟨_, _ | _ | _⟩ <;> cases h
      · exact Or.inr (Or.inr (Or.inr ⟨requestId, rfl, rfl, rfl, rfl⟩))
      · exact Or.inr (Or.inr (Or.inr ⟨requestId, rfl, rfl, rfl, rfl⟩))
      · cases hkeeps
  | complete k requestId =>
      cases hmove with
      | raised _ _ retryable hfrom => exact Or.inl ⟨rfl, rfl, rfl, rfl, rfl⟩
      | completed _ _ m _ hto =>
          rcases hto with rfl | rfl <;> exact Or.inl ⟨rfl, rfl, rfl, rfl, rfl⟩
  | fail k retryable =>
      cases hmove with
      | raised _ _ _ hfrom => cases hfrom
      | failed _ _ m _ hto =>
          rcases hto with rfl | ⟨rfl, -⟩ <;> exact Or.inl ⟨rfl, rfl, rfl, rfl, rfl⟩
      | unmarked => exact Or.inl ⟨rfl, rfl, rfl, rfl, rfl⟩
  | _ => cases hmove <;> exact Or.inl ⟨rfl, rfl, rfl, rfl, rfl⟩

theorem Dispatched.job {w : World} {i : Nat} (hw : Dispatched w) (hjob : w.jobs[i]? = some stage)
    (h : jobStep stage answer w.shared = some (stage', s'))
    (hkeeps : stage.abandons w.shared.row answer = false) :
    Dispatched { w with shared := s', jobs := w.jobs.set i stage' } := by
  have hmem := List.mem_of_getElem? hjob
  have hi : i < w.jobs.length := (List.getElem?_eq_some_iff.mp hjob).1
  rcases jobStep_dispatch h hkeeps with ⟨hrow, hstored, hpublished, hsame, hnone⟩ |
    ⟨rfl, hinserted, hnone, hbefore⟩ | ⟨requestId, rfl, hfrom, hto, hafter⟩ |
    ⟨requestId, rfl, hfrom, hready, hnone⟩
  · refine ⟨fun r hr => ?_, ?_⟩
    · rw [Shared.dispatched, hstored, hpublished]
      rcases hw.row r (hrow ▸ hr) with hdone | hexists
      · exact Or.inl hdone
      · exact Runs.exists_mem_set hjob (fun hat => Or.inr (hsame.trans hat)) hexists
    · rw [hstored]
      exact Runs.forall_mem_set hw.stored (by simp [hnone])
  · refine ⟨fun r hr => Or.inr ⟨stage', List.mem_set hi stage', ?_⟩, ?_⟩
    · obtain rfl : w.shared.nextId = r := Option.some.inj hr
      exact hinserted
    · exact Runs.forall_mem_set hw.stored (by simp [hnone])
  · refine ⟨fun r hr => ?_, Runs.forall_mem_set ?_ ?_⟩
    · rcases hw.row r hr with hdone | hexists
      · exact Or.inl ⟨List.mem_cons_of_mem _ hdone.1, hdone.2⟩
      · exact Runs.exists_mem_set hjob (fun hat => Or.inr (by rw [hto, ← hat, hfrom])) hexists
    · exact fun x hx r hr => List.mem_cons_of_mem _ (hw.stored x hx r hr)
    · intro r hr
      obtain rfl : requestId = r := Option.some.inj (hafter.symm.trans hr)
      exact List.mem_cons_self
  · refine ⟨fun r hr => ?_, Runs.forall_mem_set hw.stored (by simp [hnone])⟩
    rcases hw.row r hr with hdone | hexists
    · exact Or.inl ⟨hdone.1, List.mem_cons_of_mem _ hdone.2⟩
    · refine Runs.exists_mem_set hjob (fun hat => Or.inl ?_) hexists
      obtain rfl : requestId = r := Option.some.inj (hfrom.symm.trans hat)
      exact ⟨hw.stored stage hmem requestId hready, List.mem_cons_self⟩

end Jobs

/-- Calls of `POST` and `DELETE` touch neither the dispatched ids nor, unless
they remove it, the row. -/
theorem Dispatched.keep {w w' : World} (hw : Dispatched w)
    (hrow : w'.shared.row = w.shared.row ∨ w'.shared.row = none)
    (hstored : w'.shared.validationStored = w.shared.validationStored)
    (hpublished : w'.shared.validationPublished = w.shared.validationPublished)
    (hjobs : w'.jobs = w.jobs ∨ w'.jobs = w.jobs ++ [.waiting]) : Dispatched w' := by
  have hsub : ∀ stage ∈ w.jobs, stage ∈ w'.jobs := by
    rcases hjobs with hjobs | hjobs <;> rw [hjobs]
    · exact fun stage hstage => hstage
    · exact fun stage hstage => List.mem_append_left _ hstage
  refine ⟨fun r hr => ?_, ?_⟩
  · rw [Shared.dispatched, hstored, hpublished]
    rcases hrow with hrow | hrow
    · refine (hw.row r (hrow ▸ hr)).imp id ?_
      rintro ⟨stage, hstage, hat⟩
      exact ⟨stage, hsub stage hstage, hat⟩
    · exact absurd (hrow.symm.trans hr) (by simp)
  · rw [hstored]
    rcases hjobs with hjobs | hjobs <;> rw [hjobs]
    · exact hw.stored
    · intro stage hstage
      rcases List.mem_append.mp hstage with hold | hnew
      · exact hw.stored stage hold
      · obtain rfl := List.mem_singleton.mp hnew
        simp [JobStage.stored?]

theorem PostMove.shared {p p' : Post} {s s' : Shared} {b : Bool} (h : PostMove p s p' s' b) :
    s' = { s with hash := s'.hash } := by
  cases h <;> rfl

theorem deleteStep_shared {d d' : Delete} {delivery : Delivery} {s s' : Shared}
    (h : deleteStep d delivery s = some (d', s')) :
    s' = { s with hash := s'.hash, row := s'.row } ∧ (s'.row = s.row ∨ s'.row = none) := by
  obtain ⟨requestId, stage⟩ := d
  have hdrop : dropRow requestId s = s ∨ dropRow requestId s = { s with row := none } := by
    unfold dropRow
    split <;> simp
  cases stage <;> cases delivery
  case find.done =>
    simp only [deleteStep] at h
    split at h <;> cases h <;> exact ⟨rfl, Or.inl rfl⟩
  case dropRow.done | dropRow.lost =>
    cases h
    rcases hdrop with hsame | hsame <;> rw [hsame] <;> simp
  all_goals cases h <;> exact ⟨rfl, Or.inl rfl⟩

theorem dispatched_step {pair : Pair} {label : Label} {w w' : World} (hw : Dispatched w)
    (hdispatching : Dispatching label w) (hstep : step pair label w = some w') : Dispatched w' := by
  cases label with
  | post submission =>
      obtain rfl := Option.some.inj hstep
      exact ⟨hw.row, hw.stored⟩
  | advancePost i answer =>
      obtain ⟨p, p', s, b, -, hpost, rfl⟩ := advancePost_eq_some hstep
      have hs := (postStep_move hpost).shared
      refine hw.keep (Or.inl ?_) ?_ ?_ ?_
      · rw [hs]
      · rw [hs]
      · rw [hs]
      · cases b <;> simp
  | advanceJob i answer =>
      obtain ⟨stage, stage', s, hjob, -, hmove, rfl⟩ := advanceJob_eq_some hstep
      exact hw.job hjob hmove (hdispatching stage hjob)
  | delete requestId =>
      obtain rfl := Option.some.inj hstep
      exact ⟨hw.row, hw.stored⟩
  | advanceDelete i delivery =>
      obtain ⟨d, d', s, -, hdelete, rfl⟩ := advanceDelete_eq_some hstep
      obtain ⟨hs, hrow⟩ := deleteStep_shared hdelete
      refine hw.keep hrow ?_ ?_ (Or.inl rfl)
      · rw [hs]
      · rw [hs]

theorem not_dispatching_of_finished {stage : JobStage} (h : stage.unfinished = false) :
    stage.dispatching? = none := by
  cases stage <;> first | rfl | cases h

/-- In every run in which the commands between the insertion of a row and the
publication of its validation task do not fail, an existing row has been
dispatched as soon as no attempt of a handler job runs or is pending. -/
theorem stored_requests_dispatched (pair : Pair) {labels : List Label} {w : World}
    (hrun : Runs.run (step pair) labels initially = some w)
    (hmeets : Runs.Meets (step pair) Dispatching labels initially)
    (hquiet : ∀ stage ∈ w.jobs, stage.unfinished = false) (requestId : Nat)
    (hrow : w.shared.row = some requestId) :
    requestId ∈ w.shared.validationStored ∧ requestId ∈ w.shared.validationPublished := by
  have hw : Dispatched w :=
    Runs.invariant_of_run Dispatched
      (fun _ _ _ h hcondition hstep => dispatched_step h hcondition hstep)
      ⟨by simp [initially], by simp [initially]⟩ hmeets hrun
  rcases hw.row requestId hrow with hdone | ⟨stage, hstage, hat⟩
  · exact hdone
  · rw [not_dispatching_of_finished (hquiet stage hstage)] at hat
    cases hat

/-- A posted request whose job runs to the publication of its validation. -/
def untilPublishValidation : List Label :=
  .post (sampleSubmission 3) :: untilCheck 0 ++ .advancePost 0 (.replied .done) ::
    untilAccepted 0 ++
    untilArchive ++
    [ .advanceJob 0 .passed, .advanceJob 0 (.replied .done), .advanceJob 0 .passed,
      .advanceJob 0 (.replied .done) ]

/-- The reply to the publication is lost: the job fails, but its validation task
is on its way. -/
theorem lostReply_dispatched :
    ∃ w, Runs.run (step samplePair)
        (untilPublishValidation ++
          [.advanceJob 0 (.replied .lost), .advanceJob 0 (.marked Iso.newYear .done)]) initially =
        some w ∧
      w.shared.row = some 1 ∧ 1 ∈ w.shared.validationStored ∧ 1 ∈ w.shared.validationPublished := by
  refine ⟨_, rfl, rfl, @stored_requests_dispatched samplePair
    (untilPublishValidation ++
      [.advanceJob 0 (.replied .lost), .advanceJob 0 (.marked Iso.newYear .done)]) _ rfl
    (by decide +kernel) (by decide +kernel) 1 rfl⟩

/-- The publication fails: the row exists, the job is over, the id was never
published, and a further `POST` is refused because of the row. -/
theorem publicationFails_undispatched :
    ∃ w, Runs.run (step samplePair)
        (untilPublishValidation ++
          [ .advanceJob 0 (.replied .failed), .advanceJob 0 (.marked Iso.newYear .done),
            .advanceJob 0 .passed, .post (sampleSubmission 3),
            .advancePost 1 (.queue (some sampleQueue)),
            .advancePost 1 (.admin false), .advancePost 1 (.replied .done) ]) initially = some w ∧
      w.jobs = [.finished] ∧ w.shared.row = some 1 ∧ w.shared.validationPublished = [] ∧
      w.posts.map (fun p => p.stage) = [.accepted, .refused (.conflict
        "The request with beatmapset ID '1000' already exists in queue 'Mapping queue'")] := by
  refine ⟨_, rfl, ?_, ?_, ?_, ?_⟩ <;> decide +kernel

end Graveboards.Requests
