import Graveboards.Requests.Moves

/-!
How many submissions of a pair are accepted between two failures of its task.
`POST` looks at the hash and writes it in separate commands, so the answer is
one as long as no two calls are between the two at the same time.
-/

namespace Graveboards.Requests

open Library

/-- The call does not touch a request that has been stored. -/
def Label.isDelete : Label → Bool
  | .delete _ | .advanceDelete _ _ => true
  | _ => false

/-- No `POST` issues its `EXISTS` while another one is between its `EXISTS` and
its `HSET`. -/
def Exclusive : Label → World → Prop
  | .advancePost i _, w => ∀ p ∈ w.posts[i]?, p.stage.checking = true →
      ∀ other ∈ w.posts, other.stage.critical = false
  | _, _ => True

instance : (label : Label) → (w : World) → Decidable (Exclusive label w)
  | .advancePost i _, w => inferInstanceAs (Decidable (∀ p ∈ w.posts[i]?, p.stage.checking = true →
      ∀ other ∈ w.posts, other.stage.critical = false))
  | .post _, _ | .advanceJob _ _, _ | .delete _, _ | .advanceDelete _ _, _ => isTrue trivial

/-- The task stored since the last failure is still there, without a mark of
failure. -/
def Live (s : Shared) : Prop := ∃ fields, s.hash = some fields ∧ marked "failed_at" fields = false

/-- What holds between the commands: at most one call is between `EXISTS` and
`HSET`, at most one has stored the hash since each failure, and once one has,
every other call still has to look at the hash it stored. -/
structure OneSubmission (w : World) : Prop where
  critical : w.posts.countP (fun p => p.stage.critical) ≤ 1
  fresh : ∀ p ∈ w.posts, ∀ task ∈ p.stage.task?, task.fresh = true
  past : ∀ p ∈ w.posts, ∀ e ∈ p.storedIn, e ≤ w.shared.failures
  once : ∀ e, w.posts.countP (fun p => p.storedIn = some e) ≤ 1
  live : (∃ p ∈ w.posts, p.storedIn = some w.shared.failures) →
    Live w.shared ∧ ∀ p ∈ w.posts, p.stage.cleared = false

/-- What a call holds, by the stage it has come to. -/
structure Accounted (p : Post) : Prop where
  reserved : p.reserved = true →
    (∃ task, p.stage = .store task) ∨ p.stage = .publish ∨ p.stage = .rollback ∨ p.stage = .accepted
  stored : p.stage = .publish ∨ p.stage = .accepted → p.storedIn ≠ none

theorem Accounted.move {p p' : Post} {s s' : Shared} {b : Bool} (h : Accounted p)
    (hmove : PostMove p s p' s' b) : Accounted p' := by
  have hunreserved (hstage : p.stage.early ∨ p.stage.critical)
      (hstore : ∀ task, p.stage ≠ .store task) :
      p.reserved = false := by
    by_contra hreserved
    rcases h.reserved (by simpa using hreserved) with ⟨task, hat⟩ | hat | hat | hat
    · exact hstore task hat
    all_goals simp [hat, PostStage.early, PostStage.critical] at hstage
  cases hmove with
  | early stage hfrom hto htask =>
      have hfree := hunreserved (Or.inl hfrom) (by
        intro task hat
        rw [hat] at hfrom
        cases hfrom)
      refine ⟨by simp [hfree], fun hat => ?_⟩
      rcases hto with hearly | ⟨e, rfl⟩
      · rcases hat with rfl | rfl <;> cases hearly
      · simp at hat
  | absent queue task hfrom hhash =>
      have hfree := hunreserved (Or.inl (by rw [hfrom]; rfl)) (by simp [hfrom])
      exact ⟨by simp [hfree], by simp⟩
  | present queue task fields hfrom hhash =>
      have hfree := hunreserved (Or.inl (by rw [hfrom]; rfl)) (by simp [hfrom])
      exact ⟨by simp [hfree], by simp⟩
  | refuse e hfrom hnot =>
      have hfree := hunreserved (Or.inr hfrom) hnot
      exact ⟨by simp [hfree], by simp⟩
  | failedTask queue task existing fields hfrom hhash hread hfailed =>
      have hfree := hunreserved (Or.inr (by rw [hfrom]; rfl)) (by simp [hfrom])
      exact ⟨by simp [hfree], by simp⟩
  | clear task stage hfrom hto =>
      have hfree := hunreserved (Or.inr (by rw [hfrom]; rfl)) (by simp [hfrom])
      refine ⟨by simp [hfree], ?_⟩
      rcases hto with rfl | rfl <;> simp
  | reserve task hfrom => exact ⟨fun _ => Or.inl ⟨task, rfl⟩, by simp⟩
  | store task stage hfrom hto =>
      refine ⟨fun _ => Or.inr ?_, by simp⟩
      rcases hto with rfl | rfl <;> simp
  | storeFailed task hfrom => exact ⟨fun _ => Or.inr (Or.inr (Or.inl rfl)), by simp⟩
  | publish stage hfrom hto =>
      refine ⟨fun _ => Or.inr (Or.inr ?_), fun _ => h.stored (Or.inl hfrom)⟩
      rcases hto with rfl | rfl <;> simp
  | publishFailed hfrom => exact ⟨fun _ => Or.inr (Or.inr (Or.inl rfl)), by simp⟩
  | rollback hfrom => exact ⟨by simp, by simp⟩

section Moves

variable {w : World} {i : Nat} {p p' : Post} {s : Shared} {b : Bool}

/-- A call that has looked at the hash shows that none was stored since the
last failure. -/
theorem OneSubmission.none_stored (h : OneSubmission w) (hp : p ∈ w.posts)
    (hcleared : p.stage.cleared = true) : ∀ q ∈ w.posts, q.storedIn ≠ some w.shared.failures := by
  intro q hq hstored
  have hnot := (h.live ⟨q, hq, hstored⟩).2 p hp
  rw [hcleared] at hnot
  cases hnot

theorem exists_stored_of_set {posts : List Post} {e : Nat} (p' : Post) (hp : p ∈ posts)
    (hsame : p'.storedIn = p.storedIn) (h : ∃ q ∈ posts.set i p', q.storedIn = some e) :
    ∃ q ∈ posts, q.storedIn = some e := by
  obtain ⟨q, hq, hstored⟩ := h
  rcases List.mem_or_eq_of_mem_set hq with hold | rfl
  · exact ⟨q, hold, hstored⟩
  · exact ⟨p, hp, hsame ▸ hstored⟩

/-- A move that does not store keeps the invariant, if it keeps the hash live or
shows that nothing was stored. -/
theorem OneSubmission.quiet (h : OneSubmission w) (hp : w.posts[i]? = some p)
    (hfree : p.stage.checking = true → ∀ q ∈ w.posts, q.stage.critical = false)
    (hmove : PostMove p w.shared p' s b)
    (hstored : p'.storedIn = p.storedIn) (hfailures : s.failures = w.shared.failures)
    (hlive : (∃ q ∈ w.posts, q.storedIn = some w.shared.failures) →
      Live s ∧ p'.stage.cleared = false) (jobs : List JobStage) :
    OneSubmission { w with shared := s, posts := w.posts.set i p', jobs := jobs } where
  critical := hmove.critical_le_one hp hfree h.critical
  fresh := Runs.forall_mem_set h.fresh (hmove.fresh (h.fresh p (List.mem_of_getElem? hp)))
  past := by
    rw [hfailures]
    apply Runs.forall_mem_set h.past
    rw [hstored]
    exact h.past p (List.mem_of_getElem? hp)
  once := by
    intro e
    apply le_trans (Runs.countP_set_le hp ?_) (h.once e)
    rw [hstored]
    exact id
  live := by
    rw [hfailures]
    intro hexists
    have hold := exists_stored_of_set p' (List.mem_of_getElem? hp) hstored hexists
    exact ⟨(hlive hold).1, Runs.forall_mem_set (h.live hold).2 (hlive hold).2⟩

theorem live_storeTask {task : QueueRequestHandlerTask} (hfresh : task.fresh = true) (s : Shared) :
    Live (storeTask task s) := by
  refine ⟨_, rfl, ?_⟩
  rw [(QueueRequestHandlerTask.storedIn_setAll task _).marked_failed]
  simp only [QueueRequestHandlerTask.fresh, Bool.and_eq_true, Option.isNone_iff_eq_none] at hfresh
  rw [hfresh.2]
  rfl

/-- The step that stores the hash: the caller was the only one past the check,
so nobody else is now. -/
theorem OneSubmission.store (h : OneSubmission w) (hp : w.posts[i]? = some p)
    {task : QueueRequestHandlerTask} (hat : p.stage = .store task) {stage : PostStage}
    (hstage : stage = .publish ∨ stage = .rollback) (jobs : List JobStage) :
    OneSubmission { w with
      shared := storeTask task w.shared
      posts := w.posts.set i { p with stage := stage, storedIn := some w.shared.failures }
      jobs := jobs } := by
  have hmem := List.mem_of_getElem? hp
  have hcritical : p.stage.critical = true := by rw [hat]; rfl
  have hnot : stage.critical = false := by rcases hstage with rfl | rfl <;> rfl
  have hnone := h.none_stored hmem (by rw [hat]; rfl)
  have hothers := Runs.uncounted_of_set
    (b := ({ p with stage := stage, storedIn := some w.shared.failures } : Post)) hp h.critical
    hcritical hnot
  have hmove := PostMove.store (s := w.shared) task stage hat hstage
  refine ⟨hmove.critical_le_one hp (by simp [hat, PostStage.checking]) h.critical,
    Runs.forall_mem_set h.fresh (hmove.fresh (h.fresh p hmem)), ?_, ?_, ?_⟩
  · refine Runs.forall_mem_set h.past ?_
    simp [storeTask]
  · intro e
    by_cases he : e = w.shared.failures
    · subst he
      have hcount := Runs.countP_set_add (fun q : Post => q.storedIn = some w.shared.failures) hp
        { p with stage := stage, storedIn := some w.shared.failures }
      have hzero : w.posts.countP (fun q => q.storedIn = some w.shared.failures) = 0 :=
        List.countP_eq_zero.mpr (by simpa using hnone)
      rw [hzero] at hcount
      have hle : ((decide (some w.shared.failures = some w.shared.failures)).toNat) ≤ 1 :=
        Bool.toNat_le _
      dsimp only at hcount ⊢
      omega
    · refine le_trans (Runs.countP_set_le hp ?_) (h.once e)
      simp [Ne.symm he]
  · intro _
    refine ⟨live_storeTask (h.fresh p hmem task (by simp [hat, PostStage.task?])) _, ?_⟩
    intro q hq
    cases hcleared : q.stage.cleared with
    | false => rfl
    | true => exact absurd (PostStage.cleared_critical hcleared) (by simp [hothers q hq])

theorem live_of_stored (h : OneSubmission w)
    (hexists : ∃ q ∈ w.posts, q.storedIn = some w.shared.failures) : Live w.shared :=
  (h.live hexists).1

theorem OneSubmission.post (h : OneSubmission w) (hp : w.posts[i]? = some p)
    (hfree : p.stage.checking = true → ∀ q ∈ w.posts, q.stage.critical = false)
    (hmove : PostMove p w.shared p' s b) (jobs : List JobStage) :
    OneSubmission { w with shared := s, posts := w.posts.set i p', jobs := jobs } := by
  have hnothing (hcleared : p.stage.cleared = true) {P : Prop}
      (hexists : ∃ q ∈ w.posts, q.storedIn = some w.shared.failures) : P := by
    obtain ⟨q, hq, hstored⟩ := hexists
    exact absurd hstored (h.none_stored (List.mem_of_getElem? hp) hcleared q hq)
  have quiet := h.quiet hp hfree hmove
  cases hmove with
  | early stage hfrom hto htask =>
      apply quiet rfl rfl
      exact fun hexists => ⟨live_of_stored h hexists, (PostStage.next_outside hto).2.1⟩
  | absent queue task hfrom hhash =>
      apply quiet rfl rfl
      intro hexists
      obtain ⟨fields, hfields, -⟩ := live_of_stored h hexists
      rw [hhash] at hfields
      cases hfields
  | present | refuse | publishFailed | rollback =>
      apply quiet rfl rfl
      exact fun hexists => ⟨live_of_stored h hexists, rfl⟩
  | failedTask queue task existing fields hfrom hhash hread hfailed =>
      apply quiet rfl rfl
      intro hexists
      obtain ⟨fields', hfields', hunmarked⟩ := live_of_stored h hexists
      rw [hfields', Option.getD_some] at hhash
      rw [QueueRequestHandlerTask.failedAt_of_deserialize hread, ← hhash, hunmarked] at hfailed
      cases hfailed
  | clear task stage hfrom hto =>
      apply quiet rfl rfl
      exact hnothing (by rw [hfrom]; rfl)
  | reserve task hfrom | storeFailed task hfrom =>
      apply quiet rfl rfl
      exact hnothing (by rw [hfrom]; rfl)
  | store task stage hfrom hto => exact h.store hp hfrom hto jobs
  | publish stage hfrom hto =>
      apply quiet rfl rfl
      intro hexists
      refine ⟨live_of_stored h hexists, ?_⟩
      rcases hto with rfl | rfl <;> rfl

theorem OneSubmission.job (h : OneSubmission w) {stage stage' : JobStage}
    (hmove : JobMove w.shared stage stage' s) (jobs : List JobStage) :
    OneSubmission { w with shared := s, jobs := jobs } := by
  rcases hmove.hash with ⟨hhash, hfailures⟩ | ⟨m, rfl⟩ | ⟨m, rfl⟩
  · refine ⟨h.critical, h.fresh, ?_, h.once, ?_⟩
    · rw [hfailures]
      exact h.past
    · rw [hfailures]
      intro hexists
      obtain ⟨⟨fields, hfields, hunmarked⟩, hcleared⟩ := h.live hexists
      exact ⟨⟨fields, hhash.trans hfields, hunmarked⟩, hcleared⟩
  · refine ⟨h.critical, h.fresh, h.past, h.once, fun hexists => ?_⟩
    obtain ⟨⟨fields, hfields, hunmarked⟩, hcleared⟩ := h.live hexists
    refine ⟨⟨_, rfl, ?_⟩, hcleared⟩
    rw [hfields, Option.getD_some, marked_mark_of_ne (by decide), hunmarked]
  · -- Nothing was stored after a failure that has just been written.
    refine ⟨h.critical, h.fresh, fun q hq e he => Nat.le_succ_of_le (h.past q hq e he), h.once, ?_⟩
    rintro ⟨q, hq, hstored⟩
    exact absurd (h.past q hq _ hstored) (Nat.not_succ_le_self _)

end Moves

theorem OneSubmission.initially : OneSubmission initially :=
  ⟨by simp [Requests.initially], by simp [Requests.initially], by simp [Requests.initially],
    by simp [Requests.initially], by simp [Requests.initially]⟩

theorem oneSubmission_step {pair : Pair} {label : Label} {w w' : World} (h : OneSubmission w)
    (hdelete : label.isDelete = false) (hexclusive : Exclusive label w)
    (hstep : step pair label w = some w') : OneSubmission w' := by
  cases label with
  | post submission =>
      obtain rfl := Option.some.inj hstep
      refine ⟨?_, ?_, ?_, ?_, ?_⟩
      · simpa [PostStage.critical] using h.critical
      · simpa [or_imp, forall_and, PostStage.task?] using h.fresh
      · simpa [or_imp, forall_and] using h.past
      · simpa using h.once
      · simpa [or_imp, forall_and, or_and_right, exists_or, PostStage.cleared] using h.live
  | advancePost i answer =>
      obtain ⟨p, p', s, b, hp, hpost, rfl⟩ := advancePost_eq_some hstep
      exact h.post hp (hexclusive p hp) (postStep_move hpost) _
  | advanceJob i answer =>
      obtain ⟨stage, stage', s, -, -, hjob, rfl⟩ := advanceJob_eq_some hstep
      exact h.job (jobStep_move hjob) _
  | delete requestId => cases hdelete
  | advanceDelete i delivery => cases hdelete

theorem accounted_step {pair : Pair} {label : Label} {w w' : World}
    (h : ∀ p ∈ w.posts, Accounted p) (hstep : step pair label w = some w') :
    ∀ p ∈ w'.posts, Accounted p := by
  cases label with
  | post submission =>
      obtain rfl := Option.some.inj hstep
      intro p hp
      rcases List.mem_append.mp hp with hold | hnew
      · exact h p hold
      · obtain rfl := List.mem_singleton.mp hnew
        exact ⟨by simp, by simp⟩
  | advancePost i answer =>
      obtain ⟨p, p', s, b, hp, hpost, rfl⟩ := advancePost_eq_some hstep
      exact Runs.forall_mem_set h ((h p (List.mem_of_getElem? hp)).move (postStep_move hpost))
  | advanceJob i answer =>
      obtain ⟨stage, stage', s, -, -, -, rfl⟩ := advanceJob_eq_some hstep
      exact h
  | delete requestId =>
      obtain rfl := Option.some.inj hstep
      exact h
  | advanceDelete i delivery =>
      obtain ⟨d, d', s, -, -, rfl⟩ := advanceDelete_eq_some hstep
      exact h

/-- In every run of calls and handler jobs in which no `POST` issues its
`EXISTS` while another is between its `EXISTS` and its `HSET`: between two
failures at most one `POST` stores the task, an accepted one has stored it, and
an ended one that still holds its reservations was accepted. -/
theorem at_most_one_accepted (pair : Pair) {labels : List Label} {w : World}
    (hrun : Runs.run (step pair) labels initially = some w)
    (hlabels : ∀ label ∈ labels, label.isDelete = false)
    (hmeets : Runs.Meets (step pair) Exclusive labels initially) :
    (∀ e, w.posts.countP (fun p => p.storedIn = some e) ≤ 1) ∧
    (∀ p ∈ w.posts, p.stage = .accepted → p.storedIn ≠ none) ∧
    ∀ p ∈ w.posts, p.stage.ended = true → p.reserved = true → p.stage = .accepted := by
  have hone : OneSubmission w :=
    Runs.invariant_of_run OneSubmission
      (fun _ _ _ h hboth hstep => oneSubmission_step h hboth.1 hboth.2 hstep)
      OneSubmission.initially (Runs.Meets.and_forall hlabels hmeets) hrun
  have haccounted : ∀ p ∈ w.posts, Accounted p :=
    Runs.invariant_of_steps (fun w => ∀ p ∈ w.posts, Accounted p)
      (fun _ _ _ h hstep => accounted_step h hstep) (by simp [initially]) hrun
  refine ⟨hone.once, fun p hp hat => (haccounted p hp).stored (Or.inr hat), ?_⟩
  intro p hp hended hreserved
  rcases (haccounted p hp).reserved hreserved with ⟨task, hat⟩ | hat | hat | hat
  · simp [hat, PostStage.ended] at hended
  · simp [hat, PostStage.ended] at hended
  · simp [hat, PostStage.ended] at hended
  · exact hat

/-! Two submissions of the same beatmapset. -/

def samplePair : Pair := ⟨7, 1000⟩

def sampleQueue : QueueRow := ⟨"Mapping queue", true, true⟩

def sampleSubmission (caller : Nat) : Submission := ⟨some caller, none, "hi", false, ""⟩

/-- The answers that take call `i` to its `EXISTS`. -/
def untilCheck (i : Nat) : List Label :=
  [ .advancePost i (.queue (some sampleQueue)), .advancePost i (.admin false),
    .advancePost i (.replied .done), .advancePost i (.status "graveyard"),
    .advancePost i .passed ]

/-- The answers that take it from there to its 202. -/
def untilAccepted (i : Nat) : List Label :=
  [ .advancePost i .passed, .advancePost i (.replied .done), .advancePost i (.replied .done) ]

/-- A handler job from its start to the mark of a failure. -/
def jobFails (i : Nat) : List Label :=
  [ .advanceJob i .started, .advanceJob i (.replied .done), .advanceJob i (.raised false),
    .advanceJob i (.marked Iso.newYear .done), .advanceJob i .passed ]

/-- Two calls come to their `EXISTS` together; the second one issues it when
the first has stored the hash, and is refused. The job of the first fails, and
a third call submits the beatmapset again. -/
def interleavedCalls : List Label :=
  [.post (sampleSubmission 3), .post (sampleSubmission 4)] ++ untilCheck 0 ++ untilCheck 1 ++
    [ .advancePost 0 (.replied .done), .advancePost 0 .passed, .advancePost 0 (.replied .done),
      .advancePost 1 (.replied .done), .advancePost 0 (.replied .done),
      .advancePost 1 (.replied .done) ] ++ jobFails 0 ++
    .post (sampleSubmission 4) :: untilCheck 2 ++
    [ .advancePost 2 (.replied .done), .advancePost 2 (.replied .done),
      .advancePost 2 (.replied .done) ] ++ untilAccepted 2

theorem interleavedCalls_accepted :
    ∃ w, Runs.run (step samplePair) interleavedCalls initially = some w ∧
      w.shared.failures = 1 ∧
      w.posts.map (fun p => (p.stage, p.reserved, p.storedIn)) =
        [ (.accepted, true, some 0),
          (.refused (.conflict ("The request with beatmapset ID '1000' in queue 'Mapping queue' " ++
            "is currently being processed")), false, none),
          (.accepted, true, some 1) ] ∧
      (∀ e, w.posts.countP (fun p => p.storedIn = some e) ≤ 1) ∧
      (∀ p ∈ w.posts, p.stage = .accepted → p.storedIn ≠ none) ∧
      ∀ p ∈ w.posts, p.stage.ended = true → p.reserved = true → p.stage = .accepted := by
  have hends : (Runs.run (step samplePair) interleavedCalls initially).map (fun w =>
      (w.shared.failures, w.posts.map (fun p => (p.stage, p.reserved, p.storedIn)))) =
      some (1,
        [ (.accepted, true, some 0),
          (.refused (.conflict ("The request with beatmapset ID '1000' in queue 'Mapping queue' " ++
            "is currently being processed")), false, none),
          (.accepted, true, some 1) ]) := by decide +kernel
  obtain ⟨w, hrun, hends⟩ := Option.map_eq_some_iff.mp hends
  obtain ⟨hfailures, hposts⟩ := Prod.mk.inj hends
  have hlabels : ∀ label ∈ interleavedCalls, label.isDelete = false := by decide +kernel
  have hmeets : Runs.Meets (step samplePair) Exclusive interleavedCalls initially := by
    decide +kernel
  exact ⟨w, hrun, hfailures, hposts, at_most_one_accepted samplePair hrun hlabels hmeets⟩

/-- Both calls find no hash, both store it, publish the job and are accepted,
and both keep their reservations. -/
theorem twoCalls_accepted :
    ∃ w, Runs.run (step samplePair)
        (.post (sampleSubmission 3) :: .post (sampleSubmission 4) ::
          (untilCheck 0 ++ untilCheck 1 ++
          [.advancePost 0 (.replied .done), .advancePost 1 (.replied .done)] ++
          untilAccepted 0 ++ untilAccepted 1)) initially = some w ∧
      w.shared.failures = 0 ∧
      w.posts.map (fun p => (p.stage, p.reserved, p.storedIn)) =
        [(.accepted, true, some 0), (.accepted, true, some 0)] := by
  refine ⟨_, rfl, ?_, ?_⟩ <;> decide +kernel

end Graveboards.Requests
