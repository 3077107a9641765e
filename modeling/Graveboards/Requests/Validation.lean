import Graveboards.Library.Canonical
import Graveboards.Requests.World
import Graveboards.Rules.Phase2
import Graveboards.Rules.Pipeline

/-!
One rule-validation task from its publication to its end:
`RuleValidationService._execute_job` under `@auto_retry`, command by command.
A stage stands before the call awaited next; the label of a step is what that
call answers or raises. `readSnapshot` stands for `_rules_from_snapshot` on the
text of the task's snapshot.
-/

namespace Graveboards.Requests

open Library Rules

namespace Validation

/-- `_rules_from_snapshot`, given what `json.loads` makes of a text. Without a
snapshot, or with one that cannot be parsed, the rules are the live ones. -/
def readSnapshot (loads : String → Option (List Json)) (text : String) :
    Except Raise (Option (List EngineRule)) :=
  if text = "" then .ok none
  else match loads text with
    | none => .ok none
    | some items => (rulesFromSnapshot items).map some

/-- A call of `Phase2Runner.run` that came to outcomes: the rules of the task,
and each rule that the runner has evaluated with its outcome. -/
structure Execution where
  taskRules : List EngineRule
  results : List (EngineRule × Tier3Outcome)

/-- The stored hash, the rejection reason of a request that was set to
REJECTED, and the executions so far. -/
structure State where
  hash : Option Fields
  rejection : Option String
  executed : List Execution

inductive Stage where
  | waiting
  | read (attempt : Nat)
  | request (attempt : Nat) (snapshot : Option (List EngineRule))
  | liveRules (attempt : Nat)
  | fetch (attempt : Nat) (taskRules phase2Rules : List EngineRule)
  | validate (attempt : Nat) (taskRules phase2Rules : List EngineRule)
  | update (attempt : Nat) (rejected : List String)
  | complete (attempt : Nat)
  | fail (attempt : Nat) (retryable : Bool)
  | sleep (attempt : Nat)
  | finished

inductive Label where
  | started
  | read
  | row (found : Bool)
  | live (rules : List EngineRule)
  | fetched
  | outcomes (outcomes : List Tier3Outcome)
  | updated (delivery : Delivery)
  | marked (m : Iso.Moment) (delivery : Delivery)
  | raised (retryable : Bool)

/-- From the rules to the next await: without a rule registered in tier 3 there
is nothing to do. -/
def withRules (attempt : Nat) (rules : List EngineRule) : Stage :=
  let phase2Rules := rules.filter (fun rule => getValidatorTier rule.type = some 3)
  if phase2Rules.isEmpty then .complete attempt else .fetch attempt rules phase2Rules

def rejectedTypes (evaluated : List EngineRule) (outcomes : List Tier3Outcome) : List String :=
  ((evaluated.zip outcomes).filter (fun pair => pair.2 = .violation)).map (fun pair => pair.1.type)

/-- What `Phase2Runner.run` returns or raises. -/
def afterOutcomes (attempt : Nat) (evaluated : List EngineRule) (outcomes : List Tier3Outcome) :
    Stage :=
  if rejectedTypes evaluated outcomes ≠ [] then .update attempt (rejectedTypes evaluated outcomes)
  else if .retryable ∈ outcomes then .fail attempt true
  else .complete attempt

def reject (rejected : List String) (s : State) : State :=
  { s with rejection := some ("Rejected by rule engine: " ++ String.intercalate ", " rejected) }

def mark (marker : String) (m : Iso.Moment) (s : State) : State :=
  { s with hash := some ((s.hash.getD Fields.empty).mark marker m) }

section

variable (loads : String → Option (List Json))

/-- What `HGETALL`, `deserialize` and `_rules_from_snapshot` lead to. -/
def readTask (attempt : Nat) (hash : Option Fields) : Stage :=
  match hash with
  | none => .fail attempt false
  | some fields =>
      match QueueRequestValidationTask.deserialize fields with
      | .error _ => .fail attempt false
      | .ok task =>
          match readSnapshot loads task.rulesSnapshot with
          | .error _ => .fail attempt false
          | .ok snapshot => .request attempt snapshot

def step (label : Label) (at_ : Stage × State) : Option (Stage × State) :=
  let s := at_.2
  match at_.1, label with
  | .waiting, .started => some (.read 1, s)
  | .sleep k, .started => some (.read (k + 1), s)
  | .read k, .read => some (readTask loads k s.hash, s)
  | .request k snapshot, .row found =>
      if !found then some (.complete k, s)
      else match snapshot with
        | some rules => some (withRules k rules, s)
        | none => some (.liveRules k, s)
  | .liveRules k, .live rules => some (withRules k rules, s)
  | .fetch k taskRules phase2Rules, .fetched => some (.validate k taskRules phase2Rules, s)
  -- The exception of the fetch is logged and the validation returns.
  | .fetch k _ _, .raised _ => some (.complete k, s)
  | .validate k taskRules phase2Rules, .outcomes outcomes =>
      match phase2Tasks phase2Rules with
      | .error _ => some (.fail k false, s)
      | .ok evaluated =>
          if outcomes.length = evaluated.length then
            some (afterOutcomes k evaluated outcomes,
              { s with executed := ⟨taskRules, evaluated.zip outcomes⟩ :: s.executed })
          else none
  | .update k rejected, .updated .done => some (.complete k, reject rejected s)
  | .update k rejected, .updated .lost => some (.fail k false, reject rejected s)
  | .update k _, .updated .failed => some (.fail k false, s)
  | .complete _, .marked m .done => some (.finished, mark "completed_at" m s)
  | .complete k, .marked m .lost => some (.fail k false, mark "completed_at" m s)
  | .complete k, .marked _ .failed => some (.fail k false, s)
  | .fail k retryable, .marked m .done =>
      some (if retryable && decide (k < maxAttempts) then .sleep k else .finished,
        mark "failed_at" m s)
  | .fail _ _, .marked m .lost => some (.finished, mark "failed_at" m s)
  | .fail _ _, .marked _ .failed => some (.finished, s)
  -- The other calls let their exception through.
  | .read k, .raised retryable | .request k _, .raised retryable
  | .liveRules k, .raised retryable | .validate k _ _, .raised retryable =>
      some (.fail k retryable, s)
  | _, _ => none

end

/-! What it takes to be marked as completed. -/

/-- Every Tier-3 rule of the task got an outcome, and there was one. -/
def Covers (x : Execution) : Prop :=
  (∃ rule ∈ x.taskRules, rule.getTier = some 3) ∧
    ∀ rule ∈ x.taskRules, rule.getTier = some 3 → ∃ outcome, (rule, outcome) ∈ x.results

/-- All rules passed, or one was violated and the request is rejected. -/
def Terminal (x : Execution) (s : State) : Prop :=
  (∀ result ∈ x.results, result.2 = .pass) ∨
    ((∃ result ∈ x.results, result.2 = .violation) ∧ s.rejection.isSome = true)

def Validated (s : State) : Prop :=
  ∃ x ∈ s.executed, Covers x ∧ Terminal x s

def Completed (s : State) : Prop :=
  ∃ fields, s.hash = some fields ∧ marked "completed_at" fields = true

/-- The rules the attempt goes on with after the step. -/
def resolved : Label → Stage × State → Option (List EngineRule)
  | .row true, (.request _ snapshot, _) => snapshot
  | .live rules, (.liveRules _, _) => some rules
  | _, _ => none

/-- The task has a rule of effective tier 3. -/
def HasTier3 (label : Label) (at_ : Stage × State) : Prop :=
  ∀ rules ∈ resolved label at_, ∃ rule ∈ rules, rule.getTier = some 3

/-- Every rule of effective tier 3 is active, in a supported version, and
registered in tier 3. -/
def Registered (rules : List EngineRule) : Prop :=
  ∀ rule ∈ rules, rule.getTier = some 3 →
    rule.isActive = true ∧ rule.checkVersion = true ∧ getValidatorTier rule.type = some 3

/-- The request row is missing, or the beatmapset cannot be fetched. -/
def interrupted : Label → Stage × State → Bool
  | .row false, (.request _ _, _) | .raised _, (.fetch _ _ _, _) => true
  | _, _ => false

/-- The request row is found, the beatmapset is fetched, and the rules of
effective tier 3 are active, supported and no composites. -/
def Conclusive (label : Label) (at_ : Stage × State) : Prop :=
  interrupted label at_ = false ∧ ∀ rules ∈ resolved label at_, Registered rules

instance (label : Label) (at_ : Stage × State) : Decidable (HasTier3 label at_) :=
  inferInstanceAs (Decidable (∀ rules ∈ resolved label at_, ∃ rule ∈ rules, rule.getTier = some 3))

instance (label : Label) (at_ : Stage × State) : Decidable (Conclusive label at_) :=
  inferInstanceAs (Decidable (interrupted label at_ = false ∧ ∀ rules ∈ resolved label at_,
    ∀ rule ∈ rules, rule.getTier = some 3 →
      rule.isActive = true ∧ rule.checkVersion = true ∧ getValidatorTier rule.type = some 3))

/-- The runner is given every Tier-3 rule of the task and evaluates it, and
there is one. -/
def Handed (taskRules rules : List EngineRule) : Prop :=
  (∃ rule ∈ taskRules, rule.getTier = some 3) ∧
    ∀ rule ∈ taskRules, rule.getTier = some 3 → rule ∈ rules ∧ rule.inPhase2 = true

/-- What each stage has behind it. -/
def Behind : Stage → State → Prop
  | .fetch _ taskRules rules, _ | .validate _ taskRules rules, _ => Handed taskRules rules
  | .update _ _, s => ∃ x ∈ s.executed, Covers x ∧ ∃ result ∈ x.results, result.2 = .violation
  | .complete _, s => Validated s
  | _, _ => True

theorem Validated.reject {s : State} (h : Validated s) (rejected : List String) :
    Validated (reject rejected s) := by
  obtain ⟨x, hx, hcovers, hterminal⟩ := h
  refine ⟨x, hx, hcovers, ?_⟩
  rcases hterminal with hpass | ⟨hviolation, -⟩
  · exact Or.inl hpass
  · exact Or.inr ⟨hviolation, rfl⟩

theorem Validated.mark {s : State} (h : Validated s) (marker : String) (m : Iso.Moment) :
    Validated (mark marker m s) := h

theorem Validated.execute {s : State} (h : Validated s) (x : Execution) :
    Validated { s with executed := x :: s.executed } := by
  obtain ⟨y, hy, hrest⟩ := h
  exact ⟨y, List.mem_cons_of_mem _ hy, hrest⟩

theorem completed_of_markFailed {s : State} {m : Iso.Moment}
    (h : Completed (mark "failed_at" m s)) : Completed s := by
  obtain ⟨fields, hfields, hmarked⟩ := h
  obtain rfl := Option.some.inj hfields
  rw [marked_mark_of_ne (by decide)] at hmarked
  cases hhash : s.hash with
  | none =>
      rw [hhash, Option.getD_none] at hmarked
      cases hmarked
  | some fields => exact ⟨fields, hhash, by rwa [hhash, Option.getD_some] at hmarked⟩

theorem behind_withRules {rules : List EngineRule} (hthree : ∃ rule ∈ rules, rule.getTier = some 3)
    (hregistered : Registered rules) (k : Nat) (s : State) : Behind (withRules k rules) s := by
  have hcovers : Handed rules (rules.filter (fun rule => getValidatorTier rule.type = some 3)) := by
    refine ⟨hthree, fun rule hrule htier => ?_⟩
    obtain ⟨hactive, hversion, hregistered⟩ := hregistered rule hrule htier
    exact ⟨List.mem_filter.mpr ⟨hrule, by simpa using hregistered⟩,
      by simp [EngineRule.inPhase2, hactive, hversion, htier]⟩
  unfold withRules
  dsimp only
  split
  · next hempty =>
      obtain ⟨rule, hrule, htier⟩ := hthree
      have hmem := (hcovers.2 rule hrule htier).1
      rw [List.isEmpty_iff.mp hempty] at hmem
      cases hmem
  · exact hcovers

/-- A rejected type comes from an outcome that is a violation. -/
theorem violation_of_rejected {evaluated : List EngineRule} {outcomes : List Tier3Outcome}
    (h : rejectedTypes evaluated outcomes ≠ []) :
    ∃ result ∈ evaluated.zip outcomes, result.2 = Tier3Outcome.violation := by
  obtain ⟨t, ht⟩ := List.exists_mem_of_ne_nil _ h
  obtain ⟨result, hresult, -⟩ := List.mem_map.mp ht
  obtain ⟨hmem, hviolation⟩ := List.mem_filter.mp hresult
  exact ⟨result, hmem, of_decide_eq_true hviolation⟩

/-- Without a rejected type and a retryable outcome every rule passed. -/
theorem pass_of_terminal {evaluated : List EngineRule} {outcomes : List Tier3Outcome}
    (hnone : rejectedTypes evaluated outcomes = [])
    (hretryable : Tier3Outcome.retryable ∉ outcomes) :
    ∀ result ∈ evaluated.zip outcomes, result.2 = Tier3Outcome.pass := by
  intro result hresult
  cases houtcome : result.2 with
  | pass => rfl
  | retryable => exact absurd (houtcome ▸ (List.of_mem_zip hresult).2) hretryable
  | violation =>
      have hmem : result.1.type ∈ rejectedTypes evaluated outcomes :=
        List.mem_map.mpr ⟨_, List.mem_filter.mpr ⟨hresult, decide_eq_true houtcome⟩, rfl⟩
      rw [hnone] at hmem
      cases hmem

/-- The rules handed to the runner get their outcomes. -/
theorem Handed.covers {taskRules rules evaluated : List EngineRule} {outcomes : List Tier3Outcome}
    (h : Handed taskRules rules) (htasks : phase2Tasks rules = .ok evaluated)
    (hlength : outcomes.length = evaluated.length) :
    Covers ⟨taskRules, evaluated.zip outcomes⟩ := by
  refine ⟨h.1, fun rule hrule htier => ?_⟩
  obtain ⟨hmem, hphase2⟩ := h.2 rule hrule htier
  have hevaluated : rule ∈ evaluated := by
    rw [eq_of_phase2Tasks htasks]
    exact List.mem_filter.mpr ⟨hmem, hphase2⟩
  have hfirst : (evaluated.zip outcomes).map Prod.fst = evaluated := List.map_fst_zip hlength.ge
  rw [← hfirst] at hevaluated
  obtain ⟨result, hresult, rfl⟩ := List.mem_map.mp hevaluated
  exact ⟨result.2, hresult⟩

theorem behind_afterOutcomes {evaluated taskRules rules : List EngineRule}
    {outcomes : List Tier3Outcome} (htasks : phase2Tasks rules = .ok evaluated)
    (hlength : outcomes.length = evaluated.length) (hhanded : Handed taskRules rules) (k : Nat)
    (s : State) :
    Behind (afterOutcomes k evaluated outcomes)
      { s with executed := ⟨taskRules, evaluated.zip outcomes⟩ :: s.executed } := by
  have hcovers := hhanded.covers htasks hlength
  unfold afterOutcomes
  split
  · next hrejected =>
      exact ⟨_, List.mem_cons_self, hcovers, violation_of_rejected hrejected⟩
  · next hnone =>
      split
      · trivial
      · next hretryable =>
          exact ⟨_, List.mem_cons_self, hcovers,
            Or.inl (pass_of_terminal (not_not.mp hnone) hretryable)⟩

section Steps

variable {loads : String → Option (List Json)} {label : Label} {at_ next : Stage × State}

/-- What a stage has behind it, and what a completed task has. -/
def Sound (at_ : Stage × State) : Prop := Behind at_.1 at_.2 ∧ (Completed at_.2 → Validated at_.2)

theorem sound_step (h : Sound at_) (hthree : HasTier3 label at_)
    (hconclusive : Conclusive label at_) (hstep : step loads label at_ = some next) :
    Sound next := by
  obtain ⟨stage, s⟩ := at_
  obtain ⟨hbehind, hcompleted⟩ := h
  cases stage with
  | waiting =>
      cases label <;> cases hstep
      exact ⟨trivial, hcompleted⟩
  | sleep k =>
      cases label <;> cases hstep
      exact ⟨trivial, hcompleted⟩
  | read k =>
      cases label <;> cases hstep
      · refine ⟨?_, hcompleted⟩
        unfold readTask
        split
        · trivial
        · split
          · trivial
          · split <;> trivial
      · exact ⟨trivial, hcompleted⟩
  | request k snapshot =>
      cases label with
      | row found =>
          cases found with
          | false => exact absurd hconclusive.1 (by simp [interrupted])
          | true =>
              cases snapshot with
              | some rules =>
                  cases hstep
                  exact ⟨behind_withRules (hthree rules rfl) (hconclusive.2 rules rfl) k s,
                    hcompleted⟩
              | none =>
                  cases hstep
                  exact ⟨trivial, hcompleted⟩
      | raised retryable =>
          cases hstep
          exact ⟨trivial, hcompleted⟩
      | _ => cases hstep
  | liveRules k =>
      cases label with
      | live rules =>
          cases hstep
          exact ⟨behind_withRules (hthree rules rfl) (hconclusive.2 rules rfl) k s, hcompleted⟩
      | raised retryable =>
          cases hstep
          exact ⟨trivial, hcompleted⟩
      | _ => cases hstep
  | fetch k taskRules rules =>
      cases label with
      | fetched =>
          cases hstep
          exact ⟨hbehind, hcompleted⟩
      | raised retryable => exact absurd hconclusive.1 (by simp [interrupted])
      | _ => cases hstep
  | validate k taskRules rules =>
      cases label with
      | outcomes outcomes =>
          unfold step at hstep
          dsimp only at hstep
          split at hstep
          · cases hstep
            exact ⟨trivial, hcompleted⟩
          · next evaluated htasks =>
              split at hstep
              · next hlength =>
                  cases hstep
                  exact ⟨behind_afterOutcomes htasks hlength hbehind k s,
                    fun hdone => (hcompleted hdone).execute _⟩
              · cases hstep
      | raised retryable =>
          cases hstep
          exact ⟨trivial, hcompleted⟩
      | _ => cases hstep
  | update k rejected =>
      cases label with
      | updated delivery =>
          cases delivery <;> cases hstep
          · obtain ⟨x, hx, hcovers, hviolation⟩ := hbehind
            exact ⟨⟨x, hx, hcovers, Or.inr ⟨hviolation, rfl⟩⟩,
              fun hdone => (hcompleted hdone).reject rejected⟩
          · exact ⟨trivial, fun hdone => (hcompleted hdone).reject rejected⟩
          · exact ⟨trivial, hcompleted⟩
      | _ => cases hstep
  | complete k =>
      cases label with
      | marked m delivery =>
          cases delivery <;> cases hstep
          · exact ⟨trivial, fun _ => hbehind.mark _ m⟩
          · exact ⟨trivial, fun _ => hbehind.mark _ m⟩
          · exact ⟨trivial, hcompleted⟩
      | _ => cases hstep
  | fail k retryable =>
      cases label with
      | marked m delivery =>
          cases delivery <;> cases hstep
          · refine ⟨?_, fun hdone => hcompleted (completed_of_markFailed hdone)⟩
            split <;> trivial
          · exact ⟨trivial, fun hdone => hcompleted (completed_of_markFailed hdone)⟩
          · exact ⟨trivial, hcompleted⟩
      | _ => cases hstep
  | finished => cases label <;> cases hstep

end Steps

/-- The task as it is published: its hash is stored without markers. -/
def published (task : QueueRequestValidationTask) : Stage × State :=
  (.waiting, ⟨some (Fields.empty.setAll task.serialize), none, []⟩)

theorem not_completed_published {task : QueueRequestValidationTask} (h : task.completedAt = none) :
    ¬ Completed (published task).2 := by
  rintro ⟨fields, hfields, hmarked⟩
  obtain rfl := Option.some.inj hfields
  simp [marked, Fields.setAll, QueueRequestValidationTask.serialize, Fields.set, Function.update,
    h, strMarker] at hmarked

/-- A validation task with a Tier-3 rule is marked as completed only after
`Phase2Runner.run` has come to a terminal outcome with a result for each of its
Tier-3 rules, in every run in which the request row is found, the beatmapset is
fetched and the Tier-3 rules are active, supported and no composites. -/
theorem completed_only_if_validated (loads : String → Option (List Json))
    {task : QueueRequestValidationTask} (hfresh : task.completedAt = none)
    {labels : List Label} {at_ : Stage × State}
    (hrun : Runs.run (step loads) labels (published task) = some at_)
    (hthree : Runs.Meets (step loads) HasTier3 labels (published task))
    (hmeets : Runs.Meets (step loads) Conclusive labels (published task))
    (hcompleted : Completed at_.2) : Validated at_.2 := by
  have hsound : Sound at_ :=
    Runs.invariant_of_run Sound
      (fun _ _ _ h hboth hstep => sound_step h hboth.1 hboth.2 hstep)
      (show Sound (published task) from
        ⟨trivial, fun hdone => absurd hdone (not_completed_published hfresh)⟩)
      (Runs.Meets.and hthree hmeets) hrun
  exact hsound.2 hcompleted

/-! The rule `never_ranked`. -/

def neverRanked : EngineRule :=
  ⟨1, "never_ranked", "1.0",
    .dict [("ruleset", .str "osu"), ("normalize_versions", .bool true)], true⟩

def neverRankedSnapshot : String := Text.dumps (.list [snapshotItem neverRanked])

/-- The snapshot as `json.loads` returns it. -/
def loadNeverRanked (text : String) : Option (List Json) :=
  if text = neverRankedSnapshot then some [snapshotItem neverRanked] else none

def neverRankedTask : QueueRequestValidationTask :=
  ⟨5, 7, 1000, "", neverRankedSnapshot, none, none⟩

/-- The rule is violated, and the request is rejected. -/
def rejecting : List Label :=
  [ .started, .read, .row true, .fetched, .outcomes [.violation], .updated .done,
    .marked Iso.newYear .done ]

/-- Before that the runner has timed out on the rule once. -/
def retriedAndRejected : List Label :=
  [ .started, .read, .row true, .fetched, .outcomes [.retryable], .marked Iso.newYear .done ] ++
    rejecting

theorem neverRanked_validated :
    ∃ at_, Runs.run (step loadNeverRanked) retriedAndRejected (published neverRankedTask) =
        some at_ ∧
      at_.2.rejection = some "Rejected by rule engine: never_ranked" ∧ Completed at_.2 ∧
      Validated at_.2 := by
  have hmarked : ((Runs.run (step loadNeverRanked) retriedAndRejected
      (published neverRankedTask)).bind (fun at_ => at_.2.hash)).any (marked "completed_at") =
        true := by decide +kernel
  have hrejection : (Runs.run (step loadNeverRanked) retriedAndRejected
      (published neverRankedTask)).bind (fun at_ => at_.2.rejection) =
        some "Rejected by rule engine: never_ranked" := by decide +kernel
  obtain ⟨fields, hfields, hdone⟩ := (Option.any_eq_true _ _).mp hmarked
  obtain ⟨at_, hrun, hhash⟩ := Option.bind_eq_some_iff.mp hfields
  rw [hrun] at hrejection
  exact ⟨at_, hrun, hrejection, ⟨fields, hhash, hdone⟩, completed_only_if_validated loadNeverRanked
    rfl hrun (by decide +kernel) (by decide +kernel) ⟨fields, hhash, hdone⟩⟩

/-- The beatmapset cannot be fetched, and the task is marked as completed
without a validator having run. -/
theorem fetchFails_completed :
    ∃ at_, Runs.run (step loadNeverRanked)
        [.started, .read, .row true, .raised false, .marked Iso.newYear .done]
        (published neverRankedTask) = some at_ ∧
      neverRanked.getTier = some 3 ∧ Completed at_.2 ∧ ¬ Validated at_.2 := by
  refine ⟨_, rfl, by decide +kernel, ⟨_, rfl, by decide +kernel⟩, ?_⟩
  rintro ⟨x, hx, -⟩
  cases hx

end Validation

end Graveboards.Requests
