import Graveboards.Library.Runs

/-!
The runner of a task: it calls the factory again after a failure, under the
retry policy of the task and with hooks that may raise. A run is told by the
outcomes of the successive calls of the factory; each comes with the hooks that
raise if they are called after it. `_safe_hook` names the hook and prints its
arguments in its log message, so a hook without a `__name__`, or a task whose
backoff has no `delay` to be printed, takes the runner down.
-/

namespace Graveboards.Daemon.Retry

open Library

/-! Backoff, over any type of delays. -/

/-- The strategies with their parameters, and `_current`. -/
inductive BackoffStrategy (δ : Type) where
  | constant (delay : δ)
  | linear (step maxDelay current : δ)
  | exponential (base factor maxDelay current : δ)

namespace BackoffStrategy

variable {δ : Type} [Zero δ] [Add δ] [Mul δ] [Min δ]

def nextDelay : BackoffStrategy δ → δ × BackoffStrategy δ
  | .constant delay => (delay, .constant delay)
  | .linear step maxDelay current =>
      let current := min (current + step) maxDelay
      (current, .linear step maxDelay current)
  | .exponential base factor maxDelay current =>
      (current, .exponential base factor maxDelay (min (current * factor) maxDelay))

def reset : BackoffStrategy δ → BackoffStrategy δ
  | .constant delay => .constant delay
  | .linear step maxDelay _ => .linear step maxDelay 0
  | .exponential base factor maxDelay _ => .exponential base factor maxDelay base

def IsReset (b : BackoffStrategy δ) : Prop := b.reset = b

/-- Only a constant backoff has the attribute `delay`. -/
def hasDelay : BackoffStrategy δ → Bool
  | .constant _ => true
  | .linear .. => false
  | .exponential .. => false

omit [Add δ] [Mul δ] [Min δ] in
theorem isReset_reset (b : BackoffStrategy δ) : b.reset.IsReset := by
  cases b <;> rfl

end BackoffStrategy

/-- A hook is any callable: a function or a bound method has a `__name__`, a
`functools.partial` or another object with `__call__` has none. -/
structure Hook where
  hasName : Bool
  deriving DecidableEq

structure TaskRetryPolicy (δ : Type) where
  backoff : Option (BackoffStrategy δ)
  maxRetries : Option Int
  onFailure : Option Hook
  onMaxRetriesExceeded : Option Hook

/-- `TaskRetryPolicy.__repr__` prints the `delay` of its backoff, if it has one. -/
def TaskRetryPolicy.hasRepr {δ : Type} (policy : TaskRetryPolicy δ) : Bool :=
  match policy.backoff with
  | some backoff => backoff.hasDelay
  | none => true

/-- `register_task` gives every spec a retry policy. -/
structure TaskSpec (δ : Type) where
  critical : Bool
  retryPolicy : TaskRetryPolicy δ

/-- The default delay of a service, and the hooks that its class may override. -/
structure Service (δ : Type) where
  defaultBackoffDelay : δ
  onTaskFailure : Hook
  onCriticalFailure : Hook

inductive Outcome (ε : Type) where
  | success
  | failure (exc : ε)
  | cancelled

inductive HookKind where
  | onFailure
  | onTaskFailure
  | onCriticalFailure
  | onMaxRetriesExceeded
  deriving DecidableEq

/-- How a call of the factory ends, and which hooks raise if they are called then. -/
structure Round (ε : Type) where
  outcome : Outcome ε
  raises : HookKind → Bool

inductive Event (δ ε : Type) where
  | factory
  | failure (exc : ε)
  | onFailure (exc : ε) (failures : Nat)
  | onTaskFailure (exc : ε) (failures : Nat)
  | onCriticalFailure (exc : ε)
  | onMaxRetriesExceeded (failures : Nat)
  | sleep (delay : δ)

/-- `running`: the factory has been called, and its outcome is awaited. -/
inductive Status (ε : Type) where
  | running
  | returned
  | propagated (exc : ε)
  | attributeError
  | cancelled

structure Runner (δ ε : Type) where
  failures : Nat
  backoff : Option (BackoffStrategy δ)
  events : List (Event δ ε)
  status : Status ε

namespace Runner

variable {δ ε : Type}

def log (event : Event δ ε) (r : Runner δ ε) : Runner δ ε :=
  { r with events := r.events ++ [event] }

/-- `_safe_hook`, and what the runner does after it. The message about a hook that raised has its
name and prints its arguments. -/
def safeHook (hook : Hook) (printable raises : Bool) (event : Event δ ε)
    (next : Runner δ ε → Runner δ ε) (r : Runner δ ε) : Runner δ ε :=
  if raises && !(hook.hasName && printable) then { r.log event with status := .attributeError }
  else next (r.log event)

/-- `if hook: await self._safe_hook(hook, ..)`, where the arguments are the name of the task, the
exception and a number. -/
def optionalHook (hook : Option Hook) (raises : Bool) (event : Event δ ε)
    (next : Runner δ ε → Runner δ ε) (r : Runner δ ε) : Runner δ ε :=
  match hook with
  | some hook => r.safeHook hook true raises event next
  | none => next r

section

variable [Zero δ] [Add δ] [Mul δ] [Min δ]

/-- The backoff is reset, and the runner returns. -/
def finish (r : Runner δ ε) : Runner δ ε :=
  { r with backoff := r.backoff.map BackoffStrategy.reset, status := .returned }

/-- The sleep, and the next call of the factory. -/
def retry (service : Service δ) (r : Runner δ ε) : Runner δ ε :=
  match r.backoff with
  | some backoff =>
      (({ r with backoff := some backoff.nextDelay.2 }).log (.sleep backoff.nextDelay.1)).log
        .factory
  | none => (r.log (.sleep service.defaultBackoffDelay)).log .factory

/-- `is_exhausted` -/
def isExhausted (spec : TaskSpec δ) (failures : Nat) : Bool :=
  match spec.retryPolicy.maxRetries with
  | some maxRetries => maxRetries < failures
  | none => false

/-- The `except Exception` branch after the two hooks for the failure. -/
def conclude (service : Service δ) (spec : TaskSpec δ) (exc : ε) (raises : HookKind → Bool)
    (r : Runner δ ε) :
    Runner δ ε :=
  if spec.critical then
    r.safeHook service.onCriticalFailure spec.retryPolicy.hasRepr (raises .onCriticalFailure)
      (.onCriticalFailure exc)
      fun r => { r with status := .propagated exc }
  else if isExhausted spec r.failures then
    r.optionalHook spec.retryPolicy.onMaxRetriesExceeded (raises .onMaxRetriesExceeded)
      (.onMaxRetriesExceeded r.failures) finish
  else r.retry service

/-- The `except Exception` branch of the runner, with the failure counted. -/
def fail (service : Service δ) (spec : TaskSpec δ) (exc : ε) (raises : HookKind → Bool)
    (r : Runner δ ε) :
    Runner δ ε :=
  r.optionalHook spec.retryPolicy.onFailure (raises .onFailure) (.onFailure exc r.failures) fun r =>
    r.safeHook service.onTaskFailure spec.retryPolicy.hasRepr (raises .onTaskFailure)
      (.onTaskFailure exc r.failures)
      (conclude service spec exc raises)

/-- What the runner does with the outcome of a call of the factory. -/
def step (service : Service δ) (spec : TaskSpec δ) (round : Round ε) (r : Runner δ ε) :
    Option (Runner δ ε) :=
  match r.status with
  | .running =>
      match round.outcome with
      | .success => some r.finish
      | .cancelled => some { r with status := .cancelled }
      | .failure exc =>
          some (({ r with failures := r.failures + 1 }).log (.failure exc) |>.fail service spec
            exc round.raises)
  | _ => none

end

/-- `runner()` up to the first call of the factory. -/
def start (spec : TaskSpec δ) : Runner δ ε := ⟨0, spec.retryPolicy.backoff, [.factory], .running⟩

/-! The law of the policy, read off the events. -/

def Event.isFactory : Event δ ε → Bool
  | .factory => true
  | _ => false

def factoryCalls (r : Runner δ ε) : Nat := r.events.countP Event.isFactory

def exceptions (r : Runner δ ε) : List ε :=
  r.events.filterMap fun
    | .failure exc => some exc
    | _ => none

def onFailureCounts (r : Runner δ ε) : List Nat :=
  r.events.filterMap fun
    | .onFailure _ failures => some failures
    | _ => none

def onTaskFailureCounts (r : Runner δ ε) : List Nat :=
  r.events.filterMap fun
    | .onTaskFailure _ failures => some failures
    | _ => none

def exceededCounts (r : Runner δ ε) : List Nat :=
  r.events.filterMap fun
    | .onMaxRetriesExceeded failures => some failures
    | _ => none

/-- The task is to be tried again after its `k`-th failure. -/
def Retryable (spec : TaskSpec δ) (k : Nat) : Prop :=
  spec.critical = false ∧ ∀ maxRetries, spec.retryPolicy.maxRetries = some maxRetries →
    (k : Int) < maxRetries + 1

variable [Zero δ]

/-- The law, for what has happened up to now. -/
structure Lawful (spec : TaskSpec δ) (r : Runner δ ε) : Prop where
  again : ∀ k, 1 ≤ k → k ≤ r.failures → (k < r.factoryCalls ↔ Retryable spec k)
  onFailure :
      r.onFailureCounts = if spec.retryPolicy.onFailure.isSome then List.range' 1 r.failures else []
  onTaskFailure : r.onTaskFailureCounts = List.range' 1 r.failures
  exceeded : r.exceededCounts.length ≤ 1
  exceededAfter :
      ∀ k ∈ r.exceededCounts, ∃ maxRetries, spec.retryPolicy.maxRetries = some maxRetries ∧
    (k : Int) = maxRetries + 1
  propagates :
      ∀ exc, r.status = .propagated exc ↔ spec.critical = true ∧ r.exceptions.getLast? = some exc
  nothingElse : r.status ≠ .attributeError
  reset : r.status = .returned → ∀ backoff, r.backoff = some backoff → backoff.IsReset

/-- Every failure has been reported, and none of them was one too many. -/
structure Reported (spec : TaskSpec δ) (r : Runner δ ε) : Prop where
  exceptions : r.exceptions.length = r.failures
  onFailure :
      r.onFailureCounts = if spec.retryPolicy.onFailure.isSome then List.range' 1 r.failures else []
  onTaskFailure : r.onTaskFailureCounts = List.range' 1 r.failures
  exceeded : r.exceededCounts = []

/-- The factory has been called again after every failure so far. -/
structure Waiting (spec : TaskSpec δ) (r : Runner δ ε) : Prop extends Reported spec r where
  status : r.status = .running
  factoryCalls : r.factoryCalls = r.failures + 1
  retryable : ∀ k, 1 ≤ k → k ≤ r.failures → Retryable spec k

omit [Zero δ] in
theorem Waiting.start (spec : TaskSpec δ) : Waiting spec (start spec : Runner δ ε) where
  exceptions := rfl
  onFailure := by simp [Runner.start, onFailureCounts]
  onTaskFailure := rfl
  exceeded := rfl
  status := rfl
  factoryCalls := rfl
  retryable k hk hle := absurd (hk.trans hle) (by simp [Runner.start])

/-- What a hook raises is logged: it has a name, and its arguments can be printed. -/
def Loggable (hook : Hook) (printable raises : Bool) : Prop :=
  raises = true → hook.hasName = true ∧ printable = true

def logOptional (hook : Option Hook) (event : Event δ ε) (r : Runner δ ε) : Runner δ ε :=
  if hook.isSome then r.log event else r

omit [Zero δ] in
theorem safeHook_of_loggable {hook : Hook} {printable raises : Bool}
    (h : Loggable hook printable raises) (event : Event δ ε) (next : Runner δ ε → Runner δ ε)
    (r : Runner δ ε) :
    r.safeHook hook printable raises event next = next (r.log event) := by
  rw [safeHook, if_neg]
  intro hcall
  cases raises with
  | false => cases hcall
  | true =>
      obtain ⟨hname, hprintable⟩ := h rfl
      rw [hname, hprintable] at hcall
      cases hcall

omit [Zero δ] in
theorem safeHook_of_not_loggable {hook : Hook} {printable raises : Bool}
    (h : ¬ Loggable hook printable raises) (event : Event δ ε) (next : Runner δ ε → Runner δ ε)
    (r : Runner δ ε) :
    (r.safeHook hook printable raises event next).status = .attributeError := by
  obtain ⟨hraises, hmessage⟩ := Classical.not_imp.mp h
  rw [safeHook, if_pos]
  rw [hraises, Bool.true_and, Bool.not_eq_true', Bool.and_eq_false_iff]
  by_cases hname : hook.hasName = true
  · exact .inr (Bool.eq_false_of_not_eq_true fun hprintable => hmessage ⟨hname, hprintable⟩)
  · exact .inl (Bool.eq_false_of_not_eq_true hname)

/-- The same for a hook of the policy, which may not be given. -/
def OptionalLoggable (hook : Option Hook) (raises : Bool) : Prop :=
  ∀ h, hook = some h → Loggable h true raises

omit [Zero δ] in
theorem optionalHook_of_loggable {hook : Option Hook} {raises : Bool}
    (h : OptionalLoggable hook raises) (event : Event δ ε) (next : Runner δ ε → Runner δ ε)
    (r : Runner δ ε) :
    r.optionalHook hook raises event next = next (r.logOptional hook event) := by
  cases hook with
  | none => rfl
  | some hook => exact safeHook_of_loggable (h hook rfl) event next r

omit [Zero δ] in
theorem optionalHook_of_not_loggable {hook : Option Hook} {raises : Bool}
    (h : ¬ OptionalLoggable hook raises) (event : Event δ ε) (next : Runner δ ε → Runner δ ε)
    (r : Runner δ ε) :
    (r.optionalHook hook raises event next).status = .attributeError := by
  cases hook with
  | none => exact absurd (fun _ hsome => by cases hsome) h
  | some hook =>
      refine safeHook_of_not_loggable (fun hloggable => h fun h' hsome => ?_) event next r
      obtain rfl := Option.some.inj hsome
      exact hloggable

section

variable [Add δ] [Mul δ] [Min δ] (service : Service δ) (spec : TaskSpec δ)

/-- What the hooks raise that are called after a failure is logged. -/
structure AllLoggable (raises : HookKind → Bool) (failures : Nat) : Prop where
  onFailure : OptionalLoggable spec.retryPolicy.onFailure (raises .onFailure)
  onTaskFailure : Loggable service.onTaskFailure spec.retryPolicy.hasRepr (raises .onTaskFailure)
  onCriticalFailure : spec.critical = true →
    Loggable service.onCriticalFailure spec.retryPolicy.hasRepr (raises .onCriticalFailure)
  onMaxRetriesExceeded : spec.critical = false → isExhausted spec failures = true →
    OptionalLoggable spec.retryPolicy.onMaxRetriesExceeded (raises .onMaxRetriesExceeded)

/-- The runner with a failure counted and reported. -/
def reported (exc : ε) (r : Runner δ ε) : Runner δ ε :=
  (r.logOptional spec.retryPolicy.onFailure (.onFailure exc r.failures)).log
    (.onTaskFailure exc r.failures)

/-- What becomes of the runner after the hooks for the failure. -/
def settle (exc : ε) (r : Runner δ ε) : Runner δ ε :=
  if spec.critical then { r.log (.onCriticalFailure exc) with status := .propagated exc }
  else if isExhausted spec r.failures then
    (r.logOptional spec.retryPolicy.onMaxRetriesExceeded (.onMaxRetriesExceeded r.failures)).finish
  else r.retry service

variable {service spec}

omit [Zero δ] [Add δ] [Mul δ] [Min δ] in
@[simp] theorem failures_log (event : Event δ ε) (r : Runner δ ε) :
    (r.log event).failures = r.failures := rfl

omit [Zero δ] [Add δ] [Mul δ] [Min δ] in
@[simp] theorem failures_logOptional (hook : Option Hook) (event : Event δ ε) (r : Runner δ ε) :
    (r.logOptional hook event).failures = r.failures := by
  unfold logOptional
  split <;> rfl

theorem conclude_of_loggable {raises : HookKind → Bool} {exc : ε} {r : Runner δ ε}
    (h : AllLoggable service spec raises r.failures) :
    r.conclude service spec exc raises = r.settle service spec exc := by
  unfold conclude settle
  cases hcritical : spec.critical with
  | true =>
      rw [if_pos rfl, if_pos rfl, safeHook_of_loggable (h.onCriticalFailure hcritical)]
  | false =>
      rw [if_neg Bool.false_ne_true, if_neg Bool.false_ne_true]
      cases hexhausted : isExhausted spec r.failures with
      | true =>
          rw [if_pos rfl, if_pos rfl,
            optionalHook_of_loggable (h.onMaxRetriesExceeded hcritical hexhausted)]
      | false => rw [if_neg Bool.false_ne_true, if_neg Bool.false_ne_true]

theorem conclude_of_not_loggable {raises : HookKind → Bool} {exc : ε} {r : Runner δ ε}
    (honFailure : OptionalLoggable spec.retryPolicy.onFailure (raises .onFailure))
    (honTaskFailure : Loggable service.onTaskFailure spec.retryPolicy.hasRepr
      (raises .onTaskFailure))
    (h : ¬ AllLoggable service spec raises r.failures) :
    (r.conclude service spec exc raises).status = .attributeError := by
  unfold conclude
  cases hcritical : spec.critical with
  | true =>
      rw [if_pos rfl]
      apply safeHook_of_not_loggable
      intro honCriticalFailure
      refine h ⟨honFailure, honTaskFailure, fun _ => honCriticalFailure, fun hfalse => ?_⟩
      rw [hcritical] at hfalse
      cases hfalse
  | false =>
      rw [if_neg Bool.false_ne_true]
      have hexceeded : ¬ (isExhausted spec r.failures = true →
          OptionalLoggable spec.retryPolicy.onMaxRetriesExceeded
          (raises .onMaxRetriesExceeded)) := by
        intro hexceeded
        refine h ⟨honFailure, honTaskFailure, fun htrue => ?_, fun _ => hexceeded⟩
        rw [hcritical] at htrue
        cases htrue
      obtain ⟨hexhausted, hloggable⟩ := Classical.not_imp.mp hexceeded
      rw [hexhausted, if_pos rfl]
      exact optionalHook_of_not_loggable hloggable _ _ _

omit [Zero δ] [Add δ] [Mul δ] [Min δ] in
theorem failures_reported (exc : ε) (r : Runner δ ε) :
    (r.reported spec exc).failures = r.failures := by
  simp [reported]

theorem fail_of_reported {raises : HookKind → Bool} {exc : ε} {r : Runner δ ε}
    (honFailure : OptionalLoggable spec.retryPolicy.onFailure (raises .onFailure))
    (honTaskFailure : Loggable service.onTaskFailure spec.retryPolicy.hasRepr
      (raises .onTaskFailure)) :
    r.fail service spec exc raises = (r.reported spec exc).conclude service spec exc raises := by
  rw [fail, optionalHook_of_loggable honFailure, safeHook_of_loggable honTaskFailure,
    failures_logOptional]
  rfl

theorem fail_of_loggable {raises : HookKind → Bool} {exc : ε} {r : Runner δ ε}
    (h : AllLoggable service spec raises r.failures) :
    r.fail service spec exc raises = (r.reported spec exc).settle service spec exc := by
  rw [fail_of_reported h.onFailure h.onTaskFailure]
  apply conclude_of_loggable
  rw [failures_reported]
  exact h

theorem fail_of_not_loggable {raises : HookKind → Bool} {exc : ε} {r : Runner δ ε}
    (h : ¬ AllLoggable service spec raises r.failures) :
    (r.fail service spec exc raises).status = .attributeError := by
  by_cases honFailure : OptionalLoggable spec.retryPolicy.onFailure (raises .onFailure)
  · by_cases honTaskFailure : Loggable service.onTaskFailure spec.retryPolicy.hasRepr
      (raises .onTaskFailure)
    · rw [fail_of_reported honFailure honTaskFailure]
      apply conclude_of_not_loggable honFailure honTaskFailure
      rw [failures_reported]
      exact h
    · rw [fail, optionalHook_of_loggable honFailure]
      exact safeHook_of_not_loggable honTaskFailure _ _ _
  · exact optionalHook_of_not_loggable honFailure _ _ _

/-! What a failure adds to the events. -/

/-- The runner with one more failure, after the two hooks for it. -/
def failed (spec : TaskSpec δ) (exc : ε) (r : Runner δ ε) : Runner δ ε :=
  (({ r with failures := r.failures + 1 }).log (.failure exc)).reported spec exc

omit [Zero δ] [Add δ] [Mul δ] [Min δ] in
theorem factoryCalls_failed (spec : TaskSpec δ) (exc : ε) (r : Runner δ ε) :
    (r.failed spec exc).factoryCalls = r.factoryCalls := by
  unfold failed reported logOptional
  split <;> simp [log, factoryCalls, Event.isFactory]

omit [Zero δ] [Add δ] [Mul δ] [Min δ] in
theorem exceptions_failed (spec : TaskSpec δ) (exc : ε) (r : Runner δ ε) :
    (r.failed spec exc).exceptions = r.exceptions ++ [exc] := by
  unfold failed reported logOptional
  split <;> simp [log, exceptions]

omit [Zero δ] [Add δ] [Mul δ] [Min δ] in
theorem failures_failed (spec : TaskSpec δ) (exc : ε) (r : Runner δ ε) :
    (r.failed spec exc).failures = r.failures + 1 := by
  rw [failed, failures_reported, failures_log]

omit [Zero δ] [Add δ] [Mul δ] [Min δ] in
theorem status_failed (spec : TaskSpec δ) (exc : ε) (r : Runner δ ε) :
    (r.failed spec exc).status = r.status := by
  unfold failed reported logOptional
  split <;> rfl

omit [Zero δ] [Add δ] [Mul δ] [Min δ] in
theorem Reported.failed {r : Runner δ ε} (h : Reported spec r) (exc : ε) :
    Reported spec (r.failed spec exc) where
  exceptions := by
    rw [exceptions_failed, failures_failed, List.length_append, h.exceptions, List.length_singleton]
  onFailure := by
    have hcounts : (r.failed spec exc).onFailureCounts =
        r.onFailureCounts ++ if spec.retryPolicy.onFailure.isSome then
        [r.failures + 1] else [] := by
      unfold Runner.failed reported logOptional
      split <;> simp [log, onFailureCounts]
    rw [hcounts, h.onFailure, failures_failed, List.range'_1_concat, Nat.add_comm 1]
    split <;> rfl
  onTaskFailure := by
    have hcounts :
        (r.failed spec exc).onTaskFailureCounts = r.onTaskFailureCounts ++ [r.failures + 1] := by
      unfold Runner.failed reported logOptional
      split <;> simp [log, onTaskFailureCounts]
    rw [hcounts, h.onTaskFailure, failures_failed, List.range'_1_concat, Nat.add_comm 1]
  exceeded := by
    have hcounts : (r.failed spec exc).exceededCounts = r.exceededCounts := by
      unfold Runner.failed reported logOptional
      split <;> simp [log, exceededCounts]
    rw [hcounts, h.exceeded]

omit [Zero δ] [Add δ] [Mul δ] [Min δ] in
theorem isExhausted_iff {spec : TaskSpec δ} {k : Nat} :
    isExhausted spec k = true ↔ ∃ maxRetries, spec.retryPolicy.maxRetries = some maxRetries ∧
    maxRetries < k := by
  unfold isExhausted
  cases spec.retryPolicy.maxRetries <;> simp

omit [Zero δ] [Add δ] [Mul δ] [Min δ] in
theorem isExhausted_eq_false_iff {spec : TaskSpec δ} (hcritical : spec.critical = false) (k : Nat) :
    isExhausted spec k = false ↔ Retryable spec k := by
  unfold isExhausted Retryable
  cases spec.retryPolicy.maxRetries with
  | none => simp [hcritical]
  | some maxRetries =>
      simp only [hcritical, true_and, Option.some.injEq, forall_eq', decide_eq_false_iff_not]
      omega

omit [Add δ] [Mul δ] [Min δ] in
/-- A runner that waits has kept the law. -/
theorem Waiting.lawful {r : Runner δ ε} (h : Waiting spec r) : Lawful spec r where
  again k hk hle := iff_of_true (by rw [h.factoryCalls]; omega) (h.retryable k hk hle)
  onFailure := h.onFailure
  onTaskFailure := h.onTaskFailure
  exceeded := by simp [h.exceeded]
  exceededAfter := by simp [h.exceeded]
  propagates exc := by
    refine iff_of_false (by simp [h.status]) ?_
    rintro ⟨hcritical, hlast⟩
    have hpos : 0 < r.exceptions.length := List.length_pos_of_mem (List.mem_of_getLast? hlast)
    have hfalse := (h.retryable 1 le_rfl (h.exceptions ▸ hpos)).1
    rw [hcritical] at hfalse
    cases hfalse
  nothingElse := by simp [h.status]
  reset hreturned := by
    rw [h.status] at hreturned
    cases hreturned

omit [Zero δ] [Add δ] [Mul δ] [Min δ] in
/-- After the last failure there is no further call. -/
theorem Waiting.again_failed {r : Runner δ ε} (h : Waiting spec r) (exc : ε)
    (hlast : ¬ Retryable spec (r.failures + 1)) (k : Nat) (hk : 1 ≤ k)
    (hle : k ≤ (r.failed spec exc).failures) :
    k < (r.failed spec exc).factoryCalls ↔ Retryable spec k := by
  rw [failures_failed] at hle
  rw [factoryCalls_failed, h.factoryCalls]
  rcases Nat.lt_or_eq_of_le hle with hlt | rfl
  · exact iff_of_true hlt (h.retryable k hk (by omega))
  · exact iff_of_false (lt_irrefl _) hlast

/-- The last events of a runner that has ended on a failure: one of the two final hooks, or none. -/
inductive Final : List (Event δ ε) → List Nat → Prop where
  | nothing : Final [] []
  | critical (exc : ε) : Final [.onCriticalFailure exc] []
  | exceeded (k : Nat) : Final [.onMaxRetriesExceeded k] [k]

omit [Zero δ] [Add δ] [Mul δ] [Min δ] in
theorem Final.events {r r' : Runner δ ε} {last : List (Event δ ε)} {exceeded : List Nat}
    (h : Final last exceeded) (hevents : r'.events = r.events ++ last) :
    r'.factoryCalls = r.factoryCalls ∧ r'.exceptions = r.exceptions ∧
    r'.onFailureCounts = r.onFailureCounts ∧
      r'.onTaskFailureCounts = r.onTaskFailureCounts ∧
      r'.exceededCounts = r.exceededCounts ++ exceeded := by
  cases h <;>
    simp [factoryCalls, exceptions, onFailureCounts, onTaskFailureCounts, exceededCounts, hevents,
    Event.isFactory]

omit [Add δ] [Mul δ] [Min δ] in
/-- A runner that ends on a failure keeps the law if its end is the right one. -/
theorem Waiting.lawful_iff_of_final {r : Runner δ ε} (h : Waiting spec r) (exc : ε)
    (r' : Runner δ ε) {last : List (Event δ ε)} {exceeded : List Nat}
    (hlast : ¬ Retryable spec (r.failures + 1)) (hfinal : Final last exceeded)
    (hevents : r'.events = (r.failed spec exc).events ++ last)
    (hfailures : r'.failures = r.failures + 1)
    (hpropagates : ∀ exc', r'.status = .propagated exc' ↔ spec.critical = true ∧ exc = exc')
    (hnothing : r'.status ≠ .attributeError)
    (hreset : r'.status = .returned → ∀ backoff, r'.backoff = some backoff → backoff.IsReset) :
    Lawful spec r' ↔ ∀ k ∈ exceeded, ∃ maxRetries, spec.retryPolicy.maxRetries = some maxRetries ∧
      (k : Int) = maxRetries + 1 := by
  obtain ⟨hcalls, hexceptions, honFailure, honTaskFailure, hexceeded⟩ := hfinal.events hevents
  have hreported := h.toReported.failed exc
  have hsame : r'.failures = (r.failed spec exc).failures := by rw [hfailures, failures_failed]
  rw [hreported.exceeded, List.nil_append] at hexceeded
  constructor
  · intro hlawful
    rw [← hexceeded]
    exact hlawful.exceededAfter
  · intro hafter
    refine ⟨?_, ?_, ?_, ?_, ?_, ?_, hnothing, hreset⟩
    · rw [hsame, hcalls]
      exact h.again_failed exc hlast
    · rw [honFailure, hsame, hreported.onFailure]
    · rw [honTaskFailure, hsame, hreported.onTaskFailure]
    · rw [hexceeded]
      cases hfinal <;> simp
    · rw [hexceeded]
      exact hafter
    · intro exc'
      rw [hpropagates, hexceptions, exceptions_failed, List.getLast?_concat, Option.some.injEq]

/-- The number of retries is no negative one, if the hook for it is to be called. -/
def Countable (spec : TaskSpec δ) : Prop :=
  spec.retryPolicy.onMaxRetriesExceeded.isSome = true →
    ∀ maxRetries, spec.retryPolicy.maxRetries = some maxRetries →
    0 ≤ maxRetries

/-- A critical task propagates the exception. -/
theorem Waiting.lawful_settle_critical {r : Runner δ ε} (h : Waiting spec r) (exc : ε)
    (hcritical : spec.critical = true) :
    Lawful spec ((r.failed spec exc).settle service spec exc) := by
  have hlast : ¬ Retryable spec (r.failures + 1) := by
    rintro ⟨hfalse, -⟩
    rw [hcritical] at hfalse
    cases hfalse
  rw [settle, if_pos hcritical]
  refine (h.lawful_iff_of_final exc
    { (r.failed spec exc).log (.onCriticalFailure exc) with status := .propagated exc } hlast
        (.critical exc) rfl
    (failures_failed spec exc r) ?_ nofun nofun).mpr nofun
  intro exc'
  rw [Status.propagated.injEq, and_iff_right hcritical]

/-- A task that has been tried too often returns with the backoff reset. -/
theorem Waiting.lawful_settle_exhausted_iff {r : Runner δ ε} (h : Waiting spec r) (exc : ε)
    (hcritical : spec.critical = false) (hexhausted : isExhausted spec (r.failures + 1) = true) :
    Lawful spec ((r.failed spec exc).settle service spec exc) ↔ Countable spec := by
  have hlast : ¬ Retryable spec (r.failures + 1) := by
    rw [← isExhausted_eq_false_iff hcritical, hexhausted]
    exact Bool.noConfusion
  have hcriticalNe : ¬ spec.critical = true := by simp [hcritical]
  rw [settle, if_neg hcriticalNe, failures_failed, if_pos hexhausted]
  -- The one place of the proof where the hook matters is what it adds to the events.
  have hfinish {last : List (Event δ ε)} {exceeded : List Nat} (x : Runner δ ε)
      (hfinal : Final last exceeded)
      (hevents : x.events = (r.failed spec exc).events ++ last)
      (hfailures : x.failures = r.failures + 1) :
      Lawful spec x.finish ↔
        ∀ k ∈ exceeded, ∃ maxRetries, spec.retryPolicy.maxRetries = some maxRetries ∧
        (k : Int) = maxRetries + 1 := by
    refine h.lawful_iff_of_final exc x.finish hlast hfinal hevents hfailures ?_ nofun ?_
    · exact fun exc' => iff_of_false nofun fun hand => hcriticalNe hand.1
    · intro _ backoff hsome
      obtain ⟨before, -, rfl⟩ := Option.map_eq_some_iff.mp hsome
      exact before.isReset_reset
  unfold Countable
  cases hhook : spec.retryPolicy.onMaxRetriesExceeded with
  | none =>
      refine (hfinish (r.failed spec exc) .nothing (List.append_nil _).symm
        (failures_failed spec exc r)).trans ?_
      simp
  | some hook =>
      refine (hfinish ((r.failed spec exc).log (.onMaxRetriesExceeded (r.failures + 1)))
        (.exceeded (r.failures + 1))
        rfl (failures_failed spec exc r)).trans ?_
      obtain ⟨maxRetries, hmax, hlt⟩ := isExhausted_iff.mp hexhausted
      simp only [hmax, List.forall_mem_singleton, Option.some.injEq, exists_eq_left',
        Option.isSome_some, forall_const, forall_eq']
      -- No earlier failure was one too many.
      have hearlier (hpos : 1 ≤ r.failures) : (r.failures : Int) < maxRetries + 1 :=
        (h.retryable r.failures hpos le_rfl).2 maxRetries hmax
      constructor
      · intro heq
        omega
      · intro hnonneg
        by_cases hpos : 1 ≤ r.failures
        · have := hearlier hpos
          omega
        · omega

omit [Zero δ] in
/-- The sleep and the call of the factory leave the reports as they are. -/
theorem Reported.retry {r : Runner δ ε} (h : Reported spec r) (service : Service δ) :
    Reported spec (r.retry service) ∧ (r.retry service).factoryCalls = r.factoryCalls + 1 ∧
      (r.retry service).failures = r.failures ∧ (r.retry service).status = r.status := by
  have hevents (x : Runner δ ε) (delay : δ) (hevents : x.events = r.events)
      (hfailures : x.failures = r.failures) :
      Reported spec ((x.log (.sleep delay)).log .factory) ∧
        ((x.log (.sleep delay)).log .factory).factoryCalls = r.factoryCalls + 1 := by
    refine ⟨⟨?_, ?_, ?_, ?_⟩, ?_⟩
    · rw [failures_log, failures_log, hfailures, ← h.exceptions]
      simp [log, Runner.exceptions, hevents]
    · rw [failures_log, failures_log, hfailures, ← h.onFailure]
      simp [log, onFailureCounts, hevents]
    · rw [failures_log, failures_log, hfailures, ← h.onTaskFailure]
      simp [log, onTaskFailureCounts, hevents]
    · rw [← h.exceeded]
      simp [log, exceededCounts, hevents]
    · simp [log, Runner.factoryCalls, hevents, Event.isFactory]
  unfold Runner.retry
  cases r.backoff with
  | none =>
      obtain ⟨hreported, hcalls⟩ := hevents r service.defaultBackoffDelay rfl rfl
      exact ⟨hreported, hcalls, rfl, rfl⟩
  | some backoff =>
      obtain ⟨hreported, hcalls⟩ :=
        hevents { r with backoff := some backoff.nextDelay.2 } backoff.nextDelay.1 rfl rfl
      exact ⟨hreported, hcalls, rfl, rfl⟩

/-- Otherwise the factory is called again. -/
theorem Waiting.settle_retry {r : Runner δ ε} (h : Waiting spec r) (exc : ε)
    (hcritical : spec.critical = false) (hexhausted : isExhausted spec (r.failures + 1) = false) :
    Waiting spec ((r.failed spec exc).settle service spec exc) := by
  have hcriticalNe : ¬ spec.critical = true := by simp [hcritical]
  have hexhaustedNe : ¬ isExhausted spec (r.failures + 1) = true := by simp [hexhausted]
  rw [settle, if_neg hcriticalNe, failures_failed, if_neg hexhaustedNe]
  obtain ⟨hreported, hcalls, hfailures, hstatus⟩ := (h.toReported.failed exc).retry service
  refine { toReported := hreported, status := ?_, factoryCalls := ?_, retryable := ?_ }
  · rw [hstatus, status_failed, h.status]
  · rw [hcalls, factoryCalls_failed, h.factoryCalls, hfailures, failures_failed]
  · intro k hk hle
    rw [hfailures, failures_failed] at hle
    rcases Nat.lt_or_eq_of_le hle with hlt | rfl
    · exact h.retryable k hk (by omega)
    · exact (isExhausted_eq_false_iff hcritical _).mp hexhausted

variable (service spec)

/-- What the hooks raise that are called after the outcome is logged, and the hook for too many
retries is not called under a negative number of them. -/
def Undisturbed (round : Round ε) (r : Runner δ ε) : Prop :=
  ∀ exc, round.outcome = .failure exc →
    AllLoggable service spec round.raises (r.failures + 1) ∧
      (spec.critical = false → isExhausted spec (r.failures + 1) = true → Countable spec)

variable {service spec}

omit [Add δ] [Mul δ] [Min δ] in
/-- A runner that ends without a failure has kept the law. -/
theorem Waiting.lawful_ended {r r' : Runner δ ε} (h : Waiting spec r)
    (hevents : r'.events = r.events) (hfailures : r'.failures = r.failures)
    (hpropagated : ∀ exc, r'.status ≠ .propagated exc) (hnothing : r'.status ≠ .attributeError)
    (hreset : r'.status = .returned → ∀ backoff, r'.backoff = some backoff → backoff.IsReset) :
    Lawful spec r' := by
  have hlawful := h.lawful
  refine ⟨?_, ?_, ?_, ?_, ?_, ?_, hnothing, hreset⟩
  · rw [hfailures, Runner.factoryCalls, hevents]
    exact hlawful.again
  · rw [hfailures, onFailureCounts, hevents]
    exact hlawful.onFailure
  · rw [hfailures, onTaskFailureCounts, hevents]
    exact hlawful.onTaskFailure
  · rw [exceededCounts, hevents]
    exact hlawful.exceeded
  · rw [exceededCounts, hevents]
    exact hlawful.exceededAfter
  · intro exc
    rw [Runner.exceptions, hevents]
    refine iff_of_false (hpropagated exc) fun hlast => ?_
    have hstatus := (hlawful.propagates exc).mpr hlast
    rw [h.status] at hstatus
    cases hstatus

theorem step_failure {r : Runner δ ε} {round : Round ε} {exc : ε} (hstatus : r.status = .running)
    (houtcome : round.outcome = .failure exc) :
    step service spec round r =
      some ((({ r with failures := r.failures + 1 }).log (.failure exc)).fail service spec exc
        round.raises) := by
  unfold step
  split
  · rw [houtcome]
  · next hother => exact absurd hstatus hother

/-- A failure after which what the hooks raise is logged. -/
theorem step_of_loggable {r : Runner δ ε} {round : Round ε} {exc : ε}
    (hstatus : r.status = .running) (houtcome : round.outcome = .failure exc)
    (hloggable : AllLoggable service spec round.raises (r.failures + 1)) :
    step service spec round r = some ((r.failed spec exc).settle service spec exc) := by
  rw [step_failure hstatus houtcome, failed]
  exact congrArg some (fail_of_loggable hloggable)

/-- Otherwise the exception of `_safe_hook` ends the runner. -/
theorem step_of_not_loggable {r r' : Runner δ ε} {round : Round ε} {exc : ε}
    (hstatus : r.status = .running) (houtcome : round.outcome = .failure exc)
    (hloggable : ¬ AllLoggable service spec round.raises (r.failures + 1))
    (hstep : step service spec round r = some r') : r'.status = .attributeError := by
  rw [step_failure hstatus houtcome] at hstep
  obtain rfl := Option.some.inj hstep
  exact fail_of_not_loggable hloggable

/-- A failure: the law is kept if and only if the hooks leave it alone. -/
theorem Waiting.step_failure {r r' : Runner δ ε} {round : Round ε} {exc : ε} (h : Waiting spec r)
    (houtcome : round.outcome = .failure exc) (hstep : step service spec round r = some r') :
    (Lawful spec r' ↔ AllLoggable service spec round.raises (r.failures + 1) ∧
        (spec.critical = false → isExhausted spec (r.failures + 1) = true → Countable spec)) ∧
      (r'.status = .running → Waiting spec r') := by
  by_cases hloggable : AllLoggable service spec round.raises (r.failures + 1)
  · rw [step_of_loggable h.status houtcome hloggable] at hstep
    obtain rfl := Option.some.inj hstep
    rw [and_iff_right hloggable]
    cases hcritical : spec.critical with
    | true =>
        refine ⟨iff_of_true (h.lawful_settle_critical exc hcritical) nofun, ?_⟩
        rw [settle, if_pos hcritical]
        nofun
    | false =>
        cases hexhausted : isExhausted spec (r.failures + 1) with
        | true =>
            rw [h.lawful_settle_exhausted_iff exc hcritical hexhausted]
            refine ⟨⟨fun hcountable _ _ => hcountable, fun hcountable => hcountable rfl rfl⟩, ?_⟩
            rw [settle, if_neg (by simp [hcritical]), failures_failed, if_pos hexhausted]
            nofun
        | false =>
            have hwaiting : Waiting spec ((r.failed spec exc).settle service spec exc) :=
              h.settle_retry exc hcritical hexhausted
            exact ⟨iff_of_true hwaiting.lawful fun _ => nofun, fun _ => hwaiting⟩
  · have hstatus := step_of_not_loggable h.status houtcome hloggable hstep
    refine ⟨iff_of_false (fun hlawful => hlawful.nothingElse hstatus) fun hboth =>
      hloggable hboth.1, ?_⟩
    intro hrunning
    rw [hstatus] at hrunning
    cases hrunning

/-- One call of the factory: the law is kept if and only if the hooks leave it alone, and a runner
that goes on has kept it. -/
theorem Waiting.step {r r' : Runner δ ε} {round : Round ε} (h : Waiting spec r)
    (hstep : step service spec round r = some r') :
    (Lawful spec r' ↔ Undisturbed service spec round r) ∧
    (r'.status = .running → Waiting spec r') := by
  cases houtcome : round.outcome with
  | success =>
      rw [Runner.step, h.status, houtcome] at hstep
      obtain rfl := Option.some.inj hstep
      have hlawful : Lawful spec r.finish := by
        refine h.lawful_ended rfl rfl nofun nofun fun _ backoff hsome => ?_
        obtain ⟨before, -, rfl⟩ := Option.map_eq_some_iff.mp hsome
        exact before.isReset_reset
      refine ⟨iff_of_true hlawful fun exc hfailure => ?_, nofun⟩
      rw [houtcome] at hfailure
      cases hfailure
  | cancelled =>
      rw [Runner.step, h.status, houtcome] at hstep
      obtain rfl := Option.some.inj hstep
      have hlawful : Lawful spec { r with status := .cancelled } :=
        h.lawful_ended rfl rfl nofun nofun nofun
      refine ⟨iff_of_true hlawful fun exc hfailure => ?_, nofun⟩
      rw [houtcome] at hfailure
      cases hfailure
  | failure exc =>
      obtain ⟨hlawful, hwaiting⟩ := h.step_failure houtcome hstep
      refine ⟨hlawful.trans
        ⟨fun hboth exc' hfailure => ?_, fun hundisturbed => hundisturbed exc houtcome⟩, hwaiting⟩
      exact hboth

/-- The law holds at the end of a run if and only if all its rounds are undisturbed. -/
theorem lawful_iff_of_waiting {rounds : List (Round ε)} {r r' : Runner δ ε} (h : Waiting spec r)
    (hrun : Runs.run (Runner.step service spec) rounds r = some r') :
    Lawful spec r' ↔ Runs.Meets (Runner.step service spec) (Undisturbed service spec) rounds r := by
  induction rounds generalizing r with
  | nil =>
      obtain rfl := Option.some.inj hrun
      exact iff_of_true h.lawful trivial
  | cons round rest ih =>
      obtain ⟨next, hnext, hrest⟩ := Option.bind_eq_some_iff.mp hrun
      obtain ⟨hlawful, hwaiting⟩ := h.step hnext
      rw [Runs.meets_cons_iff hnext]
      by_cases hstatus : next.status = .running
      · have hnextWaiting := hwaiting hstatus
        rw [and_iff_right (hlawful.mp hnextWaiting.lawful)]
        exact ih hnextWaiting hrest
      · cases rest with
        | nil =>
            obtain rfl := Option.some.inj hrest
            rw [hlawful]
            exact (and_iff_left trivial).symm
        | cons later rest =>
            have hnone : Runner.step service spec later next = none := by
              unfold Runner.step
              split
              · next hrunning => exact absurd hrunning hstatus
              · rfl
            rw [Runs.run, hnone] at hrest
            cases hrest

/-- However the calls of the factory end and whichever hooks raise after them, the runner keeps the
law if and only if all its rounds are undisturbed. -/
theorem runner_lawful_iff (service : Service δ) (spec : TaskSpec δ) (rounds : List (Round ε))
    {r : Runner δ ε} (hrun : Runs.run (step service spec) rounds (start spec) = some r) :
    Lawful spec r ↔ Runs.Meets (step service spec) (Undisturbed service spec) rounds (start spec) :=
  lawful_iff_of_waiting (Waiting.start spec) hrun

end

/-- Hooks that raise, and have a name, beside a backoff that can be printed. -/
theorem runner_lawful_iff_raising :
    Lawful (⟨false, ⟨some (.constant 4), some 3, some ⟨true⟩, none⟩⟩ : TaskSpec Nat)
      (⟨1, some (.constant 4),
        [.factory, .failure 7, .onFailure 7 1, .onTaskFailure 7 1, .sleep 4, .factory],
        .returned⟩ : Runner Nat Nat) := by
  refine (runner_lawful_iff ⟨5, ⟨true⟩, ⟨true⟩⟩ _
    [⟨.failure 7, fun _ => true⟩, ⟨.success, fun _ => false⟩]
    rfl).mpr ?_
  have hloggable : Loggable ⟨true⟩ true true := fun _ => ⟨rfl, rfl⟩
  refine ⟨?_, ?_⟩
  · intro exc _
    refine ⟨⟨?_, hloggable, fun _ => hloggable, fun _ hexhausted => by cases hexhausted⟩,
      fun _ hexhausted => by cases hexhausted⟩
    intro hook hsome
    obtain rfl := Option.some.inj hsome
    exact hloggable
  · intro next _
    refine ⟨?_, fun _ _ => trivial⟩
    intro exc hsuccess
    cases hsuccess

/-- `_on_task_failure` raises for a task with a linear backoff: the first failure ends the
runner. -/
theorem runner_not_lawful :
    ¬ ∀ (service : Service Nat) (spec : TaskSpec Nat) (rounds : List (Round Nat))
    (r : Runner Nat Nat),
      Runs.run (step service spec) rounds (start spec) = some r → Lawful spec r := by
  intro h
  have hlawful := h ⟨5, ⟨true⟩, ⟨true⟩⟩ ⟨false, ⟨some (.linear 1 30 0), none, none, none⟩⟩
    [⟨.failure 7, fun kind => kind = .onTaskFailure⟩] _ rfl
  exact hlawful.nothingElse rfl

end Runner

end Graveboards.Daemon.Retry
