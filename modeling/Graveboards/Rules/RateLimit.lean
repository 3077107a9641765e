import Graveboards.Library.Runs
import Graveboards.Rules.Reserve

/-!
Rate limits over whole runs. Any number of `reserve` and `rollback` calls, for
any users, queues and configurations, run side by side on one Redis, command
by command, while the clock moves on.

Proved here: as long as no INCR runs on a key whose count Redis has dropped,
the reservations held in one bucket never exceed `max_requests`. The key gets
its time to live when the count becomes one, counted from that moment and not
from the start of the bucket, so it covers the bucket only if the bucket is no
longer than `_period_duration_seconds` says: a month of 31 days and a leap
year are longer.
-/

namespace Graveboards.Rules

open Library Library.Redis

namespace RateLimit

variable (fingerprint : Json → String)

/-- Where a call stands, with the Redis key it works on. -/
inductive Stage where
  | fresh
  | failed (e : Raise)
  | counting (key : String)
  | expiring (key : String) (count : Int)
  | refusing (key : String)
  | asking
  | holding (key : String)
  | undoing (key : String)
  | undone (key : String)
  deriving DecidableEq

namespace Stage

/-- After the comparison with `max_requests`. -/
def decided (c : Reserving) (key : String) (count : Int) : Stage :=
  if intField c.config "max_requests" < count then .refusing key else .holding key

/-- After INCR. -/
def counted (c : Reserving) (key : String) (count : Int) : Stage :=
  if count = 1 then .expiring key count else decided c key count

/-- The rest of the call once the limit has been compared with. -/
def decidedScript (c : Reserving) (key : String) (count : Int) : Steps Outcome :=
  if intField c.config "max_requests" < count then
    .call (.decr key) (fun _ => do return .returned (.error (← limitError c)))
  else .done (.returned (.ok (some key)))

/-- The rest of the call once INCR has replied. -/
def countedScript (c : Reserving) (key : String) (count : Int) : Steps Outcome :=
  if count = 1 then
    .call (.expire key (periodDurationSeconds (periodOf c.config)))
      (fun _ => decidedScript c key count)
  else decidedScript c key count

/-- The rest of the call. -/
def script (c : Reserving) : Stage → Steps Outcome
  | .fresh => started (rateLimitReserve fingerprint) c
  | .failed e => .done (.returned (.error e))
  | .counting key => .call (.incr key) (countedScript c key)
  | .expiring key count =>
      .call (.expire key (periodDurationSeconds (periodOf c.config)))
        (fun _ => decidedScript c key count)
  | .refusing key => .call (.decr key) (fun _ => do return .returned (.error (← limitError c)))
  | .asking => do return .returned (.error (← limitError c))
  | .holding key => .done (.returned (.ok (some key)))
  | .undoing key => do rateLimitRollback key; return .rolledBack key
  | .undone key => .done (.rolledBack key)

theorem script_decided (c : Reserving) (key : String) (count : Int) :
    script fingerprint c (decided c key count) = decidedScript c key count := by
  unfold decided decidedScript
  split <;> rfl

theorem script_counted (c : Reserving) (key : String) (count : Int) :
    script fingerprint c (counted c key count) = countedScript c key count := by
  unfold counted countedScript
  split
  · rfl
  · exact script_decided fingerprint c key count

/-- After the clock has been read. -/
def keyed (c : Reserving) (clock : Nat) : Stage :=
  match truncateToPeriod clock (periodOf c.config) with
  | .error e => .failed e
  | .ok bucket => .counting (rateLimitKey fingerprint c bucket)

/-- The source's `reserve`, from its first command on. -/
theorem script_fresh (c : Reserving) :
    script fingerprint c .fresh =
      if applies c.config c.userId then
        .call .clock (fun clock => script fingerprint c (keyed fingerprint c clock))
      else .done (.returned (.ok none)) := by
  by_cases h : applies c.config c.userId = true
  · rw [if_pos h]
    change started (rateLimitReserve fingerprint) c = _
    unfold started rateLimitReserve
    rw [h]
    refine congrArg (Script.call Command.clock) (funext fun clock => ?_)
    dsimp only [Script.bind]
    unfold keyed
    cases truncateToPeriod clock (periodOf c.config) with
    | error e => rfl
    | ok bucket =>
        refine congrArg (Script.call (Command.incr _)) (funext fun count => ?_)
        dsimp only [Script.bind]
        unfold countedScript decidedScript
        split <;> split <;> rfl
  · rw [if_neg h]
    change started (rateLimitReserve fingerprint) c = _
    have hfalse : applies c.config c.userId = false := by simpa using h
    unfold started rateLimitReserve
    rw [hfalse]
    rfl

end Stage

open Stage

/-- One command of a call, with its reply. -/
inductive Move (c : Reserving) : Stage → (command : Command) → Reply command → Stage → Prop where
  | key (clock : Nat) : Move c .fresh .clock clock (keyed fingerprint c clock)
  | count (key : String) (n : Int) : Move c (.counting key) (.incr key) n (counted c key n)
  | expire (key : String) (n : Int) (seconds : Nat) :
      Move c (.expiring key n) (.expire key seconds) () (decided c key n)
  | refuse (key : String) (n : Int) : Move c (.refusing key) (.decr key) n .asking
  | ask (queueId : Nat) (name : Option String) (e : Raise) :
      Move c .asking (.getQueue queueId) name (.failed e)
  | undo (key : String) (n : Int) : Move c (.undoing key) (.decr key) n (.undone key)

/-- The scripts move from stage to stage. -/
theorem move_of_call {c : Reserving} {stage : Stage} {command : Command}
    {next : Reply command → Steps Outcome} (h : script fingerprint c stage = .call command next)
    (reply : Reply command) :
    ∃ stage', next reply = script fingerprint c stage' ∧
    Move fingerprint c stage command reply stage' := by
  cases stage with
  | fresh =>
      rw [script_fresh] at h
      split at h
      · cases h
        exact ⟨_, rfl, .key reply⟩
      · cases h
  | counting key =>
      cases h
      exact ⟨_, (script_counted fingerprint c key reply).symm, .count key reply⟩
  | expiring key n =>
      cases h
      exact ⟨_, (script_decided fingerprint c key n).symm, .expire key n _⟩
  | refusing key =>
      cases h
      exact ⟨.asking, rfl, .refuse key reply⟩
  | asking =>
      cases h
      exact ⟨.failed _, rfl, .ask _ reply _⟩
  | undoing key =>
      cases h
      exact ⟨.undone key, rfl, .undo key reply⟩
  | failed e | holding key | undone key => cases h

/-! Counting. -/

/-- The call has incremented the key and not decremented it since. -/
def counts (key : String) : Stage → Bool
  | .expiring k _ | .refusing k | .holding k | .undoing k => k = key
  | _ => false

/-- The call has, or will have, the token. -/
def grants (c : Reserving) (key : String) : Reserving × Stage → Bool
  | (c', .expiring k n) => c' = c && k = key && n ≤ intField c.config "max_requests"
  | (c', .holding k) => c' = c && k = key
  | _ => false

theorem counts_of_grants {c : Reserving} {key : String} {entry : Reserving × Stage}
    (h : grants c key entry = true) : counts key entry.2 = true := by
  obtain ⟨c', stage⟩ := entry
  cases stage <;> simp_all [grants, counts]

theorem holds_script (c : Reserving) (key : String) (c' : Reserving) (stage : Stage) :
    holds c key (c', script fingerprint c' stage) = (c' = c && stage = .holding key) := by
  cases stage with
  | fresh =>
      rw [script_fresh]
      split <;> simp [holds]
  | holding k => simp [holds, script]
  | failed _ | counting _ | expiring _ _ | refusing _ | asking | undoing _ | undone _ =>
      change (decide (c' = c) && false) = _
      simp

/-! The invariant. -/

/-- The calls of a world with the stage each has reached. -/
abbrev Stages := List (Reserving × Stage)

def outstanding (key : String) (stages : Stages) : Nat :=
  stages.countP (fun entry => counts key entry.2)

def granted (c : Reserving) (key : String) (stages : Stages) : Nat :=
  stages.countP (grants c key)

theorem granted_le_outstanding (c : Reserving) (key : String) (stages : Stages) :
    granted c key stages ≤ outstanding key stages :=
  List.countP_mono_left fun _ _ h => counts_of_grants h

/-- Every key whose count Redis has not dropped counts the calls that have
incremented it, and no configuration has granted more than it may. -/
structure Accounted (stages : Stages) (w : Calls) : Prop where
  scripts : w.scripts = stages.map (fun entry => (entry.1, script fingerprint entry.1 entry.2))
  counted : ∀ key, w.shared.lost key = false → w.shared.store.count key = outstanding key stages
  bounded : ∀ c key, 0 ≤ intField c.config "max_requests" →
    (granted c key stages : Int) ≤ intField c.config "max_requests"

/-- The grants after one call has moved. -/
theorem granted_set {stages : Stages} {i : Nat} {entry : Reserving × Stage}
    (hentry : stages[i]? = some entry) (c : Reserving) (key : String) (entry' : Reserving × Stage) :
    granted c key (stages.set i entry') + (grants c key entry).toNat =
      granted c key stages + (grants c key entry').toNat :=
  Runs.countP_set_add (grants c key) hentry entry'

/-- A call moves on, and the count of each key follows what it counts. -/
theorem Accounted.moved {stages : Stages} {w : Calls} (h : Accounted fingerprint stages w)
    {i : Nat} {c : Reserving} {stage stage' : Stage} (hentry : stages[i]? = some (c, stage))
    {shared : Shared} (hlost : shared.lost = w.shared.lost)
    (hcount : ∀ key, shared.store.count key + (counts key stage).toNat =
      w.shared.store.count key + (counts key stage').toNat)
    (hgrants : ∀ c' key, 0 ≤ intField c'.config "max_requests" →
      (granted c' key (stages.set i (c, stage')) : Int) ≤ intField c'.config "max_requests") :
    Accounted fingerprint (stages.set i (c, stage'))
      ⟨shared, w.scripts.set i (c, script fingerprint c stage')⟩ where
  scripts := by rw [h.scripts, List.map_set]
  counted := by
    intro key hkept
    have hset := Runs.countP_set_add (fun entry => counts key entry.2) hentry (c, stage')
    have hold := h.counted key (hlost ▸ hkept)
    have hchange := hcount key
    unfold outstanding at *
    dsimp only at hset ⊢
    omega
  bounded := hgrants

theorem counts_decided (c : Reserving) (key k : String) (n : Int) :
    counts k (decided c key n) = decide (key = k) := by
  unfold decided
  split <;> rfl

theorem counts_counted (c : Reserving) (key k : String) (n : Int) :
    counts k (counted c key n) = decide (key = k) := by
  unfold counted
  split
  · rfl
  · exact counts_decided c key k n

theorem counts_keyed (c : Reserving) (k : String) (clock : Nat) :
    counts k (keyed fingerprint c clock) = false := by
  unfold keyed
  split <;> rfl

theorem grants_keyed (c c' : Reserving) (k : String) (clock : Nat) :
    grants c' k (c, keyed fingerprint c clock) = false := by
  unfold keyed
  split <;> rfl

/-- Whether a counted call gets its token is decided by the count alone. -/
theorem grants_decided (c c' : Reserving) (key k : String) (n : Int) :
    grants c' k (c, decided c key n) =
      (c = c' && key = k && n ≤ intField c'.config "max_requests") := by
  unfold decided
  by_cases hc : c = c'
  · subst hc
    split
    · next hover => simp [grants, not_le.mpr hover]
    · next hunder => simp [grants, not_lt.mp hunder]
  · split <;> simp [grants, hc]

theorem grants_counted (c c' : Reserving) (key k : String) (n : Int) :
    grants c' k (c, counted c key n) =
      (c = c' && key = k && n ≤ intField c'.config "max_requests") := by
  unfold counted
  split
  · rfl
  · exact grants_decided c c' key k n

/-- One command of one call. -/
theorem Accounted.advance {stages : Stages} {w : Calls} (h : Accounted fingerprint stages w)
    {i : Nat} {c : Reserving} {stage stage' : Stage} {command : Command}
    (hentry : stages[i]? = some (c, stage))
    (hkept : ∀ key, command = .incr key → w.shared.lost key = false)
    (hmove : Move fingerprint c stage command (exec command w.shared).1 stage') :
    Accounted fingerprint (stages.set i (c, stage'))
      ⟨(exec command w.shared).2, w.scripts.set i (c, script fingerprint c stage')⟩ := by
  -- a move that grants nothing new keeps the bound
  have hbound (hle : ∀ c' key, grants c' key (c, stage') = true → grants c' key (c, stage) = true)
      (c' : Reserving) (key : String) (hmax : 0 ≤ intField c'.config "max_requests") :
      (granted c' key (stages.set i (c, stage')) : Int) ≤ intField c'.config "max_requests" := by
    have hset := granted_set hentry c' key (c, stage')
    have hold := h.bounded c' key hmax
    have hcases := hle c' key
    cases hnew : grants c' key (c, stage') <;> simp_all
    omega
  cases hmove with
  | key clock =>
      refine h.moved fingerprint hentry rfl (fun key => ?_) (hbound fun c' key hgrants => ?_)
      · rw [counts_keyed]
        rfl
      · rw [grants_keyed] at hgrants
        cases hgrants
  | count key n =>
      refine h.moved fingerprint hentry rfl (fun k => ?_) (fun c' k hmax => ?_)
      · rw [counts_counted]
        by_cases hk : k = key
        · subst hk
          simp [exec, counts]
        · simp [exec, counts, hk, Ne.symm hk]
      · -- the new count is the number of outstanding calls, this one included
        have hset := granted_set hentry c' k (c, Stage.counted c key (w.shared.store.count key + 1))
        have hold := h.bounded c' k hmax
        have hbefore : grants c' k (c, Stage.counting key) = false := rfl
        rw [grants_counted, hbefore, Bool.toNat_false, add_zero] at hset
        change (granted c' k
          (stages.set i (c, Stage.counted c key (w.shared.store.count key + 1))) :
          Int) ≤ _
        rw [hset]
        by_cases hgrants : c = c' ∧ key = k ∧
            w.shared.store.count key + 1 ≤ intField c'.config "max_requests"
        · obtain ⟨rfl, rfl, hle⟩ := hgrants
          have hcount := h.counted key (hkept key rfl)
          have hsub := granted_le_outstanding c key stages
          simp only [decide_true, hle, Bool.and_true, Bool.toNat_true]
          omega
        · have hfalse : (decide (c = c') && decide (key = k) &&
              decide (w.shared.store.count key + 1 ≤ intField c'.config "max_requests")) =
                false := by
            simpa [and_assoc] using hgrants
          rw [hfalse]
          exact hold
  | expire key n seconds =>
      refine h.moved fingerprint hentry rfl (fun k => ?_) (hbound fun c' k hgrants => ?_)
      · rw [counts_decided]
        simp [exec, counts]
      · rw [grants_decided] at hgrants
        exact hgrants
  | refuse key n =>
      refine h.moved fingerprint hentry rfl (fun k => ?_) (hbound fun c' k hgrants => ?_)
      · by_cases hk : k = key
        · subst hk
          simp [exec, counts]
        · simp [exec, counts, hk, Ne.symm hk]
      · cases hgrants
  | ask queueId name e =>
      refine h.moved fingerprint hentry rfl (fun k => rfl) (hbound fun c' k hgrants => ?_)
      cases hgrants
  | undo key n =>
      refine h.moved fingerprint hentry rfl (fun k => ?_) (hbound fun c' k hgrants => ?_)
      · by_cases hk : k = key
        · subst hk
          simp [exec, counts]
        · simp [exec, counts, hk, Ne.symm hk]
      · cases hgrants

/-- No INCR runs on a key whose count Redis has dropped. -/
def CountKept (label : Label) (w : Calls) : Prop :=
  ∀ i key, label = .advance i → w.pending i = some (.incr key) → w.shared.lost key = false

/-- The command can be executed without restarting a count. -/
def keepsCount (w : Calls) : Command → Bool
  | .incr key => !w.shared.lost key
  | _ => true

theorem countKept_advance_iff (i : Nat) (w : Calls) :
    CountKept (.advance i) w ↔ (w.pending i).all (keepsCount w) = true := by
  constructor
  · intro h
    cases hpending : w.pending i with
    | none => rfl
    | some command =>
        cases command with
        | incr key => simp [keepsCount, h i key rfl hpending]
        | _ => rfl
  · intro h j key hj hpending
    obtain rfl := Label.advance.inj hj
    rw [hpending] at h
    simpa [keepsCount] using h

instance : (label : Label) → (w : Calls) → Decidable (CountKept label w)
  | .advance i, w => decidable_of_iff _ (countKept_advance_iff i w).symm
  | .start _, _ | .rollback _, _ | .elapse _, _ => isTrue (fun _ _ h => by cases h)

/-- The call behind an entry of the world. -/
theorem Accounted.entry {stages : Stages} {w : Calls} (h : Accounted fingerprint stages w)
    {i : Nat} {owner : Reserving} {rest : Steps Outcome}
    (hentry : w.scripts[i]? = some (owner, rest)) :
    ∃ stage, stages[i]? = some (owner, stage) ∧ rest = script fingerprint owner stage := by
  rw [h.scripts, List.getElem?_map] at hentry
  obtain ⟨⟨c, stage⟩, hstage, heq⟩ := Option.map_eq_some_iff.mp hentry
  obtain ⟨rfl, rfl⟩ := Prod.mk.inj heq
  exact ⟨stage, hstage, rfl⟩

theorem step_accounted {stages : Stages} {w w' : Calls} {label : Label}
    (h : Accounted fingerprint stages w) (hkept : CountKept label w)
    (hstep : step (rateLimitReserve fingerprint) rateLimitRollback label w = some w') :
    ∃ stages', Accounted fingerprint stages' w' := by
  cases label with
  | start c =>
      obtain rfl := Option.some.inj hstep
      refine ⟨stages ++ [(c, .fresh)], ?_, ?_, ?_⟩
      · rw [World.spawn, h.scripts, List.map_append]
        rfl
      · intro key hlost
        rw [outstanding, List.countP_append]
        exact h.counted key hlost
      · intro c' key hmax
        rw [granted, List.countP_append]
        exact h.bounded c' key hmax
  | advance i =>
      obtain ⟨c, command, next, hentry, rfl⟩ := World.advance_eq_some hstep
      obtain ⟨stage, hstage, hscript⟩ := h.entry fingerprint hentry
      obtain ⟨stage', hnext, hmove⟩ := move_of_call fingerprint hscript.symm
        (exec command w.shared).1
      rw [hnext]
      exact ⟨_, h.advance fingerprint hstage
        (fun key hkey => hkept i key rfl (hkey ▸ World.pending_of_entry hentry)) hmove⟩
  | rollback i =>
      obtain ⟨c, outcome, rest, hentry, hundo, rfl⟩ := World.resume_eq_some hstep
      obtain ⟨stage, hstage, hscript⟩ := h.entry fingerprint hentry
      unfold undo at hundo
      split at hundo
      · next token =>
          obtain rfl := Option.some.inj hundo
          obtain rfl : stage = .holding token := by
            have hholds := holds_script fingerprint c token c stage
            rw [← hscript] at hholds
            simpa [holds] using hholds
          refine ⟨stages.set i (c, .undoing token),
            h.moved fingerprint hstage rfl (fun _ => rfl) fun c' key hmax => ?_⟩
          have hset := granted_set hstage c' key (c, Stage.undoing token)
          have hnone : grants c' key (c, Stage.undoing token) = false := rfl
          have hold := h.bounded c' key hmax
          rw [hnone] at hset
          simp only [Bool.toNat_false] at hset
          omega
      · cases hundo
  | elapse microseconds =>
      obtain rfl := Option.some.inj hstep
      refine ⟨stages, h.scripts, fun key hlost => ?_, h.bounded⟩
      obtain ⟨hbefore, hkept⟩ := Bool.or_eq_false_iff.mp hlost
      rw [← h.counted key hbefore]
      exact Store.count_drop _ _ key hkept

/-- The tokens held for one configuration and one key. -/
theorem Accounted.held_le_granted {stages : Stages} {w : Calls} (h : Accounted fingerprint stages w)
    (c : Reserving) (key : String) : w.scripts.countP (holds c key) ≤ granted c key stages := by
  rw [h.scripts, List.countP_map]
  refine List.countP_mono_left fun entry _ hholds => ?_
  obtain ⟨c', stage⟩ := entry
  have hstage := (holds_script fingerprint c key c' stage).symm.trans hholds
  simp only [Bool.and_eq_true, decide_eq_true_eq] at hstage
  obtain ⟨rfl, rfl⟩ := hstage
  simp [grants]

/-- In every run in which no INCR runs on a key whose count Redis has dropped,
the reservations a user holds in one bucket of a rule never exceed the rule's
`max_requests`, in every state reached. -/
theorem held_le_maxRequests {text : TextReaders} {raw config : Json}
    (haccepted : validateRuleConfig text "rate_limit" raw = .ok config)
    (fingerprint : Json → String) (clock : Nat) (queueNames : Nat → Option String)
    (labels : List Label) (w : Calls)
    (hrun : Runs.run (step (rateLimitReserve fingerprint) rateLimitRollback) labels
      (initially clock queueNames) = some w)
    (hkept : Runs.Meets (step (rateLimitReserve fingerprint) rateLimitRollback) CountKept labels
      (initially clock queueNames)) (queueId userId : Nat) (bucket : Int) :
    (w.scripts.countP (holds ⟨queueId, userId, config⟩
      (rateLimitKey fingerprint ⟨queueId, userId, config⟩ bucket)) : Int) ≤
      intField config "max_requests" := by
  have hinitial : ∃ stages, Accounted fingerprint stages (initially clock queueNames) :=
    ⟨[], rfl, fun _ _ => rfl, fun _ _ hmax => hmax⟩
  obtain ⟨stages, h⟩ := Runs.invariant_of_run
    (fun w => ∃ stages, Accounted fingerprint stages w)
    (fun label w w' ⟨_, h⟩ hkept hstep => step_accounted fingerprint h hkept hstep)
    hinitial hkept hrun
  have hheld := h.held_le_granted fingerprint ⟨queueId, userId, config⟩
    (rateLimitKey fingerprint ⟨queueId, userId, config⟩ bucket)
  have hgranted := h.bounded ⟨queueId, userId, config⟩
    (rateLimitKey fingerprint ⟨queueId, userId, config⟩ bucket)
    (le_trans (by decide) (intField_pos rfl (rateLimitConfig_stable text) (.head _) haccepted))
  dsimp only at hgranted
  omega

/-- One request a month. -/
def monthly : Json :=
  .dict [("max_requests", .int 1), ("period", .str "month"), ("scope", .str "user")]

def monthlyCall : Reserving := ⟨7, 42, monthly⟩

/-- 1 January 2024, 00:00:00. -/
def newYear : Nat := 1704067200000000

/-- A request on 1 January at midnight. -/
def firstRequest : List Label := [.start monthlyCall, .advance 0, .advance 0, .advance 0]

/-- A second one on 31 January, one second past midnight. -/
def secondRequest : List Label :=
  [.elapse (1000000 * (30 * 86400 + 1)), .start monthlyCall, .advance 1, .advance 1, .advance 1]

/-- Two requests a day. -/
def twoDaily : Json :=
  .dict [("max_requests", .int 2), ("period", .str "day"), ("scope", .str "user")]

def twoDailyCall : Reserving := ⟨7, 42, twoDaily⟩

def twoDailyKey : String := rateLimitKey (fun _ => "fingerprint") twoDailyCall 1704067200

/-- Two requests at midnight, whose INCRs come before the EXPIRE of the first;
a third one an hour later, which is refused; the first is rolled back, and a
fourth takes its place while a fifth is refused. -/
def contendedDay : List Label :=
  [.start twoDailyCall, .start twoDailyCall, .advance 0, .advance 1, .advance 0, .advance 1,
    .advance 0, .elapse 3600000000, .start twoDailyCall, .advance 2, .advance 2, .rollback 0,
    .advance 2, .advance 2, .advance 0, .elapse 3600000000, .start twoDailyCall,
    .start twoDailyCall, .advance 3, .advance 4, .advance 4, .advance 3, .advance 3, .advance 3]

/-- The day ends with two of the five requests holding their reservations. -/
theorem contendedDay_held :
    ∃ w, Runs.run (step (rateLimitReserve (fun _ => "fingerprint")) rateLimitRollback) contendedDay
        (initially newYear (fun _ => none)) = some w ∧
      w.scripts.map (holds twoDailyCall twoDailyKey) = [false, true, false, false, true] ∧
      w.shared.store.count twoDailyKey = 2 ∧
      (w.scripts.countP (holds twoDailyCall twoDailyKey) : Int) ≤ 2 := by
  have hrun : (Runs.run (step (rateLimitReserve (fun _ => "fingerprint")) rateLimitRollback)
      contendedDay (initially newYear (fun _ => none))).map (fun w =>
        (w.scripts.map (holds twoDailyCall twoDailyKey), w.shared.store.count twoDailyKey)) =
      some ([false, true, false, false, true], 2) := by decide +kernel
  obtain ⟨w, hw, hends⟩ := Option.map_eq_some_iff.mp hrun
  obtain ⟨hholds, hcount⟩ := Prod.mk.inj hends
  have haccepted : validateRuleConfig noText "rate_limit" twoDaily = .ok twoDaily := rfl
  have hkept : Runs.Meets (step (rateLimitReserve (fun _ => "fingerprint")) rateLimitRollback)
      CountKept contendedDay (initially newYear (fun _ => none)) := by decide +kernel
  exact ⟨w, hw, hholds, hcount,
    held_le_maxRequests haccepted _ _ _ contendedDay w hw hkept 7 42 1704067200⟩

/-- On the last day of a month of 31 days the key of the month is gone, and the
user holds two reservations where one is allowed. -/
theorem monthly_exceeded :
    validateRuleConfig noText "rate_limit" monthly = .ok monthly ∧
    intField monthly "max_requests" = 1 ∧
    truncateToPeriod newYear "month" = .ok 1704067200 ∧
    truncateToPeriod (newYear + 1000000 * (30 * 86400 + 1)) "month" = .ok 1704067200 ∧
    (Runs.run (step (rateLimitReserve (fun _ => "fingerprint")) rateLimitRollback)
      (firstRequest ++ secondRequest) (initially newYear (fun _ => none))).map (fun w =>
        w.scripts.countP (holds monthlyCall
          (rateLimitKey (fun _ => "fingerprint") monthlyCall 1704067200))) = some 2 := by
  refine ⟨rfl, rfl, ?_, ?_, ?_⟩
  · decide +kernel
  · decide +kernel
  · decide +kernel

end RateLimit

end Graveboards.Rules
