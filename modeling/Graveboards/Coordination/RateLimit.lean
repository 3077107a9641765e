import Graveboards.Library.Redis
import Graveboards.Library.Runs

/-!
The `rate_limit` decorator: any number of decorated calls, each before one of
its awaits. Times are exact, in microseconds; the clock of the calls is the one by
which Redis drops keys. The functions share the counters and keep a last call
each.
-/

namespace Graveboards.Coordination

open Library Library.Redis

/-- The parameters of the decorator; the interval is in microseconds. -/
structure RateLimit where
  limitPerWindow : Nat
  windowSize : Nat
  minInterval : Nat
  autoRetry : Bool

def second : Nat := 1000000

def windowStart (now : Nat) : Nat := now / (60 * second) * (60 * second)

namespace RateLimit

variable (limit : RateLimit)

def windowEnd (now : Nat) : Nat := windowStart now + limit.windowSize * second

/-- `int((window_end - now).total_seconds() + 1)` -/
def windowDeltaSeconds (now : Nat) : Int :=
  ((limit.windowEnd now : Int) - now + second).tdiv second

end RateLimit

/-- Where a call stands: before the `GET`, asleep after it, before the `SET`, the
`INCR` and the `EXPIRE`, asleep before it starts again, and at the end. -/
inductive LimitStage where
  | getting (now : Nat)
  | napping (wakeAt : Nat)
  | setting (now : Nat)
  | counting (now : Nat)
  | expiring (now : Nat)
  | blocked (wakeAt : Nat)
  | admitted (now : Nat)
  | limited
  | failed
  deriving DecidableEq

structure LimitedCall where
  name : String
  stage : LimitStage
  deriving DecidableEq

/-- `counted`: when the calls of a function that have counted themselves within
its limit were made; `stamps`: the calls of a function that have set its last
call, with what they have set it to. -/
structure Limiter where
  now : Nat
  counters : Store Int
  lastCalls : Store Nat
  calls : List LimitedCall
  counted : String → List Nat
  stamps : String → List (Nat × Nat)

/-- `fail`: the call raises at its await, or is cancelled. -/
inductive CallEvent where
  | get
  | wake
  | set
  | incr
  | expire
  | retry
  | fail
  deriving DecidableEq

inductive LimiterLabel where
  | elapse (duration : Nat)
  | enter (name : String)
  | call (i : Nat) (event : CallEvent)
  deriving DecidableEq

/-- `Namespace.RATE_LIMIT_LAST_CALL.hash_name` -/
def lastCallKey (name : String) : String := "rate_limit_last_call:" ++ name

/-- `Namespace.RATE_LIMIT_COUNTER.hash_name` -/
def counterKey (now : Nat) : String :=
  "rate_limit_counter:" ++ toString (windowStart now / second)

namespace RateLimit

variable (limit : RateLimit)

/-- The window counter gate follows, unless it is switched off. -/
def beforeCount (now : Nat) : LimitStage :=
  if 0 < limit.limitPerWindow then .counting now else .admitted now

/-- `sub_wrapper` up to its first await. -/
def start (now : Nat) : LimitStage :=
  if 0 < limit.minInterval then .getting now else limit.beforeCount now

/-- The min_interval gate, with the reply of `GET` at `clock`. -/
def afterGet (clock now : Nat) : Option Nat → LimitStage
  | none => .setting now
  | some last =>
      let elapsed : Int := now - last
      if elapsed < limit.minInterval then .napping (clock + (limit.minInterval - elapsed).toNat)
      else .setting now

/-- The window counter gate, with the count at `clock`. -/
def afterCount (clock now : Nat) (count : Int) : LimitStage :=
  if count > limit.limitPerWindow then
    if limit.autoRetry then .blocked (clock + (limit.windowDeltaSeconds now * second).toNat)
    else .limited
  else .admitted now

end RateLimit

def LimitStage.final : LimitStage → Bool
  | .admitted _ | .limited | .failed => true
  | _ => false

/-- Between the `GET` and the `SET`, with the earliest time the call may set. -/
def LimitStage.gated : LimitStage → Option Nat
  | .napping time | .setting time => some time
  | _ => none

/-- Past the `SET`, with the time the call has set. -/
def LimitStage.stamped : LimitStage → Option Nat
  | .counting time | .expiring time | .admitted time => some time
  | _ => none

namespace Limiter

variable (limits : String → RateLimit)

def setStage (i : Nat) (c : LimitedCall) (stage : LimitStage) (s : Limiter) : Limiter :=
  { s with calls := s.calls.set i { c with stage := stage } }

/-- The call of the index has set the last call of its function. -/
def stamp (i now : Nat) (name : String) (s : Limiter) : String → List (Nat × Nat) :=
  Function.update s.stamps name ((i, now) :: s.stamps name)

/-- A call of the function has counted itself. -/
def count (limit : RateLimit) (now : Nat) (current : Int) (name : String) (s : Limiter) :
    String → List Nat :=
  if current ≤ limit.limitPerWindow then
    Function.update s.counted name (now :: s.counted name)
  else s.counted

/-- One await of a call. -/
def advance (i : Nat) (c : LimitedCall) (limit : RateLimit) (s : Limiter) :
    CallEvent → LimitStage → Option Limiter
  | .get, .getting now =>
      let last := (s.lastCalls (lastCallKey c.name)).map Entry.value
      some (s.setStage i c (limit.afterGet s.now now last))
  | .wake, .napping wakeAt =>
      if wakeAt ≤ s.now then some (s.setStage i c (.setting s.now)) else none
  | .set, .setting now =>
      some { s.setStage i c (limit.beforeCount now) with
        lastCalls := s.lastCalls.set (lastCallKey c.name) now (s.now + limit.windowSize * second)
        stamps := s.stamp i now c.name }
  | .incr, .counting now =>
      let current := s.counters.count (counterKey now) + 1
      let stage := if current = 1 then .expiring now else limit.afterCount s.now now current
      some { s.setStage i c stage with
        counters := s.counters.incrBy (counterKey now) 1
        counted := s.count limit now current c.name }
  | .expire, .expiring now =>
      some { s.setStage i c (limit.afterCount s.now now 1) with
        counters := s.counters.expireIn s.now (counterKey now)
          (limit.windowDeltaSeconds now * second) }
  | .retry, .blocked wakeAt =>
      if wakeAt ≤ s.now then some (s.setStage i c (limit.start s.now)) else none
  | .fail, stage => if stage.final then none else some (s.setStage i c .failed)
  | _, _ => none

def step : LimiterLabel → Limiter → Option Limiter
  | .elapse duration, s =>
      some { s with
        now := s.now + duration
        counters := s.counters.drop (s.now + duration)
        lastCalls := s.lastCalls.drop (s.now + duration) }
  | .enter name, s =>
      some { s with calls := s.calls ++ [⟨name, (limits name).start s.now⟩] }
  | .call i event, s => do
      let c ← s.calls[i]?
      s.advance i c (limits c.name) event c.stage

/-- No call yet. -/
def initially (now : Nat) : Limiter where
  now := now
  counters := .empty
  lastCalls := .empty
  calls := []
  counted := fun _ => []
  stamps := fun _ => []

/-! The window limit. -/

/-- The instant lies in the window of the function that starts at `start`. -/
def inWindow (limit : RateLimit) (start now : Nat) : Bool :=
  start ≤ now && now < start + limit.windowSize * second

/-- Admitted in the window. -/
def admittedIn (name : String) (start : Nat) (c : LimitedCall) : Bool :=
  match c.stage with
  | .admitted now => c.name = name && inWindow (limits name) start now
  | _ => false

/-- Counted in the window and not turned away. -/
def passedIn (name : String) (start : Nat) (c : LimitedCall) : Bool :=
  match c.stage with
  | .admitted now | .expiring now => c.name = name && inWindow (limits name) start now
  | _ => false

/-- The calls of the function in the window from `start` that the counter of the
minute of `now` has let pass. -/
def countedIn (name : String) (start now : Nat) (s : Limiter) : Nat :=
  (s.counted name).countP
    (fun time => inWindow (limits name) start time && windowStart time = windowStart now)

/-- The call counts itself on a counter that Redis has dropped since it has let
calls of the function pass in a window around it. -/
def countLost (name : String) (label : LimiterLabel) (s : Limiter) : Bool :=
  match label with
  | .call i .incr =>
      match s.calls[i]? with
      | some ⟨caller, .counting now⟩ =>
          caller = name && (now :: s.counted name).any (fun start =>
            inWindow (limits name) start now &&
              s.counters.count (counterKey now) < countedIn limits name start now s)
      | _ => false
  | _ => false

def CountKept (name : String) (label : LimiterLabel) (s : Limiter) : Prop :=
  countLost limits name label s = false

instance (name : String) (label : LimiterLabel) (s : Limiter) :
    Decidable (CountKept limits name label s) :=
  inferInstanceAs (Decidable (countLost limits name label s = false))

/-- Those who have passed have counted themselves, and no more have passed than the limit. -/
def Bounded (name : String) (start : Nat) (s : Limiter) : Prop :=
  s.calls.countP (passedIn limits name start) ≤
      (s.counted name).countP (inWindow (limits name) start) ∧
    s.calls.countP (passedIn limits name start) ≤ (limits name).limitPerWindow

variable {limits} {name : String} {s s' : Limiter} {label : LimiterLabel}

/-- What lies in a window that ends with its minute is counted under one key. -/
theorem windowStart_eq {start now : Nat}
    (hwithin : start % (60 * second) + (limits name).windowSize * second ≤ 60 * second)
    (hin : inWindow (limits name) start now = true) : windowStart now = windowStart start := by
  obtain ⟨hfrom, hto⟩ : start ≤ now ∧ now < start + (limits name).windowSize * second := by
    simpa [inWindow] using hin
  have hparts : 60 * second * (start / (60 * second)) + start % (60 * second) = start :=
    Nat.div_add_mod start (60 * second)
  have hminute : now / (60 * second) = start / (60 * second) := by
    apply Nat.div_eq_of_lt_le
    · rw [Nat.mul_comm]
      omega
    · rw [Nat.succ_mul, Nat.mul_comm]
      omega
  rw [windowStart, hminute, windowStart]

/-- A counter that still has the calls of every window around the new one has
those of this one: the earliest of them starts such a window. -/
theorem counted_le_count {i start now : Nat} {c : LimitedCall} (hget : s.calls[i]? = some c)
    (hname : c.name = name) (hstage : c.stage = .counting now)
    (hwithin : start % (60 * second) + (limits name).windowSize * second ≤ 60 * second)
    (hin : inWindow (limits name) start now = true)
    (hkept : CountKept limits name (.call i .incr) s) :
    ((s.counted name).countP (inWindow (limits name) start) : Int) ≤
      s.counters.count (counterKey now) := by
  obtain ⟨caller, stage⟩ := c
  obtain rfl : caller = name := hname
  obtain rfl : stage = .counting now := hstage
  unfold CountKept countLost at hkept
  simp only [hget, decide_true, Bool.true_and, List.any_eq_false, Bool.and_eq_true,
    decide_eq_true_eq, not_and, Int.not_lt] at hkept
  set times := now :: (s.counted caller).filter (inWindow (limits caller) start) with htimes
  obtain ⟨earliest, hearliest⟩ : ∃ earliest, times.min? = some earliest := by
    cases h : times.min? with
    | none => simp [htimes] at h
    | some earliest => exact ⟨earliest, rfl⟩
  obtain ⟨hmem, hleast⟩ := List.min?_eq_some_iff.mp hearliest
  have hbounds : ∀ time ∈ times, start ≤ time ∧
      time < start + (limits caller).windowSize * second := by
    intro time htime
    have htime : inWindow (limits caller) start time = true := by
      rcases List.mem_cons.mp htime with rfl | hold
      · exact hin
      · exact (List.mem_filter.mp hold).2
    simpa [inWindow] using htime
  have hfirst := hbounds earliest hmem
  have hnow : inWindow (limits caller) earliest now = true := by
    have hlow := hleast now List.mem_cons_self
    have hhigh := (hbounds now List.mem_cons_self).2
    simp only [inWindow, Bool.and_eq_true, decide_eq_true_eq]
    omega
  have hcandidate : earliest ∈ now :: s.counted caller := by
    rcases List.mem_cons.mp hmem with rfl | hold
    · exact List.mem_cons_self
    · exact List.mem_cons_of_mem _ (List.mem_filter.mp hold).1
  refine le_trans (Int.ofNat_le.mpr ?_) (hkept earliest hcandidate hnow)
  refine List.countP_mono_left (fun time htime hinside => ?_)
  have hmember : time ∈ times := List.mem_cons_of_mem _ (List.mem_filter.mpr ⟨htime, hinside⟩)
  have hlow := hleast time hmember
  have hhigh := (hbounds time hmember).2
  have hminute : windowStart time = windowStart now :=
    (windowStart_eq hwithin hinside).trans (windowStart_eq hwithin hin).symm
  simp only [inWindow, hminute, Bool.and_eq_true, decide_eq_true_eq, and_true]
  omega

theorem not_passed_of_ne {start : Nat} {c : LimitedCall} (hne : c.name ≠ name) :
    passedIn limits name start c = false := by
  unfold passedIn
  split <;> simp [hne]

/-- A call has not passed before it counts itself. -/
theorem not_passed_beforeCount {start now : Nat} {caller : String}
    (hlimit : 0 < (limits name).limitPerWindow) :
    passedIn limits name start ⟨caller, (limits caller).beforeCount now⟩ = false := by
  by_cases hname : caller = name
  · subst hname
    rw [RateLimit.beforeCount, if_pos hlimit]
    rfl
  · exact not_passed_of_ne hname

theorem not_passed_start {start now : Nat} {caller : String}
    (hlimit : 0 < (limits name).limitPerWindow) :
    passedIn limits name start ⟨caller, (limits caller).start now⟩ = false := by
  unfold RateLimit.start
  split
  · rfl
  · exact not_passed_beforeCount hlimit

/-- A call that moves without passing. -/
theorem Bounded.move {i start : Nat} {c : LimitedCall} {stage : LimitStage}
    (hs : Bounded limits name start s) (hget : s.calls[i]? = some c)
    (hpassed : passedIn limits name start { c with stage := stage } = true →
      passedIn limits name start c = true) :
    (s.calls.set i { c with stage := stage }).countP (passedIn limits name start) ≤
        (s.counted name).countP (inWindow (limits name) start) ∧
      (s.calls.set i { c with stage := stage }).countP (passedIn limits name start) ≤
        (limits name).limitPerWindow := by
  have hle := Runs.countP_set_le hget hpassed
  exact ⟨hle.trans hs.1, hle.trans hs.2⟩

theorem passed_afterCount {start clock now : Nat} {count : Int} {c : LimitedCall}
    (hpassed : passedIn limits name start
      { c with stage := (limits c.name).afterCount clock now count } = true) :
    c.name = name ∧ inWindow (limits name) start now = true ∧
      count ≤ (limits name).limitPerWindow := by
  unfold RateLimit.afterCount at hpassed
  split at hpassed
  · split at hpassed <;> cases hpassed
  · next hcount =>
      obtain ⟨rfl, hin⟩ : c.name = name ∧ inWindow (limits name) start now = true := by
        simpa [passedIn] using hpassed
      exact ⟨rfl, hin, by omega⟩

theorem not_passed_afterGet {start clock now : Nat} {last : Option Nat} {c : LimitedCall}
    (limit : RateLimit) :
    passedIn limits name start { c with stage := limit.afterGet clock now last } = false := by
  unfold RateLimit.afterGet
  split
  · rfl
  · dsimp only
    split <;> rfl

theorem le_count (limit : RateLimit) (now start : Nat) (current : Int) (caller : String) :
    (s.counted name).countP (inWindow (limits name) start) ≤
      (s.count limit now current caller name).countP (inWindow (limits name) start) := by
  unfold count
  split
  · by_cases hname : name = caller
    · subst hname
      rw [Function.update_self, List.countP_cons]
      exact Nat.le_add_right _ _
    · rw [Function.update_of_ne hname]
  · exact Nat.le_refl _

/-- A call that counts itself passes only while its count is within the limit. -/
theorem passed_counted {start clock now : Nat} {count : Int} {c : LimitedCall}
    (hlimit : 0 < (limits name).limitPerWindow)
    (hpassed : passedIn limits name start { c with
      stage := if count = 1 then .expiring now else (limits c.name).afterCount clock now count } =
          true) :
    c.name = name ∧ inWindow (limits name) start now = true ∧
      count ≤ (limits name).limitPerWindow := by
  split at hpassed
  · next hone =>
      obtain ⟨rfl, hin⟩ : c.name = name ∧ inWindow (limits name) start now = true := by
        simpa [passedIn] using hpassed
      exact ⟨rfl, hin, by omega⟩
  · exact passed_afterCount hpassed

theorem Bounded.incr {start i now : Nat} {c : LimitedCall}
    (hlimit : 0 < (limits name).limitPerWindow)
    (hwithin : start % (60 * second) + (limits name).windowSize * second ≤ 60 * second)
    (hs : Bounded limits name start s)
    (hget : s.calls[i]? = some c) (hstage : c.stage = .counting now)
    (hkept : CountKept limits name (.call i .incr) s)
    (hstep : s.advance i c (limits c.name) .incr (.counting now) = some s') :
    Bounded limits name start s' := by
  obtain rfl := Option.some.inj hstep
  have hcount : (s.counted name).countP (inWindow (limits name) start) ≤ _ :=
    le_count (limits c.name) now start (s.counters.count (counterKey now) + 1) c.name
  have hnot : passedIn limits name start c = false := by
    simp [passedIn, hstage]
  set stage := if s.counters.count (counterKey now) + 1 = 1 then LimitStage.expiring now
    else (limits c.name).afterCount s.now now (s.counters.count (counterKey now) + 1) with hdef
  cases hpassed : passedIn limits name start { c with stage := stage } with
  | false =>
      have hmoves : passedIn limits name start { c with stage := stage } = true →
          passedIn limits name start c = true := by
        simp [hpassed]
      obtain ⟨hle, hle'⟩ := hs.move hget hmoves
      exact ⟨hle.trans hcount, hle'⟩
  | true =>
      rw [hdef] at hpassed
      obtain ⟨hname, hin, hle⟩ := passed_counted hlimit hpassed
      have hpresent := counted_le_count hget hname hstage hwithin hin hkept
      have hcounted : (s.count (limits c.name) now (s.counters.count (counterKey now) + 1) c.name
          name).countP (inWindow (limits name) start) =
          (s.counted name).countP (inWindow (limits name) start) + 1 := by
        rw [count, hname, if_pos hle, Function.update_self, List.countP_cons_of_pos hin]
      have hone := Runs.countP_set_add (passedIn limits name start) hget { c with stage := stage }
      rw [← hdef] at hpassed
      rw [hpassed, hnot, Bool.toNat_true, Bool.toNat_false] at hone
      have hpast := hs.1
      refine ⟨?_, ?_⟩
      · change List.countP _ (s.calls.set i { c with stage := stage }) ≤
          (s.count (limits c.name) now (s.counters.count (counterKey now) + 1) c.name name).countP
            (inWindow (limits name) start)
        rw [hcounted]
        omega
      · change List.countP _ (s.calls.set i { c with stage := stage }) ≤ _
        omega

theorem Bounded.step {start : Nat} (hlimit : 0 < (limits name).limitPerWindow)
    (hwithin : start % (60 * second) + (limits name).windowSize * second ≤ 60 * second)
    (hs : Bounded limits name start s)
    (hkept : CountKept limits name label s) (hstep : Limiter.step limits label s = some s') :
    Bounded limits name start s' := by
  cases label with
  | elapse duration => exact Option.some.inj hstep ▸ hs
  | enter caller =>
      obtain rfl := Option.some.inj hstep
      simpa [Bounded, List.countP_append, not_passed_start hlimit] using hs
  | call i event =>
      obtain ⟨c, hget, hstep⟩ := Option.bind_eq_some_iff.mp hstep
      generalize hstage : c.stage = stage at hstep
      cases event with
      | incr =>
          cases stage with
          | counting now => exact hs.incr hlimit hwithin hget hstage hkept hstep
          | _ => cases hstep
      | get =>
          cases stage with
          | getting now =>
              obtain rfl := Option.some.inj hstep
              exact hs.move hget (by simp [not_passed_afterGet])
          | _ => cases hstep
      | wake =>
          cases stage with
          | napping wakeAt =>
              obtain ⟨-, hstep⟩ := Option.ite_none_right_eq_some.mp hstep
              obtain rfl := Option.some.inj hstep
              exact hs.move hget nofun
          | _ => cases hstep
      | set =>
          cases stage with
          | setting now =>
              obtain rfl := Option.some.inj hstep
              exact hs.move hget (by simp [not_passed_beforeCount hlimit])
          | _ => cases hstep
      | expire =>
          cases stage with
          | expiring now =>
              obtain rfl := Option.some.inj hstep
              refine hs.move hget fun hpassed => ?_
              obtain ⟨hname, hin, -⟩ := passed_afterCount hpassed
              simp [passedIn, hstage, hname, hin]
          | _ => cases hstep
      | retry =>
          cases stage with
          | blocked wakeAt =>
              obtain ⟨-, hstep⟩ := Option.ite_none_right_eq_some.mp hstep
              obtain rfl := Option.some.inj hstep
              exact hs.move hget (by simp [not_passed_start hlimit])
          | _ => cases hstep
      | fail =>
          obtain ⟨-, hstep⟩ := Option.ite_none_left_eq_some.mp hstep
          obtain rfl := Option.some.inj hstep
          exact hs.move hget nofun

theorem admitted_le_passed (start : Nat) (calls : List LimitedCall) :
    calls.countP (admittedIn limits name start) ≤ calls.countP (passedIn limits name start) := by
  apply List.countP_mono_left
  intro c _ hadmitted
  unfold admittedIn at hadmitted
  unfold passedIn
  split at hadmitted
  · next now hstage =>
      rw [hstage]
      exact hadmitted
  · cases hadmitted

/-! The minimum interval. -/

variable (limits)

/-- The call is between the `GET` and the `SET` of the function. -/
def gatedIn (name : String) (c : LimitedCall) : Bool := c.name = name && c.stage.gated.isSome

/-- The call reads the last call of the function while another one is between its
`GET` and its `SET`, or finds nothing although the last call is too recent. -/
def lastMissed (name : String) (label : LimiterLabel) (s : Limiter) : Bool :=
  match label with
  | .call i .get =>
      match s.calls[i]? with
      | some ⟨caller, .getting now⟩ =>
          caller = name &&
            (s.calls.any (gatedIn name) ||
              !s.lastCalls.present (lastCallKey name) &&
                (s.stamps name).any (fun stamp => now < stamp.2 + (limits name).minInterval))
      | _ => false
  | _ => false

def LastSeen (name : String) (label : LimiterLabel) (s : Limiter) : Prop :=
  lastMissed limits name label s = false

instance (name : String) (label : LimiterLabel) (s : Limiter) :
    Decidable (LastSeen limits name label s) :=
  inferInstanceAs (Decidable (lastMissed limits name label s = false))

/-- `stamps` has the newest first. -/
structure Apart (name : String) (s : Limiter) : Prop where
  pairwise : (s.stamps name).Pairwise (fun x y => y.2 + (limits name).minInterval ≤ x.2)
  one : s.calls.countP (gatedIn name) ≤ 1
  gated : ∀ c ∈ s.calls, c.name = name → ∀ time ∈ c.stage.gated, ∀ x ∈ s.stamps name,
    x.2 + (limits name).minInterval ≤ time
  stamped : ∀ (i : Nat) (c : LimitedCall), s.calls[i]? = some c → c.name = name →
    ∀ time ∈ c.stage.stamped, (i, time) ∈ s.stamps name
  past : ∀ c ∈ s.calls, ∀ now, c.stage = .getting now → now ≤ s.now
  last : ∀ time, (s.lastCalls (lastCallKey name)).map Entry.value = some time →
    (s.stamps name).head?.map Prod.snd = some time

variable {limits}

/-- A call that moves without setting a last call. -/
theorem Apart.move {i : Nat} {c : LimitedCall} {stage : LimitStage} (hs : Apart limits name s)
    (hget : s.calls[i]? = some c)
    (hgated : c.name = name → ∀ time ∈ stage.gated,
      (c.stage.gated.isSome = true ∨ s.calls.countP (gatedIn name) = 0) ∧
        ∀ x ∈ s.stamps name, x.2 + (limits name).minInterval ≤ time)
    (hstamped : c.name = name → ∀ time ∈ stage.stamped, time ∈ c.stage.stamped)
    (hpast : ∀ now, stage = .getting now → now ≤ s.now)
    (hnow : s'.now = s.now) (hcalls : s'.calls = s.calls.set i { c with stage := stage })
    (hstamps : s'.stamps name = s.stamps name)
    (hlast : s'.lastCalls (lastCallKey name) = s.lastCalls (lastCallKey name)) :
    Apart limits name s' := by
  constructor
  · rw [hstamps]
    exact hs.pairwise
  · rw [hcalls]
    have hcount := Runs.countP_set_add (gatedIn name) hget { c with stage := stage }
    have hone := hs.one
    cases hnew : gatedIn name { c with stage := stage } with
    | false =>
        rw [hnew, Bool.toNat_false] at hcount
        omega
    | true =>
        rw [hnew, Bool.toNat_true] at hcount
        obtain ⟨hname, hsome⟩ : c.name = name ∧ stage.gated.isSome = true := by
          simpa [gatedIn] using hnew
        obtain ⟨time, htime⟩ := Option.isSome_iff_exists.mp hsome
        rcases (hgated hname time htime).1 with hold | hnone
        · have hbefore : gatedIn name c = true := by simp [gatedIn, hname, hold]
          rw [hbefore, Bool.toNat_true] at hcount
          omega
        · omega
  · rw [hcalls, hstamps]
    refine Runs.forall_mem_set hs.gated ?_
    intro hname time htime
    exact (hgated hname time htime).2
  · rw [hcalls, hstamps]
    intro j d hj hname time htime
    rcases Runs.getElem?_set_cases hj with ⟨rfl, rfl⟩ | ⟨-, hold⟩
    · exact hs.stamped j c hget hname time (hstamped hname time htime)
    · exact hs.stamped j d hold hname time htime
  · rw [hcalls, hnow]
    exact Runs.forall_mem_set hs.past hpast
  · rw [hlast, hstamps]
    exact hs.last

theorem lastCallKey_inj {a b : String} (h : lastCallKey a = lastCallKey b) : a = b :=
  (String.append_right_inj _).mp h

/-- A call of the function that sets its last call: no other one is about to. -/
theorem Apart.set {i now : Nat} {c : LimitedCall} {stage : LimitStage} (hs : Apart limits name s)
    (hget : s.calls[i]? = some c) (hname : c.name = name) (hstage : c.stage = .setting now)
    (hgated : stage.gated = none) (hstamped : ∀ time ∈ stage.stamped, time = now)
    (hpast : ∀ now, stage ≠ .getting now)
    (hnow : s'.now = s.now) (hcalls : s'.calls = s.calls.set i { c with stage := stage })
    (hstamps : s'.stamps name = (i, now) :: s.stamps name)
    (hlast : (s'.lastCalls (lastCallKey name)).map Entry.value = some now) :
    Apart limits name s' := by
  have hbefore : gatedIn name c = true := by simp [gatedIn, hname, hstage, LimitStage.gated]
  have hafter : gatedIn name { c with stage := stage } = false := by simp [gatedIn, hgated]
  have hlate : ∀ x ∈ s.stamps name, x.2 + (limits name).minInterval ≤ now :=
    hs.gated c (List.mem_of_getElem? hget) hname now (by simp [hstage, LimitStage.gated])
  have hnone := Runs.uncounted_of_set hget hs.one hbefore hafter
  constructor
  · rw [hstamps]
    exact List.pairwise_cons.mpr ⟨hlate, hs.pairwise⟩
  · rw [hcalls, List.countP_eq_zero.mpr (by simpa using hnone)]
    omega
  · rw [hcalls]
    intro d hd hdname time htime
    have hdgated := hnone d hd
    rw [Option.mem_def] at htime
    simp [gatedIn, hdname, htime] at hdgated
  · rw [hcalls, hstamps]
    intro j d hj hdname time htime
    rcases Runs.getElem?_set_cases hj with ⟨rfl, rfl⟩ | ⟨-, hold⟩
    · obtain rfl := hstamped time htime
      exact List.mem_cons_self
    · exact List.mem_cons_of_mem _ (hs.stamped j d hold hdname time htime)
  · rw [hcalls, hnow]
    exact Runs.forall_mem_set hs.past (fun time hget => absurd hget (hpast time))
  · rw [hlast, hstamps]
    intro time htime
    exact htime

/-- The reply of `GET` puts the call behind every last call of the function. -/
theorem Apart.afterGet {i now : Nat} {c : LimitedCall} (hs : Apart limits name s)
    (hget : s.calls[i]? = some c) (hname : c.name = name) (hstage : c.stage = .getting now)
    (hseen : LastSeen limits name (.call i .get) s) :
    ∀ time ∈ ((limits name).afterGet s.now now
        ((s.lastCalls (lastCallKey name)).map Entry.value)).gated,
      s.calls.countP (gatedIn name) = 0 ∧
        ∀ x ∈ s.stamps name, x.2 + (limits name).minInterval ≤ time := by
  obtain ⟨caller, stage⟩ := c
  obtain rfl : caller = name := hname
  obtain rfl : stage = .getting now := hstage
  unfold LastSeen lastMissed at hseen
  simp only [hget, decide_true, Bool.true_and, Bool.or_eq_false_iff] at hseen
  obtain ⟨hnone, hmissed⟩ := hseen
  have hpast : now ≤ s.now := hs.past _ (List.mem_of_getElem? hget) now rfl
  intro time htime
  refine ⟨List.countP_eq_zero.mpr (by simpa using hnone), ?_⟩
  cases hlast : (s.lastCalls (lastCallKey caller)).map Entry.value with
  | none =>
      rw [hlast] at htime
      obtain rfl : now = time := Option.some.inj htime
      have habsent : s.lastCalls.present (lastCallKey caller) = false := by
        simpa [Store.present] using hlast
      intro x hx
      have hx' : (s.stamps caller).any (fun stamp =>
          now < stamp.2 + (limits caller).minInterval) = false := by simpa [habsent] using hmissed
      have := List.any_eq_false.mp hx' x hx
      simpa using this
  | some last =>
      have hhead := hs.last last hlast
      -- The newest entry is the one that is read.
      have hnewest : ∀ x ∈ s.stamps caller, x.2 ≤ last := by
        have hpairwise := hs.pairwise
        cases hstamps : s.stamps caller with
        | nil => simp
        | cons newest rest =>
            rw [hstamps] at hhead hpairwise
            obtain rfl : newest.2 = last := Option.some.inj hhead
            intro x hx
            rcases List.mem_cons.mp hx with rfl | hx
            · exact Nat.le_refl _
            · exact (Nat.le_add_right _ _).trans (List.rel_of_pairwise_cons hpairwise hx)
      rw [hlast] at htime
      unfold RateLimit.afterGet at htime
      intro x hx
      have hx := hnewest x hx
      dsimp only at htime
      split at htime
      · obtain rfl := Option.some.inj htime
        omega
      · obtain rfl := Option.some.inj htime
        omega

/-- A call of the function starts in front of the gate. -/
theorem start_gate (now : Nat) (caller : String) (hinterval : 0 < (limits name).minInterval) :
    ((limits caller).start now).gated = none ∧
      (caller = name → ((limits caller).start now).stamped = none) ∧
      ∀ time, (limits caller).start now = .getting time → time = now := by
  unfold RateLimit.start RateLimit.beforeCount
  refine ⟨?_, ?_, ?_⟩
  · split
    · rfl
    · split <;> rfl
  · rintro rfl
    rw [if_pos hinterval]
    rfl
  · intro time
    split
    · intro h
      exact (LimitStage.getting.inj h).symm
    · split <;> nofun

theorem beforeCount_stamped (limit : RateLimit) (now : Nat) :
    (limit.beforeCount now).gated = none ∧ (limit.beforeCount now).stamped = some now ∧
      ∀ time, limit.beforeCount now ≠ .getting time := by
  unfold RateLimit.beforeCount
  split <;> exact ⟨rfl, rfl, nofun⟩

theorem afterCount_stamped (limit : RateLimit) (clock now : Nat) (count : Int) :
    (limit.afterCount clock now count).gated = none ∧
      (∀ time ∈ (limit.afterCount clock now count).stamped, time = now) ∧
      ∀ time, limit.afterCount clock now count ≠ .getting time := by
  unfold RateLimit.afterCount
  split
  · split <;> exact ⟨rfl, nofun, nofun⟩
  · exact ⟨rfl, fun time h => (Option.some.inj h).symm, nofun⟩

theorem afterGet_stamped (limit : RateLimit) (clock now : Nat) (last : Option Nat) :
    (limit.afterGet clock now last).stamped = none ∧
      ∀ time, limit.afterGet clock now last ≠ .getting time := by
  unfold RateLimit.afterGet
  split
  · exact ⟨rfl, nofun⟩
  · dsimp only
    split <;> exact ⟨rfl, nofun⟩

theorem Apart.step (hinterval : 0 < (limits name).minInterval) (hs : Apart limits name s)
    (hseen : LastSeen limits name label s) (hstep : Limiter.step limits label s = some s') :
    Apart limits name s' := by
  cases label with
  | elapse duration =>
      obtain rfl := Option.some.inj hstep
      refine ⟨hs.pairwise, hs.one, hs.gated, hs.stamped, ?_, ?_⟩
      · intro c hc now hstage
        exact (hs.past c hc now hstage).trans (Nat.le_add_right _ _)
      · intro time htime
        obtain ⟨entry, hentry, hvalue⟩ := Option.map_eq_some_iff.mp htime
        apply hs.last
        rw [Store.entry_of_drop hentry, Option.map_some, hvalue]
  | enter caller =>
      obtain rfl := Option.some.inj hstep
      obtain ⟨hgated, hstamped, hpast⟩ := start_gate s.now caller hinterval
      refine ⟨hs.pairwise, ?_, ?_, ?_, ?_, hs.last⟩
      · have hnot : gatedIn name ⟨caller, (limits caller).start s.now⟩ = false := by
          simp [gatedIn, hgated]
        simpa [List.countP_append, hnot] using hs.one
      · intro c hc hname time htime
        rcases List.mem_append.mp hc with hold | hnew
        · exact hs.gated c hold hname time htime
        · obtain rfl := List.mem_singleton.mp hnew
          rw [hgated] at htime
          cases htime
      · intro i c hi hname time htime
        rcases Runs.getElem?_concat_cases hi with ⟨-, rfl⟩ | hold
        · rw [hstamped hname] at htime
          cases htime
        · exact hs.stamped i c hold hname time htime
      · intro c hc now hstage
        rcases List.mem_append.mp hc with hold | hnew
        · exact hs.past c hold now hstage
        · obtain rfl := List.mem_singleton.mp hnew
          exact (hpast now hstage).le
  | call i event =>
      obtain ⟨c, hget, hstep⟩ := Option.bind_eq_some_iff.mp hstep
      generalize hstage : c.stage = stage at hstep
      cases event with
      | get =>
          cases stage with
          | getting now =>
              obtain rfl := Option.some.inj hstep
              obtain ⟨hstamped, hgetting⟩ := afterGet_stamped (limits c.name) s.now now
                ((s.lastCalls (lastCallKey c.name)).map Entry.value)
              refine hs.move hget ?_ ?_ ?_ rfl rfl rfl rfl
              · rintro rfl time htime
                obtain ⟨hnone, hlate⟩ := hs.afterGet hget rfl hstage hseen time htime
                exact ⟨Or.inr hnone, hlate⟩
              · intro _ time htime
                rw [hstamped] at htime
                cases htime
              · intro now' hnow'
                exact absurd hnow' (hgetting now')
          | _ => cases hstep
      | wake =>
          cases stage with
          | napping wakeAt =>
              obtain ⟨hwake, hstep⟩ := Option.ite_none_right_eq_some.mp hstep
              obtain rfl := Option.some.inj hstep
              refine hs.move hget ?_ (fun _ _ h => by cases h) (fun _ h => by cases h)
                rfl rfl rfl rfl
              intro hname time htime
              obtain rfl := Option.some.inj htime
              refine ⟨Or.inl (by simp [hstage, LimitStage.gated]), fun x hx => ?_⟩
              have hlate := hs.gated c (List.mem_of_getElem? hget) hname wakeAt
                (by simp [hstage, LimitStage.gated]) x hx
              exact hlate.trans hwake
          | _ => cases hstep
      | set =>
          cases stage with
          | setting now =>
              obtain rfl := Option.some.inj hstep
              obtain ⟨hgated, hstamped, hgetting⟩ := beforeCount_stamped (limits c.name) now
              by_cases hname : c.name = name
              · refine hs.set hget hname hstage hgated ?_ hgetting rfl rfl ?_ ?_
                · rw [hstamped]
                  exact fun time htime => (Option.some.inj htime).symm
                · simp [stamp, hname]
                · simp [Store.set, hname]
              · have hkey : lastCallKey name ≠ lastCallKey c.name :=
                  fun heq => hname (lastCallKey_inj heq).symm
                refine hs.move hget (fun h => absurd h hname) (fun h => absurd h hname)
                  (fun now' hnow' => absurd hnow' (hgetting now')) rfl rfl ?_ ?_
                · exact Function.update_of_ne (Ne.symm hname) _ _
                · exact Function.update_of_ne hkey _ _
          | _ => cases hstep
      | incr =>
          cases stage with
          | counting now =>
              obtain rfl := Option.some.inj hstep
              obtain ⟨hgated, hstamped, hgetting⟩ := afterCount_stamped (limits c.name) s.now now
                (s.counters.count (counterKey now) + 1)
              refine hs.move hget ?_ ?_ ?_ rfl rfl rfl rfl
              · intro _ time htime
                split at htime
                · cases htime
                · rw [hgated] at htime
                  cases htime
              · intro _ time htime
                rw [hstage]
                split at htime
                · exact htime
                · exact (hstamped time htime) ▸ rfl
              · intro now' hnow'
                split at hnow'
                · cases hnow'
                · exact absurd hnow' (hgetting now')
          | _ => cases hstep
      | expire =>
          cases stage with
          | expiring now =>
              obtain rfl := Option.some.inj hstep
              obtain ⟨hgated, hstamped, hgetting⟩ := afterCount_stamped (limits c.name) s.now now 1
              refine hs.move hget ?_ ?_ (fun now' hnow' => absurd hnow' (hgetting now'))
                rfl rfl rfl rfl
              · intro _ time htime
                rw [hgated] at htime
                cases htime
              · intro _ time htime
                rw [hstage]
                exact (hstamped time htime) ▸ rfl
          | _ => cases hstep
      | retry =>
          cases stage with
          | blocked wakeAt =>
              obtain ⟨-, hstep⟩ := Option.ite_none_right_eq_some.mp hstep
              obtain rfl := Option.some.inj hstep
              obtain ⟨hgated, hstamped, hpast⟩ := start_gate s.now c.name hinterval
              refine hs.move hget ?_ ?_ (fun now' hnow' => (hpast now' hnow').le) rfl rfl rfl rfl
              · intro _ time htime
                rw [hgated] at htime
                cases htime
              · intro hname time htime
                rw [hstamped hname] at htime
                cases htime
          | _ => cases hstep
      | fail =>
          obtain ⟨-, hstep⟩ := Option.ite_none_left_eq_some.mp hstep
          obtain rfl := Option.some.inj hstep
          exact hs.move hget (fun _ _ h => by cases h) (fun _ _ h => by cases h)
            (fun _ h => by cases h) rfl rfl rfl rfl

theorem bounded_initially (now start : Nat) : Bounded limits name start (initially now) :=
  ⟨Nat.zero_le _, Nat.zero_le _⟩

theorem apart_initially (now : Nat) : Apart limits name (initially now) := by
  constructor <;> simp [initially, Store.empty]

/-- The calls of a function that two different entries admit are apart. -/
theorem Apart.admitted {i j a b : Nat} (hs : Apart limits name s)
    (hi : s.calls[i]? = some ⟨name, .admitted a⟩) (hj : s.calls[j]? = some ⟨name, .admitted b⟩)
    (hne : i ≠ j) : a + (limits name).minInterval ≤ b ∨ b + (limits name).minInterval ≤ a := by
  have ha := hs.stamped i _ hi rfl a rfl
  have hb := hs.stamped j _ hj rfl b rfl
  have hapart : (s.stamps name).Pairwise (fun x y =>
      x.2 + (limits name).minInterval ≤ y.2 ∨ y.2 + (limits name).minInterval ≤ x.2) :=
    hs.pairwise.imp Or.inr
  have hdistinct : (i, a) ≠ (j, b) := fun heq => hne (Prod.mk.inj heq).1
  have hsymmetric : Std.Symm (fun x y : Nat × Nat =>
      x.2 + (limits name).minInterval ≤ y.2 ∨ y.2 + (limits name).minInterval ≤ x.2) :=
    ⟨fun _ _ h => h.symm⟩
  exact hapart.forall ha hb hdistinct

/-- The two limits of a function. A window that ends with its minute admits no more
calls than its limit if no call counts itself on a counter that Redis has dropped
since it has let calls pass in a window around it; and two admitted calls are the
minimum interval apart if each call sees the last one before it. -/
theorem rate_limit_enforced (limits : String → RateLimit) (name : String) {now : Nat}
    {labels : List LimiterLabel} (hrun : Runs.run (step limits) labels (initially now) = some s) :
    (0 < (limits name).limitPerWindow →
      Runs.Meets (step limits) (CountKept limits name) labels (initially now) →
      ∀ start, start % (60 * second) + (limits name).windowSize * second ≤ 60 * second →
        s.calls.countP (admittedIn limits name start) ≤ (limits name).limitPerWindow) ∧
    (Runs.Meets (step limits) (LastSeen limits name) labels (initially now) →
      ∀ i j a b : Nat, s.calls[i]? = some ⟨name, .admitted a⟩ →
        s.calls[j]? = some ⟨name, .admitted b⟩ →
        i ≠ j → a + (limits name).minInterval ≤ b ∨ b + (limits name).minInterval ≤ a) := by
  constructor
  · intro hlimit hkept start hwithin
    have hs : Bounded limits name start s := Runs.invariant_of_run _
      (fun _ _ _ hs hkept hstep => hs.step hlimit hwithin hkept hstep)
      (bounded_initially now _) hkept hrun
    exact (admitted_le_passed _ _).trans hs.2
  · intro hseen i j a b hi hj hne
    rcases Nat.eq_zero_or_pos (limits name).minInterval with hzero | hinterval
    · omega
    · have hs : Apart limits name s := Runs.invariant_of_run _
        (fun _ _ _ hs hseen hstep => hs.step hinterval hseen hstep) (apart_initially now) hseen hrun
      exact hs.admitted hi hj hne

/-- One call a window, a second apart; `window_size` is the argument. -/
def onePerWindow (windowSize : Nat) (_ : String) : RateLimit := ⟨1, windowSize, second, true⟩

/-- A call that passes both gates without having to wait. -/
def passes (i : Nat) : List LimiterLabel :=
  [.call i .get, .call i .set, .call i .incr, .call i .expire]

def twoMinutes : List LimiterLabel :=
  [.enter "f"] ++ passes 0 ++ [.elapse (60 * second), .enter "f"] ++ passes 1

/-- The window is half a minute: the second call has to wait until it is over, the
third one comes in the next minute. -/
def halfMinutes : List LimiterLabel :=
  [.enter "f"] ++ passes 0 ++
    [.elapse (5 * second), .enter "f", .call 1 .get, .call 1 .set, .call 1 .incr,
      .elapse (26 * second), .call 1 .retry] ++ passes 1 ++
    [.elapse (30 * second), .enter "f"] ++ passes 2

theorem halfMinutes_enforced : ∃ s,
    Runs.run (step (onePerWindow 30)) halfMinutes (initially 0) = some s ∧
    s.calls = [⟨"f", .admitted 0⟩, ⟨"f", .admitted (31 * second)⟩,
      ⟨"f", .admitted (61 * second)⟩] ∧
    (∀ start, start % (60 * second) + 30 * second ≤ 60 * second →
      s.calls.countP (admittedIn (onePerWindow 30) "f" start) ≤ 1) ∧
    ∀ i j a b : Nat, s.calls[i]? = some ⟨"f", .admitted a⟩ → s.calls[j]? = some ⟨"f", .admitted b⟩ →
      i ≠ j → a + second ≤ b ∨ b + second ≤ a := by
  have hkept : Runs.Meets (step (onePerWindow 30)) (CountKept (onePerWindow 30) "f") halfMinutes
      (initially 0) := by decide +kernel
  have hseen : Runs.Meets (step (onePerWindow 30)) (LastSeen (onePerWindow 30) "f") halfMinutes
      (initially 0) := by decide +kernel
  have hends : (Runs.run (step (onePerWindow 30)) halfMinutes (initially 0)).map Limiter.calls =
      some [⟨"f", .admitted 0⟩, ⟨"f", .admitted (31 * second)⟩,
        ⟨"f", .admitted (61 * second)⟩] := by decide +kernel
  obtain ⟨s, hrun, hends⟩ := Option.map_eq_some_iff.mp hends
  refine ⟨s, hrun, hends, ?_, ?_⟩
  · exact (rate_limit_enforced (onePerWindow 30) "f" hrun).1 Nat.one_pos hkept
  · exact (rate_limit_enforced (onePerWindow 30) "f" hrun).2 hseen

/-- A window of two minutes admits twice its limit; and two calls that read the
last call before either sets it are admitted together. -/
theorem rate_limit_exceeded :
    (∃ s, Runs.run (step (onePerWindow 120)) twoMinutes (initially 0) = some s ∧
      s.calls.countP (admittedIn (onePerWindow 120) "f" 0) = 2) ∧
    ∃ s, Runs.run (step (fun _ => ⟨2, 60, second, true⟩))
        ([.enter "f", .enter "f", .call 0 .get, .call 1 .get, .call 0 .set, .call 1 .set] ++
          [.call 0 .incr, .call 0 .expire, .call 1 .incr]) (initially 0) = some s ∧
      s.calls = [⟨"f", .admitted 0⟩, ⟨"f", .admitted 0⟩] := by
  refine ⟨⟨_, rfl, ?_⟩, _, rfl, ?_⟩ <;> decide +kernel

end Limiter

end Graveboards.Coordination
