import Graveboards.Library.Calendar
import Graveboards.Library.Redis
import Graveboards.Library.Script
import Graveboards.Rules.Agreement

/-!
The stateful rules, `validators/rate_limit.py` and `validators/cooldown.py`:
their Redis keys and what `reserve` and `rollback` send to Redis, one script
for each. The configuration is a stored one, so the fields the schema requires
are read at the type the schema gives them. The fingerprint of a configuration
is a parameter.
-/

namespace Graveboards.Rules

open Library Library.Calendar Library.Redis

/-! Periods. The clock counts microseconds from the epoch. -/

/-- `_truncate_to_period`: the start of the bucket, in seconds. Of the texts
that are not names of periods only digits are read as a number of seconds. -/
def truncateToPeriod (clock : Nat) (period : String) : Except Raise Int :=
  let now := ofMicroseconds clock
  if period = "day" then .ok now.midnight.timestamp
  else if period = "week" then .ok (now.minusDays now.weekday).midnight.timestamp
  else if period = "month" then .ok { now.midnight with day := 1 }.timestamp
  else if period = "year" then .ok { now.midnight with month := 1, day := 1 }.timestamp
  else if Text.isDigits period ∧ 0 < Text.digitsValue period then
    .ok (clock / (1000000 * Text.digitsValue period) * Text.digitsValue period : Nat)
  else .error (.unexpected "ValueError")

def periodDurationSeconds (period : String) : Nat :=
  if period = "day" then 86400
  else if period = "week" then 604800
  else if period = "month" then 2592000
  else if period = "year" then 31536000
  else if Text.isDigits period then Text.digitsValue period
  else 604800

/-! Fields of a stored configuration. -/

/-- An integer the schema requires. -/
def intField (config : Json) (key : String) : Int :=
  match lookup config key with
  | .int n => n
  | _ => 0

/-- An accepted configuration has a positive integer where the schema asks for
one. -/
theorem intField_pos {text : TextReaders} {ruleType : String} {schema : Schema} {raw config : Json}
    (hschema : ruleConfigSchemaMap text ruleType = some schema) (hstable : schema.Stable)
    {name message : String}
    (hmem : requiredField name ((Coercion.int text).check (atLeast 1 message)) ∈ schema.fields)
    (h : validateRuleConfig text ruleType raw = .ok config) : 1 ≤ intField config name := by
  rw [validateRuleConfig, hschema] at h
  obtain ⟨entries, dumped, -, rfl, hvalid⟩ := construct_eq_ok h
  obtain ⟨v, w, -, hcoerce, hstored⟩ := required_stored hstable hvalid
    (Coercion.nonNull_check (Coercion.nonNull_int text)) hmem
  obtain ⟨hint, hcheck⟩ := Coercion.check_eq_ok hcoerce
  obtain ⟨n, rfl⟩ := Coercion.int_eq_ok text hint
  have hread : intField (.dict dumped) name = n := by
    simp [intField, lookup, hstored]
  rw [hread]
  by_contra hlow
  have hlt : (n : Rat) < 1 := by exact_mod_cast not_le.mp hlow
  simp [atLeast, Json.num?, hlt] at hcheck

def periodOf (config : Json) : String := Text.display ((config.get? "period").getD (.str "week"))

/-- `_is_target_match`, on the stored list of user ids. -/
def isTargetMatch (config : Json) (userId : Nat) : Bool :=
  let target := lookup config "target"
  !target.truthy || contains (itemsOf target) userId

def applies (config : Json) (userId : Nat) : Bool :=
  isTargetMatch config userId && (config.get? "scope").getD (.str "user") = .str "user"

/-- Whose state a call is about. -/
structure Reserving where
  queueId : Nat
  userId : Nat
  config : Json
  deriving DecidableEq

section Keys

variable (fingerprint : Json → String)

/-- `RateLimitRestriction._redis_key`, for the bucket that starts at a time. -/
def rateLimitKey (c : Reserving) (bucket : Int) : String :=
  "queue_rule_rate_limit:" ++ toString c.queueId ++ ":" ++ toString c.userId ++ ":" ++
    fingerprint c.config ++ ":" ++ toString bucket

/-- `CooldownRestriction._redis_key`. -/
def cooldownKey (c : Reserving) : String :=
  "queue_rule_cooldown:" ++ toString c.queueId ++ ":" ++ toString c.userId ++ ":" ++
    fingerprint c.config

end Keys

/-! Commands. Reading the clock and looking up the queue are commands too. -/

inductive Command where
  | clock
  | incr (key : String)
  | decr (key : String)
  | expire (key : String) (seconds : Nat)
  | setNxEx (key : String) (value : Int) (seconds : Nat)
  | get (key : String)
  | delete (key : String)
  | getQueue (queueId : Nat)
  deriving DecidableEq

@[reducible]
def Reply : Command → Type
  | .clock => Nat
  | .incr _ | .decr _ => Int
  | .expire _ _ | .delete _ => Unit
  | .setNxEx _ _ _ => Bool
  | .get _ => Option Int
  | .getQueue _ => Option String

abbrev Steps (α : Type) := Script Command Reply α

namespace Steps

def clock : Steps Nat := Script.perform Command.clock

def incr (key : String) : Steps Int := Script.perform (Command.incr key)

def decr (key : String) : Steps Int := Script.perform (Command.decr key)

def expire (key : String) (seconds : Nat) : Steps Unit :=
  Script.perform (Command.expire key seconds)

def setNxEx (key : String) (value : Int) (seconds : Nat) : Steps Bool :=
  Script.perform (Command.setNxEx key value seconds)

def get (key : String) : Steps (Option Int) := Script.perform (Command.get key)

def delete (key : String) : Steps Unit := Script.perform (Command.delete key)

def getQueue (queueId : Nat) : Steps (Option String) := Script.perform (Command.getQueue queueId)

end Steps

def shownQueue (queueId : Nat) (name : Option String) : String :=
  "'" ++ name.getD ("Queue " ++ toString queueId) ++ "' (queue " ++ toString queueId ++ ")"

/-! Rate limit. -/

/-- `_limit_error`. -/
def limitError (c : Reserving) : Steps Raise := do
  let name ← Steps.getQueue c.queueId
  let maxRequests := intField c.config "max_requests"
  return .forbidden ("You have exceeded the rate limit for " ++ shownQueue c.queueId name ++
    ": max " ++ toString maxRequests ++ " request" ++ (if maxRequests ≠ 1 then "s" else "") ++
    " per " ++ periodOf c.config ++ ". Please try again in the next period.")

/-- `RateLimitRestriction.reserve`. -/
def rateLimitReserve (fingerprint : Json → String) (c : Reserving) :
    Steps (Except Raise (Option String)) := do
  if !applies c.config c.userId then return .ok none
  let now ← Steps.clock
  match truncateToPeriod now (periodOf c.config) with
  | .error e => return .error e
  | .ok bucket =>
      let redisKey := rateLimitKey fingerprint c bucket
      let currentCount ← Steps.incr redisKey
      if currentCount = 1 then
        Steps.expire redisKey (periodDurationSeconds (periodOf c.config))
      if intField c.config "max_requests" < currentCount then
        let _ ← Steps.decr redisKey
        return .error (← limitError c)
      return .ok (some redisKey)

/-- `RateLimitRestriction.rollback`. -/
def rateLimitRollback (token : String) : Steps Unit := do
  let _ ← Steps.decr token

/-! Cooldown. -/

/-- `_remaining_seconds`, which reads the clock again. -/
def remainingSeconds (lastRequestTs cooldownSeconds : Int) : Steps Rat := do
  let now ← Steps.clock
  return cooldownSeconds - ((now : Rat) / 1000000 - lastRequestTs)

/-- `_cooldown_error`. -/
def cooldownError (c : Reserving) (remaining : Rat) : Steps Raise := do
  let remaining := max remaining 0
  let remainingHours := (remaining / 3600).floor
  let remainingMinutes := ((remaining - 3600 * remainingHours) / 60).floor
  let name ← Steps.getQueue c.queueId
  let hours := if 0 < remainingHours then [toString remainingHours ++ "h"] else []
  let minutes :=
    if 0 < remainingMinutes ∨ hours = [] then [toString remainingMinutes ++ "m"] else []
  return .forbidden ("You must wait before submitting another request to " ++
    shownQueue c.queueId name ++ ": " ++ Text.fixed 0 remaining ++ "s remaining (" ++
    String.intercalate ", " (hours ++ minutes) ++ ").")

/-- `CooldownRestriction.reserve`. -/
def cooldownReserve (fingerprint : Json → String) (c : Reserving) :
    Steps (Except Raise (Option String)) := do
  if !applies c.config c.userId then return .ok none
  let cooldownSeconds := intField c.config "cooldown_seconds"
  let redisKey := cooldownKey fingerprint c
  let now ← Steps.clock
  let wasSet ← Steps.setNxEx redisKey (now / 1000000 : Nat) cooldownSeconds.toNat
  if !wasSet then
    match ← Steps.get redisKey with
    | some lastRequestTs =>
        let remaining ← remainingSeconds lastRequestTs cooldownSeconds
        return .error (← cooldownError c remaining)
    | none => return .error (← cooldownError c cooldownSeconds)
  return .ok (some redisKey)

/-- `CooldownRestriction.rollback`. -/
def cooldownRollback (token : String) : Steps Unit := Steps.delete token

/-! Calls running side by side. -/

/-- The clock, Redis and the names of the queues. `lost` is a history of the
keys Redis has dropped while they held a number other than zero. -/
structure Shared where
  clock : Nat
  store : Store Int
  lost : String → Bool
  queueNames : Nat → Option String

namespace Shared

/-- Seconds from now, as Redis counts a time to live. -/
def deadline (s : Shared) (seconds : Nat) : Nat := s.clock + 1000000 * seconds

/-- Time passes, and Redis drops the keys whose time to live has elapsed. -/
def elapse (s : Shared) (microseconds : Nat) : Shared :=
  let clock := s.clock + microseconds
  { s with
    clock := clock
    store := s.store.drop clock
    lost := fun key => s.lost key ||
      (s.store key).any (fun entry => Store.expired clock entry && entry.value ≠ 0) }

end Shared

/-- What a command does when it succeeds. -/
def exec : (command : Command) → Shared → Reply command × Shared
  | .clock, s => (s.clock, s)
  | .incr key, s => (s.store.count key + 1, { s with store := s.store.incrBy key 1 })
  | .decr key, s => (s.store.count key - 1, { s with store := s.store.incrBy key (-1) })
  | .expire key seconds, s => ((), { s with store := s.store.expire key (s.deadline seconds) })
  | .setNxEx key value seconds, s =>
      ((s.store.setNx key value (s.deadline seconds)).1,
        { s with store := (s.store.setNx key value (s.deadline seconds)).2 })
  | .get key, s => ((s.store key).map Entry.value, s)
  | .delete key, s => ((), { s with store := s.store.del key })
  | .getQueue queueId, s => (s.queueNames queueId, s)

/-- How a call of `reserve` has ended: as it returned or raised, or with the
reservation rolled back since. -/
inductive Outcome where
  | returned (result : Except Raise (Option String))
  | rolledBack (token : String)

abbrev Calls := World Shared Reserving Command Reply Outcome

/-- A call starts, Redis executes the next command of a call, a reservation is
rolled back, or time passes. -/
inductive Label where
  | start (c : Reserving)
  | advance (i : Nat)
  | rollback (i : Nat)
  | elapse (microseconds : Nat)
  deriving DecidableEq

section Calls

variable (reserve : Reserving → Steps (Except Raise (Option String)))
  (rollback : String → Steps Unit)

/-- The script of one call. -/
def started (c : Reserving) : Steps Outcome := do return .returned (← reserve c)

/-- What follows when a call that returned a token is rolled back. -/
def undo : Outcome → Option (Steps Outcome)
  | .returned (.ok (some token)) => some (do rollback token; return .rolledBack token)
  | _ => none

def step (label : Label) (w : Calls) : Option Calls :=
  match label with
  | .start c => some (w.spawn c (started reserve c))
  | .advance i => w.advance exec i
  | .rollback i => w.resume i (fun _ outcome => undo rollback outcome)
  | .elapse microseconds => some { w with shared := w.shared.elapse microseconds }

end Calls

/-- Redis is empty and no call has started. -/
def initially (clock : Nat) (queueNames : Nat → Option String) : Calls :=
  ⟨⟨clock, Store.empty, fun _ => false, queueNames⟩, []⟩

/-- The call returned the token and has not been rolled back. -/
def holds (c : Reserving) (token : String) (call : Reserving × Steps Outcome) : Bool :=
  call.1 = c && match call.2 with
    | .done (.returned (.ok (some t))) => t = token
    | _ => false

theorem eq_done_of_holds {c : Reserving} {token : String} {call : Reserving × Steps Outcome}
    (h : holds c token call = true) : call = (c, .done (.returned (.ok (some token)))) := by
  obtain ⟨c', rest⟩ := call
  obtain ⟨hc, hrest⟩ := (Bool.and_eq_true _ _).mp h
  obtain rfl : c' = c := of_decide_eq_true hc
  dsimp only at hrest
  split at hrest
  · next t =>
      obtain rfl : t = token := of_decide_eq_true hrest
      rfl
  · cases hrest

end Graveboards.Rules
