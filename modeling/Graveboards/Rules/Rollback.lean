import Graveboards.Rules.Books
import Graveboards.Rules.Stateful

/-!
A submission that a stateful rule blocks, or during which a call to Redis or
to the database fails. Any command of a `reserve` may fail, without having
been applied or with its reply lost; the commands of a rollback succeed. No
other client runs, but time passes before every command.

Proved here: Redis is as it would be without the submission if and only if the
command that failed has left nothing behind and no time to live has ended in
between. An increment is left when an INCR was applied and its reply lost, when
the EXPIRE that follows an INCR fails, and when the DECR of a rejected request
is not applied; a cooldown key when a SET was applied and its reply lost. If the
time of a counter ends while it shows increments, it is dropped with them, and
the DECR that takes one back leaves a number below zero, without a time to live.
-/

namespace Graveboards.Rules

open Library Library.Redis

/-! Faults. -/

/-- What happens to a command: it succeeds, it fails before it is applied, or
it is applied and its reply is lost. -/
inductive Fault where
  | succeeds
  | refused
  | applied
  deriving DecidableEq

/-- The command that failed, with the state it found and the tokens of the
reservations made before. -/
structure Failure where
  command : Command
  fault : Fault
  found : Shared
  held : List String

/-- The shared state with the fate of the commands to come and the time that
passes before each; after the end of these lists they succeed at once. The rest
is history: `held` are the tokens returned, `touched` the counters that commands
were sent for, `dropped` is what Redis has dropped from each counter, and `late`
are the counters that a DECR did not find and that have got no time to live
since. -/
structure Faulty where
  plan : List Fault
  delays : List Nat
  shared : Shared
  failed : Option Failure
  held : List String
  touched : List String
  dropped : String → Int
  late : List String

namespace Faulty

/-- Time passes before the next command. -/
def wait (s : Faulty) : Faulty :=
  { s with
    delays := s.delays.tail
    shared := s.shared.elapse (s.delays.headD 0)
    dropped := fun key =>
      s.dropped key + s.shared.store.overdue (s.shared.clock + s.delays.headD 0) key }

def touchedAfter : Command → List String → List String
  | .incr key, touched | .decr key, touched | .expire key _, touched => key :: touched
  | _, touched => touched

def lateAfter (store : Store Int) : Command → List String → List String
  | .decr key, late => if store.present key then late else key :: late
  | .expire key _, late => late.filter (· ≠ key)
  | _, late => late

/-- Redis, or the database, executes a command. -/
def perform (command : Command) (s : Faulty) : Faulty :=
  { s with
    shared := (exec command s.shared).2
    touched := touchedAfter command s.touched
    late := lateAfter s.shared.store command s.late }

/-- The failure of a command. -/
def fail (s : Faulty) (command : Command) (fault : Fault) : Faulty :=
  { (if fault = .applied then s.perform command else s) with
    plan := s.plan.tail
    failed := some ⟨command, fault, s.shared, s.held⟩ }

/-- The success of a command. -/
def pass (s : Faulty) (command : Command) : Faulty := { s.perform command with plan := s.plan.tail }

/-- A reservation is made. -/
def hold (s : Faulty) (token : String) : Faulty := { s with held := token :: s.held }

end Faulty

/-- Run a script under the plan. Reading the clock cannot fail. -/
def attempt {α : Type} : Steps α → Faulty → Except Raise α × Faulty
  | .done a, s => (.ok a, s)
  | .call command next, s =>
      if command = .clock then attempt (next (exec command s.wait.shared).1) s.wait
      else match s.plan.headD .succeeds with
        | .succeeds => attempt (next (exec command s.wait.shared).1) (s.wait.pass command)
        | fault => (.error (.unexpected "ConnectionError"), s.wait.fail command fault)

/-- Run a script whose commands succeed. -/
def settle {α : Type} : Steps α → Faulty → α × Faulty
  | .done a, s => (a, s)
  | .call command next, s => settle (next (exec command s.wait.shared).1) (s.wait.perform command)

section Submission

variable (fingerprint : Json → String) (queueId userId : Nat)

/-- `validator.reserve(context, rule.config or {})`. -/
def reserveRule (rule : EngineRule) (s : Faulty) : Except Raise (Option String) × Faulty :=
  let c : Reserving := ⟨queueId, userId, orEmptyDict rule.config⟩
  match attempt (if rule.type = "rate_limit" then rateLimitReserve fingerprint c
      else cooldownReserve fingerprint c) s with
  | (.ok (.ok (some token)), s') => (.ok (some token), s'.hold token)
  | (.ok result, s') => (result, s')
  | (.error e, s') => (.error e, s')

/-- `reservation.validator.rollback(context, reservation.token)`. -/
def rollbackRule (reservation : Reservation) (s : Faulty) : Faulty :=
  (settle (if reservation.validator = "rate_limit" then rateLimitRollback reservation.token
    else cooldownRollback reservation.token) s).2

/-- A submission that starts in a state of Redis, and the state afterwards. -/
def submit (rules : List EngineRule) (plan : List Fault) (delays : List Nat) (start : Shared) :
    Except Raise (List Reservation) × Faulty :=
  let outcome := reserveStatefulRules (reserveRule fingerprint queueId userId) rollbackRule rules
    (Faulty.wait ⟨plan, delays, start, none, [], [], fun _ => 0, []⟩)
  (outcome.1, outcome.2.wait)

end Submission

/-! Restoration. -/

/-- Every counter has its value, every cooldown key is there or not, as before,
and no counter has been left without a time to live. -/
structure Restored (before after : Store Int) : Prop where
  counters : ∀ key, IsCounter key → after.count key = before.count key
  cooldowns : ∀ key, IsCooldown key → after.present key = before.present key
  timed : ∀ key, IsCounter key → timeless after key = true → timeless before key = true

/-- The increment that the failed command, if any did fail, has left on a
counter. -/
def leftOn : Option Failure → String → Int
  | some ⟨.incr key, .applied, _, _⟩, other => if other = key then 1 else 0
  | some ⟨.expire key _, _, _, _⟩, other => if other = key then 1 else 0
  | some ⟨.decr key, .refused, _, _⟩, other => if other = key then 1 else 0
  | _, _ => 0

/-- The counter it has left without a time to live. -/
def leftTimeless : Option Failure → List String
  | some ⟨.incr key, .applied, found, _⟩ => if found.store.present key then [] else [key]
  | some ⟨.expire key _, .refused, found, _⟩ => if timeless found.store key then [key] else []
  | _ => []

/-- It has left no cooldown key behind at a time: a key that was set is deleted
with the token of another reservation, or dropped. -/
def Faded (now : Nat) : Option Failure → Prop
  | some ⟨.setNxEx key _ seconds, .applied, found, held⟩ =>
      found.store.present key = true ∨ key ∈ held ∨ found.deadline seconds ≤ now
  | _ => True

/-- Redis has dropped from every counter what it would have dropped without the
submission, and the increment that was left on it; no DECR and no failure has
left a counter without a time to live, unless it had none at the start; and no
cooldown key was left. -/
structure Harmless (start : Store Int) (s : Faulty) : Prop where
  counters : ∀ key ∈ s.touched,
    s.dropped key = start.overdue s.shared.clock key + leftOn s.failed key
  timed : ∀ key ∈ leftTimeless s.failed ++ s.late, timeless start key = true
  cooldowns : Faded s.shared.clock s.failed

/-! The books and the reservations. -/

/-- A reservation with a key of its validator. -/
def Keyed (r : Reservation) : Prop :=
  (r.validator = "rate_limit" ∧ IsCounter r.token) ∨ (r.validator = "cooldown" ∧ IsCooldown r.token)

def tokensOf (validator : String) (rs : List Reservation) : List String :=
  (rs.filter (fun r => r.validator = validator)).map Reservation.token

/-- The books are those of some reservations, and the counters without a time to
live are known. -/
structure Balanced (start : Store Int) (rs : List Reservation) (untimed touched late : List String)
    (dropped : String → Int) (shared : Shared) : Prop where
  counted : Counted start dropped (tokensOf "rate_limit" rs) shared.store
  counters : ∀ key ∈ touched, IsCounter key
  untouched : Untouched (start.drop shared.clock) touched shared.store
  timed : Timed start (untimed ++ late) shared.store
  barred : Barred (start.drop shared.clock) (tokensOf "cooldown" rs) shared.store
  keyed : ∀ r ∈ rs, Keyed r

abbrev Sound (start : Store Int) (rs : List Reservation) (untimed : List String)
    (s : Faulty) : Prop :=
  Balanced start rs untimed s.touched s.late s.dropped s.shared

@[simp] theorem tokensOf_cons (validator : String) (r : Reservation) (rs : List Reservation) :
    tokensOf validator (r :: rs) =
      if r.validator = validator then r.token :: tokensOf validator rs
      else tokensOf validator rs := by
  unfold tokensOf
  by_cases h : r.validator = validator <;> simp [h]

section Moves

variable {start : Store Int} {rs : List Reservation} {untimed : List String} {s : Faulty}
  {key : String}

theorem drop_drop (store : Store Int) {now later : Nat} (h : now ≤ later) :
    (store.drop now).drop later = store.drop later := by
  funext key
  unfold Store.drop
  cases store key with
  | none => rfl
  | some entry =>
      obtain ⟨value, deadline⟩ := entry
      cases deadline with
      | none => simp [Option.filter, Store.expired]
      | some deadline =>
          by_cases hnow : deadline ≤ now
          · have hlater : deadline ≤ later := hnow.trans h
            simp [Option.filter, Store.expired, hnow, hlater]
          · simp [Option.filter, Store.expired, hnow]

theorem Sound.wait (h : Sound start rs untimed s) : Sound start rs untimed s.wait := by
  have hbase : start.drop s.wait.shared.clock =
      (start.drop s.shared.clock).drop s.wait.shared.clock :=
    (drop_drop start (Nat.le_add_right _ _)).symm
  refine ⟨h.counted.drop _, h.counters, ?_, h.timed.drop _, ?_, h.keyed⟩
  · rw [hbase]
    exact h.untouched.drop _
  · rw [hbase]
    exact h.barred.drop _

/-- INCR gives a counter that was not there no time to live. -/
theorem Sound.incr (h : Sound start rs untimed s) (hkey : IsCounter key) :
    Sound start (⟨"rate_limit", key⟩ :: rs)
      (if s.shared.store.present key then untimed else key :: untimed) (s.perform (.incr key)) where
  counted := by
    rw [tokensOf_cons, if_pos rfl]
    exact h.counted.incr key
  counters := List.forall_mem_cons.mpr ⟨hkey, h.counters⟩
  untouched := h.untouched.update key _
  timed := by
    cases hpresent : s.shared.store.present key with
    | true => exact h.timed.incrBy_present hpresent 1
    | false => exact h.timed.incrBy_absent hkey hpresent 1
  barred := by
    rw [tokensOf_cons, if_neg (by simp)]
    exact h.barred.count hkey _
  keyed := List.forall_mem_cons.mpr ⟨Or.inl ⟨rfl, hkey⟩, h.keyed⟩

theorem Sound.decr (h : Sound start (⟨"rate_limit", key⟩ :: rs) untimed s) :
    Sound start rs untimed (s.perform (.decr key)) := by
  have hkey : IsCounter key := by
    rcases h.keyed _ List.mem_cons_self with ⟨-, hkey⟩ | ⟨hcooldown, -⟩
    · exact hkey
    · simp at hcooldown
  have hcounted := h.counted
  have hbarred := h.barred
  rw [tokensOf_cons, if_pos rfl] at hcounted
  rw [tokensOf_cons, if_neg (by simp)] at hbarred
  refine ⟨hcounted.decr, List.forall_mem_cons.mpr ⟨hkey, h.counters⟩,
    h.untouched.update key _, ?_, hbarred.count hkey _, (List.forall_mem_cons.mp h.keyed).2⟩
  change Timed start (untimed ++ if s.shared.store.present key then s.late else key :: s.late)
    (s.shared.store.incrBy key (-1))
  cases hpresent : s.shared.store.present key with
  | true => exact h.timed.incrBy_present hpresent (-1)
  | false => exact (h.timed.incrBy_absent hkey hpresent (-1)).perm List.perm_middle.symm

/-- EXPIRE gives a counter its time to live. -/
theorem Sound.expire (h : Sound start rs untimed s) (hkey : IsCounter key)
    (huntimed : ∀ other ∈ untimed, other = key) (seconds : Nat) :
    Sound start rs [] (s.perform (.expire key seconds)) := by
  refine ⟨h.counted.expire key _, List.forall_mem_cons.mpr ⟨hkey, h.counters⟩,
    h.untouched.update key _, ?_, h.barred.count hkey _, h.keyed⟩
  have hnone : untimed.filter (· ≠ key) = [] :=
    List.filter_eq_nil_iff.mpr (fun other hmem => by simp [huntimed other hmem])
  have htimed := h.timed.expire key (s.shared.deadline seconds)
  rw [List.filter_append, hnone] at htimed
  exact htimed

theorem Sound.setNx (h : Sound start rs untimed s) (hkey : IsCooldown key)
    (habsent : s.shared.store.present key = false) (value : Int) (seconds : Nat) :
    Sound start (⟨"cooldown", key⟩ :: rs) untimed (s.perform (.setNxEx key value seconds)) := by
  have hstore : (s.perform (.setNxEx key value seconds)).shared.store =
      Function.update s.shared.store key (some ⟨value, some (s.shared.deadline seconds)⟩) := by
    simp [Faulty.perform, exec, Store.setNx, habsent]
  refine ⟨?_, h.counters, ?_, ?_, ?_, List.forall_mem_cons.mpr ⟨Or.inr ⟨rfl, hkey⟩, h.keyed⟩⟩
  all_goals rw [hstore]
  · rw [tokensOf_cons, if_neg (by simp)]
    exact h.counted.switch hkey _
  · exact h.untouched.switch hkey _
  · exact h.timed.switch hkey _
  · rw [tokensOf_cons, if_pos rfl]
    exact h.barred.setNx hkey habsent _

theorem Sound.delete (h : Sound start (⟨"cooldown", key⟩ :: rs) untimed s) :
    Sound start rs untimed (s.perform (.delete key)) := by
  have hkey : IsCooldown key := by
    rcases h.keyed _ List.mem_cons_self with ⟨hrate, -⟩ | ⟨-, hkey⟩
    · simp at hrate
    · exact hkey
  have hcounted := h.counted
  have hbarred := h.barred
  rw [tokensOf_cons, if_neg (by simp)] at hcounted
  rw [tokensOf_cons, if_pos rfl] at hbarred
  exact ⟨hcounted.switch hkey _, h.counters, h.untouched.switch hkey _, h.timed.switch hkey _,
    hbarred.delete, (List.forall_mem_cons.mp h.keyed).2⟩

/-- Commands that change nothing. -/
theorem Sound.same (h : Sound start rs untimed s) {command : Command}
    (hperform : s.perform command = s) : Sound start rs untimed (s.perform command) := by
  rw [hperform]
  exact h

theorem Sound.perm (h : Sound start rs untimed s) {rs' : List Reservation}
    (hperm : rs.Perm rs') : Sound start rs' untimed s := by
  have htokens (validator : String) :
      (tokensOf validator rs).Perm (tokensOf validator rs') := (hperm.filter _).map _
  exact ⟨h.counted.perm (htokens _), h.counters, h.untouched, h.timed, h.barred.perm (htokens _),
    fun r hr => h.keyed r (hperm.mem_iff.mpr hr)⟩

/-- The counter that was to get a time to live has none if it has none now. -/
theorem Sound.unexpired (h : Sound start rs untimed s) (hkey : IsCounter key)
    (huntimed : ∀ other ∈ untimed, other = key) :
    Sound start rs (if timeless s.shared.store key then [key] else []) s := by
  refine ⟨h.counted, h.counters, h.untouched, ⟨fun k hk htimeless => ?_, fun k hk => ?_⟩, h.barred,
    h.keyed⟩
  · refine (h.timed.known k hk htimeless).imp id (fun hmem => ?_)
    rcases List.mem_append.mp hmem with hmem | hlate
    · obtain rfl := huntimed k hmem
      simp [htimeless]
    · exact List.mem_append_right _ hlate
  · rcases List.mem_append.mp hk with hmem | hlate
    · split at hmem
      · next htimeless =>
          obtain rfl := List.mem_singleton.mp hmem
          exact ⟨hkey, htimeless⟩
      · cases hmem
    · exact h.timed.others k (List.mem_append_right _ hlate)

end Moves

/-! What one `reserve` leaves behind. -/

/-- What a `reserve` that has raised leaves on the books: nothing, an increment,
or a cooldown key whose SET was applied and its reply lost. -/
inductive Residue (s : Faulty) : List Reservation → Prop where
  | clean (hfaded : ∀ now, Faded now s.failed) : Residue s []
  | counter (key : String) (hfaded : ∀ now, Faded now s.failed) :
      Residue s [⟨"rate_limit", key⟩]
  | cooldown (key : String) (value : Int) (seconds : Nat) (found : Shared)
      (hfailed : s.failed = some ⟨.setNxEx key value seconds, .applied, found, s.held⟩)
      (habsent : found.store.present key = false)
      (hentry : s.shared.store key = some ⟨value, some (found.deadline seconds)⟩) :
      Residue s [⟨"cooldown", key⟩]

/-- A `reserve` has raised. -/
structure Ended (start : Store Int) (rs extra : List Reservation) (s : Faulty) : Prop where
  sound : Sound start (extra ++ rs) (leftTimeless s.failed) s
  left : ∀ key, leftOn s.failed key = (tokensOf "rate_limit" extra).count key
  residue : Residue s extra

/-- The effect of a `reserve` of a rule type. -/
def Effect (start : Store Int) (ruleType : String) (rs : List Reservation) (held : List String)
    (outcome : Except Raise (Option String) × Faulty) : Prop :=
  outcome.2.held = held ∧
    match outcome.1 with
    | .ok (some token) => outcome.2.failed = none ∧
        Sound start (⟨ruleType, token⟩ :: rs) [] outcome.2
    | .ok none => outcome.2.failed = none ∧ Sound start rs [] outcome.2
    | .error _ => ∃ extra, Ended start rs extra outcome.2

section Endings

variable {start : Store Int} {rs : List Reservation} {s : Faulty}

/-- What has failed, if anything has, leaves nothing. -/
theorem Ended.clean (hleft : ∀ key, leftOn s.failed key = 0)
    (htimeless : leftTimeless s.failed = []) (hfaded : ∀ now, Faded now s.failed)
    (hsound : Sound start rs [] s) :
    ∃ extra, Ended start rs extra s := by
  refine ⟨[], ?_, fun key => by simpa [tokensOf] using hleft key, .clean hfaded⟩
  rw [htimeless]
  exact hsound

theorem Ended.of_none (hfailed : s.failed = none) (hsound : Sound start rs [] s) :
    ∃ extra, Ended start rs extra s := by
  refine Ended.clean (fun key => ?_) ?_ (fun now => ?_) hsound
  all_goals rw [hfailed]
  · rfl
  · rfl
  · trivial

/-- An increment is left. -/
theorem Ended.counter {key : String}
    (hleft : ∀ other, leftOn s.failed other = if other = key then 1 else 0)
    (hfaded : ∀ now, Faded now s.failed)
    (hsound : Sound start (⟨"rate_limit", key⟩ :: rs) (leftTimeless s.failed) s) :
    ∃ extra, Ended start rs extra s := by
  refine ⟨[⟨"rate_limit", key⟩], hsound, fun other => ?_, .counter key hfaded⟩
  rw [hleft]
  by_cases heq : other = key
  · simp [tokensOf, heq]
  · simp [tokensOf, heq, Ne.symm heq]

theorem attempt_call {α : Type} {command : Command} (h : command ≠ .clock)
    (next : Reply command → Steps α) (s : Faulty) :
    attempt (.call command next) s = match s.plan.headD .succeeds with
      | .succeeds => attempt (next (exec command s.wait.shared).1) (s.wait.pass command)
      | fault => (.error (.unexpected "ConnectionError"), s.wait.fail command fault) := by
  rw [attempt, if_neg h]

theorem attempt_clock {α : Type} (next : Reply .clock → Steps α) (s : Faulty) :
    attempt (.call .clock next) s = attempt (next s.wait.shared.clock) s.wait := by
  rw [attempt, if_pos rfl]
  rfl

/-- The outcome of a script whose exceptions are results too. -/
def flatten (outcome : Except Raise (Except Raise (Option String)) × Faulty) :
    Except Raise (Option String) × Faulty :=
  match outcome with
  | (.ok result, s) => (result, s)
  | (.error e, s) => (.error e, s)

/-- Looking up the queue changes nothing. -/
theorem lookup_effect (ruleType : String) (queueId : Nat) (hfailed : s.failed = none)
    (hsound : Sound start rs [] s) (refusal : Option String → Raise) :
    Effect start ruleType rs s.held (flatten (attempt
      (.call (.getQueue queueId) (fun name => .done (.error (refusal name)))) s)) := by
  have hread : Sound start rs [] (s.wait.perform (.getQueue queueId)) := hsound.wait.same rfl
  rw [attempt_call (by simp)]
  cases s.plan.headD .succeeds with
  | succeeds => exact ⟨rfl, Ended.of_none hfailed hread⟩
  | refused => exact ⟨rfl, Ended.clean (fun _ => rfl) rfl (fun _ => trivial) hsound.wait⟩
  | applied => exact ⟨rfl, Ended.clean (fun _ => rfl) rfl (fun _ => trivial) hread⟩

end Endings

section RateLimit

variable (c : Reserving) {start : Store Int} {rs : List Reservation} {s : Faulty} {key : String}

/-- From the comparison with the limit on. -/
def decidedSteps (key : String) (count : Int) : Steps (Except Raise (Option String)) :=
  if intField c.config "max_requests" < count then
    .call (.decr key) (fun _ => do return .error (← limitError c))
  else .done (.ok (some key))

/-- From the reply of INCR on. -/
def countedSteps (key : String) (count : Int) : Steps (Except Raise (Option String)) :=
  if count = 1 then
    .call (.expire key (periodDurationSeconds (periodOf c.config)))
      (fun _ => decidedSteps c key count)
  else decidedSteps c key count

theorem rateLimitReserve_eq (fingerprint : Json → String) :
    rateLimitReserve fingerprint c =
      if applies c.config c.userId then
        .call .clock (fun clock => match truncateToPeriod clock (periodOf c.config) with
          | .error e => .done (.error e)
          | .ok bucket => .call (.incr (rateLimitKey fingerprint c bucket))
              (countedSteps c (rateLimitKey fingerprint c bucket)))
      else .done (.ok none) := by
  unfold rateLimitReserve
  cases h : applies c.config c.userId with
  | false => rfl
  | true =>
      refine congrArg (Script.call Command.clock) (funext fun clock => ?_)
      dsimp only [Script.bind]
      cases truncateToPeriod clock (periodOf c.config) with
      | error e => rfl
      | ok bucket =>
          refine congrArg (Script.call (Command.incr _)) (funext fun count => ?_)
          dsimp only [Script.bind]
          unfold countedSteps decidedSteps
          split <;> split <;> rfl


theorem decided_effect (hfailed : s.failed = none)
    (hsound : Sound start (⟨"rate_limit", key⟩ :: rs) [] s) (count : Int) :
    Effect start "rate_limit" rs s.held (flatten (attempt (decidedSteps c key count) s)) := by
  unfold decidedSteps
  split
  · rw [attempt_call (by simp)]
    cases s.plan.headD .succeeds with
    | succeeds =>
        exact lookup_effect "rate_limit" c.queueId (s := s.wait.pass (.decr key)) hfailed
          hsound.wait.decr _
    | refused => exact ⟨rfl, Ended.counter (fun _ => rfl) (fun _ => trivial) hsound.wait⟩
    | applied =>
        exact ⟨rfl, Ended.clean (fun _ => rfl) rfl (fun _ => trivial) hsound.wait.decr⟩
  · exact ⟨rfl, hfailed, hsound⟩

/-- From INCR on. -/
theorem incr_effect (hkey : IsCounter key) (hfailed : s.failed = none)
    (hsound : Sound start rs [] s) :
    Effect start "rate_limit" rs s.held
      (flatten (attempt (.call (.incr key) (countedSteps c key)) s)) := by
  have hincr : Sound start (⟨"rate_limit", key⟩ :: rs)
      (if s.wait.shared.store.present key then [] else [key]) (s.wait.perform (.incr key)) :=
    hsound.wait.incr hkey
  have hown : ∀ other ∈ (if s.wait.shared.store.present key then [] else [key]), other = key := by
    intro other hmem
    split at hmem
    · cases hmem
    · exact List.mem_singleton.mp hmem
  rw [attempt_call (by simp)]
  cases s.plan.headD .succeeds with
  | refused => exact ⟨rfl, Ended.clean (fun _ => rfl) rfl (fun _ => trivial) hsound.wait⟩
  | applied => exact ⟨rfl, Ended.counter (fun _ => rfl) (fun _ => trivial) hincr⟩
  | succeeds =>
      dsimp only
      unfold countedSteps
      split
      · -- The first increment: EXPIRE follows.
        rw [attempt_call (by simp)]
        have hexpire := hincr.wait.expire hkey hown (periodDurationSeconds (periodOf c.config))
        cases (s.wait.pass (.incr key)).plan.headD .succeeds with
        | refused =>
            exact ⟨rfl, Ended.counter (fun _ => rfl) (fun _ => trivial)
              (hincr.wait.unexpired hkey hown)⟩
        | applied => exact ⟨rfl, Ended.counter (fun _ => rfl) (fun _ => trivial) hexpire⟩
        | succeeds =>
            exact decided_effect c (s := (s.wait.pass (.incr key)).wait.pass (.expire key _))
              hfailed hexpire _
      · next hcount =>
          have hpresent : s.wait.shared.store.present key = true := by
            cases hentry : s.wait.shared.store key with
            | none => exact absurd (by simp [exec, Store.count, hentry]) hcount
            | some entry => simp [Store.present, hentry]
          rw [hpresent, if_pos rfl] at hincr
          exact decided_effect c (s := s.wait.pass (.incr key)) hfailed hincr _

theorem rateLimit_effect (fingerprint : Json → String) (hfailed : s.failed = none)
    (hsound : Sound start rs [] s) :
    Effect start "rate_limit" rs s.held
      (flatten (attempt (rateLimitReserve fingerprint c) s)) := by
  rw [rateLimitReserve_eq]
  split
  · rw [attempt_clock]
    cases truncateToPeriod s.wait.shared.clock (periodOf c.config) with
    | error e => exact ⟨rfl, Ended.of_none hfailed hsound.wait⟩
    | ok bucket =>
        exact incr_effect c (s := s.wait) (rateLimitKey_isCounter fingerprint c bucket) hfailed
          hsound.wait
  · exact ⟨rfl, hfailed, hsound⟩

end RateLimit

section Cooldown

variable (c : Reserving) {start : Store Int} {rs : List Reservation} {s : Faulty}

/-- From the reply of GET on. -/
def blockedSteps (last : Option Int) : Steps (Except Raise (Option String)) :=
  match last with
  | some lastRequestTs => do
      return .error (← cooldownError c
        (← remainingSeconds lastRequestTs (intField c.config "cooldown_seconds")))
  | none => do return .error (← cooldownError c (intField c.config "cooldown_seconds"))

/-- From the reply of SET on. -/
def settledSteps (fingerprint : Json → String) (wasSet : Bool) :
    Steps (Except Raise (Option String)) :=
  if wasSet then .done (.ok (some (cooldownKey fingerprint c)))
  else .call (.get (cooldownKey fingerprint c)) (blockedSteps c)

theorem cooldownReserve_eq (fingerprint : Json → String) :
    cooldownReserve fingerprint c =
      if applies c.config c.userId then
        .call .clock (fun clock => .call (.setNxEx (cooldownKey fingerprint c)
          (clock / 1000000 : Nat) (intField c.config "cooldown_seconds").toNat)
          (settledSteps c fingerprint))
      else .done (.ok none) := by
  unfold cooldownReserve
  cases h : applies c.config c.userId with
  | false => rfl
  | true =>
      refine congrArg (Script.call Command.clock) (funext fun clock => ?_)
      refine congrArg (Script.call (Command.setNxEx _ _ _)) (funext fun wasSet => ?_)
      cases wasSet with
      | true => rfl
      | false =>
          refine congrArg (Script.call (Command.get _)) (funext fun last => ?_)
          cases last <;> rfl

/-- The end of a request that was turned away only reads. -/
theorem blocked_effect (last : Option Int) (hfailed : s.failed = none)
    (hsound : Sound start rs [] s) :
    Effect start "cooldown" rs s.held (flatten (attempt (blockedSteps c last) s)) := by
  cases last with
  | none => exact lookup_effect "cooldown" c.queueId hfailed hsound _
  | some lastRequestTs =>
      change Effect start "cooldown" rs s.held (flatten (attempt (.call .clock _) s))
      rw [attempt_clock]
      exact lookup_effect "cooldown" c.queueId (s := s.wait) hfailed hsound.wait _

theorem peek_effect (key : String) (hfailed : s.failed = none) (hsound : Sound start rs [] s) :
    Effect start "cooldown" rs s.held
      (flatten (attempt (.call (.get key) (blockedSteps c)) s)) := by
  have hread : Sound start rs [] (s.wait.perform (.get key)) := hsound.wait.same rfl
  rw [attempt_call (by simp)]
  cases s.plan.headD .succeeds with
  | succeeds => exact blocked_effect c _ (s := s.wait.pass (.get key)) hfailed hread
  | refused => exact ⟨rfl, Ended.clean (fun _ => rfl) rfl (fun _ => trivial) hsound.wait⟩
  | applied => exact ⟨rfl, Ended.clean (fun _ => rfl) rfl (fun _ => trivial) hread⟩

/-- From SET on. -/
theorem set_effect (fingerprint : Json → String) (value : Int) (seconds : Nat)
    (hfailed : s.failed = none) (hsound : Sound start rs [] s) :
    Effect start "cooldown" rs s.held
      (flatten (attempt (.call (.setNxEx (cooldownKey fingerprint c) value seconds)
        (settledSteps c fingerprint)) s)) := by
  have hkey := cooldownKey_isCooldown fingerprint c
  rw [attempt_call (by simp)]
  cases hpresent : s.wait.shared.store.present (cooldownKey fingerprint c) with
  | true =>
      have hexec : exec (.setNxEx (cooldownKey fingerprint c) value seconds) s.wait.shared =
          (false, s.wait.shared) := by
        simp [exec, Store.setNx, hpresent]
      have hsame : Sound start rs []
          (s.wait.perform (.setNxEx (cooldownKey fingerprint c) value seconds)) := by
        refine hsound.wait.same ?_
        unfold Faulty.perform
        rw [congrArg Prod.snd hexec]
        rfl
      cases s.plan.headD .succeeds with
      | refused => exact ⟨rfl, Ended.clean (fun _ => rfl) rfl (fun _ => trivial) hsound.wait⟩
      | applied => exact ⟨rfl, Ended.clean (fun _ => rfl) rfl (fun _ => Or.inl hpresent) hsame⟩
      | succeeds =>
          dsimp only
          rw [congrArg Prod.fst hexec]
          exact peek_effect c (cooldownKey fingerprint c)
            (s := s.wait.pass (.setNxEx (cooldownKey fingerprint c) value seconds)) hfailed hsame
  | false =>
      have hset := hsound.wait.setNx hkey hpresent value seconds
      have hreply : (exec (.setNxEx (cooldownKey fingerprint c) value seconds)
          s.wait.shared).1 = true := by
        simp [exec, Store.setNx, hpresent]
      cases s.plan.headD .succeeds with
      | refused => exact ⟨rfl, Ended.clean (fun _ => rfl) rfl (fun _ => trivial) hsound.wait⟩
      | applied =>
          refine ⟨rfl, [⟨"cooldown", cooldownKey fingerprint c⟩], hset,
            fun other => ?_,
            .cooldown (cooldownKey fingerprint c) value seconds s.wait.shared rfl hpresent ?_⟩
          · change (0 : Int) = _
            simp [tokensOf]
          change (exec (.setNxEx (cooldownKey fingerprint c) value seconds)
            s.wait.shared).2.store _ = _
          simp [exec, Store.setNx, hpresent]
      | succeeds =>
          dsimp only
          rw [hreply]
          exact ⟨rfl, hfailed, hset⟩

theorem cooldown_effect (fingerprint : Json → String) (hfailed : s.failed = none)
    (hsound : Sound start rs [] s) :
    Effect start "cooldown" rs s.held
      (flatten (attempt (cooldownReserve fingerprint c) s)) := by
  rw [cooldownReserve_eq]
  split
  · rw [attempt_clock]
    exact set_effect c (s := s.wait) fingerprint _ _ hfailed hsound.wait
  · exact ⟨rfl, hfailed, hsound⟩

end Cooldown

/-! The loop and the rollback. -/

section Loop

variable (fingerprint : Json → String) (queueId userId : Nat) {start : Store Int}
  {rs : List Reservation} {s : Faulty}

theorem reserveRule_eq (rule : EngineRule) :
    reserveRule fingerprint queueId userId rule s =
      let outcome := flatten (attempt (if rule.type = "rate_limit" then
          rateLimitReserve fingerprint ⟨queueId, userId, orEmptyDict rule.config⟩
        else cooldownReserve fingerprint ⟨queueId, userId, orEmptyDict rule.config⟩) s)
      (outcome.1, match outcome.1 with
        | .ok (some token) => outcome.2.hold token
        | _ => outcome.2) := by
  unfold reserveRule flatten
  dsimp only
  split <;> rename_i heq <;> rw [heq]
  next result s' _ =>
    cases result with
    | error e => rfl
    | ok token => cases token <;> first | rfl | simp_all

/-- The `reserve` of a stateful rule. -/
theorem reserveRule_effect {rule : EngineRule} (hreserves : rule.reserves = true)
    (hfailed : s.failed = none) (hsound : Sound start rs [] s) :
    Effect start rule.type rs s.held
      (flatten (attempt (if rule.type = "rate_limit" then
          rateLimitReserve fingerprint ⟨queueId, userId, orEmptyDict rule.config⟩
        else cooldownReserve fingerprint ⟨queueId, userId, orEmptyDict rule.config⟩) s)) := by
  have htype : rule.type = "rate_limit" ∨ rule.type = "cooldown" := by
    simp only [EngineRule.reserves, Bool.and_eq_true, decide_eq_true_eq] at hreserves
    simpa [statefulRuleTypes] using hreserves.1.2
  rcases htype with htype | htype
  · rw [htype, if_pos rfl]
    exact rateLimit_effect _ fingerprint hfailed hsound
  · rw [htype, if_neg (by decide)]
    exact cooldown_effect _ fingerprint hfailed hsound

/-- The tokens held are those of the reservations. -/
def Holds (rs : List Reservation) (held : List String) : Prop :=
  ∀ token, token ∈ held ↔ ∃ r ∈ rs, r.token = token

def LoopEnded (start : Store Int)
    (outcome : Except (Raise × List Reservation) (List Reservation) × Faulty) : Prop :=
  match outcome with
  | (.ok _, _) => True
  | (.error (_, rs), s') => (∃ extra, Ended start rs extra s') ∧ Holds rs s'.held

theorem reserveLoop_ended (rules : List EngineRule) (hfailed : s.failed = none)
    (hsound : Sound start rs [] s) (hheld : Holds rs s.held) :
    LoopEnded start (reserveLoop (reserveRule fingerprint queueId userId) rules rs s) := by
  induction rules generalizing rs s with
  | nil => trivial
  | cons rule rest ih =>
      rw [reserveLoop]
      split
      · next hreserves =>
          have heffect := reserveRule_effect fingerprint queueId userId hreserves hfailed hsound
          rw [reserveRule_eq]
          generalize flatten _ = outcome at heffect ⊢
          obtain ⟨result, s'⟩ := outcome
          obtain ⟨hsame, hresult⟩ := heffect
          dsimp only at hsame hresult ⊢
          cases result with
          | error e => exact ⟨hresult, hsame ▸ hheld⟩
          | ok token =>
              cases token with
              | none => exact ih hresult.1 hresult.2 (hsame ▸ hheld)
              | some token =>
                  refine ih (s := s'.hold token) hresult.1
                    (hresult.2.perm (List.perm_append_singleton _ _).symm) (fun other => ?_)
                  have hold := hheld other
                  rw [← hsame] at hold
                  simp only [Faulty.hold, List.mem_cons, hold, List.mem_append, List.not_mem_nil,
                    or_false, or_and_right, exists_or, exists_eq_left]
                  rw [or_comm, eq_comm]
      · exact ih hfailed hsound hheld

end Loop

section Rollback

variable {start : Store Int} {rs extra : List Reservation} {untimed : List String} {s : Faulty}

theorem rollbackRule_rate (token : String) (s : Faulty) :
    rollbackRule ⟨"rate_limit", token⟩ s = s.wait.perform (.decr token) :=
  rfl

theorem rollbackRule_cooldown (token : String) (s : Faulty) :
    rollbackRule ⟨"cooldown", token⟩ s = s.wait.perform (.delete token) :=
  rfl

/-- What is undone once is not undone again. -/
theorem rollbackReservations_sound (hkeyed : ∀ r ∈ rs, Keyed r)
    (hsound : Sound start (rs ++ extra) untimed s) :
    Sound start extra untimed (rollbackReservations rollbackRule rs s) := by
  induction rs generalizing s with
  | nil => exact hsound
  | cons r rest ih =>
      obtain ⟨hr, hrest⟩ := List.forall_mem_cons.mp hkeyed
      refine ih hrest (s := rollbackRule r s) ?_
      obtain ⟨validator, token⟩ := r
      rcases hr with ⟨rfl, -⟩ | ⟨rfl, -⟩
      · rw [rollbackRule_rate]
        exact hsound.wait.decr
      · rw [rollbackRule_cooldown]
        exact hsound.wait.delete

theorem rollbackReservations_history (hkeyed : ∀ r ∈ rs, Keyed r) (s : Faulty) :
    (rollbackReservations rollbackRule rs s).failed = s.failed := by
  induction rs generalizing s with
  | nil => rfl
  | cons r rest ih =>
      obtain ⟨hr, hrest⟩ := List.forall_mem_cons.mp hkeyed
      refine (ih hrest (rollbackRule r s)).trans ?_
      obtain ⟨validator, token⟩ := r
      rcases hr with ⟨rfl, -⟩ | ⟨rfl, -⟩ <;> rfl

/-! A cooldown key whose SET was applied with its reply lost. -/

/-- The key has its value until it is dropped. -/
def Fading (s : Faulty) (key : String) (value : Int) (deadline : Nat) : Prop :=
  s.shared.store key = some ⟨value, some deadline⟩ ∨
    s.shared.store key = none ∧ deadline ≤ s.shared.clock

variable {key : String} {value : Int} {deadline : Nat}

theorem absent_wait (h : s.shared.store key = none) : s.wait.shared.store key = none :=
  Store.drop_absent _ h

theorem Fading.wait (h : Fading s key value deadline) : Fading s.wait key value deadline := by
  rcases h with hentry | ⟨habsent, hpast⟩
  · rcases Nat.lt_or_ge s.wait.shared.clock deadline with hbefore | hafter
    · exact Or.inl (Store.drop_of_lt hentry hbefore)
    · refine Or.inr ⟨?_, hafter⟩
      change s.shared.store.drop s.wait.shared.clock key = none
      simp [Store.drop, hentry, Option.filter, Store.expired, hafter]
  · exact Or.inr ⟨absent_wait habsent, hpast.trans (Nat.le_add_right _ _)⟩

/-- After a time has passed, it is there exactly before its deadline. -/
theorem Fading.present_wait (h : Fading s key value deadline) :
    s.wait.shared.store.present key = true ↔ s.wait.shared.clock < deadline := by
  rcases h with hentry | ⟨habsent, hpast⟩
  · change (s.shared.store.drop s.wait.shared.clock).present key = true ↔ _
    simp [Store.present, Store.drop, hentry, Option.filter, Store.expired]
  · have hlater : deadline ≤ s.wait.shared.clock := hpast.trans (Nat.le_add_right _ _)
    simp [Store.present, absent_wait habsent]
    omega

/-- The rollback of another reservation leaves the key alone. -/
theorem rollbackRule_other {r : Reservation} (hkeyed : Keyed r)
    (hne : r.token ≠ key) : (rollbackRule r s).shared.store key = s.wait.shared.store key := by
  obtain ⟨validator, token⟩ := r
  rcases hkeyed with ⟨rfl, -⟩ | ⟨rfl, -⟩
  · exact Function.update_of_ne (Ne.symm hne) _ _
  · exact Function.update_of_ne (Ne.symm hne) _ _

theorem rollbackRule_own {r : Reservation} (hkeyed : Keyed r) (hkey : IsCooldown key)
    (heq : r.token = key) : (rollbackRule r s).shared.store key = none := by
  obtain ⟨validator, token⟩ := r
  obtain rfl : token = key := heq
  rcases hkeyed with ⟨rfl, hcounter⟩ | ⟨rfl, -⟩
  · exact absurd hkey (fun hkey => not_counter_and_cooldown hcounter hkey)
  · exact Function.update_self ..

theorem rollbackRule_clock (r : Reservation) :
    (rollbackRule r s).shared.clock = s.wait.shared.clock := by
  unfold rollbackRule
  split <;> rfl

theorem absent_of_rollbacks (hkeyed : ∀ r ∈ rs, Keyed r) (hkey : IsCooldown key)
    (h : s.shared.store key = none) :
    (rollbackReservations rollbackRule rs s).shared.store key = none := by
  induction rs generalizing s with
  | nil => exact h
  | cons r rest ih =>
      obtain ⟨hr, hrest⟩ := List.forall_mem_cons.mp hkeyed
      refine ih hrest (s := rollbackRule r s) ?_
      by_cases heq : r.token = key
      · exact rollbackRule_own hr hkey heq
      · rw [rollbackRule_other hr heq]
        exact absent_wait h

/-- It is deleted with a reservation of its own, and fades otherwise. -/
theorem fading_of_rollbacks (hkeyed : ∀ r ∈ rs, Keyed r) (hkey : IsCooldown key)
    (h : Fading s key value deadline) :
    ((∃ r ∈ rs, r.token = key) →
      (rollbackReservations rollbackRule rs s).shared.store key = none) ∧
    ((¬ ∃ r ∈ rs, r.token = key) →
      Fading (rollbackReservations rollbackRule rs s) key value deadline) := by
  induction rs generalizing s with
  | nil => exact ⟨fun ⟨_, hr, _⟩ => (by cases hr), fun _ => h⟩
  | cons r rest ih =>
      obtain ⟨hr, hrest⟩ := List.forall_mem_cons.mp hkeyed
      by_cases heq : r.token = key
      · refine ⟨fun _ => ?_, fun hnone => absurd ⟨r, List.mem_cons_self, heq⟩ hnone⟩
        exact absent_of_rollbacks (s := rollbackRule r s) hrest hkey
          (rollbackRule_own hr hkey heq)
      · have hfading : Fading (rollbackRule r s) key value deadline := by
          have hwait := h.wait
          unfold Fading at hwait ⊢
          rw [rollbackRule_other hr heq, rollbackRule_clock]
          exact hwait
        have hmembers : (∃ r' ∈ r :: rest, r'.token = key) ↔ ∃ r' ∈ rest, r'.token = key := by
          simp [heq]
        rw [hmembers]
        exact ih hrest hfading

end Rollback

/-! What the books say in the end. -/

section Restored

variable {start : Store Int} {rs : List Reservation} {untimed : List String} {s : Faulty}

/-- A counter has its number exactly if what Redis dropped from it makes up for
the increments on it. -/
theorem Sound.counters_iff (h : Sound start rs untimed s) :
    (∀ key, IsCounter key →
      s.shared.store.count key = (start.drop s.shared.clock).count key) ↔
    ∀ key ∈ s.touched, s.dropped key =
      start.overdue s.shared.clock key + (tokensOf "rate_limit" rs).count key := by
  have hsum (key : String) (hkey : IsCounter key) :
      s.shared.store.count key = (start.drop s.shared.clock).count key ↔
        s.dropped key =
          start.overdue s.shared.clock key + (tokensOf "rate_limit" rs).count key := by
    have hcount := h.counted key hkey
    have hdrop := Store.count_drop_add start s.shared.clock key
    omega
  constructor
  · intro hcounters key hmem
    exact (hsum key (h.counters key hmem)).mp (hcounters key (h.counters key hmem))
  · intro hdropped key hkey
    by_cases hmem : key ∈ s.touched
    · exact (hsum key hkey).mpr (hdropped key hmem)
    · rw [Store.count, h.untouched key hkey hmem, ← Store.count]

theorem Sound.timed_iff (h : Sound start rs untimed s) :
    (∀ key, IsCounter key → timeless s.shared.store key = true →
      timeless (start.drop s.shared.clock) key = true) ↔
    ∀ key ∈ untimed ++ s.late, timeless start key = true := by
  simp only [timeless_drop]
  constructor
  · intro htimed key hmem
    obtain ⟨hkey, htimeless⟩ := h.timed.others key hmem
    exact htimed key hkey htimeless
  · intro hothers key hkey htimeless
    exact (h.timed.known key hkey htimeless).elim id (hothers key)

theorem Sound.cooldowns_iff (h : Sound start rs untimed s) :
    (∀ key, IsCooldown key →
      s.shared.store.present key = (start.drop s.shared.clock).present key) ↔
    ∀ key ∈ tokensOf "cooldown" rs, s.shared.store.present key = false := by
  constructor
  · intro hcooldowns key hmem
    have hkey : IsCooldown key := by
      obtain ⟨r, hr, rfl⟩ := List.mem_map.mp hmem
      obtain ⟨hr, hvalidator⟩ := List.mem_filter.mp hr
      rcases h.keyed r hr with ⟨hrate, -⟩ | ⟨-, hkey⟩
      · simp [hrate] at hvalidator
      · exact hkey
    rw [hcooldowns key hkey]
    exact h.barred.absent key hmem
  · intro hgone key hkey
    cases hbase : (start.drop s.shared.clock).present key with
    | true =>
        rw [Store.present, h.barred.kept key hkey hbase]
        exact hbase
    | false =>
        by_contra hpresent
        rcases h.barred.present key hkey (by simpa using hpresent) with hthere | hset
        · rw [hbase] at hthere
          cases hthere
        · exact hpresent (hgone key hset)

/-- The key that a failed SET has left is gone in the end exactly if it has
faded. -/
theorem Ended.gone_iff {extra : List Reservation} (h : Ended start rs extra s)
    (hheld : Holds rs s.held) :
    (∀ key ∈ tokensOf "cooldown" extra,
      (rollbackReservations rollbackRule rs s).wait.shared.store.present key = false) ↔
    Faded (rollbackReservations rollbackRule rs s).wait.shared.clock s.failed := by
  have hkeyed : ∀ r ∈ rs, Keyed r :=
    fun r hr => h.sound.keyed r (List.mem_append_right _ hr)
  cases h.residue with
  | clean hfaded => exact iff_of_true (by simp [tokensOf]) (hfaded _)
  | counter key hfaded => exact iff_of_true (by simp [tokensOf]) (hfaded _)
  | cooldown key value seconds found hfailed habsent hentry =>
      have hkey : IsCooldown key := by
        rcases h.sound.keyed ⟨"cooldown", key⟩ (by simp) with ⟨hrate, -⟩ | ⟨-, hkey⟩
        · simp at hrate
        · exact hkey
      obtain ⟨hown, hother⟩ := fading_of_rollbacks hkeyed hkey (Or.inl hentry)
      have htokens : tokensOf "cooldown" [⟨"cooldown", key⟩] = [key] := by simp [tokensOf]
      rw [hfailed, htokens]
      simp only [List.mem_singleton, forall_eq, Faded, habsent, Bool.false_eq_true, false_or,
        hheld key]
      by_cases hmember : ∃ r ∈ rs, r.token = key
      · have hgone := absent_wait (hown hmember)
        exact iff_of_true (by simp [Store.present, hgone]) (Or.inl hmember)
      · have hpresent := (hother hmember).present_wait
        rw [← Bool.not_eq_true, hpresent, Nat.not_lt]
        simp [hmember]

end Restored

/-- A submission that `reserve_stateful_rules` does not let through, by the
rejection of a rule or by the failure of a command, leaves Redis as it would be
without the submission if and only if the failure and the times to live that
have ended in between are harmless. -/
theorem blocked_restores_iff (fingerprint : Json → String) (queueId userId : Nat)
    (rules : List EngineRule) (plan : List Fault) (delays : List Nat) (start : Shared) (e : Raise)
    (hraised : (submit fingerprint queueId userId rules plan delays start).1 = .error e) :
    Restored
        (start.store.drop
          (submit fingerprint queueId userId rules plan delays start).2.shared.clock)
        (submit fingerprint queueId userId rules plan delays start).2.shared.store ↔
      Harmless start.store (submit fingerprint queueId userId rules plan delays start).2 := by
  have hbegun : Counted start.store (fun _ => 0) [] start.store :=
    fun key _ => by simp
  set first := Faulty.wait ⟨plan, delays, start, none, [], [], fun _ => 0, []⟩ with hfirst
  have hsound : Sound start.store [] [] first :=
    ⟨hbegun.drop _, by simp [hfirst, Faulty.wait], fun _ _ _ => rfl,
      ⟨fun key _ htimeless => Or.inl (by rwa [← timeless_drop]), by simp [hfirst, Faulty.wait]⟩,
      ⟨fun _ _ hpresent => Or.inl hpresent, fun _ _ _ => rfl, by simp [tokensOf]⟩, by simp⟩
  have hheldFirst : Holds [] first.held := by
    simp [Holds, hfirst, Faulty.wait]
  have hended := reserveLoop_ended fingerprint queueId userId rules rfl hsound hheldFirst
  unfold submit reserveStatefulRules at hraised ⊢
  rw [← hfirst] at hraised ⊢
  generalize reserveLoop (reserveRule fingerprint queueId userId) rules [] first = outcome
    at hended hraised ⊢
  obtain ⟨result, s⟩ := outcome
  cases result with
  | ok rs => cases hraised
  | error error =>
      obtain ⟨e', rs⟩ := error
      obtain ⟨⟨extra, hended⟩, hheld⟩ := hended
      dsimp only at hheld ⊢
      have hkeyed : ∀ r ∈ rs, Keyed r :=
        fun r hr => hended.sound.keyed r (List.mem_append_right _ hr)
      have hfailed : (rollbackReservations rollbackRule rs s).wait.failed = s.failed :=
        rollbackReservations_history hkeyed s
      -- The books after the rollback, with what is left on them.
      have hrest := (rollbackReservations_sound hkeyed
        (hended.sound.perm List.perm_append_comm)).wait
      have hgone := hended.gone_iff hheld
      have hcounters := hrest.counters_iff
      simp only [← hended.left] at hcounters
      rw [← hfailed] at hrest hgone hcounters
      constructor
      · intro hrestored
        exact ⟨hcounters.mp hrestored.counters, hrest.timed_iff.mp hrestored.timed,
          hgone.mp (hrest.cooldowns_iff.mp hrestored.cooldowns)⟩
      · intro hharmless
        exact ⟨hcounters.mpr hharmless.counters,
          hrest.cooldowns_iff.mpr (hgone.mpr hharmless.cooldowns),
          hrest.timed_iff.mpr hharmless.timed⟩

/-- One request a day. -/
def dailyRule : EngineRule :=
  ⟨1, "rate_limit", "1.0", .dict [("max_requests", .int 1), ("period", .str "day"),
    ("scope", .str "user")], true⟩

/-- One request a minute. -/
def minutelyRule : EngineRule :=
  ⟨2, "cooldown", "1.0", .dict [("cooldown_seconds", .int 60), ("scope", .str "user")], true⟩

def dailyKey : String :=
  rateLimitKey (fun _ => "fingerprint") ⟨7, 42, dailyRule.config⟩ 0

/-- Redis with the day's request of the user counted, or not. -/
def dayBegun (count : Int) : Shared where
  clock := 0
  store := fun key => if key = dailyKey ∧ count ≠ 0 then some ⟨count, some 86400000000⟩ else none
  lost := fun _ => false
  queueNames := fun _ => none

/-- The submission of one user. -/
def dailySubmission (rules : List EngineRule) (count : Int) (plan : List Fault)
    (delays : List Nat) : Except Raise (List Reservation) × Faulty :=
  submit (fun _ => "fingerprint") 7 42 rules plan delays (dayBegun count)

/-- The cooldown is taken and the second request of the day is rejected, with
half a second before each command: it leaves no trace. -/
def secondOfDay : Except Raise (List Reservation) × Faulty :=
  dailySubmission [minutelyRule, dailyRule] 1 [] (List.replicate 8 500000)

theorem dailySubmission_rejected :
    ∃ e, secondOfDay.1 = .error e ∧ secondOfDay.2.shared.clock = 4000000 ∧
      Restored ((dayBegun 1).store.drop 4000000) secondOfDay.2.shared.store := by
  have hraised : secondOfDay.1.toOption.isNone = true := by decide +kernel
  have hfailed : secondOfDay.2.failed.isNone = true := by decide +kernel
  have hclock : secondOfDay.2.shared.clock = 4000000 := by decide +kernel
  have htouched : secondOfDay.2.touched = [dailyKey, dailyKey] := by decide +kernel
  have hdropped : secondOfDay.2.dropped dailyKey = 0 := by decide +kernel
  have hlate : secondOfDay.2.late = [] := by decide +kernel
  have hnone : secondOfDay.2.failed = none := Option.isNone_iff_eq_none.mp hfailed
  cases hresult : secondOfDay.1 with
  | ok rs =>
      rw [hresult] at hraised
      cases hraised
  | error e =>
      have hrestored := (blocked_restores_iff (fun _ => "fingerprint") 7 42
        [minutelyRule, dailyRule] [] (List.replicate 8 500000) (dayBegun 1) e hresult).mpr
      have hharmless : Harmless (dayBegun 1).store secondOfDay.2 := by
        refine ⟨fun key hkey => ?_, ?_, ?_⟩
        · rw [htouched] at hkey
          obtain rfl : key = dailyKey := by simpa using hkey
          rw [hdropped, hclock, hnone]
          decide +kernel
        · rw [hnone, hlate]
          simp [leftTimeless]
        · rw [hnone]
          trivial
      exact ⟨e, rfl, hclock, hclock ▸ hrestored hharmless⟩

/-- The first request of the day, with the reply of INCR lost: it is counted,
and the counter has no time to live. And the second one, rejected when the day
has passed since its INCR: the counter is below zero and has none either. -/
theorem dailySubmission_leaks :
    ((dailySubmission [dailyRule] 0 [.applied] []).1 = .error (.unexpected "ConnectionError") ∧
      (dailySubmission [dailyRule] 0 [.applied] []).2.shared.store.count dailyKey = 1 ∧
      timeless (dailySubmission [dailyRule] 0 [.applied] []).2.shared.store dailyKey = true ∧
      ¬ Restored (dayBegun 0).store
        (dailySubmission [dailyRule] 0 [.applied] []).2.shared.store) ∧
    (dailySubmission [dailyRule] 1 [] [0, 0, 0, 86400000000]).2.failed.isNone = true ∧
      (dailySubmission [dailyRule] 1 [] [0, 0, 0, 86400000000]).2.shared.store.count dailyKey = -1 ∧
      timeless (dailySubmission [dailyRule] 1 [] [0, 0, 0, 86400000000]).2.shared.store dailyKey =
        true ∧
      ¬ Restored ((dayBegun 1).store.drop 86400000000)
        (dailySubmission [dailyRule] 1 [] [0, 0, 0, 86400000000]).2.shared.store := by
  have hkey : IsCounter dailyKey := rateLimitKey_isCounter _ _ _
  have hleaked :
      (dailySubmission [dailyRule] 0 [.applied] []).2.shared.store.count dailyKey = 1 := by
    decide +kernel
  have hbelow : (dailySubmission [dailyRule] 1 [] [0, 0, 0, 86400000000]).2.shared.store.count
      dailyKey = -1 := by decide +kernel
  refine ⟨⟨by decide +kernel, hleaked, by decide +kernel, fun hrestored => ?_⟩, by decide +kernel,
    hbelow, by decide +kernel, fun hrestored => ?_⟩
  · have hcount := hrestored.counters dailyKey hkey
    rw [hleaked] at hcount
    exact absurd hcount (by decide +kernel)
  · have hcount := hrestored.counters dailyKey hkey
    rw [hbelow] at hcount
    exact absurd hcount (by decide +kernel)

end Graveboards.Rules
