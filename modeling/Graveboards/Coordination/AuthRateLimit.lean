import Graveboards.Library.Redis
import Graveboards.Library.Runs
import Graveboards.Library.Text

/-!
`AuthRateLimiter`: any number of `check`, `record_failure` and `record_success`
calls, one Redis command at a time, on a clock that counts seconds.
-/

namespace Graveboards.Coordination

open Library Library.Redis

namespace AuthRateLimiter

def WINDOW_SIZE : Nat := 60
def MAX_REQUESTS : Int := 10
def FAILURE_LOCKOUT : Nat := 3600
def MAX_FAILURES : Nat := 20

def lockoutKey (ip : String) : String := "auth_lockout:" ++ ip

def windowKey (ip : String) (minute : Nat) : String :=
  "auth_window:" ++ ip ++ ":" ++ toString minute

def failuresKey (ip : String) : String := "auth_failures:" ++ ip

end AuthRateLimiter

open AuthRateLimiter

/-- Where a call stands. A check: before `TTL`, before it reads the clock, before
`INCR` and `EXPIRE` on the window, answered. A failure: before `INCR`, `EXPIRE`
and `SET`, recorded. A success: before and after `DEL`. `due`: the failure is the
`MAX_FAILURES`-th within the lockout time without a success. -/
inductive AuthStage where
  | checking
  | reading
  | counting (minute : Nat)
  | expiring (minute : Nat)
  | allowed (minute : Nat)
  | lockedOut (retryAfter : Int)
  | limited (retryAfter : Nat)
  | failing
  | failExpiring (due : Bool)
  | locking (due : Bool)
  | recorded (due : Bool)
  | clearing
  | cleared
  | raised
  deriving DecidableEq

namespace AuthStage

/-- The command a call waits for, and its key. -/
def command (ip : String) : AuthStage → Option (String × Command)
  | .checking => some (lockoutKey ip, .ttl)
  | .counting minute => some (windowKey ip minute, .incr)
  | .expiring minute => some (windowKey ip minute, .expire WINDOW_SIZE)
  | .failing => some (failuresKey ip, .incr)
  | .failExpiring _ => some (failuresKey ip, .expire FAILURE_LOCKOUT)
  | .locking _ => some (lockoutKey ip, .set 1 FAILURE_LOCKOUT)
  | .clearing => some (failuresKey ip, .del)
  | _ => none

/-- The end of `check`. -/
def answer (now minute : Nat) (current : Int) : AuthStage :=
  if current > MAX_REQUESTS then .limited (WINDOW_SIZE - now % WINDOW_SIZE) else .allowed minute

/-- What follows `EXPIRE` in `record_failure`. -/
def locks (failures : Int) (due : Bool) : AuthStage :=
  if failures ≥ MAX_FAILURES then .locking due else .recorded due

/-- The stage after the reply. -/
def resume (now : Nat) (reply : Int) (due : Bool) : AuthStage → AuthStage
  | .checking => if reply > 0 then .lockedOut reply else .reading
  | .counting minute => if reply = 1 then .expiring minute else answer now minute reply
  | .expiring minute => answer now minute 1
  | .failing => if reply = 1 then .failExpiring due else locks reply due
  | .failExpiring due => locks 1 due
  | .locking due => .recorded due
  | .clearing => .cleared
  | stage => stage

/-- A call that has not ended. -/
def live (stage : AuthStage) : Bool := (stage.command "").isSome || stage = .reading

end AuthStage

/-- What concerns one address. `failures`: when the failures since the last success
have been counted; `lockedUntil`: how long a failure that was due locks out. -/
structure AuthClient where
  calls : List AuthStage
  failures : List Nat
  lockedUntil : Nat

namespace AuthClient

/-- One more failure completes `MAX_FAILURES` of them within `FAILURE_LOCKOUT`. -/
def due (now : Nat) (client : AuthClient) : Bool :=
  MAX_FAILURES ≤ (now :: client.failures).countP (fun time => now ≤ time + FAILURE_LOCKOUT)

/-- The failures since the last success, after a command of the stage. -/
def recount (now : Nat) (stage : AuthStage) (failures : List Nat) : List Nat :=
  match stage with
  | .failing => now :: failures
  | .clearing => []
  | _ => failures

/-- The call of the index has moved on with the reply of a command. -/
def advance (now i : Nat) (stage : AuthStage) (reply : Int) (client : AuthClient) : AuthClient :=
  let stage' := stage.resume now reply (client.due now)
  { calls := client.calls.set i stage'
    failures := recount now stage client.failures
    lockedUntil := if stage' = .recorded true then now + FAILURE_LOCKOUT else client.lockedUntil }

def setCall (i : Nat) (stage : AuthStage) (client : AuthClient) : AuthClient :=
  { client with calls := client.calls.set i stage }

end AuthClient

structure AuthLimiter where
  now : Nat
  store : Store Int
  clients : String → AuthClient

inductive AuthCall where
  | check
  | recordFailure
  | recordSuccess
  deriving DecidableEq

def AuthCall.start : AuthCall → AuthStage
  | .check => .checking
  | .recordFailure => .failing
  | .recordSuccess => .clearing

/-- `execute`: Redis executes the command of a call, which goes on with the reply;
`read`: the call reads the clock; `fail`: it raises. -/
inductive AuthLabel where
  | elapse (duration : Nat)
  | begin (ip : String) (call : AuthCall)
  | execute (ip : String) (i : Nat)
  | read (ip : String) (i : Nat)
  | fail (ip : String) (i : Nat)
  deriving DecidableEq

namespace AuthLimiter

def setClient (ip : String) (client : AuthClient) (s : AuthLimiter) : AuthLimiter :=
  { s with clients := Function.update s.clients ip client }

/-- Redis executes the command of a call, which goes on with the reply. -/
def perform (ip : String) (i : Nat) (stage : AuthStage) (key : String) (command : Command)
    (s : AuthLimiter) : AuthLimiter :=
  let result := command.exec s.now (s.store key)
  { s.setClient ip ((s.clients ip).advance s.now i stage result.1) with
    store := Function.update s.store key result.2 }

def step : AuthLabel → AuthLimiter → Option AuthLimiter
  | .elapse duration, s =>
      some { s with now := s.now + duration, store := s.store.drop (s.now + duration) }
  | .begin ip call, s =>
      let client := s.clients ip
      some (s.setClient ip { client with calls := client.calls ++ [call.start] })
  | .execute ip i, s => do
      let stage ← (s.clients ip).calls[i]?
      let command ← stage.command ip
      return s.perform ip i stage command.1 command.2
  | .read ip i, s => do
      let stage ← (s.clients ip).calls[i]?
      if stage = .reading then
        return s.setClient ip ((s.clients ip).setCall i (.counting (s.now / WINDOW_SIZE)))
      else none
  | .fail ip i, s => do
      let stage ← (s.clients ip).calls[i]?
      if stage.live then return s.setClient ip ((s.clients ip).setCall i .raised) else none

/-- No call yet. -/
def initially (now : Nat) : AuthLimiter := ⟨now, .empty, fun _ => ⟨[], [], 0⟩⟩

end AuthLimiter

/-! The keys are different from each other. -/

namespace AuthRateLimiter

variable {ip ip' : String} {minute minute' : Nat}

theorem lockoutKey_inj : lockoutKey ip = lockoutKey ip' ↔ ip = ip' := String.append_right_inj _

theorem failuresKey_inj : failuresKey ip = failuresKey ip' ↔ ip = ip' := String.append_right_inj _

theorem windowKey_inj :
    windowKey ip minute = windowKey ip' minute' ↔ ip = ip' ∧ minute = minute' := by
  constructor
  · intro h
    unfold windowKey at h
    have hlist := congrArg String.toList h
    simp only [String.toList_append, List.append_assoc, List.append_right_inj] at hlist
    obtain ⟨hip, hminute⟩ := Text.append_colon_inj (Text.colon_not_mem_toString minute)
      (Text.colon_not_mem_toString minute') hlist
    exact ⟨String.toList_inj.mp hip, Text.toString_nat_inj (String.toList_inj.mp hminute)⟩
  · rintro ⟨rfl, rfl⟩
    rfl

theorem lockoutKey_ne_windowKey : lockoutKey ip ≠ windowKey ip' minute := by
  intro h
  unfold lockoutKey windowKey at h
  have hlist := congrArg String.toList h
  simp only [String.toList_append] at hlist
  simp at hlist

theorem lockoutKey_ne_failuresKey : lockoutKey ip ≠ failuresKey ip' := by
  intro h
  unfold lockoutKey failuresKey at h
  have hlist := congrArg String.toList h
  simp only [String.toList_append] at hlist
  simp at hlist

theorem failuresKey_ne_windowKey : failuresKey ip ≠ windowKey ip' minute := by
  intro h
  unfold failuresKey windowKey at h
  have hlist := congrArg String.toList h
  simp only [String.toList_append] at hlist
  simp at hlist

end AuthRateLimiter

namespace AuthLimiter

variable {ip : String} {s s' t : AuthLimiter} {label : AuthLabel}

/-! One address at a time. -/

def concerns (ip : String) : AuthLabel → Bool
  | .elapse _ => true
  | .begin ip' _ | .execute ip' _ | .read ip' _ | .fail ip' _ => ip' = ip

/-- The keys of an address. -/
inductive Owns (ip : String) : String → Prop where
  | lockout : Owns ip (lockoutKey ip)
  | failures : Owns ip (failuresKey ip)
  | window (minute : Nat) : Owns ip (windowKey ip minute)

theorem Owns.inj {ip' key : String} (h : Owns ip key) (h' : Owns ip' key) : ip = ip' := by
  generalize hkey : key = key' at h'
  cases h with
  | lockout =>
      cases h' with
      | lockout => exact lockoutKey_inj.mp hkey
      | failures => exact absurd hkey lockoutKey_ne_failuresKey
      | window minute => exact absurd hkey lockoutKey_ne_windowKey
  | failures =>
      cases h' with
      | lockout => exact absurd hkey.symm lockoutKey_ne_failuresKey
      | failures => exact failuresKey_inj.mp hkey
      | window minute => exact absurd hkey failuresKey_ne_windowKey
  | window minute =>
      cases h' with
      | lockout => exact absurd hkey.symm lockoutKey_ne_windowKey
      | failures => exact absurd hkey.symm failuresKey_ne_windowKey
      | window minute' => exact (windowKey_inj.mp hkey).1

theorem owns_of_command {stage : AuthStage} {key : String} {command : Command}
    (h : stage.command ip = some (key, command)) : Owns ip key := by
  cases stage <;> cases h <;> constructor

/-- What an address sees of the state. -/
structure Agree (ip : String) (s t : AuthLimiter) : Prop where
  now : s.now = t.now
  client : s.clients ip = t.clients ip
  store : ∀ key, Owns ip key → s.store key = t.store key

theorem Agree.setClient (hst : Agree ip s t) (client : AuthClient) :
    Agree ip (s.setClient ip client) (t.setClient ip client) := by
  refine ⟨hst.now, ?_, hst.store⟩
  simp [AuthLimiter.setClient]

theorem Agree.step (hst : Agree ip s t) (hconcerns : concerns ip label = true)
    (hstep : AuthLimiter.step label s = some s') :
    ∃ t', AuthLimiter.step label t = some t' ∧ Agree ip s' t' := by
  cases label with
  | elapse duration =>
      obtain rfl := Option.some.inj hstep
      refine ⟨_, rfl, ?_, hst.client, ?_⟩
      · exact congrArg (· + duration) hst.now
      · intro key hkey
        simp only [Store.drop, hst.store key hkey, hst.now]
  | begin ip' call =>
      obtain rfl : ip' = ip := by simpa [concerns] using hconcerns
      obtain rfl := Option.some.inj hstep
      refine ⟨_, ?_, hst.setClient _⟩
      simp [AuthLimiter.step, hst.client]
  | execute ip' i =>
      obtain rfl : ip' = ip := by simpa [concerns] using hconcerns
      obtain ⟨stage, hstage, hstep⟩ := Option.bind_eq_some_iff.mp hstep
      obtain ⟨⟨key, command⟩, hcommand, hstep⟩ := Option.bind_eq_some_iff.mp hstep
      obtain rfl := Option.some.inj hstep
      have hentry := hst.store key (owns_of_command hcommand)
      refine ⟨t.perform ip' i stage key command, ?_, hst.now, ?_, ?_⟩
      · simp [AuthLimiter.step, ← hst.client, hstage, hcommand]
      · simp [perform, AuthLimiter.setClient, hst.now, hst.client, hentry]
      · intro other hother
        by_cases heq : other = key
        · subst heq
          simp [perform, hst.now, hentry]
        · simp [perform, AuthLimiter.setClient, heq, hst.store other hother]
  | read ip' i =>
      obtain rfl : ip' = ip := by simpa [concerns] using hconcerns
      obtain ⟨stage, hstage, hstep⟩ := Option.bind_eq_some_iff.mp hstep
      obtain ⟨hreading, hstep⟩ := Option.ite_none_right_eq_some.mp hstep
      obtain rfl := Option.some.inj hstep
      refine ⟨_, ?_, hst.setClient _⟩
      simp [AuthLimiter.step, ← hst.client, hstage, hreading, hst.now]
  | fail ip' i =>
      obtain rfl : ip' = ip := by simpa [concerns] using hconcerns
      obtain ⟨stage, hstage, hstep⟩ := Option.bind_eq_some_iff.mp hstep
      obtain ⟨hlive, hstep⟩ := Option.ite_none_right_eq_some.mp hstep
      obtain rfl := Option.some.inj hstep
      refine ⟨_, ?_, hst.setClient _⟩
      simp [AuthLimiter.step, ← hst.client, hstage, hlive]

theorem setClient_of_ne {ip' : String} (client : AuthClient) (hne : ip' ≠ ip) :
    (s.setClient ip' client).clients ip = s.clients ip := Function.update_of_ne hne.symm _ _

/-- A step of another address. -/
theorem Agree.skip (hst : Agree ip s t) (hconcerns : concerns ip label = false)
    (hstep : AuthLimiter.step label s = some s') : Agree ip s' t := by
  cases label with
  | elapse duration => cases hconcerns
  | begin ip' call =>
      have hne : ip' ≠ ip := by simpa [concerns] using hconcerns
      obtain rfl := Option.some.inj hstep
      exact ⟨hst.now, (setClient_of_ne _ hne).trans hst.client, hst.store⟩
  | execute ip' i =>
      have hne : ip' ≠ ip := by simpa [concerns] using hconcerns
      obtain ⟨stage, hstage, hstep⟩ := Option.bind_eq_some_iff.mp hstep
      obtain ⟨⟨key, command⟩, hcommand, hstep⟩ := Option.bind_eq_some_iff.mp hstep
      obtain rfl := Option.some.inj hstep
      refine ⟨hst.now, (setClient_of_ne _ hne).trans hst.client, ?_⟩
      intro other hother
      have hkeys : other ≠ key := by
        rintro rfl
        exact hne ((owns_of_command hcommand).inj hother)
      rw [← hst.store other hother]
      exact Function.update_of_ne hkeys _ _
  | read ip' i =>
      have hne : ip' ≠ ip := by simpa [concerns] using hconcerns
      obtain ⟨stage, hstage, hstep⟩ := Option.bind_eq_some_iff.mp hstep
      obtain ⟨-, hstep⟩ := Option.ite_none_right_eq_some.mp hstep
      obtain rfl := Option.some.inj hstep
      exact ⟨hst.now, (setClient_of_ne _ hne).trans hst.client, hst.store⟩
  | fail ip' i =>
      have hne : ip' ≠ ip := by simpa [concerns] using hconcerns
      obtain ⟨stage, hstage, hstep⟩ := Option.bind_eq_some_iff.mp hstep
      obtain ⟨-, hstep⟩ := Option.ite_none_right_eq_some.mp hstep
      obtain rfl := Option.some.inj hstep
      exact ⟨hst.now, (setClient_of_ne _ hne).trans hst.client, hst.store⟩

theorem agree_refl (ip : String) (s : AuthLimiter) : Agree ip s s := ⟨rfl, rfl, fun _ _ => rfl⟩

/-! The requests of a minute. -/

/-- A call that has counted itself in the minute and is not turned away. -/
def passed (minute : Nat) : AuthStage → Bool
  | .expiring minute' | .allowed minute' => minute' = minute
  | _ => false

/-- A check counts itself in the minute in which it has read the clock. -/
def sameMinute (label : AuthLabel) (s : AuthLimiter) : Bool :=
  match label with
  | .execute ip i =>
      match (s.clients ip).calls[i]? with
      | some (.counting minute) => s.now / WINDOW_SIZE = minute
      | _ => true
  | _ => true

def SameMinute (label : AuthLabel) (s : AuthLimiter) : Prop := sameMinute label s = true

instance (label : AuthLabel) (s : AuthLimiter) : Decidable (SameMinute label s) :=
  inferInstanceAs (Decidable (sameMinute label s = true))

/-- `counted`: until the minute is over, the window counts all who have passed. -/
structure Windowed (ip : String) (minute : Nat) (s : AuthLimiter) : Prop where
  bounded : ((s.clients ip).calls.countP (passed minute) : Int) ≤ MAX_REQUESTS
  counted : s.now < minute * WINDOW_SIZE + WINDOW_SIZE →
    ((s.clients ip).calls.countP (passed minute) : Int) ≤ s.store.count (windowKey ip minute)
  kept : ∀ entry deadline, s.store (windowKey ip minute) = some entry →
    entry.expiresAt = some deadline → minute * WINDOW_SIZE + WINDOW_SIZE ≤ deadline
  begun : .expiring minute ∈ (s.clients ip).calls → minute * WINDOW_SIZE ≤ s.now

variable {minute : Nat}

theorem Windowed.of_agree (hs : Windowed ip minute s) (hagree : Agree ip s' s) :
    Windowed ip minute s' := by
  obtain ⟨hnow, hclient, hstore⟩ := hagree
  have hkey := hstore _ (Owns.window minute)
  refine ⟨?_, ?_, ?_, ?_⟩
  · rw [hclient]
    exact hs.bounded
  · rw [hclient, hnow, Store.count, hkey]
    exact hs.counted
  · rw [hkey]
    exact hs.kept
  · rw [hclient, hnow]
    exact hs.begun

/-- A call that moves on without passing, and without touching the window. -/
theorem Windowed.move {i : Nat} {stage : AuthStage} (stage' : AuthStage)
    (hs : Windowed ip minute s) (hget : (s.clients ip).calls[i]? = some stage)
    (hpassed : passed minute stage' = true → passed minute stage = true)
    (hexpiring : stage' ≠ .expiring minute)
    (hnow : s'.now = s.now) (hcalls : (s'.clients ip).calls = (s.clients ip).calls.set i stage')
    (hkey : s'.store (windowKey ip minute) = s.store (windowKey ip minute)) :
    Windowed ip minute s' := by
  have hle := Runs.countP_set_le hget hpassed
  have hle' : ((((s.clients ip).calls.set i stage').countP (passed minute) : Nat) : Int) ≤
      ((s.clients ip).calls.countP (passed minute) : Nat) := by exact_mod_cast hle
  refine ⟨?_, ?_, ?_, ?_⟩
  · rw [hcalls]
    exact hle'.trans hs.bounded
  · rw [hcalls, hnow, Store.count, hkey]
    exact fun h => hle'.trans (hs.counted h)
  · rw [hkey]
    exact hs.kept
  · rw [hcalls, hnow]
    intro hmem
    rcases List.mem_or_eq_of_mem_set hmem with hold | hnew
    · exact hs.begun hold
    · exact absurd hnew.symm hexpiring

theorem Windowed.elapse (hs : Windowed ip minute s) (duration : Nat) :
    Windowed ip minute
      { s with now := s.now + duration, store := s.store.drop (s.now + duration) } := by
  refine ⟨hs.bounded, ?_, ?_, ?_⟩
  · intro hlate
    dsimp only at hlate
    have hkept : s.store.drop (s.now + duration) (windowKey ip minute) =
        s.store (windowKey ip minute) := by
      apply Store.drop_of_kept
      intro entry deadline hentry hdeadline
      have := hs.kept entry deadline hentry hdeadline
      omega
    dsimp only
    rw [Store.count, hkept]
    exact hs.counted (by omega)
  · intro entry deadline hentry hdeadline
    exact hs.kept entry deadline (Store.entry_of_drop hentry) hdeadline
  · exact fun hmem => (hs.begun hmem).trans (Nat.le_add_right _ _)

theorem perform_calls (s : AuthLimiter) (ip : String) (i : Nat) (stage : AuthStage) (key : String)
    (command : Command) :
    ((s.perform ip i stage key command).clients ip).calls = (s.clients ip).calls.set i
      (stage.resume s.now (command.exec s.now (s.store key)).1 ((s.clients ip).due s.now)) := by
  simp [perform, setClient, AuthClient.advance]

theorem perform_store (s : AuthLimiter) (ip : String) (i : Nat) (stage : AuthStage) (key : String)
    (command : Command) :
    (s.perform ip i stage key command).store key = (command.exec s.now (s.store key)).2 :=
  Function.update_self ..

/-- The count that lets a check pass. -/
theorem le_of_passed_answer {now minute' : Nat} {current : Int}
    (h : passed minute
      (if current = 1 then .expiring minute' else AuthStage.answer now minute' current) =
      true) : minute' = minute ∧ current ≤ MAX_REQUESTS := by
  split at h
  · next hone =>
      subst hone
      exact ⟨by simpa [passed] using h, by decide⟩
  · unfold AuthStage.answer at h
    split at h
    · cases h
    · next hle => exact ⟨by simpa [passed] using h, by omega⟩

/-- A check counts itself. -/
theorem Windowed.incr {i : Nat} (hs : Windowed ip minute s)
    (hget : (s.clients ip).calls[i]? = some (.counting minute))
    (hminute : s.now / WINDOW_SIZE = minute) :
    Windowed ip minute (s.perform ip i (.counting minute) (windowKey ip minute) .incr) := by
  have hinside : minute * WINDOW_SIZE ≤ s.now ∧ s.now < minute * WINDOW_SIZE + WINDOW_SIZE := by
    unfold WINDOW_SIZE at hminute ⊢
    omega
  have hcounted := hs.counted hinside.2
  have hone := Runs.countP_set_add (passed minute) hget
    (AuthStage.resume s.now (s.store.count (windowKey ip minute) + 1) ((s.clients ip).due s.now)
      (.counting minute))
  rw [show passed minute (.counting minute) = false from rfl, Bool.toNat_false] at hone
  have hcalls := perform_calls s ip i (.counting minute) (windowKey ip minute) .incr
  have hstore := perform_store s ip i (.counting minute) (windowKey ip minute) .incr
  have hreply : (Command.incr.exec s.now (s.store (windowKey ip minute))).1 =
      s.store.count (windowKey ip minute) + 1 := rfl
  rw [hreply] at hcalls
  -- Whoever passes has found room in the window.
  have hroom : ((passed minute (AuthStage.resume s.now (s.store.count (windowKey ip minute) + 1)
      ((s.clients ip).due s.now) (.counting minute))).toNat : Int) ≤ 1 ∧
      ((s.clients ip).calls.countP (passed minute) : Int) + (passed minute (AuthStage.resume s.now
        (s.store.count (windowKey ip minute) + 1) ((s.clients ip).due s.now)
        (.counting minute))).toNat ≤ MAX_REQUESTS := by
    cases hpassed : passed minute (AuthStage.resume s.now (s.store.count (windowKey ip minute) + 1)
        ((s.clients ip).due s.now) (.counting minute)) with
    | false => exact ⟨by simp, by simpa using hs.bounded⟩
    | true =>
        have hle := (le_of_passed_answer hpassed).2
        exact ⟨by simp, by simp only [Bool.toNat_true]; omega⟩
  refine ⟨?_, ?_, ?_, ?_⟩
  · rw [hcalls]
    omega
  · intro _
    have hcount : (s.perform ip i (.counting minute) (windowKey ip minute) .incr).store.count
        (windowKey ip minute) = s.store.count (windowKey ip minute) + 1 := by
      rw [Store.count, hstore]
      rfl
    rw [hcalls, hcount]
    omega
  · rw [hstore]
    intro entry deadline hentry hdeadline
    obtain rfl := Option.some.inj hentry
    obtain ⟨old, hold, hdeadline⟩ := Option.bind_eq_some_iff.mp hdeadline
    exact hs.kept old deadline hold hdeadline
  · intro _
    exact hinside.1

/-- The first check of a window sets its time to live. -/
theorem Windowed.expire {i : Nat} (hs : Windowed ip minute s)
    (hget : (s.clients ip).calls[i]? = some (.expiring minute)) :
    Windowed ip minute
      (s.perform ip i (.expiring minute) (windowKey ip minute) (.expire WINDOW_SIZE)) := by
  have hcalls := perform_calls s ip i (.expiring minute) (windowKey ip minute)
    (.expire WINDOW_SIZE)
  have hstore := perform_store s ip i (.expiring minute) (windowKey ip minute)
    (.expire WINDOW_SIZE)
  have hbegun := hs.begun (List.mem_of_getElem? hget)
  have hsame := Runs.countP_set_of_eq hget (p := passed minute) (b := .allowed minute) rfl
  have hallowed : AuthStage.resume s.now 0 ((s.clients ip).due s.now) (.expiring minute) =
      .allowed minute := rfl
  have hreply : ((Command.expire WINDOW_SIZE).exec s.now (s.store (windowKey ip minute))).1 = 0 :=
    rfl
  rw [hreply, hallowed] at hcalls
  refine ⟨?_, ?_, ?_, ?_⟩
  · rw [hcalls, hsame]
    exact hs.bounded
  · intro hlate
    have hcount : (s.perform ip i (.expiring minute) (windowKey ip minute)
        (.expire WINDOW_SIZE)).store.count (windowKey ip minute) =
          s.store.count (windowKey ip minute) := by
      rw [Store.count, hstore, Store.count, Command.exec, Option.map_map]
      rfl
    rw [hcalls, hsame, hcount]
    exact hs.counted hlate
  · rw [hstore]
    intro entry deadline hentry hdeadline
    obtain ⟨old, -, rfl⟩ := Option.map_eq_some_iff.mp hentry
    obtain rfl := Option.some.inj hdeadline
    exact Nat.add_le_add_right hbegun _
  · exact fun _ => hbegun

/-- The minute whose window a call counts or limits in time. -/
def minuteOf : AuthStage → Option Nat
  | .counting minute | .expiring minute => some minute
  | _ => none

/-- A call passes only in its minute. -/
theorem minuteOf_resume (ip : String) {now : Nat} {reply : Int} {due : Bool} {stage : AuthStage}
    (hcommand : (stage.command ip).isSome = true)
    (h : passed minute (stage.resume now reply due) = true) : minuteOf stage = some minute := by
  cases stage with
  | counting minute' => exact congrArg some (le_of_passed_answer h).1
  | expiring minute' =>
      have hallowed : AuthStage.resume now reply due (.expiring minute') = .allowed minute' := rfl
      rw [hallowed] at h
      simpa [passed, minuteOf] using h
  | checking | failing | failExpiring | locking | clearing =>
      simp only [AuthStage.resume, AuthStage.locks] at h
      repeat' split at h
      all_goals cases h
  | reading | allowed | lockedOut | limited | recorded | cleared | raised => cases hcommand

/-- The command of another minute, or of none, is about another key. -/
theorem windowKey_ne_of_command {stage : AuthStage} {key : String} {command : Command}
    (hcommand : stage.command ip = some (key, command)) (hother : minuteOf stage ≠ some minute) :
    windowKey ip minute ≠ key := by
  have window {minute' : Nat} (hne : some minute' ≠ some minute) :
      windowKey ip minute ≠ windowKey ip minute' := fun heq =>
    hne (congrArg some (windowKey_inj.mp heq).2.symm)
  cases stage with
  | counting minute' =>
      cases hcommand
      exact window hother
  | expiring minute' =>
      cases hcommand
      exact window hother
  | checking | locking =>
      cases hcommand
      exact lockoutKey_ne_windowKey.symm
  | failing | failExpiring | clearing =>
      cases hcommand
      exact failuresKey_ne_windowKey.symm
  | reading | allowed | lockedOut | limited | recorded | cleared | raised => cases hcommand

theorem Windowed.perform {i : Nat} {stage : AuthStage} {key : String} {command : Command}
    (hs : Windowed ip minute s) (hget : (s.clients ip).calls[i]? = some stage)
    (hminute : SameMinute (.execute ip i) s) (hcommand : stage.command ip = some (key, command)) :
    Windowed ip minute (s.perform ip i stage key command) := by
  by_cases hown : minuteOf stage = some minute
  · cases stage with
    | counting minute' =>
        obtain rfl := Option.some.inj hown
        cases hcommand
        have hnow : s.now / WINDOW_SIZE = minute' := by
          simpa [SameMinute, sameMinute, hget] using hminute
        exact hs.incr hget hnow
    | expiring minute' =>
        obtain rfl := Option.some.inj hown
        cases hcommand
        exact hs.expire hget
    | _ => cases hown
  · have hnot {stage' : AuthStage} (h : stage' = stage.resume s.now
        (command.exec s.now (s.store key)).1 ((s.clients ip).due s.now)) :
        passed minute stage' = false := by
      by_contra hpassed
      subst h
      exact hown (minuteOf_resume ip (by simp [hcommand]) (by simpa using hpassed))
    refine hs.move _ hget ?_ ?_ rfl (perform_calls s ip i stage key command) ?_
    · simp [hnot rfl]
    · intro hexpiring
      have := hnot hexpiring.symm
      simp [passed] at this
    · exact Function.update_of_ne (windowKey_ne_of_command hcommand hown) _ _

theorem Windowed.step (hs : Windowed ip minute s) (hminute : SameMinute label s)
    (hstep : AuthLimiter.step label s = some s') : Windowed ip minute s' := by
  cases hconcerns : concerns ip label with
  | false => exact hs.of_agree ((agree_refl ip s).skip hconcerns hstep)
  | true =>
      cases label with
      | elapse duration => exact Option.some.inj hstep ▸ hs.elapse duration
      | begin ip' call =>
          obtain rfl : ip' = ip := by simpa [concerns] using hconcerns
          obtain rfl := Option.some.inj hstep
          have hnot : passed minute call.start = false := by cases call <;> rfl
          refine ⟨?_, ?_, hs.kept, ?_⟩
          · simpa [setClient, List.countP_append, hnot] using hs.bounded
          · simpa [setClient, List.countP_append, hnot] using hs.counted
          · intro hmem
            simp only [setClient, Function.update_self, List.mem_append, List.mem_singleton] at hmem
            rcases hmem with hold | hnew
            · exact hs.begun hold
            · cases call <;> cases hnew
      | execute ip' i =>
          obtain rfl : ip' = ip := by simpa [concerns] using hconcerns
          obtain ⟨stage, hstage, hstep⟩ := Option.bind_eq_some_iff.mp hstep
          obtain ⟨⟨key, command⟩, hcommand, hstep⟩ := Option.bind_eq_some_iff.mp hstep
          obtain rfl := Option.some.inj hstep
          exact hs.perform hstage hminute hcommand
      | read ip' i =>
          obtain rfl : ip' = ip := by simpa [concerns] using hconcerns
          obtain ⟨stage, hstage, hstep⟩ := Option.bind_eq_some_iff.mp hstep
          obtain ⟨-, hstep⟩ := Option.ite_none_right_eq_some.mp hstep
          obtain rfl := Option.some.inj hstep
          refine hs.move (.counting (s.now / WINDOW_SIZE)) hstage nofun nofun rfl ?_ rfl
          simp [setClient, AuthClient.setCall]
      | fail ip' i =>
          obtain rfl : ip' = ip := by simpa [concerns] using hconcerns
          obtain ⟨stage, hstage, hstep⟩ := Option.bind_eq_some_iff.mp hstep
          obtain ⟨-, hstep⟩ := Option.ite_none_right_eq_some.mp hstep
          obtain rfl := Option.some.inj hstep
          refine hs.move .raised hstage nofun nofun rfl ?_ rfl
          simp [setClient, AuthClient.setCall]

/-! The lockout. -/

/-- A failure of the address that is due for a lockout finds a counter that has
been dropped since the first of the failures. -/
def failureLost (ip : String) (label : AuthLabel) (s : AuthLimiter) : Bool :=
  match label with
  | .execute ip' i =>
      ip' = ip && (s.clients ip).calls[i]? = some .failing && (s.clients ip).due s.now &&
        s.store.count (failuresKey ip) + 1 < MAX_FAILURES
  | _ => false

def FailuresKept (ip : String) (label : AuthLabel) (s : AuthLimiter) : Prop :=
  failureLost ip label s = false

instance (ip : String) (label : AuthLabel) (s : AuthLimiter) :
    Decidable (FailuresKept ip label s) :=
  inferInstanceAs (Decidable (failureLost ip label s = false))

/-- The lockout key lives as long as the lockout lasts. -/
structure Locked (ip : String) (s : AuthLimiter) : Prop where
  present : s.now < (s.clients ip).lockedUntil → ∃ value deadline,
    s.store (lockoutKey ip) = some ⟨value, some deadline⟩ ∧ (s.clients ip).lockedUntil ≤ deadline
  bounded : (s.clients ip).lockedUntil ≤ s.now + FAILURE_LOCKOUT
  early : .failExpiring true ∉ (s.clients ip).calls

theorem Locked.of_agree (hs : Locked ip s) (hagree : Agree ip s' s) : Locked ip s' := by
  obtain ⟨hnow, hclient, hstore⟩ := hagree
  refine ⟨?_, ?_, ?_⟩
  · rw [hclient, hnow, hstore _ Owns.lockout]
    exact hs.present
  · rw [hclient, hnow]
    exact hs.bounded
  · rw [hclient]
    exact hs.early

theorem Locked.elapse (hs : Locked ip s) (duration : Nat) :
    Locked ip { s with now := s.now + duration, store := s.store.drop (s.now + duration) } := by
  refine ⟨?_, hs.bounded.trans (by dsimp only; omega), hs.early⟩
  intro hlate
  dsimp only at hlate
  obtain ⟨value, deadline, hentry, hdeadline⟩ := hs.present (by omega)
  exact ⟨value, deadline, Store.drop_of_lt hentry (by omega), hdeadline⟩

/-- A call that moves on without touching the lockout. -/
theorem Locked.move {i : Nat} (stage' : AuthStage) (hs : Locked ip s)
    (hstage : stage' ≠ .failExpiring true) (hnow : s'.now = s.now)
    (hcalls : (s'.clients ip).calls = (s.clients ip).calls.set i stage')
    (huntil : (s'.clients ip).lockedUntil = (s.clients ip).lockedUntil)
    (hkey : s'.store (lockoutKey ip) = s.store (lockoutKey ip)) : Locked ip s' := by
  refine ⟨?_, ?_, ?_⟩
  · rw [huntil, hnow, hkey]
    exact hs.present
  · rw [huntil, hnow]
    exact hs.bounded
  · rw [hcalls]
    intro hmem
    rcases List.mem_or_eq_of_mem_set hmem with hold | hnew
    · exact hs.early hold
    · exact hstage hnew.symm

theorem perform_lockedUntil (s : AuthLimiter) (ip : String) (i : Nat) (stage : AuthStage)
    (key : String) (command : Command) :
    ((s.perform ip i stage key command).clients ip).lockedUntil =
      if stage.resume s.now (command.exec s.now (s.store key)).1 ((s.clients ip).due s.now) =
          .recorded true then s.now + FAILURE_LOCKOUT
      else (s.clients ip).lockedUntil := by
  simp [perform, setClient, AuthClient.advance]

/-- `SET` starts the lockout anew. -/
theorem Locked.lock {i : Nat} {due : Bool} (hs : Locked ip s) :
    Locked ip (s.perform ip i (.locking due) (lockoutKey ip) (.set 1 FAILURE_LOCKOUT)) := by
  have huntil := perform_lockedUntil s ip i (.locking due) (lockoutKey ip)
    (.set 1 FAILURE_LOCKOUT)
  have hstore := perform_store s ip i (.locking due) (lockoutKey ip)
    (.set 1 FAILURE_LOCKOUT)
  have hle : ((s.perform ip i (.locking due) (lockoutKey ip)
      (.set 1 FAILURE_LOCKOUT)).clients ip).lockedUntil ≤ s.now + FAILURE_LOCKOUT := by
    rw [huntil]
    split
    · exact Nat.le_refl _
    · exact hs.bounded
  refine ⟨fun _ => ⟨1, s.now + FAILURE_LOCKOUT, hstore, hle⟩, hle, ?_⟩
  rw [perform_calls]
  intro hmem
  rcases List.mem_or_eq_of_mem_set hmem with hold | hnew
  · exact hs.early hold
  · cases hnew

/-- The answers of a check end no failure. -/
theorem answer_ne {now minute' : Nat} {current : Int} {due : Bool} :
    AuthStage.answer now minute' current ≠ .failExpiring due ∧
      AuthStage.answer now minute' current ≠ .recorded due := by
  unfold AuthStage.answer
  split <;> exact ⟨nofun, nofun⟩

/-- A failure that is due locks the address out. -/
theorem failing_resume {i : Nat} (hget : (s.clients ip).calls[i]? = some .failing)
    (hkept : FailuresKept ip (.execute ip i) s) :
    AuthStage.resume s.now (s.store.count (failuresKey ip) + 1)
    ((s.clients ip).due s.now) .failing ≠
        .failExpiring true ∧
      AuthStage.resume s.now (s.store.count (failuresKey ip) + 1)
      ((s.clients ip).due s.now) .failing ≠
        .recorded true := by
  cases hdue : (s.clients ip).due s.now with
  | false =>
      simp only [AuthStage.resume, AuthStage.locks]
      split
      · exact ⟨nofun, nofun⟩
      · split <;> exact ⟨nofun, nofun⟩
  | true =>
      have hcount : ¬ s.store.count (failuresKey ip) + 1 < MAX_FAILURES := by
        simpa [FailuresKept, failureLost, hget, hdue] using hkept
      have hone : s.store.count (failuresKey ip) + 1 ≠ 1 := by
        unfold MAX_FAILURES at hcount
        omega
      have hlocks : s.store.count (failuresKey ip) + 1 ≥ MAX_FAILURES := by omega
      rw [AuthStage.resume, if_neg hone, AuthStage.locks, if_pos hlocks]
      exact ⟨nofun, nofun⟩

theorem Locked.perform {i : Nat} {stage : AuthStage} {key : String} {command : Command}
    (hs : Locked ip s) (hget : (s.clients ip).calls[i]? = some stage)
    (hkept : FailuresKept ip (.execute ip i) s)
    (hcommand : stage.command ip = some (key, command)) :
    Locked ip (s.perform ip i stage key command) := by
  have huntil := perform_lockedUntil s ip i stage key command
  have moves (hearly : stage.resume s.now (command.exec s.now (s.store key)).1
        ((s.clients ip).due s.now) ≠ .failExpiring true)
      (hrecorded : stage.resume s.now (command.exec s.now (s.store key)).1
        ((s.clients ip).due s.now) ≠ .recorded true)
      (hkey : (s.perform ip i stage key command).store (lockoutKey ip) = s.store (lockoutKey ip)) :
      Locked ip (s.perform ip i stage key command) :=
    hs.move _ hearly rfl (perform_calls s ip i stage key command)
      (huntil.trans (if_neg hrecorded)) hkey
  have elsewhere (hne : lockoutKey ip ≠ key) :
      (s.perform ip i stage key command).store (lockoutKey ip) = s.store (lockoutKey ip) :=
    Function.update_of_ne hne _ _
  cases stage with
  | checking =>
      cases hcommand
      apply moves
      · rw [AuthStage.resume]
        split <;> nofun
      · rw [AuthStage.resume]
        split <;> nofun
      · exact perform_store s ip i .checking (lockoutKey ip) .ttl
  | counting minute' =>
      cases hcommand
      refine moves ?_ ?_ (elsewhere lockoutKey_ne_windowKey)
      · rw [AuthStage.resume]
        split
        · nofun
        · exact answer_ne.1
      · rw [AuthStage.resume]
        split
        · nofun
        · exact answer_ne.2
  | expiring minute' =>
      cases hcommand
      exact moves answer_ne.1 answer_ne.2 (elsewhere lockoutKey_ne_windowKey)
  | failing =>
      cases hcommand
      obtain ⟨hearly, hrecorded⟩ := failing_resume hget hkept
      exact moves hearly hrecorded (elsewhere lockoutKey_ne_failuresKey)
  | failExpiring due =>
      cases hcommand
      cases due with
      | true => exact absurd (List.mem_of_getElem? hget) hs.early
      | false => exact moves nofun nofun (elsewhere lockoutKey_ne_failuresKey)
  | locking due =>
      cases hcommand
      exact hs.lock
  | clearing =>
      cases hcommand
      exact moves nofun nofun (elsewhere lockoutKey_ne_failuresKey)
  | reading | allowed | lockedOut | limited | recorded | cleared | raised => cases hcommand

theorem Locked.step (hs : Locked ip s) (hkept : FailuresKept ip label s)
    (hstep : AuthLimiter.step label s = some s') : Locked ip s' := by
  cases hconcerns : concerns ip label with
  | false => exact hs.of_agree ((agree_refl ip s).skip hconcerns hstep)
  | true =>
      cases label with
      | elapse duration => exact Option.some.inj hstep ▸ hs.elapse duration
      | begin ip' call =>
          obtain rfl : ip' = ip := by simpa [concerns] using hconcerns
          obtain rfl := Option.some.inj hstep
          refine ⟨?_, ?_, ?_⟩
          · simpa [setClient] using hs.present
          · simpa [setClient] using hs.bounded
          · intro hmem
            simp only [setClient, Function.update_self, List.mem_append, List.mem_singleton] at hmem
            rcases hmem with hold | hnew
            · exact hs.early hold
            · cases call <;> cases hnew
      | execute ip' i =>
          obtain rfl : ip' = ip := by simpa [concerns] using hconcerns
          obtain ⟨stage, hstage, hstep⟩ := Option.bind_eq_some_iff.mp hstep
          obtain ⟨⟨key, command⟩, hcommand, hstep⟩ := Option.bind_eq_some_iff.mp hstep
          obtain rfl := Option.some.inj hstep
          exact hs.perform hstage hkept hcommand
      | read ip' i =>
          obtain rfl : ip' = ip := by simpa [concerns] using hconcerns
          obtain ⟨stage, hstage, hstep⟩ := Option.bind_eq_some_iff.mp hstep
          obtain ⟨-, hstep⟩ := Option.ite_none_right_eq_some.mp hstep
          obtain rfl := Option.some.inj hstep
          refine hs.move (i := i) (.counting (s.now / WINDOW_SIZE)) nofun rfl ?_ ?_ rfl
          · simp [setClient, AuthClient.setCall]
          · simp [setClient, AuthClient.setCall]
      | fail ip' i =>
          obtain rfl : ip' = ip := by simpa [concerns] using hconcerns
          obtain ⟨stage, hstage, hstep⟩ := Option.bind_eq_some_iff.mp hstep
          obtain ⟨-, hstep⟩ := Option.ite_none_right_eq_some.mp hstep
          obtain rfl := Option.some.inj hstep
          refine hs.move (i := i) .raised nofun rfl ?_ ?_ rfl
          · simp [setClient, AuthClient.setCall]
          · simp [setClient, AuthClient.setCall]

/-- A check that starts during the lockout is refused. -/
theorem Locked.refuses {i : Nat} (hs : Locked ip s) (hlocked : s.now < (s.clients ip).lockedUntil)
    (hget : (s.clients ip).calls[i]? = some .checking)
    (hstep : AuthLimiter.step (.execute ip i) s = some s') :
    ∃ retryAfter, (s'.clients ip).calls[i]? = some (.lockedOut retryAfter) := by
  obtain ⟨value, deadline, hentry, hdeadline⟩ := hs.present hlocked
  have hperform : s' = s.perform ip i .checking (lockoutKey ip) .ttl := by
    simpa [AuthLimiter.step, hget, AuthStage.command, eq_comm] using hstep
  have hreply :
      (Command.ttl.exec s.now (s.store (lockoutKey ip))).1 = (deadline : Int) - s.now := by
    rw [hentry]
    rfl
  refine ⟨(deadline : Int) - s.now, ?_⟩
  rw [hperform, perform_calls, hreply, AuthStage.resume, if_pos (by omega)]
  exact List.getElem?_set_self (List.getElem?_eq_some_iff.mp hget).1

theorem windowed_initially (ip : String) (minute now : Nat) :
    Windowed ip minute (initially now) := by
  constructor <;> simp [initially, Store.empty, MAX_REQUESTS, Store.count]

theorem locked_initially (ip : String) (now : Nat) : Locked ip (initially now) := by
  constructor <;> simp [initially]

def isAllowed (minute : Nat) (stage : AuthStage) : Bool := stage = .allowed minute

/-- Throttling of one address over any run: at most `MAX_REQUESTS` checks of a minute
are allowed; a check during a lockout is refused, if no failure that is due finds
its counter dropped; and the calls of the address fare as they do without the
others. -/
theorem auth_throttled (ip : String) {now : Nat} {labels : List AuthLabel}
    (hrun : Runs.run AuthLimiter.step labels (initially now) = some s) :
    (Runs.Meets AuthLimiter.step SameMinute labels (initially now) →
      ∀ minute, ((s.clients ip).calls.countP (isAllowed minute) : Int) ≤ MAX_REQUESTS) ∧
    (Runs.Meets AuthLimiter.step (FailuresKept ip) labels (initially now) →
      s.now < (s.clients ip).lockedUntil →
      ∀ i s', (s.clients ip).calls[i]? = some .checking →
        AuthLimiter.step (.execute ip i) s = some s' →
        ∃ retryAfter, (s'.clients ip).calls[i]? = some (.lockedOut retryAfter)) ∧
    ∃ t, Runs.run AuthLimiter.step (labels.filter (concerns ip)) (initially now) = some t ∧
      t.clients ip = s.clients ip := by
  refine ⟨?_, ?_, ?_⟩
  · intro hminutes minute
    have hs : Windowed ip minute s := Runs.invariant_of_run (Windowed ip minute)
      (fun _ _ _ hs hminute hstep => hs.step hminute hstep) (windowed_initially ip minute now)
      hminutes hrun
    have hle : (s.clients ip).calls.countP (isAllowed minute) ≤
        (s.clients ip).calls.countP (passed minute) := by
      apply List.countP_mono_left
      intro stage _ hallowed
      obtain rfl : stage = .allowed minute := by simpa [isAllowed] using hallowed
      simp [passed]
    have hbounded := hs.bounded
    omega
  · intro hkept hlocked i s' hget hstep
    have hs : Locked ip s := Runs.invariant_of_run (Locked ip)
      (fun _ _ _ hs hkept hstep => hs.step hkept hstep) (locked_initially ip now) hkept hrun
    exact hs.refuses hlocked hget hstep
  · obtain ⟨t, ht, hagree⟩ := Runs.run_filter (concerns ip)
      (fun _ _ _ _ hconcerns hst hstep => hst.step hconcerns hstep)
      (fun _ _ _ _ hconcerns hst hstep => hst.skip hconcerns hstep)
      (agree_refl ip (initially now)) hrun
    exact ⟨t, ht, hagree.client.symm⟩

/-- One failure after the other, from the index on: each counts itself. -/
def failuresFrom (start number : Nat) : List AuthLabel :=
  (List.range' start number).flatMap fun i =>
    [.begin "10.0.0.1" .recordFailure, .execute "10.0.0.1" i]

/-- Twenty failures, of which the first sets the lifetime of the counter and the last
the lockout; a success; a check at the end of the hour. -/
def twentyFailures : List AuthLabel :=
  failuresFrom 0 1 ++ [.execute "10.0.0.1" 0] ++ failuresFrom 1 19 ++
    [.execute "10.0.0.1" 19, .begin "10.0.0.1" .recordSuccess, .execute "10.0.0.1" 20,
      .begin "10.0.0.2" .check, .execute "10.0.0.2" 0, .elapse 3599, .begin "10.0.0.1" .check]

theorem auth_throttled_hour : ∃ s, Runs.run AuthLimiter.step twentyFailures (initially 0) = some s ∧
    (∀ minute, ((s.clients "10.0.0.1").calls.countP (isAllowed minute) : Int) ≤ MAX_REQUESTS) ∧
    (∀ s', AuthLimiter.step (.execute "10.0.0.1" 21) s = some s' →
      ∃ retryAfter, (s'.clients "10.0.0.1").calls[21]? = some (.lockedOut retryAfter)) ∧
    ∃ t, Runs.run AuthLimiter.step (twentyFailures.filter (concerns "10.0.0.1")) (initially 0) =
        some t ∧ t.clients "10.0.0.1" = s.clients "10.0.0.1" := by
  have hminutes : Runs.Meets AuthLimiter.step SameMinute twentyFailures (initially 0) := by
    decide +kernel
  have hkept :
      Runs.Meets AuthLimiter.step (FailuresKept "10.0.0.1") twentyFailures (initially 0) := by
    decide +kernel
  refine ⟨_, rfl, ?_, ?_, ?_⟩
  · exact (auth_throttled "10.0.0.1" rfl).1 hminutes
  · exact fun s' => (auth_throttled "10.0.0.1" rfl).2.1 hkept (by decide +kernel) 21 s'
      (by decide +kernel)
  · exact (auth_throttled "10.0.0.1" rfl).2.2

/-- A failure whose counter expires an hour later, ten failures soon after it, and
ten more when the counter has expired. -/
def straddlingFailures : List AuthLabel :=
  failuresFrom 0 1 ++ [.execute "10.0.0.1" 0, .elapse 100] ++ failuresFrom 1 10 ++
    [.elapse 3550] ++ failuresFrom 11 1 ++ [.execute "10.0.0.1" 11] ++ failuresFrom 12 9 ++
    [.begin "10.0.0.1" .check]

/-- Twenty failures within an hour lock nobody out: the check that follows is allowed. -/
theorem auth_not_throttled :
    (∃ s, Runs.run AuthLimiter.step straddlingFailures (initially 0) = some s ∧
      s.now < (s.clients "10.0.0.1").lockedUntil ∧
      (s.clients "10.0.0.1").calls[21]? = some .checking) ∧
    ∃ s, Runs.run AuthLimiter.step (straddlingFailures ++
        [.execute "10.0.0.1" 21, .read "10.0.0.1" 21, .execute "10.0.0.1" 21,
          .execute "10.0.0.1" 21])
        (initially 0) = some s ∧
      (s.clients "10.0.0.1").calls[21]? = some (.allowed 60) := by
  refine ⟨⟨_, rfl, ?_, ?_⟩, _, rfl, ?_⟩ <;> decide +kernel

end AuthLimiter

end Graveboards.Coordination
