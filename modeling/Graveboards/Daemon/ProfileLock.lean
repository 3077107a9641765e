import Graveboards.Coordination.Lock
import Graveboards.Daemon.Fetcher

/-!
`ProfileFetcher._execute_job` under `auto_retry`, for a user whose lock nobody
else takes: the raw `SET`, `lock_ctx` on the same key, the handlers around it.
An exception of a Redis command reaches the coroutine as the command fails.
-/

namespace Graveboards.Daemon

open Library Library.Redis Coordination

/-- `Namespace.LOCK.hash_name(Namespace.OSU_USER_PROFILE.hash_name(user_id))` -/
def profileLock (userId : Int) : String := "lock:osu_user_profile:" ++ toString userId

/-- Where the execution stands: before the record is read, before the raw `SET`,
past it, in `lock_ctx` (with the failure of the body once it has ended), past the
handlers of an attempt. -/
inductive ProfileStage where
  | reading (attempt : Nat)
  | claiming (attempt : Nat)
  | claimed (attempt : Nat)
  | locked (attempt : Nat) (call : LockCall) (failure : Option FetchFailure)
  | after (stage : FetchStage)

/-- `claimedAt`: the time of the raw `SET`. `waited`: a `SET` of `lock_ctx` found
the key taken; `skipped`: the raw one did; `leftBehind`: an attempt ended with
the key in place. -/
structure ProfileExecution where
  now : Nat
  store : Store String
  stage : ProfileStage
  claimedAt : Nat
  waited : Bool
  skipped : Bool
  leftBehind : Bool

inductive ProfileEvent where
  | elapse (duration : Nat)
  | record (found : Option Bool)
  | claim (delivery : Delivery)
  | enter (token : String) (time : ℚ)
  | lock (event : LockEvent)
  | body (failure : Option FetchFailure)
  | update (raised : Bool)
  | wake

namespace ProfileExecution

variable (userId : Int)

/-- An attempt ends. -/
def leave (stage : FetchStage) (e : ProfileExecution) : ProfileExecution :=
  { e with
    stage := .after stage
    leftBehind := e.leftBehind || e.store.present (profileLock userId) }

/-- The handlers, once `lock_ctx` is over. -/
def handled (attempt : Nat) (failure : Option FetchFailure) : FetchStage :=
  match failure with
  | none => .returned false
  | some failure => FetcherKind.profile.afterFailure attempt failure

/-- The coroutine after an event of `lock_ctx`. -/
def resume (attempt : Nat) (failure : Option FetchFailure) (call : LockCall)
    (e : ProfileExecution) :
    ProfileExecution :=
  match call.stage with
  | .left _ => e.leave userId (handled attempt failure)
  | .lockTimeout => e.leave userId (handled attempt (some .lockTimeout))
  | .failed => e.leave userId (handled attempt (some .other))
  | _ => { e with stage := .locked attempt call failure }

/-- The event is a `SET` that reaches Redis and finds the key. -/
def refused (store : Store String) (key : String) : LockEvent → Bool
  | .set delivery => delivery ≠ .failed && store.present key
  | _ => false

/-- Redis has executed the raw `SET`. -/
def tried (set : Bool × Store String) (e : ProfileExecution) : ProfileExecution :=
  { e with store := set.2, claimedAt := e.now, skipped := e.skipped || !set.1 }

/-- The event is the end of the body. -/
def ends : LockEvent → Bool
  | .exit _ => true
  | _ => false

/-- Redis has executed the command of `lock_ctx`. -/
def executed (key : String) (event : LockEvent) (store : Store String) (e : ProfileExecution) :
    ProfileExecution :=
  { e with store := store, waited := e.waited || refused e.store key event }

def step : ProfileEvent → ProfileExecution → Option ProfileExecution
  | .elapse duration, e =>
      some { e with now := e.now + duration, store := e.store.drop (e.now + duration) }
  | .record found, e =>
      match e.stage with
      | .reading attempt =>
          if found = some true then some { e with stage := .claiming attempt }
          else some (e.leave userId (.returned true))
      | _ => none
  | .claim delivery, e =>
      match e.stage with
      | .claiming attempt =>
          if delivery = .failed then some (e.leave userId (.returned true))
          else
            let set :=
              e.store.setNx (profileLock userId) "locked" (e.now + milliseconds LOCK_EXPIRY)
            if delivery = .lost then some ((e.tried set).leave userId (.returned true))
            else if set.1 then some { e.tried set with stage := .claimed attempt }
            -- Another procedure is updating the user profile data.
            else some ((e.tried set).leave userId (.returned false))
      | _ => none
  | .enter token time, e =>
      match e.stage with
      | .claimed attempt =>
          let call := .enter (profileLock userId) LOCK_EXPIRY LOCK_ACQUISITION_TIMEOUT
            LOCK_ACQUISITION_RETRY_INTERVAL token time
          some { e with stage := .locked attempt call none }
      | _ => none
  | .lock event, e =>
      match e.stage with
      | .locked attempt call failure => do
          guard (¬ ends event)
          let (call', store) ← call.step e.now e.store event
          return (e.executed call.key event store).resume userId attempt failure call'
      | _ => none
  | .body failure, e =>
      match e.stage with
      | .locked attempt call _ => do
          let (call', store) ← call.step e.now e.store (.exit failure.isSome)
          return { e with store := store, stage := .locked attempt call' failure }
      | _ => none
  | .update raised, e =>
      match e.stage with
      | .after .disable => some { e with stage := .after (.returned raised) }
      | _ => none
  | .wake, e =>
      match e.stage with
      | .after (.backoff attempt) => some { e with stage := .reading (attempt + 1) }
      | _ => none

/-- The first attempt. -/
def initially (now : Nat) (store : Store String) : ProfileExecution :=
  ⟨now, store, .reading 1, 0, false, false, false⟩

/-- No `SET` of `lock_ctx` has found the key, no attempt was skipped, and none
has left the key behind. -/
structure Unhindered (e : ProfileExecution) : Prop where
  waited : e.waited = false
  skipped : e.skipped = false
  leftBehind : e.leftBehind = false

/-- The `SET` of `lock_ctx` comes once the one before has expired, and no failure
of Redis leaves a key in place. -/
def Spaced : ProfileEvent → ProfileExecution → Prop
  | .claim .lost, _ => False
  | .lock (.set .lost), _ => False
  | .lock (.set _), e => e.claimedAt + milliseconds LOCK_EXPIRY ≤ e.now
  | .lock (.release .failed), e | .lock .cancel, e =>
      ∀ attempt call failure, e.stage = .locked attempt call failure → call.expiresAt ≤ e.now
  | _, _ => True

/-- What the key holds at each stage, as long as nothing has gone wrong. -/
def Owned (e : ProfileExecution) : Prop :=
  match e.stage with
  | .reading _ | .claiming _ | .after _ => e.store (profileLock userId) = none
  | .claimed _ =>
      e.store.HoldsUntil e.now (profileLock userId) "locked"
        (e.claimedAt + milliseconds LOCK_EXPIRY)
  | .locked _ call _ =>
      call.key = profileLock userId ∧ call.expiry = LOCK_EXPIRY ∧
      match call.stage with
      | .setting _ =>
          e.store.HoldsUntil e.now (profileLock userId) "locked"
            (e.claimedAt + milliseconds LOCK_EXPIRY)
      | .replied _ true | .inside | .releasing _ =>
          e.store.HoldsUntil e.now (profileLock userId) call.token call.expiresAt
      | _ => False

variable {userId} {e e' : ProfileExecution} {event : ProfileEvent}

theorem lt_expiry (now : Nat) : now < now + milliseconds LOCK_EXPIRY := by
  simp [milliseconds, LOCK_EXPIRY]

theorem unhindered_leave (stage : FetchStage) :
    (e.leave userId stage).Unhindered ↔
      e.Unhindered ∧ e.store.present (profileLock userId) = false := by
  constructor
  · rintro ⟨hwaited, hskipped, hleft⟩
    obtain ⟨hleft, hgone⟩ := Bool.or_eq_false_iff.mp hleft
    exact ⟨⟨hwaited, hskipped, hleft⟩, hgone⟩
  · rintro ⟨⟨hwaited, hskipped, hleft⟩, hgone⟩
    exact ⟨hwaited, hskipped, Bool.or_eq_false_iff.mpr ⟨hleft, hgone⟩⟩

/-- Leaving with the key gone. -/
theorem leave_absent (stage : FetchStage) (hgood : e.Unhindered)
    (habsent : e.store (profileLock userId) = none) :
    (e.leave userId stage).Unhindered ∧ (e.leave userId stage).Owned userId := by
  refine ⟨(unhindered_leave stage).mpr ⟨hgood, ?_⟩, habsent⟩
  simp [Store.present, habsent]

/-- Leaving while a key would be in place until a time. -/
theorem leave_timed {value : String} {deadline : Nat} (stage : FetchStage) (hgood : e.Unhindered)
    (hholds : e.store.HoldsUntil e.now (profileLock userId) value deadline) :
    ((e.leave userId stage).Unhindered ↔ deadline ≤ e.now) ∧
      (deadline ≤ e.now → (e.leave userId stage).Owned userId) := by
  refine ⟨?_, fun hdeadline => hholds.absent hdeadline⟩
  rw [unhindered_leave, ← Bool.not_eq_true, hholds.present_iff]
  exact ⟨fun h => Nat.le_of_not_lt h.2, fun h => ⟨hgood, by omega⟩⟩

/-- What a step keeps, as long as nothing has gone wrong, and when it goes wrong. -/
def Outcome (userId : Int) (e e' : ProfileExecution) (event : ProfileEvent) : Prop :=
  (e'.Unhindered ↔ Spaced event e) ∧ (Spaced event e → e'.Owned userId)

theorem outcome_of_kept (hspaced : Spaced event e) (hgood : e'.Unhindered)
    (howned : e'.Owned userId) :
    Outcome userId e e' event :=
  ⟨⟨fun _ => hspaced, fun _ => hgood⟩, fun _ => howned⟩

theorem outcome_claim {delivery : Delivery} (howned : e.Owned userId) (hgood : e.Unhindered)
    (hstep : step userId (.claim delivery) e = some e') :
    Outcome userId e e' (.claim delivery) := by
  unfold step at hstep
  dsimp only at hstep
  split at hstep
  case h_2 => cases hstep
  next attempt hstage =>
  have habsent : e.store (profileLock userId) = none := by simpa [Owned, hstage] using howned
  have hset : e.store.setNx (profileLock userId) "locked" (e.now + milliseconds LOCK_EXPIRY) =
      (true, Function.update e.store (profileLock userId)
        (some ⟨"locked", some (e.now + milliseconds LOCK_EXPIRY)⟩)) := by
    simp [Store.setNx, Store.present, habsent]
  have hholds : Store.HoldsUntil (Function.update e.store (profileLock userId)
      (some ⟨"locked", some (e.now + milliseconds LOCK_EXPIRY)⟩)) e.now
      (profileLock userId) "locked"
      (e.now + milliseconds LOCK_EXPIRY) := .set e.store _ _ (lt_expiry e.now)
  rw [hset] at hstep
  cases delivery with
  | failed =>
      obtain rfl := Option.some.inj hstep
      obtain ⟨hgood', howned'⟩ := leave_absent (.returned true) hgood habsent
      exact outcome_of_kept trivial hgood' howned'
  | lost =>
      obtain rfl := Option.some.inj hstep
      refine ⟨⟨fun hgood' => ?_, False.elim⟩, False.elim⟩
      have hgone := ((unhindered_leave _).mp hgood').2
      have hpresent := hholds.present_iff.mpr (lt_expiry e.now)
      exact Bool.noConfusion (hpresent.symm.trans hgone)
  | done =>
      obtain rfl := Option.some.inj hstep
      exact outcome_of_kept trivial
        ⟨hgood.waited, by simp [tried, hgood.skipped], hgood.leftBehind⟩ hholds

/-- The coroutine leaves with the exception of a command. -/
theorem resume_failed {attempt : Nat} {failure : Option FetchFailure} {call : LockCall}
    (h : call.stage = .failed) :
    e.resume userId attempt failure call = e.leave userId (handled attempt (some .other)) := by
  simp [resume, h]

/-- A command that has not been refused. -/
theorem unhindered_executed {key : String} {event : LockEvent} (store : Store String)
    (hgood : e.Unhindered) (hrefused : refused e.store key event = false) :
    (e.executed key event store).Unhindered :=
  ⟨by simp [executed, hgood.waited, hrefused], hgood.skipped, hgood.leftBehind⟩

/-- A `SET` of `lock_ctx`, before the key it finds has expired or after. -/
theorem outcome_set {delivery : Delivery} {attempt : Nat} {call call' : LockCall}
    {failure : Option FetchFailure} {store : Store String} (howned : e.Owned userId)
    (hgood : e.Unhindered) (hstage : e.stage = .locked attempt call failure)
    (hcall : call.step e.now e.store (.set delivery) = some (call', store)) :
    Outcome userId e
    ((e.executed call.key (.set delivery) store).resume userId attempt failure call')
      (.lock (.set delivery)) := by
  simp only [Owned, hstage] at howned
  obtain ⟨hkey, hexpiry, howned⟩ := howned
  obtain ⟨deadline, hsetting, hset⟩ := LockCall.step_set hcall
  rw [hsetting] at howned
  have hpositive : ¬ call.expiry ≤ 0 := by simp [hexpiry, LOCK_EXPIRY]
  -- The key is there exactly until the one the raw `SET` has set expires.
  have hpresent : e.store.present call.key = true ↔
      e.now < e.claimedAt + milliseconds LOCK_EXPIRY := hkey ▸ howned.present_iff
  cases delivery with
  | failed =>
      rw [if_pos (Or.inl rfl)] at hset
      obtain ⟨rfl, rfl⟩ := hset
      rw [resume_failed rfl]
      exact leave_timed _ (unhindered_executed _ hgood rfl) howned
  | lost =>
      rw [if_neg (by simp [hpositive])] at hset
      obtain ⟨rfl, wrote, rfl⟩ := hset
      rw [resume_failed rfl]
      refine ⟨⟨fun hgood' => ?_, False.elim⟩, False.elim⟩
      obtain ⟨hwaited, hgone⟩ := (unhindered_leave _).mp hgood'
      have habsent : e.store.present call.key = false := by
        simpa [executed, hgood.waited, refused] using hwaited.waited
      rw [Store.setNx_of_absent _ _ habsent] at hgone
      simp [executed, ← hkey, Store.present] at hgone
  | done =>
      rw [if_neg (by simp [hpositive])] at hset
      cases habsent : e.store.present call.key with
      | true =>
          rw [Store.setNx_of_present _ _ habsent] at hset
          obtain ⟨rfl, wrote, rfl⟩ := hset
          have hlate : ¬ Spaced (.lock (.set .done)) e := Nat.not_le_of_lt (hpresent.mp habsent)
          refine ⟨⟨fun hgood' => ?_, fun h => absurd h hlate⟩, fun h => absurd h hlate⟩
          have hwaited := hgood'.waited
          simp [executed, refused, habsent, resume] at hwaited
      | false =>
          rw [Store.setNx_of_absent _ _ habsent] at hset
          obtain ⟨rfl, wrote, rfl⟩ := hset
          have hspaced : Spaced (.lock (.set .done)) e := by
            apply Nat.le_of_not_lt
            exact mt hpresent.mpr (by simp [habsent])
          have hrefused : refused e.store call.key (.set .done) = false := by
            simp [refused, habsent]
          obtain ⟨hwaited, hskipped, hleft⟩ := unhindered_executed
            (Function.update e.store call.key
              (some ⟨call.token, some (e.now + milliseconds call.expiry)⟩)) hgood hrefused
          apply outcome_of_kept hspaced
          · exact ⟨hwaited, hskipped, hleft⟩
          · refine ⟨hkey, hexpiry, ?_⟩
            change Store.HoldsUntil _ _ (profileLock userId) call.token _
            rw [← hkey]
            exact .set e.store _ _ (hexpiry ▸ lt_expiry e.now)

/-- `lock_ctx` fails with its key in place until it expires. -/
theorem outcome_abandoned {event : LockEvent} {attempt : Nat} {call : LockCall}
    {failure : Option FetchFailure} (hgood : e.Unhindered)
    (hstage : e.stage = .locked attempt call failure)
    (hholds : e.store.HoldsUntil e.now (profileLock userId) call.token call.expiresAt)
    (hrefused : refused e.store call.key event = false)
    (hspaced : Spaced (.lock event) e ↔ ∀ attempt call failure,
      e.stage = .locked attempt call failure → call.expiresAt ≤ e.now) :
    Outcome userId e ((e.executed call.key event e.store).resume userId attempt failure
      { call with stage := .failed }) (.lock event) := by
  have hexpired : Spaced (.lock event) e ↔ call.expiresAt ≤ e.now := by
    rw [hspaced]
    constructor
    · intro h
      exact h attempt call failure hstage
    · intro h attempt' call' failure' hstage'
      rw [hstage] at hstage'
      cases hstage'
      exact h
  rw [resume_failed rfl, Outcome, hexpired]
  exact leave_timed _ (unhindered_executed _ hgood hrefused) hholds

theorem outcome_lock {event : LockEvent} {attempt : Nat} {call call' : LockCall}
    {failure : Option FetchFailure} {store : Store String} (howned : e.Owned userId)
    (hgood : e.Unhindered) (hstage : e.stage = .locked attempt call failure)
    (hcall : call.step e.now e.store event = some (call', store)) (hends : ¬ ends event) :
    Outcome userId e ((e.executed call.key event store).resume userId attempt failure call')
      (.lock event) := by
  have hparts := howned
  simp only [Owned, hstage] at hparts
  obtain ⟨hkey, hexpiry, hheld⟩ := hparts
  cases event with
  | set delivery => exact outcome_set howned hgood hstage hcall
  | exit raised => exact absurd rfl hends
  | proceed time =>
      unfold LockCall.step at hcall
      dsimp only at hcall
      split at hcall
      · next deadline hreplied =>
          rw [LockCall.became_same] at hcall
          obtain ⟨rfl, rfl⟩ := Prod.mk.inj (Option.some.inj hcall)
          rw [hreplied] at hheld
          obtain ⟨hwaited, hskipped, hleft⟩ := unhindered_executed e.store hgood
            (show refused e.store call.key (.proceed time) = false from rfl)
          exact outcome_of_kept trivial ⟨hwaited, hskipped, hleft⟩ ⟨hkey, hexpiry, hheld⟩
      · next deadline hreplied =>
          rw [hreplied] at hheld
          exact hheld.elim
      · cases hcall
  | wake time =>
      unfold LockCall.step at hcall
      dsimp only at hcall
      split at hcall
      · next deadline wakeAt hsleeping =>
          rw [hsleeping] at hheld
          exact hheld.elim
      · cases hcall
  | release delivery =>
      unfold LockCall.step at hcall
      dsimp only at hcall
      split at hcall
      case h_2 => cases hcall
      next raised hreleasing =>
      rw [hreleasing] at hheld
      have hgone : (e.store.delIfEq call.key call.token) (profileLock userId) = none := by
        rw [hkey]
        exact hheld.delIfEq
      cases delivery with
      | failed =>
          rw [if_pos rfl, LockCall.became_same] at hcall
          obtain ⟨rfl, rfl⟩ := Prod.mk.inj (Option.some.inj hcall)
          exact outcome_abandoned hgood hstage hheld rfl Iff.rfl
      | done =>
          rw [if_neg nofun] at hcall
          obtain ⟨rfl, rfl⟩ := Prod.mk.inj (Option.some.inj hcall)
          have hreleased : (e.executed call.key (.release .done)
              (e.store.delIfEq call.key call.token)).Unhindered := unhindered_executed _ hgood rfl
          obtain ⟨hgood', howned'⟩ := leave_absent (handled attempt failure) hreleased hgone
          exact outcome_of_kept trivial hgood' howned'
      | lost =>
          rw [if_neg nofun] at hcall
          obtain ⟨rfl, rfl⟩ := Prod.mk.inj (Option.some.inj hcall)
          rw [resume_failed rfl]
          have hreleased : (e.executed call.key (.release .lost)
              (e.store.delIfEq call.key call.token)).Unhindered := unhindered_executed _ hgood rfl
          obtain ⟨hgood', howned'⟩ := leave_absent (handled attempt (some .other)) hreleased hgone
          exact outcome_of_kept trivial hgood' howned'
  | cancel =>
      unfold LockCall.step at hcall
      dsimp only at hcall
      split at hcall
      · next deadline acquired hreplied =>
          rw [LockCall.became_same] at hcall
          obtain ⟨rfl, rfl⟩ := Prod.mk.inj (Option.some.inj hcall)
          rw [hreplied] at hheld
          cases acquired with
          | true => exact outcome_abandoned hgood hstage hheld rfl Iff.rfl
          | false => exact hheld.elim
      · next deadline wakeAt hsleeping =>
          rw [hsleeping] at hheld
          exact hheld.elim
      · cases hcall

theorem owned_elapse {duration : Nat} (howned : e.Owned userId) :
    Owned userId { e with
      now := e.now + duration, store := e.store.drop (e.now + duration) } := by
  have hlater : e.now ≤ e.now + duration := Nat.le_add_right ..
  unfold Owned at howned ⊢
  cases hstage : e.stage with
  | reading | claiming | after =>
      rw [hstage] at howned
      exact Store.drop_absent _ howned
  | claimed attempt =>
      rw [hstage] at howned
      exact howned.drop hlater
  | locked attempt call failure =>
      rw [hstage] at howned
      obtain ⟨hkey, hexpiry, hheld⟩ := howned
      refine ⟨hkey, hexpiry, ?_⟩
      dsimp only
      split at hheld <;> first | exact hheld.drop hlater | exact hheld.elim

/-- What one step does to an execution that nothing has hindered so far. -/
theorem step_outcome (howned : e.Owned userId) (hgood : e.Unhindered)
    (hstep : step userId event e = some e') : Outcome userId e e' event := by
  cases event with
  | elapse duration =>
      obtain rfl := Option.some.inj hstep
      exact outcome_of_kept trivial ⟨hgood.waited, hgood.skipped, hgood.leftBehind⟩
        (owned_elapse howned)
  | claim delivery => exact outcome_claim howned hgood hstep
  | record found =>
      unfold step at hstep
      dsimp only at hstep
      split at hstep
      case h_2 => cases hstep
      next attempt hstage =>
      have habsent : e.store (profileLock userId) = none := by simpa [Owned, hstage] using howned
      split at hstep
      · obtain rfl := Option.some.inj hstep
        exact outcome_of_kept trivial ⟨hgood.waited, hgood.skipped, hgood.leftBehind⟩ habsent
      · obtain rfl := Option.some.inj hstep
        obtain ⟨hgood', howned'⟩ := leave_absent (.returned true) hgood habsent
        exact outcome_of_kept trivial hgood' howned'
  | enter token time =>
      unfold step at hstep
      dsimp only at hstep
      split at hstep
      case h_2 => cases hstep
      next attempt hstage =>
      obtain rfl := Option.some.inj hstep
      simp only [Owned, hstage] at howned
      exact outcome_of_kept trivial ⟨hgood.waited, hgood.skipped, hgood.leftBehind⟩
        ⟨rfl, rfl, howned⟩
  | lock event =>
      unfold step at hstep
      dsimp only at hstep
      split at hstep
      case h_2 => cases hstep
      next attempt call failure hstage =>
      obtain ⟨_, hends, hstep⟩ := Option.bind_eq_some_iff.mp hstep
      obtain ⟨⟨call', store'⟩, hcall, hstep⟩ := Option.bind_eq_some_iff.mp hstep
      obtain rfl := Option.some.inj hstep
      exact outcome_lock howned hgood hstage hcall (by simpa using hends)
  | body failure =>
      unfold step at hstep
      dsimp only at hstep
      split at hstep
      case h_2 => cases hstep
      next attempt call failure' hstage =>
      obtain ⟨⟨call', store'⟩, hcall, hstep⟩ := Option.bind_eq_some_iff.mp hstep
      obtain rfl := Option.some.inj hstep
      simp only [Owned, hstage] at howned
      obtain ⟨hkey, hexpiry, hheld⟩ := howned
      unfold LockCall.step at hcall
      dsimp only at hcall
      split at hcall
      · next hinside =>
          rw [LockCall.became_same] at hcall
          obtain ⟨rfl, rfl⟩ := Prod.mk.inj (Option.some.inj hcall)
          rw [hinside] at hheld
          exact outcome_of_kept trivial ⟨hgood.waited, hgood.skipped, hgood.leftBehind⟩
            ⟨hkey, hexpiry, hheld⟩
      · cases hcall
  | update raised =>
      unfold step at hstep
      dsimp only at hstep
      split at hstep
      · next hstage =>
          obtain rfl := Option.some.inj hstep
          simp only [Owned, hstage] at howned
          exact outcome_of_kept trivial ⟨hgood.waited, hgood.skipped, hgood.leftBehind⟩ howned
      · cases hstep
  | wake =>
      unfold step at hstep
      dsimp only at hstep
      split at hstep
      · next attempt hstage =>
          obtain rfl := Option.some.inj hstep
          simp only [Owned, hstage] at howned
          exact outcome_of_kept trivial ⟨hgood.waited, hgood.skipped, hgood.leftBehind⟩ howned
      · cases hstep

/-! What has gone wrong stays wrong. -/

theorem unhindered_of_leave {stage : FetchStage} (h : (e.leave userId stage).Unhindered) :
    e.Unhindered := ((unhindered_leave stage).mp h).1

theorem unhindered_of_resume {attempt : Nat} {failure : Option FetchFailure} {call : LockCall}
    (h : (e.resume userId attempt failure call).Unhindered) : e.Unhindered := by
  unfold resume at h
  split at h
  · exact unhindered_of_leave h
  · exact unhindered_of_leave h
  · exact unhindered_of_leave h
  · exact ⟨h.waited, h.skipped, h.leftBehind⟩

theorem unhindered_of_executed {key : String} {event : LockEvent} {store : Store String}
    (h : (e.executed key event store).Unhindered) : e.Unhindered :=
  ⟨(Bool.or_eq_false_iff.mp h.waited).1, h.skipped, h.leftBehind⟩

theorem unhindered_of_tried {set : Bool × Store String} (h : (e.tried set).Unhindered) :
    e.Unhindered := ⟨h.waited, (Bool.or_eq_false_iff.mp h.skipped).1, h.leftBehind⟩

theorem unhindered_of_step (hstep : step userId event e = some e') (h : e'.Unhindered) :
    e.Unhindered := by
  cases event with
  | elapse duration =>
      obtain rfl := Option.some.inj hstep
      exact ⟨h.waited, h.skipped, h.leftBehind⟩
  | record found =>
      unfold step at hstep
      dsimp only at hstep
      split at hstep
      case h_2 => cases hstep
      split at hstep
      · obtain rfl := Option.some.inj hstep
        exact ⟨h.waited, h.skipped, h.leftBehind⟩
      · obtain rfl := Option.some.inj hstep
        exact unhindered_of_leave h
  | claim delivery =>
      unfold step at hstep
      dsimp only at hstep
      split at hstep
      case h_2 => cases hstep
      split at hstep
      · obtain rfl := Option.some.inj hstep
        exact unhindered_of_leave h
      · split at hstep
        · obtain rfl := Option.some.inj hstep
          exact unhindered_of_tried (unhindered_of_leave h)
        · split at hstep
          · obtain rfl := Option.some.inj hstep
            exact unhindered_of_tried ⟨h.waited, h.skipped, h.leftBehind⟩
          · obtain rfl := Option.some.inj hstep
            exact unhindered_of_tried (unhindered_of_leave h)
  | enter token time =>
      unfold step at hstep
      dsimp only at hstep
      split at hstep
      case h_2 => cases hstep
      obtain rfl := Option.some.inj hstep
      exact ⟨h.waited, h.skipped, h.leftBehind⟩
  | lock event =>
      unfold step at hstep
      dsimp only at hstep
      split at hstep
      case h_2 => cases hstep
      obtain ⟨_, -, hstep⟩ := Option.bind_eq_some_iff.mp hstep
      obtain ⟨⟨call', store'⟩, -, hstep⟩ := Option.bind_eq_some_iff.mp hstep
      obtain rfl := Option.some.inj hstep
      exact unhindered_of_executed (unhindered_of_resume h)
  | body failure =>
      unfold step at hstep
      dsimp only at hstep
      split at hstep
      case h_2 => cases hstep
      obtain ⟨⟨call', store'⟩, -, hstep⟩ := Option.bind_eq_some_iff.mp hstep
      obtain rfl := Option.some.inj hstep
      exact ⟨h.waited, h.skipped, h.leftBehind⟩
  | update raised =>
      unfold step at hstep
      dsimp only at hstep
      split at hstep
      case h_2 => cases hstep
      obtain rfl := Option.some.inj hstep
      exact ⟨h.waited, h.skipped, h.leftBehind⟩
  | wake =>
      unfold step at hstep
      dsimp only at hstep
      split at hstep
      case h_2 => cases hstep
      obtain rfl := Option.some.inj hstep
      exact ⟨h.waited, h.skipped, h.leftBehind⟩

/-- An execution that starts with the lock free makes progress without its own
key in the way if and only if every `SET` of `lock_ctx` comes after the expiry of
the raw one. -/
theorem unhindered_iff_spaced (userId : Int) {now : Nat} {store : Store String}
    {labels : List ProfileEvent} (hfree : store (profileLock userId) = none)
    (hrun : Runs.run (step userId) labels (initially now store) = some e) :
    e.Unhindered ↔ Runs.Meets (step userId) Spaced labels (initially now store) :=
  Runs.good_iff_meets (Owned userId) (fun _ _ _ => unhindered_of_step)
    (fun _ _ _ howned hgood hstep => (step_outcome howned hgood hstep).1)
    (fun _ _ _ howned hgood hspaced hstep => (step_outcome howned hgood hstep).2 hspaced)
    hfree ⟨rfl, rfl, rfl⟩ hrun

/-- The run of a fetch without any delay. -/
def promptFetch : List ProfileEvent :=
  [.record (some true), .claim .done, .enter "t" 0, .lock (.set .done)]

/-- Its `SET` finds the key it has itself set a moment ago. -/
theorem unhindered_prompt : ∃ e, Runs.run (step 7) promptFetch (initially 0 Store.empty) = some e ∧
    e.waited = true := by
  have hfacts : (Runs.run (step 7) promptFetch (initially 0 Store.empty)).any
      (fun e => e.waited) = true := by decide +kernel
  exact (Option.any_eq_true _ _).mp hfacts

/-- A fetch that is held up for ten seconds between its two locks. -/
theorem unhindered_iff_spaced_late : ∃ e,
    Runs.run (step 7)
      [.record (some true), .claim .done, .elapse 10000, .enter "t" 10, .lock (.set .done),
        .lock (.proceed 10), .body none, .lock (.release .done)] (initially 0 Store.empty) =
          some e ∧
    (e.Unhindered ↔ Runs.Meets (step 7) Spaced
      [.record (some true), .claim .done, .elapse 10000, .enter "t" 10, .lock (.set .done),
        .lock (.proceed 10), .body none, .lock (.release .done)] (initially 0 Store.empty)) := by
  have hfacts : (Runs.run (step 7)
      [.record (some true), .claim .done, .elapse 10000, .enter "t" 10, .lock (.set .done),
        .lock (.proceed 10), .body none, .lock (.release .done)]
      (initially 0 Store.empty)).isSome = true := by decide +kernel
  obtain ⟨e, hrun⟩ := Option.isSome_iff_exists.mp hfacts
  exact ⟨e, hrun, unhindered_iff_spaced 7 rfl hrun⟩

end ProfileExecution

end Graveboards.Daemon
