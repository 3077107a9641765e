import Graveboards.Library.Redis
import Graveboards.Library.Runs

/-!
`RedisClient.lock_ctx` by any number of clients on any keys. A client moves from
one of its awaits to the next; Redis executes the command of a client at any
time after it was sent, and replies at any time after that. A command is sent
once: nothing between the client and Redis repeats it.
-/

namespace Graveboards.Coordination

open Library Library.Redis

def LOCK_EXPIRY : Int := 10
def LOCK_ACQUISITION_TIMEOUT : ℚ := 10
def LOCK_ACQUISITION_RETRY_INTERVAL : ℚ := 1

/-- Where `lock_ctx` stands: before a `SET`, with its reply, asleep until the next
try, in the body, after it (the exception of the body, if any, is raised once the
script has run), and at the end. -/
inductive LockStage where
  | setting (deadline : ℚ)
  | replied (deadline : ℚ) (acquired : Bool)
  | sleeping (deadline wakeAt : ℚ)
  | inside
  | releasing (raised : Bool)
  | left (raised : Bool)
  | lockTimeout
  | failed
  deriving DecidableEq

/-- One call of `lock_ctx`. Redis drops the key it set at `expiresAt`; `wrote`:
a command of its own has changed the entry of the key. -/
structure LockCall where
  key : String
  expiry : Int
  timeout : ℚ
  retryInterval : ℚ
  token : String
  stage : LockStage
  expiresAt : Nat
  wrote : Bool
  deriving DecidableEq

/-- What happens to a call: Redis executes its command, its coroutine goes on. -/
inductive LockEvent where
  | set (delivery : Delivery)
  | proceed (time : ℚ)
  | wake (time : ℚ)
  | exit (raised : Bool)
  | release (delivery : Delivery)
  | cancel
  deriving DecidableEq

/-- The stages from the successful `SET` to the script. -/
def LockStage.holds : LockStage → Bool
  | .replied _ acquired => acquired
  | .inside | .releasing _ => true
  | _ => false

/-- The stages before a successful `SET`. -/
def LockStage.waits : LockStage → Bool
  | .setting _ | .sleeping _ _ | .lockTimeout => true
  | .replied _ acquired => !acquired
  | _ => false

/-- The clock of Redis counts milliseconds. -/
def milliseconds (seconds : Int) : Nat := (seconds * 1000).toNat

namespace LockCall

/-- The call at `time` of the loop, with a fresh token. -/
def enter (key : String) (expiry : Int) (timeout retryInterval : ℚ) (token : String) (time : ℚ) :
    LockCall :=
  ⟨key, expiry, timeout, retryInterval, token, .setting (time + timeout), 0, false⟩

/-- The next stage, with what the command has done to the store. -/
def became (stage : LockStage) (store store' : Store String) (c : LockCall) :
    LockCall × Store String :=
  ({ c with stage := stage, wrote := c.wrote || decide (store' c.key ≠ store c.key) }, store')

/-- `now` is the clock of Redis, the times in the events are those of the loop. -/
def step (now : Nat) (store : Store String) (c : LockCall) :
    LockEvent → Option (LockCall × Store String)
  | .set delivery =>
      match c.stage with
      | .setting deadline =>
          -- Redis refuses an expire time that is not positive.
          if delivery = .failed ∨ c.expiry ≤ 0 then some (c.became .failed store store)
          else
            let expiresAt := now + milliseconds c.expiry
            let set := store.setNx c.key c.token expiresAt
            let stage := if delivery = .lost then .failed else .replied deadline set.1
            some ({ c with expiresAt := expiresAt }.became stage store set.2)
      | _ => none
  | .proceed time =>
      match c.stage with
      | .replied _ true => some (c.became .inside store store)
      | .replied deadline false =>
          if time > deadline then some (c.became .lockTimeout store store)
          else some (c.became (.sleeping deadline (time + c.retryInterval)) store store)
      | _ => none
  | .wake time =>
      match c.stage with
      | .sleeping deadline wakeAt =>
          if wakeAt ≤ time then some (c.became (.setting deadline) store store) else none
      | _ => none
  | .exit raised =>
      match c.stage with
      | .inside => some (c.became (.releasing raised) store store)
      | _ => none
  | .release delivery =>
      match c.stage with
      | .releasing raised =>
          if delivery = .failed then some (c.became .failed store store)
          else
            let stage := if delivery = .lost then .failed else .left raised
            some (c.became stage store (store.delIfEq c.key c.token))
      | _ => none
  | .cancel =>
      match c.stage with
      | .replied _ _ | .sleeping _ _ => some (c.became .failed store store)
      | _ => none

end LockCall

/-- Redis and the calls made so far. -/
structure Locks where
  now : Nat
  store : Store String
  calls : List LockCall

inductive LockLabel where
  | elapse (duration : Nat)
  | enter (key : String) (expiry : Int) (timeout retryInterval : ℚ) (token : String) (time : ℚ)
  | call (i : Nat) (event : LockEvent)
  deriving DecidableEq

namespace Locks

/-- A new token differs from all those before. -/
def step : LockLabel → Locks → Option Locks
  | .elapse duration, w =>
      some { w with now := w.now + duration, store := w.store.drop (w.now + duration) }
  | .enter key expiry timeout retryInterval token time, w =>
      if w.calls.all (fun c => c.token ≠ token) then
        some { w with
          calls := w.calls ++ [.enter key expiry timeout retryInterval token time] }
      else none
  | .call i event, w => do
      let c ← w.calls[i]?
      let (c', store) ← c.step w.now w.store event
      return { w with store := store, calls := w.calls.set i c' }

/-- No call yet, over any store. -/
def initially (now : Nat) (store : Store String) : Locks := ⟨now, store, []⟩

end Locks

/-! What one event does. -/

namespace LockCall

variable {now : Nat} {store store' : Store String} {c c' : LockCall} {event : LockEvent}

/-- A call that keeps the store, one that sets its key, and one that runs the script. -/
inductive Effect (now : Nat) (store : Store String) (c : LockCall) :
    LockEvent → LockCall → Store String → Prop where
  | quiet (event : LockEvent) (stage : LockStage) (expiresAt : Nat)
      (hholds : stage.holds = true → c.stage.holds = true ∧ expiresAt = c.expiresAt)
      (hwaits : stage.waits = true → c.stage.waits = true) :
      Effect now store c event { c with stage := stage, expiresAt := expiresAt } store
  | acquired (delivery : Delivery) (stage : LockStage) (expiresAt : Nat) (wrote : Bool)
      (hfree : store.present c.key = false) (hwaits : stage.waits = false)
      (hwrote : wrote = true) :
      Effect now store c (.set delivery)
        { c with stage := stage, expiresAt := expiresAt, wrote := wrote }
        (Function.update store c.key (some ⟨c.token, some expiresAt⟩))
  | released (delivery : Delivery) (stage : LockStage) (wrote : Bool)
      (hholds : stage.holds = false) (hwaits : stage.waits = false)
      (hwrote : wrote = false → c.wrote = false ∧ store.delIfEq c.key c.token = store) :
      Effect now store c (.release delivery) { c with stage := stage, wrote := wrote }
        (store.delIfEq c.key c.token)

theorem became_same (stage : LockStage) (store : Store String) (c : LockCall) :
    c.became stage store store = ({ c with stage := stage }, store) := by
  simp [became]

/-- A `SET` that is not executed, and one that is. -/
theorem step_set {delivery : Delivery}
    (hstep : c.step now store (.set delivery) = some (c', store')) :
    ∃ deadline, c.stage = .setting deadline ∧
      if delivery = .failed ∨ c.expiry ≤ 0 then c' = { c with stage := .failed } ∧ store' = store
      else
        let set := store.setNx c.key c.token (now + milliseconds c.expiry)
        store' = set.2 ∧ ∃ wrote, c' = { c with
          stage := if delivery = .lost then .failed else .replied deadline set.1
          expiresAt := now + milliseconds c.expiry
          wrote := wrote } := by
  unfold step at hstep
  dsimp only at hstep
  split at hstep
  case h_2 => cases hstep
  next deadline hstage =>
  refine ⟨deadline, hstage, ?_⟩
  split at hstep
  · next hrefused =>
      rw [became_same] at hstep
      obtain ⟨rfl, rfl⟩ := Prod.mk.inj (Option.some.inj hstep)
      rw [if_pos hrefused]
      exact ⟨rfl, rfl⟩
  · next hexecuted =>
      obtain ⟨rfl, rfl⟩ := Prod.mk.inj (Option.some.inj hstep)
      rw [if_neg hexecuted]
      exact ⟨rfl, _, rfl⟩

theorem step_effect (hstep : c.step now store event = some (c', store')) :
    Effect now store c event c' store' := by
  have quiet {event : LockEvent} (stage : LockStage)
      (hholds : stage.holds = true → c.stage.holds = true)
      (hwaits : stage.waits = true → c.stage.waits = true)
      (hbecame : some (c.became stage store store) = some (c', store')) :
      Effect now store c event c' store' := by
    rw [became_same] at hbecame
    obtain ⟨rfl, rfl⟩ := Prod.mk.inj (Option.some.inj hbecame)
    exact .quiet event stage c.expiresAt (fun h => ⟨hholds h, rfl⟩) hwaits
  cases event with
  | set delivery =>
      unfold step at hstep
      dsimp only at hstep
      split at hstep
      · next deadline hstage =>
          split at hstep
          · exact quiet .failed (by simp [LockStage.holds]) (by simp [LockStage.waits]) hstep
          · obtain ⟨rfl, rfl⟩ := Prod.mk.inj (Option.some.inj hstep)
            cases hpresent : store.present c.key with
            | true =>
                simp only [Store.setNx, hpresent, ne_eq, not_true_eq_false, decide_false,
                  Bool.or_false, if_true]
                apply Effect.quiet
                · split <;> simp [LockStage.holds]
                · simp [hstage, LockStage.waits]
            | false =>
                simp only [Store.setNx, hpresent, Bool.false_eq_true, if_false]
                apply Effect.acquired delivery _ _ _ hpresent
                · split <;> rfl
                · simp [Store.absent_of_not_present hpresent]
      · cases hstep
  | proceed time =>
      unfold step at hstep
      dsimp only at hstep
      split at hstep
      · next deadline hstage =>
          exact quiet .inside (by simp [hstage, LockStage.holds]) (by simp [LockStage.waits]) hstep
      · next deadline hstage =>
          split at hstep
          · exact quiet .lockTimeout (by simp [LockStage.holds])
              (by simp [hstage, LockStage.waits]) hstep
          · exact quiet (.sleeping deadline (time + c.retryInterval)) (by simp [LockStage.holds])
              (by simp [hstage, LockStage.waits]) hstep
      · cases hstep
  | wake time =>
      unfold step at hstep
      dsimp only at hstep
      split at hstep
      · next deadline wakeAt hstage =>
          obtain ⟨-, hstep⟩ := Option.ite_none_right_eq_some.mp hstep
          exact quiet (.setting deadline) (by simp [LockStage.holds])
            (by simp [hstage, LockStage.waits]) hstep
      · cases hstep
  | exit raised =>
      unfold step at hstep
      dsimp only at hstep
      split at hstep
      · next hstage =>
          exact quiet (.releasing raised) (by simp [hstage, LockStage.holds])
            (by simp [LockStage.waits]) hstep
      · cases hstep
  | release delivery =>
      unfold step at hstep
      dsimp only at hstep
      split at hstep
      · split at hstep
        · exact quiet .failed (by simp [LockStage.holds]) (by simp [LockStage.waits]) hstep
        · obtain ⟨rfl, rfl⟩ := Prod.mk.inj (Option.some.inj hstep)
          apply Effect.released
          · split <;> rfl
          · split <;> rfl
          · intro hwrote
            obtain ⟨hold, hentry⟩ : c.wrote = false ∧
                store.delIfEq c.key c.token c.key = store c.key := by
              simpa using hwrote
            refine ⟨hold, funext fun key => ?_⟩
            rcases Store.delIfEq_eq_or c.key c.token store key with hkey | ⟨rfl, -⟩
            · exact hkey
            · exact hentry
      · cases hstep
  | cancel =>
      unfold step at hstep
      dsimp only at hstep
      split at hstep
      · exact quiet .failed (by simp [LockStage.holds]) (by simp [LockStage.waits]) hstep
      · exact quiet .failed (by simp [LockStage.holds]) (by simp [LockStage.waits]) hstep
      · cases hstep

/-- A call that has changed the store, now or before, is marked. -/
theorem Effect.marked (heffect : c.Effect now store event c' store')
    (hunmarked : c'.wrote = false) : c.wrote = false ∧ store' = store := by
  cases heffect with
  | quiet => exact ⟨hunmarked, rfl⟩
  | acquired delivery stage expiresAt wrote hfree hwaits hwrote =>
      rw [show wrote = false from hunmarked] at hwrote
      cases hwrote
  | released delivery stage wrote hholds hwaits hwrote => exact hwrote hunmarked

end LockCall

namespace Locks

variable {w w' : Locks}

/-- The call holds its key and Redis has not dropped it. -/
def holding (w : Locks) (c : LockCall) : Prop := c.stage.holds = true ∧ w.now < c.expiresAt

/-- `held`: the key of a call that holds it has the token of the call. -/
structure Exclusive (w : Locks) : Prop where
  tokens : ∀ (i j : Nat) (c d : LockCall), w.calls[i]? = some c → w.calls[j]? = some d →
    c.token = d.token → i = j
  held : ∀ (i : Nat) (c : LockCall), w.calls[i]? = some c → w.holding c →
    w.store c.key = some ⟨c.token, some c.expiresAt⟩
  unchanged : ∀ (i : Nat) (c : LockCall), w.calls[i]? = some c → c.stage.waits = true →
    c.wrote = false

theorem exclusive_initially (now : Nat) (store : Store String) :
    (initially now store).Exclusive := by
  constructor <;> simp [initially]

theorem exclusive_enter (c : LockCall) (hw : w.Exclusive)
    (hfresh : ∀ d ∈ w.calls, d.token ≠ c.token) (hholds : c.stage.holds = false)
    (hwrote : c.wrote = false) : Exclusive { w with calls := w.calls ++ [c] } := by
  constructor
  · intro i j d e hi hj htoken
    rcases Runs.getElem?_concat_cases hi with ⟨rfl, rfl⟩ | hold
    · rcases Runs.getElem?_concat_cases hj with ⟨rfl, rfl⟩ | hold'
      · rfl
      · exact absurd htoken.symm (hfresh e (List.mem_of_getElem? hold'))
    · rcases Runs.getElem?_concat_cases hj with ⟨rfl, rfl⟩ | hold'
      · exact absurd htoken (hfresh d (List.mem_of_getElem? hold))
      · exact hw.tokens i j d e hold hold' htoken
  · rintro i d hi ⟨hd, htime⟩
    rcases Runs.getElem?_concat_cases hi with ⟨rfl, rfl⟩ | hi
    · rw [hholds] at hd
      cases hd
    · exact hw.held i d hi ⟨hd, htime⟩
  · intro i d hi hd
    rcases Runs.getElem?_concat_cases hi with ⟨rfl, rfl⟩ | hi
    · exact hwrote
    · exact hw.unchanged i d hi hd

theorem exclusive_call {i : Nat} {c c' : LockCall} {store' : Store String} {event : LockEvent}
    (hw : w.Exclusive) (hget : w.calls[i]? = some c)
    (heffect : c.Effect w.now w.store event c' store') :
    Exclusive { w with store := store', calls := w.calls.set i c' } := by
  have hsame : c'.key = c.key ∧ c'.token = c.token := by
    cases heffect <;> exact ⟨rfl, rfl⟩
  -- What the step may do to the key of another call that holds it.
  have hother {j : Nat} {d : LockCall} (hj : w.calls[j]? = some d) (hne : j ≠ i)
      (hd : w.holding d) : store' d.key = some ⟨d.token, some d.expiresAt⟩ := by
    have hkey := hw.held j d hj hd
    cases heffect with
    | quiet => exact hkey
    | acquired delivery stage expiresAt wrote hfree =>
        have hkeys : d.key ≠ c.key := by
          intro heq
          rw [← heq, Store.present, hkey] at hfree
          cases hfree
        rw [Function.update_of_ne hkeys, hkey]
    | released =>
        rcases Store.delIfEq_eq_or c.key c.token w.store d.key with hstore | ⟨hkeys, hvalue⟩
        · rw [hstore, hkey]
        · rw [← hkeys, hkey] at hvalue
          exact absurd (hw.tokens j i d c hj hget (Option.some.inj hvalue)) hne
  constructor
  · intro j k d e hj hk htoken
    rcases Runs.getElem?_set_cases hj with ⟨rfl, rfl⟩ | ⟨-, hold⟩
    · rcases Runs.getElem?_set_cases hk with ⟨rfl, rfl⟩ | ⟨-, hold'⟩
      · rfl
      · exact hw.tokens j k c e hget hold' (hsame.2 ▸ htoken)
    · rcases Runs.getElem?_set_cases hk with ⟨rfl, rfl⟩ | ⟨-, hold'⟩
      · exact hw.tokens j k d c hold hget (hsame.2 ▸ htoken)
      · exact hw.tokens j k d e hold hold' htoken
  · intro j d hj hd
    rcases Runs.getElem?_set_cases hj with ⟨rfl, rfl⟩ | ⟨hji, hj⟩
    · obtain ⟨hholds, htime⟩ := hd
      cases heffect with
      | quiet event stage expiresAt hholds' =>
          obtain ⟨hc, rfl⟩ := hholds' hholds
          exact hw.held j c hget ⟨hc, htime⟩
      | acquired => exact Function.update_self ..
      | released delivery stage wrote hleft =>
          rw [show stage.holds = true from hholds] at hleft
          cases hleft
    · exact hother hj hji hd
  · intro j d hj hd
    rcases Runs.getElem?_set_cases hj with ⟨rfl, rfl⟩ | ⟨hji, hj⟩
    · cases heffect with
      | quiet event stage expiresAt hholds hwaits => exact hw.unchanged j c hget (hwaits hd)
      | acquired delivery stage expiresAt wrote hfree hwaits hwrote =>
          rw [show stage.waits = true from hd] at hwaits
          cases hwaits
      | released delivery stage wrote hholds hwaits hwrote =>
          rw [show stage.waits = true from hd] at hwaits
          cases hwaits
    · exact hw.unchanged j d hj hd

theorem Exclusive.step {label : LockLabel} (hw : w.Exclusive)
    (hstep : Locks.step label w = some w') : w'.Exclusive := by
  cases label with
  | elapse duration =>
      obtain rfl := Option.some.inj hstep
      refine ⟨hw.tokens, ?_, hw.unchanged⟩
      rintro i c hi ⟨hholds, htime⟩
      change w.now + duration < c.expiresAt at htime
      exact Store.drop_of_lt (hw.held i c hi ⟨hholds, by omega⟩) htime
  | enter key expiry timeout retryInterval token time =>
      obtain ⟨hfresh, hstep⟩ := Option.ite_none_right_eq_some.mp hstep
      obtain rfl := Option.some.inj hstep
      have hfresh : ∀ d ∈ w.calls, d.token ≠ token := by simpa using hfresh
      exact exclusive_enter (.enter key expiry timeout retryInterval token time) hw hfresh rfl rfl
  | call i event =>
      obtain ⟨c, hget, hstep⟩ := Option.bind_eq_some_iff.mp hstep
      obtain ⟨⟨c', store'⟩, hcall, hstep⟩ := Option.bind_eq_some_iff.mp hstep
      obtain rfl := Option.some.inj hstep
      exact exclusive_call hw hget (LockCall.step_effect hcall)

/-- A command of the call has changed the entry of its key. -/
def Marked (i : Nat) (w : Locks) : Prop := ∃ c, w.calls[i]? = some c ∧ c.wrote = true

theorem Marked.step {i : Nat} {label : LockLabel} (hmarked : w.Marked i)
    (hstep : Locks.step label w = some w') : w'.Marked i := by
  obtain ⟨c, hget, hwrote⟩ := hmarked
  cases label with
  | elapse duration =>
      obtain rfl := Option.some.inj hstep
      exact ⟨c, hget, hwrote⟩
  | enter key expiry timeout retryInterval token time =>
      obtain ⟨-, hstep⟩ := Option.ite_none_right_eq_some.mp hstep
      obtain rfl := Option.some.inj hstep
      have hlength := (List.getElem?_eq_some_iff.mp hget).1
      exact ⟨c, (List.getElem?_append_left hlength).trans hget, hwrote⟩
  | call j event =>
      obtain ⟨d, hd, hstep⟩ := Option.bind_eq_some_iff.mp hstep
      obtain ⟨⟨d', store'⟩, hcall, hstep⟩ := Option.bind_eq_some_iff.mp hstep
      obtain rfl := Option.some.inj hstep
      by_cases hij : j = i
      · subst hij
        obtain rfl := Option.some.inj (hget.symm.trans hd)
        have hlength := (List.getElem?_eq_some_iff.mp hget).1
        refine ⟨d', List.getElem?_set_self hlength, ?_⟩
        by_contra hunmarked
        rw [((LockCall.step_effect hcall).marked (by simpa using hunmarked)).1] at hwrote
        cases hwrote
      · exact ⟨c, (List.getElem?_set_ne hij).trans hget, hwrote⟩

/-- An event of a call that changes the store marks the call. -/
theorem marked_of_change {i : Nat} {event : LockEvent}
    (hstep : Locks.step (.call i event) w = some w') (hchange : w'.store ≠ w.store) :
    w'.Marked i := by
  obtain ⟨c, hget, hstep⟩ := Option.bind_eq_some_iff.mp hstep
  obtain ⟨⟨c', store'⟩, hcall, hstep⟩ := Option.bind_eq_some_iff.mp hstep
  obtain rfl := Option.some.inj hstep
  have hlength := (List.getElem?_eq_some_iff.mp hget).1
  refine ⟨c', List.getElem?_set_self hlength, ?_⟩
  by_contra hunmarked
  exact hchange ((LockCall.step_effect hcall).marked (by simpa using hunmarked)).2

/-- The calls whose body runs are before the time at which their key expires. -/
def InTime (w : Locks) : Prop :=
  ∀ (i : Nat) (c : LockCall), w.calls[i]? = some c → c.stage = .inside → w.now < c.expiresAt

/-- The script of a call leaves every key alone that has the token of another. -/
theorem Exclusive.release_foreign {i j : Nat} {delivery : Delivery} {d : LockCall} {key : String}
    (hw : w.Exclusive) (hstep : Locks.step (.call i (.release delivery)) w = some w')
    (hj : w.calls[j]? = some d) (hne : j ≠ i)
    (hvalue : (w.store key).map Entry.value = some d.token) : w'.store key = w.store key := by
  obtain ⟨c, hget, hstep⟩ := Option.bind_eq_some_iff.mp hstep
  obtain ⟨⟨c', store'⟩, hcall, hstep⟩ := Option.bind_eq_some_iff.mp hstep
  obtain rfl := Option.some.inj hstep
  cases LockCall.step_effect hcall with
  | quiet => rfl
  | released =>
      rcases Store.delIfEq_eq_or c.key c.token w.store key with hstore | ⟨rfl, hown⟩
      · exact hstore
      · exact absurd (hw.tokens j i d c hj hget (Option.some.inj (hvalue.symm.trans hown))) hne

/-- Two calls that hold a key in time are one. -/
theorem Exclusive.holding_unique {i j : Nat} {c d : LockCall} (hw : w.Exclusive)
    (hi : w.calls[i]? = some c) (hj : w.calls[j]? = some d) (hkey : c.key = d.key)
    (hc : w.holding c) (hd : w.holding d) : i = j := by
  have hown := hw.held i c hi hc
  have hother := hw.held j d hj hd
  rw [hkey, hother] at hown
  have htoken : d.token = c.token := congrArg Entry.value (Option.some.inj hown)
  exact hw.tokens i j c d hi hj htoken.symm

theorem exclusive_of_run {labels : List LockLabel} {now : Nat} {store : Store String}
    (hrun : Runs.run Locks.step labels (initially now store) = some w) : w.Exclusive :=
  Runs.invariant_of_steps Exclusive (fun _ _ _ hw hstep => hw.step hstep)
    (exclusive_initially now store) hrun

/-- Safety of the lock in every reachable state: no release touches another
client's key; if the bodies are within their expiry, one call at most is in its
body; and no command of a call that ends in `RedisLockTimeoutError` has changed
the store. -/
theorem lock_ctx_safe {labels : List LockLabel} {now : Nat} {store : Store String}
    (hrun : Runs.run Locks.step labels (initially now store) = some w) :
    (∀ i delivery w', Locks.step (.call i (.release delivery)) w = some w' →
      ∀ (j : Nat) (d : LockCall) (key : String), w.calls[j]? = some d → j ≠ i →
        (w.store key).map Entry.value = some d.token → w'.store key = w.store key) ∧
    (w.InTime → ∀ (i j : Nat) (c d : LockCall), w.calls[i]? = some c → w.calls[j]? = some d →
      c.stage = .inside → d.stage = .inside → c.key = d.key → i = j) ∧
    ∀ (i : Nat) (c : LockCall), w.calls[i]? = some c → c.stage = .lockTimeout →
      ∀ before event after w₁ w₂, labels = before ++ .call i event :: after →
        Runs.run Locks.step before (initially now store) = some w₁ →
        Locks.step (.call i event) w₁ = some w₂ → w₂.store = w₁.store := by
  have hw := exclusive_of_run hrun
  refine ⟨?_, ?_, ?_⟩
  · intro i delivery w' hstep j d key hj hne hvalue
    exact hw.release_foreign hstep hj hne hvalue
  · intro htime i j c d hi hj hc hd hkey
    have hholding {k : Nat} {e : LockCall} (hk : w.calls[k]? = some e)
        (he : e.stage = .inside) : w.holding e := ⟨by rw [he]; rfl, htime k e hk he⟩
    exact hw.holding_unique hi hj hkey (hholding hi hc) (hholding hj hd)
  · rintro i c hget hstage before event after w₁ w₂ rfl hbefore hstep
    by_contra hchange
    have hafter : Runs.run Locks.step after w₂ = some w := by
      simpa [Runs.run_append, hbefore, Runs.run, hstep] using hrun
    obtain ⟨c', hget', hwrote⟩ := Runs.invariant_of_steps (Marked i)
      (fun _ _ _ hmarked h => hmarked.step h) (marked_of_change hstep hchange) hafter
    obtain rfl := Option.some.inj (hget.symm.trans hget')
    rw [hw.unchanged i c hget (by rw [hstage]; rfl)] at hwrote
    cases hwrote

/-- One call in its body while another one gives up. -/
def contended : List LockLabel :=
  [.enter "lock:a" 10 10 1 "t" 0, .enter "lock:a" 10 10 1 "u" 0, .call 0 (.set .done),
    .call 1 (.set .done), .call 0 (.proceed 0), .elapse 9000, .call 1 (.proceed 11)]

theorem lock_ctx_safe_contended :
    ∃ w, Runs.run Locks.step contended (initially 0 Store.empty) = some w ∧
    w.calls.map LockCall.stage = [.inside, .lockTimeout] ∧ w.InTime ∧
    ∀ (i j : Nat) (c d : LockCall), w.calls[i]? = some c → w.calls[j]? = some d →
      c.stage = .inside → d.stage = .inside → c.key = d.key → i = j := by
  have hfacts : (Runs.run Locks.step contended (initially 0 Store.empty)).any (fun w =>
      w.calls.map LockCall.stage = [.inside, .lockTimeout] ∧
        ∀ c ∈ w.calls, c.stage = .inside → w.now < c.expiresAt) = true := by decide +kernel
  obtain ⟨w, hrun, hw⟩ := (Option.any_eq_true _ _).mp hfacts
  obtain ⟨hstages, htime⟩ := of_decide_eq_true hw
  have hin : w.InTime := fun i c hget => htime c (List.mem_of_getElem? hget)
  exact ⟨w, hrun, hstages, hin, (lock_ctx_safe hrun).2.1 hin⟩

end Locks

end Graveboards.Coordination
