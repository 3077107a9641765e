import Graveboards.Library.Runs
import Graveboards.Rules.Reserve

/-!
Cooldowns over whole runs. The world is the one of the rate limits, with three
histories added: when the SET of each call succeeded, which call stored each
key, and which rollbacks have removed the key of another call.

Proved here: as long as every rollback deletes its key before the time to live
of its own reservation has elapsed, no rollback removes another reservation
and the reservations of one user are a cooldown apart. The token is the bare
key, and `rollback` deletes whatever is stored there: later than that it takes
the reservation of whoever came next.
-/

namespace Graveboards.Rules

open Library Library.Redis

namespace Cooldown

variable (fingerprint : Json → String)

/-- Where a call stands. Every call works on the key of its owner. -/
inductive Stage where
  | fresh
  | setting (clock : Nat)
  | blocked
  | timing (lastRequestTs : Int)
  | asking (remaining : Rat)
  | failed (e : Raise)
  | holding
  | undoing
  | undone
  deriving DecidableEq

namespace Stage

/-- The end of a call that was turned away. -/
def askingScript (c : Reserving) (remaining : Rat) : Steps Outcome := do
  return .returned (.error (← cooldownError c remaining))

def blockedScript (c : Reserving) (last : Option Int) : Steps Outcome :=
  match last with
  | some lastRequestTs => do
      askingScript c (← remainingSeconds lastRequestTs (intField c.config "cooldown_seconds"))
  | none => askingScript c (intField c.config "cooldown_seconds")

def settingScript (c : Reserving) (wasSet : Bool) : Steps Outcome :=
  if wasSet then .done (.returned (.ok (some (cooldownKey fingerprint c))))
  else .call (.get (cooldownKey fingerprint c)) (blockedScript c)

/-- After a call that was turned away has read the stored timestamp. -/
def peeked (c : Reserving) : Option Int → Stage
  | some lastRequestTs => .timing lastRequestTs
  | none => .asking (intField c.config "cooldown_seconds")

/-- The rest of the call. -/
def script (c : Reserving) : Stage → Steps Outcome
  | .fresh => started (cooldownReserve fingerprint) c
  | .setting clock => .call (.setNxEx (cooldownKey fingerprint c) (clock / 1000000 : Nat)
      (intField c.config "cooldown_seconds").toNat) (settingScript fingerprint c)
  | .blocked => .call (.get (cooldownKey fingerprint c)) (blockedScript c)
  | .timing lastRequestTs => blockedScript c (some lastRequestTs)
  | .asking remaining => askingScript c remaining
  | .failed e => .done (.returned (.error e))
  | .holding => .done (.returned (.ok (some (cooldownKey fingerprint c))))
  | .undoing => do
      cooldownRollback (cooldownKey fingerprint c)
      return .rolledBack (cooldownKey fingerprint c)
  | .undone => .done (.rolledBack (cooldownKey fingerprint c))

/-- The source's `reserve`, from its first command on. -/
theorem script_fresh (c : Reserving) :
    script fingerprint c .fresh =
      if applies c.config c.userId then
        .call .clock (fun clock => script fingerprint c (.setting clock))
      else .done (.returned (.ok none)) := by
  by_cases h : applies c.config c.userId = true
  · rw [if_pos h]
    change started (cooldownReserve fingerprint) c = _
    unfold started cooldownReserve
    rw [h]
    refine congrArg (Script.call Command.clock) (funext fun clock => ?_)
    refine congrArg (Script.call (Command.setNxEx _ _ _)) (funext fun wasSet => ?_)
    cases wasSet with
    | true => rfl
    | false =>
        refine congrArg (Script.call (Command.get _)) (funext fun last => ?_)
        cases last <;> rfl
  · rw [if_neg h]
    have hfalse : applies c.config c.userId = false := by simpa using h
    change started (cooldownReserve fingerprint) c = _
    unfold started cooldownReserve
    rw [hfalse]
    rfl

/-- The call has a reservation whose key it has not deleted. -/
def occupies : Stage → Bool
  | .holding | .undoing => true
  | _ => false

end Stage

open Stage

/-- A command that changes nothing. -/
def reads : Command → Bool
  | .clock | .get _ | .getQueue _ => true
  | _ => false

theorem exec_of_reads {command : Command} (h : reads command = true) (s : Shared) :
    (exec command s).2 = s := by
  cases command <;> first | rfl | cases h

/-- One command of a call, with its reply. -/
inductive Move (c : Reserving) : Stage → (command : Command) → Reply command → Stage → Prop where
  | read {stage stage' : Stage} {command : Command} (reply : Reply command)
      (hreads : reads command = true) (hstage : stage.occupies = false)
      (hstage' : stage'.occupies = false) : Move c stage command reply stage'
  | set (clock : Nat) (value : Int) (wasSet : Bool) :
      Move c (.setting clock) (.setNxEx (cooldownKey fingerprint c) value
        (intField c.config "cooldown_seconds").toNat) wasSet (if wasSet then .holding else .blocked)
  | undo : Move c .undoing (.delete (cooldownKey fingerprint c)) () .undone

/-- The scripts move from stage to stage. -/
theorem move_of_call {c : Reserving} {stage : Stage} {command : Command}
    {next : Reply command → Steps Outcome} (h : script fingerprint c stage = .call command next)
    (reply : Reply command) :
    ∃ stage', next reply = script fingerprint c stage' ∧
      Move fingerprint c stage command reply stage' := by
  cases stage with
  | fresh =>
      rw [script_fresh] at h
      split at h
      · cases h
        exact ⟨.setting reply, rfl, .read reply rfl rfl rfl⟩
      · cases h
  | setting clock =>
      cases h
      refine ⟨_, ?_, .set clock _ reply⟩
      cases reply <;> rfl
  | blocked =>
      cases h
      refine ⟨peeked c reply, ?_, .read reply rfl rfl ?_⟩ <;> cases reply <;> rfl
  | timing last =>
      cases h
      exact ⟨.asking _, rfl, .read reply rfl rfl rfl⟩
  | asking remaining =>
      cases h
      exact ⟨.failed _, rfl, .read reply rfl rfl rfl⟩
  | undoing =>
      cases h
      exact ⟨.undone, rfl, .undo⟩
  | failed e | holding | undone => cases h

/-! Histories. -/

structure Cooling where
  calls : Calls
  /-- When the SET of a call succeeded. -/
  setAt : Nat → Option Nat
  /-- The call whose SET stored a key last. -/
  setter : String → Option Nat
  /-- The rollbacks that removed a key of another call, with that call. -/
  stolen : List (Nat × Nat)

/-- What a command of call `i` adds to the histories. -/
def record (i : Nat) (command : Command) (s : Cooling) (calls : Calls) : Cooling :=
  let store := s.calls.shared.store
  match command with
  | .setNxEx key _ _ =>
      if store.present key then { s with calls := calls }
      else { s with
        calls := calls
        setAt := Function.update s.setAt i (some s.calls.shared.clock)
        setter := Function.update s.setter key (some i) }
  | .delete key =>
      { s with
        calls := calls
        stolen := s.stolen ++ (((s.setter key).filter (fun j => store.present key && j ≠ i)).map
          (fun j => (i, j))).toList }
  | _ => { s with calls := calls }

def coolingStep (label : Label) (s : Cooling) : Option Cooling :=
  (step (cooldownReserve fingerprint) cooldownRollback label s.calls).map fun calls =>
    match label with
    | .advance i => (s.calls.pending i).elim { s with calls := calls } (record i · s calls)
    | _ => { s with calls := calls }

/-- No call has started. -/
def coolingInitially (clock : Nat) (queueNames : Nat → Option String) : Cooling :=
  ⟨initially clock queueNames, fun _ => none, fun _ => none, []⟩

/-- The time to live of the owner's key, in microseconds. -/
def span (c : Reserving) : Nat := 1000000 * (intField c.config "cooldown_seconds").toNat

/-- Every rollback deletes its key before the time to live of its own
reservation has elapsed. -/
def DeletesInTime (label : Label) (s : Cooling) : Prop :=
  ∀ i key, label = .advance i → s.calls.pending i = some (.delete key) →
    ∃ c rest t, s.calls.scripts[i]? = some (c, rest) ∧ s.setAt i = some t ∧
      s.calls.shared.clock < t + span c

/-- The command of call `i` is no DEL, or one in time. -/
def inTime (i : Nat) (s : Cooling) : Command → Bool
  | .delete _ => (s.calls.scripts[i]?).any fun entry =>
      (s.setAt i).any (fun t => s.calls.shared.clock < t + span entry.1)
  | _ => true

theorem deletesInTime_advance_iff (i : Nat) (s : Cooling) :
    DeletesInTime (.advance i) s ↔ (s.calls.pending i).all (inTime i s) = true := by
  constructor
  · intro h
    cases hpending : s.calls.pending i with
    | none => rfl
    | some command =>
        cases command with
        | delete key =>
            obtain ⟨c, rest, t, hentry, hset, hclock⟩ := h i key rfl hpending
            simp [inTime, hentry, hset, hclock]
        | _ => rfl
  · intro h j key hj hpending
    obtain rfl := Label.advance.inj hj
    simp only [hpending, Option.all_some, inTime, Option.any_eq_true, decide_eq_true_eq] at h
    obtain ⟨⟨c, rest⟩, hentry, t, hset, hclock⟩ := h
    exact ⟨c, rest, t, hentry, hset, hclock⟩

instance : (label : Label) → (s : Cooling) → Decidable (DeletesInTime label s)
  | .advance i, s => decidable_of_iff _ (deletesInTime_advance_iff i s).symm
  | .start _, _ | .rollback _, _ | .elapse _, _ => isTrue (fun _ _ h => by cases h)

/-! The invariant. -/

abbrev Stages := List (Reserving × Stage)

/-- Call `i` belongs to an owner and has a reservation. -/
def Occupied (stages : Stages) (i : Nat) (c : Reserving) : Prop :=
  ∃ stage : Stage, stages[i]? = some (c, stage) ∧ stage.occupies = true

/-- The same, made at a time. -/
def Reserved (stages : Stages) (s : Cooling) (i : Nat) (c : Reserving) (t : Nat) : Prop :=
  Occupied stages i c ∧ s.setAt i = some t

structure Spaced (stages : Stages) (s : Cooling) : Prop where
  scripts : s.calls.scripts =
    stages.map (fun entry => (entry.1, script fingerprint entry.1 entry.2))
  timed : ∀ i c, Occupied stages i c → ∃ t, s.setAt i = some t
  /-- A reservation whose time has not elapsed is the one Redis stores. -/
  alive : ∀ i c t, Reserved stages s i c t → s.calls.shared.clock < t + span c →
    (∃ value, s.calls.shared.store (cooldownKey fingerprint c) =
      some ⟨value, some (t + span c)⟩) ∧ s.setter (cooldownKey fingerprint c) = some i
  /-- Reservations of one key do not overlap in time. -/
  apart : ∀ i j c c' t t', i ≠ j → Reserved stages s i c t → Reserved stages s j c' t' →
    cooldownKey fingerprint c = cooldownKey fingerprint c' → t + span c ≤ t' ∨ t' + span c' ≤ t
  honest : s.stolen = []

theorem Spaced.entry {stages : Stages} {s : Cooling} (h : Spaced fingerprint stages s)
    {i : Nat} {owner : Reserving} {rest : Steps Outcome}
    (hentry : s.calls.scripts[i]? = some (owner, rest)) :
    ∃ stage, stages[i]? = some (owner, stage) ∧ rest = script fingerprint owner stage := by
  rw [h.scripts, List.getElem?_map] at hentry
  obtain ⟨⟨c, stage⟩, hstage, heq⟩ := Option.map_eq_some_iff.mp hentry
  obtain ⟨rfl, rfl⟩ := Prod.mk.inj heq
  exact ⟨stage, hstage, rfl⟩

/-- A reservation after one call has moved, in terms of before. -/
theorem occupied_set {stages : Stages} {i j : Nat} {c d : Reserving} {stage stage' : Stage}
    (hentry : stages[i]? = some (c, stage))
    (h : Occupied (stages.set i (c, stage')) j d) :
    (j = i ∧ d = c ∧ stage'.occupies = true) ∨ (j ≠ i ∧ Occupied stages j d) := by
  obtain ⟨st, hst, hocc⟩ := h
  by_cases hj : j = i
  · subst hj
    rw [List.getElem?_set_self (List.getElem?_eq_some_iff.mp hentry).1] at hst
    obtain ⟨rfl, rfl⟩ := Prod.mk.inj (Option.some.inj hst)
    exact Or.inl ⟨rfl, rfl, hocc⟩
  · rw [List.getElem?_set_ne (Ne.symm hj)] at hst
    exact Or.inr ⟨hj, st, hst, hocc⟩

/-- Nothing new is reserved, and Redis keeps every key whose time has not
elapsed. -/
theorem Spaced.quiet {stages stages' : Stages} {s s' : Cooling} (h : Spaced fingerprint stages s)
    (hscripts : s'.calls.scripts =
      stages'.map (fun entry => (entry.1, script fingerprint entry.1 entry.2)))
    (hstages : ∀ j d, Occupied stages' j d → Occupied stages j d)
    (hsetAt : s'.setAt = s.setAt) (hsetter : s'.setter = s.setter) (hstolen : s'.stolen = s.stolen)
    (hclock : s.calls.shared.clock ≤ s'.calls.shared.clock)
    (hstore : ∀ key value deadline, s.calls.shared.store key = some ⟨value, some deadline⟩ →
      s'.calls.shared.clock < deadline →
      s'.calls.shared.store key = some ⟨value, some deadline⟩) :
    Spaced fingerprint stages' s' := by
  have hreserved {i : Nat} {c : Reserving} {t : Nat} (hr : Reserved stages' s' i c t) :
      Reserved stages s i c t := ⟨hstages i c hr.1, hsetAt ▸ hr.2⟩
  refine ⟨hscripts, fun i c hocc => ?_, fun i c t hr hclock' => ?_, ?_, ?_⟩
  · rw [hsetAt]
    exact h.timed i c (hstages i c hocc)
  · obtain ⟨⟨value, hvalue⟩, howner⟩ := h.alive i c t (hreserved hr) (lt_of_le_of_lt hclock hclock')
    exact ⟨⟨value, hstore _ _ _ hvalue hclock'⟩, hsetter ▸ howner⟩
  · intro i j c c' t t' hne hi hj hkey
    exact h.apart i j c c' t t' hne (hreserved hi) (hreserved hj) hkey
  · rw [hstolen]
    exact h.honest

/-- A SET on a free key: every other reservation of the key has run out. -/
theorem Spaced.reserve {stages : Stages} {s : Cooling} (h : Spaced fingerprint stages s)
    {i : Nat} {c : Reserving} {stage : Stage} (hentry : stages[i]? = some (c, stage))
    (value : Int) (hfree : s.calls.shared.store (cooldownKey fingerprint c) = none) :
    Spaced fingerprint (stages.set i (c, .holding))
      { s with
        calls := ⟨{ s.calls.shared with
          store := Function.update s.calls.shared.store (cooldownKey fingerprint c)
            (some ⟨value, some (s.calls.shared.clock + span c)⟩) },
          s.calls.scripts.set i (c, script fingerprint c .holding)⟩
        setAt := Function.update s.setAt i (some s.calls.shared.clock)
        setter := Function.update s.setter (cooldownKey fingerprint c) (some i) } := by
  -- the other reservations are as before
  have hother {j : Nat} {d : Reserving} {t : Nat} (hj : j ≠ i)
      (hst : Occupied stages j d)
      (hset : Function.update s.setAt i (some s.calls.shared.clock) j = some t) :
      Reserved stages s j d t := ⟨hst, by rwa [Function.update_of_ne hj] at hset⟩
  have hself {t : Nat} (hset : Function.update s.setAt i (some s.calls.shared.clock) i = some t) :
      t = s.calls.shared.clock := by simpa using hset.symm
  have hover {j : Nat} {d : Reserving} {t : Nat} (hr : Reserved stages s j d t)
      (hkey : cooldownKey fingerprint d = cooldownKey fingerprint c) :
      t + span d ≤ s.calls.shared.clock := by
    by_contra hlate
    obtain ⟨⟨v, hv⟩, -⟩ := h.alive j d t hr (not_le.mp hlate)
    rw [hkey, hfree] at hv
    cases hv
  refine ⟨by rw [h.scripts, List.map_set], ?_, ?_, ?_, h.honest⟩
  · intro j d hst
    dsimp only
    rcases occupied_set hentry hst with ⟨rfl, -, -⟩ | ⟨hj, hst'⟩
    · exact ⟨_, Function.update_self _ _ _⟩
    · rw [Function.update_of_ne hj]
      exact h.timed j d hst'
  · rintro j d t ⟨hst, hset⟩ hclock
    dsimp only at hset hclock ⊢
    rcases occupied_set hentry hst with ⟨rfl, rfl, -⟩ | ⟨hj, hst'⟩
    · rw [hself hset, Function.update_self, Function.update_self]
      exact ⟨⟨value, rfl⟩, rfl⟩
    · have hr := hother hj hst' hset
      have hne : cooldownKey fingerprint d ≠ cooldownKey fingerprint c := fun hkey =>
        absurd (hover hr hkey) (not_le.mpr hclock)
      rw [Function.update_of_ne hne, Function.update_of_ne hne]
      exact h.alive j d t hr hclock
  · rintro j k d d' t t' hjk ⟨hj, hsetj⟩ ⟨hk, hsetk⟩ hkey
    dsimp only at hsetj hsetk
    rcases occupied_set hentry hj with ⟨rfl, rfl, -⟩ | ⟨hji, hj'⟩
    · rcases occupied_set hentry hk with ⟨rfl, -, -⟩ | ⟨hki, hk'⟩
      · exact absurd rfl hjk
      · rw [hself hsetj]
        exact Or.inr (hover (hother hki hk' hsetk) hkey.symm)
    · rcases occupied_set hentry hk with ⟨rfl, rfl, -⟩ | ⟨hki, hk'⟩
      · rw [hself hsetk]
        exact Or.inl (hover (hother hji hj' hsetj) hkey)
      · exact h.apart j k d d' t t' hjk (hother hji hj' hsetj) (hother hki hk' hsetk) hkey

/-- A DEL in time: the key is the call's own, and no other reservation of the
key is still running. -/
theorem Spaced.release {stages : Stages} {s : Cooling} (h : Spaced fingerprint stages s)
    {i : Nat} {c : Reserving} {t : Nat} (hentry : stages[i]? = some (c, .undoing))
    (hset : s.setAt i = some t) (hclock : s.calls.shared.clock < t + span c) :
    s.setter (cooldownKey fingerprint c) = some i ∧
    Spaced fingerprint (stages.set i (c, .undone))
      { s with
        calls := ⟨{ s.calls.shared with
          store := s.calls.shared.store.del (cooldownKey fingerprint c) },
          s.calls.scripts.set i (c, script fingerprint c .undone)⟩ } := by
  have hown : Reserved stages s i c t := ⟨⟨.undoing, hentry, rfl⟩, hset⟩
  have hsetter := (h.alive i c t hown hclock).2
  refine ⟨hsetter, by rw [h.scripts, List.map_set], ?_, ?_, ?_, h.honest⟩
  · intro j d hst
    rcases occupied_set hentry hst with ⟨-, -, hundone⟩ | ⟨-, hst'⟩
    · cases hundone
    · exact h.timed j d hst'
  · rintro j d t' ⟨hst, hset'⟩ hclock'
    rcases occupied_set hentry hst with ⟨-, -, hundone⟩ | ⟨hj, hst'⟩
    · cases hundone
    · obtain ⟨hvalue, howner⟩ := h.alive j d t' ⟨hst', hset'⟩ hclock'
      have hne : cooldownKey fingerprint d ≠ cooldownKey fingerprint c := by
        intro hkey
        rw [hkey, hsetter] at howner
        exact hj (Option.some.inj howner).symm
      refine ⟨?_, howner⟩
      dsimp only [Store.del]
      rw [Function.update_of_ne hne]
      exact hvalue
  · rintro j k d d' t' t'' hjk ⟨hj, hsetj⟩ ⟨hk, hsetk⟩ hkey
    rcases occupied_set hentry hj with ⟨-, -, hundone⟩ | ⟨-, hj'⟩
    · cases hundone
    · rcases occupied_set hentry hk with ⟨-, -, hundone⟩ | ⟨-, hk'⟩
      · cases hundone
      · exact h.apart j k d d' t' t'' hjk ⟨hj', hsetj⟩ ⟨hk', hsetk⟩ hkey

theorem record_of_reads {command : Command} (h : reads command = true) (i : Nat) (s : Cooling)
    (calls : Calls) : record i command s calls = { s with calls := calls } := by
  cases command <;> first | rfl | cases h

/-- A stage change that reserves nothing. -/
theorem occupied_of_set {stages : Stages} {i : Nat} {c : Reserving} {stage stage' : Stage}
    (hentry : stages[i]? = some (c, stage))
    (hstage : stage'.occupies = true → stage.occupies = true) (j : Nat) (d : Reserving)
    (h : Occupied (stages.set i (c, stage')) j d) : Occupied stages j d := by
  rcases occupied_set hentry h with ⟨rfl, rfl, hocc⟩ | ⟨-, hst⟩
  · exact ⟨stage, hentry, hstage hocc⟩
  · exact hst

/-- One command of one call. -/
theorem Spaced.advance {stages : Stages} {s : Cooling} (h : Spaced fingerprint stages s)
    {i : Nat} {c : Reserving} {stage stage' : Stage} {command : Command}
    (hentry : stages[i]? = some (c, stage))
    (hintime : ∀ key, command = .delete key →
      ∃ t, s.setAt i = some t ∧ s.calls.shared.clock < t + span c)
    (hmove : Move fingerprint c stage command (exec command s.calls.shared).1 stage') :
    Spaced fingerprint (stages.set i (c, stage')) (record i command s
      ⟨(exec command s.calls.shared).2,
        s.calls.scripts.set i (c, script fingerprint c stage')⟩) := by
  have hscripts : s.calls.scripts.set i (c, script fingerprint c stage') =
      (stages.set i (c, stage')).map
        (fun entry => (entry.1, script fingerprint entry.1 entry.2)) := by
    rw [h.scripts, List.map_set]
  cases hmove with
  | read reply hreads hstage hstage' =>
      rw [record_of_reads hreads, exec_of_reads hreads]
      refine h.quiet fingerprint hscripts (occupied_of_set hentry (fun hocc => ?_))
        rfl rfl rfl le_rfl
        (fun _ _ _ hvalue _ => hvalue)
      rw [hstage'] at hocc
      cases hocc
  | set clock value wasSet =>
      cases hfree : s.calls.shared.store (cooldownKey fingerprint c) with
      | some entry =>
          have hpresent : s.calls.shared.store.present (cooldownKey fingerprint c) = true := by
            rw [Store.present, hfree]
            rfl
          simp only [exec, record, Store.setNx, hpresent, if_true]
          exact h.quiet fingerprint (by rw [h.scripts, List.map_set])
            (occupied_of_set hentry (fun hocc => by cases hocc)) rfl rfl rfl le_rfl
            (fun _ _ _ hvalue _ => hvalue)
      | none =>
          have habsent : s.calls.shared.store.present (cooldownKey fingerprint c) = false := by
            rw [Store.present, hfree]
            rfl
          simp only [exec, record, Store.setNx, habsent, Bool.false_eq_true, if_false, if_true]
          exact h.reserve fingerprint hentry value hfree
  | undo =>
      obtain ⟨t, hset, hclock⟩ := hintime _ rfl
      obtain ⟨hsetter, hspaced⟩ := h.release fingerprint hentry hset hclock
      simp only [exec, record, hsetter]
      simpa [Option.filter] using hspaced

theorem holding_of_done {c : Reserving} {stage : Stage} {token : String}
    (h : script fingerprint c stage = .done (.returned (.ok (some token)))) :
    stage = .holding ∧ token = cooldownKey fingerprint c := by
  cases stage with
  | holding =>
      cases h
      exact ⟨rfl, rfl⟩
  | fresh =>
      rw [script_fresh] at h
      split at h <;> cases h
  | setting _ | blocked | timing _ | asking _ | failed _ | undoing | undone => cases h

theorem coolingStep_spaced {stages : Stages} {s s' : Cooling} {label : Label}
    (h : Spaced fingerprint stages s) (hintime : DeletesInTime label s)
    (hstep : coolingStep fingerprint label s = some s') :
    ∃ stages', Spaced fingerprint stages' s' := by
  obtain ⟨calls, hcalls, rfl⟩ := Option.map_eq_some_iff.mp hstep
  cases label with
  | start c =>
      obtain rfl := Option.some.inj hcalls
      refine ⟨stages ++ [(c, .fresh)], h.quiet fingerprint ?_ ?_ rfl rfl rfl le_rfl
        (fun _ _ _ hvalue _ => hvalue)⟩
      · rw [World.spawn, h.scripts, List.map_append]
        rfl
      · rintro j d ⟨st, hst, hocc⟩
        by_cases hj : j < stages.length
        · rw [List.getElem?_append_left hj] at hst
          exact ⟨st, hst, hocc⟩
        · rw [List.getElem?_append_right (not_lt.mp hj)] at hst
          obtain ⟨rfl, rfl⟩ := Prod.mk.inj (List.mem_singleton.mp (List.mem_of_getElem? hst))
          cases hocc
  | advance i =>
      obtain ⟨c, command, next, hentry, rfl⟩ := World.advance_eq_some hcalls
      obtain ⟨stage, hstage, hscript⟩ := h.entry fingerprint hentry
      obtain ⟨stage', hnext, hmove⟩ := move_of_call fingerprint hscript.symm
        (exec command s.calls.shared).1
      refine ⟨stages.set i (c, stage'), ?_⟩
      simp only [World.pending_of_entry hentry, Option.elim_some, hnext]
      refine h.advance fingerprint hstage (fun key hkey => ?_) hmove
      obtain ⟨c', rest, t, hentry', hset, hclock⟩ := hintime i key rfl
        (hkey ▸ World.pending_of_entry hentry)
      obtain ⟨rfl, -⟩ := Prod.mk.inj (Option.some.inj (hentry.symm.trans hentry'))
      exact ⟨t, hset, hclock⟩
  | rollback i =>
      obtain ⟨c, outcome, rest, hentry, hundo, rfl⟩ := World.resume_eq_some hcalls
      obtain ⟨stage, hstage, hscript⟩ := h.entry fingerprint hentry
      unfold undo at hundo
      split at hundo
      · next token =>
          obtain rfl := Option.some.inj hundo
          obtain ⟨rfl, rfl⟩ := holding_of_done fingerprint hscript.symm
          refine ⟨stages.set i (c, .undoing), h.quiet fingerprint ?_
            (occupied_of_set hstage (fun _ => rfl)) rfl rfl rfl le_rfl
            (fun _ _ _ hvalue _ => hvalue)⟩
          rw [h.scripts, List.map_set]
          rfl
      · cases hundo
  | elapse microseconds =>
      obtain rfl := Option.some.inj hcalls
      refine ⟨stages, h.quiet fingerprint h.scripts (fun _ _ hocc => hocc) rfl rfl rfl
        (Nat.le_add_right _ _) fun key value deadline hvalue hclock => ?_⟩
      simp only [Shared.elapse, Store.drop, hvalue] at hclock ⊢
      simp [Option.filter, Store.expired, hclock]

/-- In every run in which each rollback deletes its key before the time to live
of its own reservation has elapsed, no rollback ever removes the reservation of
another call, and two calls of one owner that hold their tokens have made
their reservations at least the cooldown apart. -/
theorem cooldown_spaced {text : TextReaders} {raw config : Json}
    (haccepted : validateRuleConfig text "cooldown" raw = .ok config)
    (fingerprint : Json → String) (clock : Nat) (queueNames : Nat → Option String)
    (labels : List Label) (s : Cooling)
    (hrun : Runs.run (coolingStep fingerprint) labels (coolingInitially clock queueNames) = some s)
    (hintime : Runs.Meets (coolingStep fingerprint) DeletesInTime labels
      (coolingInitially clock queueNames)) :
    s.stolen = [] ∧
    ∀ queueId userId i j call call', i ≠ j →
      s.calls.scripts[i]? = some call → s.calls.scripts[j]? = some call' →
      holds ⟨queueId, userId, config⟩ (cooldownKey fingerprint ⟨queueId, userId, config⟩) call =
        true →
      holds ⟨queueId, userId, config⟩ (cooldownKey fingerprint ⟨queueId, userId, config⟩) call' =
        true →
      ∃ t t', s.setAt i = some t ∧ s.setAt j = some t' ∧
        (t + 1000000 * intField config "cooldown_seconds" ≤ t' ∨
          t' + 1000000 * intField config "cooldown_seconds" ≤ t) := by
  have hinitial : ∃ stages, Spaced fingerprint stages (coolingInitially clock queueNames) :=
    ⟨[], rfl, fun i c ⟨_, h, _⟩ => by simp at h, fun i c t ⟨⟨_, h, _⟩, _⟩ => by simp at h,
      fun i j c c' t t' _ ⟨⟨_, h, _⟩, _⟩ => by simp at h, rfl⟩
  obtain ⟨stages, h⟩ := Runs.invariant_of_run
    (fun s => ∃ stages, Spaced fingerprint stages s)
    (fun label s s' ⟨_, h⟩ hintime hstep => coolingStep_spaced fingerprint h hintime hstep)
    hinitial hintime hrun
  refine ⟨h.honest, fun queueId userId i j call call' hij hi hj hcall hcall' => ?_⟩
  have hreserved {i : Nat} {call : Reserving × Steps Outcome}
      (hi : s.calls.scripts[i]? = some call) (hcall : holds ⟨queueId, userId, config⟩
        (cooldownKey fingerprint ⟨queueId, userId, config⟩) call = true) :
      ∃ t, Reserved stages s i ⟨queueId, userId, config⟩ t := by
    obtain rfl := eq_done_of_holds hcall
    obtain ⟨stage, hstage, hscript⟩ := h.entry fingerprint hi
    obtain ⟨rfl, -⟩ := holding_of_done fingerprint hscript.symm
    have hocc : Occupied stages i ⟨queueId, userId, config⟩ := ⟨.holding, hstage, rfl⟩
    obtain ⟨t, ht⟩ := h.timed i _ hocc
    exact ⟨t, hocc, ht⟩
  obtain ⟨t, ht⟩ := hreserved hi hcall
  obtain ⟨t', ht'⟩ := hreserved hj hcall'
  have hpos := intField_pos (rfl : ruleConfigSchemaMap text "cooldown" = some (cooldownConfig text))
    (cooldownConfig_stable text) (.head _) haccepted
  have hapart := h.apart i j _ _ t t' hij ht ht' rfl
  refine ⟨t, t', ht.2, ht'.2, ?_⟩
  dsimp only [span] at hapart
  omega

/-- One request a minute. -/
def minutely : Json := .dict [("cooldown_seconds", .int 60), ("scope", .str "user")]

def minutelyCall : Reserving := ⟨7, 42, minutely⟩

def minutelyKey : String := cooldownKey (fun _ => "fingerprint") minutelyCall

/-- A call that reads the clock and sets the key. -/
def minutelyRequest (i : Nat) : List Label := [.start minutelyCall, .advance i, .advance i]

/-- Two requests at once, of which the second is turned away; the first is
rolled back half a minute later, a third one reserves, one in its cooldown is
turned away and one at the end of it reserves. -/
def contendedMinutes : List Label :=
  [.start minutelyCall, .start minutelyCall, .advance 0, .advance 1, .advance 0, .advance 1,
    .advance 1, .elapse 30000000, .rollback 0, .advance 1, .advance 0] ++ minutelyRequest 2 ++
    [.elapse 59999999] ++ minutelyRequest 3 ++ [.elapse 1] ++ minutelyRequest 4

/-- The third and the fifth request hold their reservations, a minute apart. -/
theorem contendedMinutes_spaced :
    ∃ s, Runs.run (coolingStep (fun _ => "fingerprint")) contendedMinutes
        (coolingInitially 0 (fun _ => none)) = some s ∧
      s.calls.scripts.map (holds minutelyCall minutelyKey) = [false, false, true, false, true] ∧
      s.stolen = [] ∧ ∃ t t', s.setAt 2 = some t ∧ s.setAt 4 = some t' ∧
        (t + 1000000 * intField minutely "cooldown_seconds" ≤ t' ∨
          t' + 1000000 * intField minutely "cooldown_seconds" ≤ t) := by
  have hrun : (Runs.run (coolingStep (fun _ => "fingerprint")) contendedMinutes
      (coolingInitially 0 (fun _ => none))).map
        (fun s => s.calls.scripts.map (holds minutelyCall minutelyKey)) =
      some [false, false, true, false, true] := by decide +kernel
  obtain ⟨s, hs, hholds⟩ := Option.map_eq_some_iff.mp hrun
  have haccepted : validateRuleConfig noText "cooldown" minutely = .ok minutely := rfl
  have hintime : Runs.Meets (coolingStep (fun _ => "fingerprint")) DeletesInTime contendedMinutes
      (coolingInitially 0 (fun _ => none)) := by decide +kernel
  obtain ⟨hstolen, hspaced⟩ := cooldown_spaced haccepted _ _ _ _ s hs hintime
  have hheld (i : Nat)
      (hi : (s.calls.scripts.map (holds minutelyCall minutelyKey))[i]? = some true) :
      ∃ call, s.calls.scripts[i]? = some call ∧ holds minutelyCall minutelyKey call = true := by
    rw [List.getElem?_map] at hi
    exact Option.map_eq_some_iff.mp hi
  obtain ⟨third, hthird, hthird'⟩ := hheld 2 (by rw [hholds]; rfl)
  obtain ⟨fifth, hfifth, hfifth'⟩ := hheld 4 (by rw [hholds]; rfl)
  exact ⟨s, hs, hholds, hstolen,
    hspaced 7 42 2 4 third fifth (by decide) hthird hfifth hthird' hfifth'⟩

/-- The first request is rolled back a second after its key has run out and
the second request has reserved; a third one reserves in the same second. -/
def lateRollback : List Label :=
  minutelyRequest 0 ++ [.rollback 0, .elapse 60000000] ++ minutelyRequest 1 ++
    [.elapse 1000000, .advance 0] ++ minutelyRequest 2

/-- The late rollback removes the second reservation, and the third is made a
second after it: both are held, with a cooldown of a minute. -/
theorem lateRollback_steals :
    validateRuleConfig noText "cooldown" minutely = .ok minutely ∧
    (Runs.run (coolingStep (fun _ => "fingerprint")) lateRollback
      (coolingInitially 0 (fun _ => none))).map (fun s =>
        (s.stolen, s.calls.scripts.map (holds minutelyCall minutelyKey), s.setAt 1, s.setAt 2)) =
      some ([(0, 1)], [false, true, true], some 60000000, some 61000000) :=
  ⟨rfl, by decide +kernel⟩

end Cooldown

end Graveboards.Rules
