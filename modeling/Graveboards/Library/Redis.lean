import Mathlib.Tactic

/-!
A key-value store with times to live, command by command. Every command is
atomic, and a key is gone once its time to live has elapsed. Times are counted
in one unit from one origin.
-/

namespace Graveboards.Library

namespace Redis

/-- A value with the time at which the key is dropped, if it has one. -/
structure Entry (ν : Type) where
  value : ν
  expiresAt : Option Nat
  deriving DecidableEq

abbrev Store (ν : Type) := String → Option (Entry ν)

namespace Store

variable {ν : Type}

def empty : Store ν := fun _ => none

/-- The entry has outlived its time. -/
def expired (now : Nat) (entry : Entry ν) : Bool := entry.expiresAt.any (· ≤ now)

/-- Drop every key whose time to live has elapsed. -/
def drop (now : Nat) (store : Store ν) : Store ν :=
  fun key => (store key).filter (fun entry => !expired now entry)

def present (store : Store ν) (key : String) : Bool := (store key).isSome

def del (key : String) (store : Store ν) : Store ν := Function.update store key none

/-- `EXPIRE`, to a time: a missing key is left missing. -/
def expire (key : String) (deadline : Nat) (store : Store ν) : Store ν :=
  Function.update store key
    ((store key).map (fun entry => { entry with expiresAt := some deadline }))

/-- `EXPIRE`, for a duration: one that is not positive deletes the key. -/
def expireIn (now : Nat) (key : String) (duration : Int) (store : Store ν) : Store ν :=
  if duration ≤ 0 then store.del key else store.expire key (now + duration.toNat)

/-- `SET key value EX`. -/
def set (key : String) (value : ν) (deadline : Nat) (store : Store ν) : Store ν :=
  Function.update store key (some ⟨value, some deadline⟩)

/-- `SET key value NX EX`: whether it was set. -/
def setNx (key : String) (value : ν) (deadline : Nat) (store : Store ν) : Bool × Store ν :=
  if store.present key then (false, store)
  else (true, Function.update store key (some ⟨value, some deadline⟩))

/-- An entry without a time to live, or whose time has not come, is not dropped. -/
theorem drop_of_kept {store : Store ν} {now : Nat} {key : String}
    (h : ∀ entry deadline, store key = some entry → entry.expiresAt = some deadline →
      now < deadline) :
    store.drop now key = store key := by
  unfold drop
  cases hentry : store key with
  | none => rfl
  | some entry =>
      have hkept : expired now entry = false := by
        cases hdeadline : entry.expiresAt with
        | none => simp [expired, hdeadline]
        | some deadline => simpa [expired, hdeadline] using h entry deadline hentry hdeadline
      simp [Option.filter, hkept]

/-- Dropping keys leaves the entries of the others. -/
theorem entry_of_drop {store : Store ν} {now : Nat} {key : String} {entry : Entry ν}
    (h : store.drop now key = some entry) : store key = some entry :=
  (Option.filter_eq_some_iff.mp h).1

theorem setNx_of_present {store : Store ν} {key : String} (value : ν) (deadline : Nat)
    (h : store.present key = true) : store.setNx key value deadline = (false, store) := by
  simp [setNx, h]

theorem setNx_of_absent {store : Store ν} {key : String} (value : ν) (deadline : Nat)
    (h : store.present key = false) :
    store.setNx key value deadline =
      (true, Function.update store key (some ⟨value, some deadline⟩)) := by
  simp [setNx, h]

/-- The script that deletes a key if it still holds a value. -/
def delIfEq [DecidableEq ν] (key : String) (value : ν) (store : Store ν) : Store ν :=
  if (store key).map Entry.value = some value then store.del key else store

theorem absent_of_not_present {store : Store ν} {key : String} (h : store.present key = false) :
    store key = none := by
  simpa [present] using h

/-- A key keeps its entry until its time. -/
theorem drop_of_lt {store : Store ν} {key : String} {value : ν} {deadline now : Nat}
    (h : store key = some ⟨value, some deadline⟩) (hnow : now < deadline) :
    store.drop now key = some ⟨value, some deadline⟩ := by
  simp [drop, h, Option.filter, expired, hnow]

/-- A deletion by value touches only a key that holds the value. -/
theorem delIfEq_eq_or [DecidableEq ν] (key : String) (value : ν) (store : Store ν)
    (other : String) :
    store.delIfEq key value other = store other ∨
      other = key ∧ (store key).map Entry.value = some value := by
  unfold delIfEq
  split
  · next hvalue =>
      by_cases hkey : other = key
      · exact Or.inr ⟨hkey, hvalue⟩
      · exact Or.inl (Function.update_of_ne hkey _ _)
  · exact Or.inl rfl

/-- A key that holds a value until a time and is gone from then on. -/
def HoldsUntil (store : Store ν) (now : Nat) (key : String) (value : ν) (deadline : Nat) : Prop :=
  store key = if now < deadline then some ⟨value, some deadline⟩ else none

theorem drop_absent {store : Store ν} {key : String} (now : Nat) (h : store key = none) :
    store.drop now key = none := by
  simp [drop, h]

namespace HoldsUntil

variable {store : Store ν} {now deadline : Nat} {key : String} {value : ν}

theorem present_iff (h : store.HoldsUntil now key value deadline) :
    store.present key = true ↔ now < deadline := by
  unfold present
  rw [show store key = _ from h]
  split <;> simp [*]

theorem drop {later : Nat} (h : store.HoldsUntil now key value deadline) (hlater : now ≤ later) :
    (store.drop later).HoldsUntil later key value deadline := by
  unfold HoldsUntil at h ⊢
  by_cases hdeadline : later < deadline
  · rw [if_pos (by omega)] at h
    rw [if_pos hdeadline, drop_of_lt h hdeadline]
  · rw [if_neg hdeadline]
    split at h
    · simp [Store.drop, h, Option.filter, expired, Nat.le_of_not_lt hdeadline]
    · exact drop_absent later h

theorem set (store : Store ν) (key : String) (value : ν) (h : now < deadline) :
    HoldsUntil (Function.update store key (some ⟨value, some deadline⟩)) now key
    value deadline := by
  simp [HoldsUntil, h]

theorem absent (h : store.HoldsUntil now key value deadline) (hdeadline : deadline ≤ now) :
    store key = none := by
  rw [show store key = _ from h, if_neg (by omega)]

/-- The script removes the value for good. -/
theorem delIfEq [DecidableEq ν] (h : store.HoldsUntil now key value deadline) :
    store.delIfEq key value key = none := by
  unfold Store.delIfEq
  split
  · exact Function.update_self ..
  · next hvalue =>
      rw [show store key = _ from h] at hvalue ⊢
      split
      · next hnow => simp [hnow] at hvalue
      · rfl

end HoldsUntil

/-! Counters. -/

/-- The number under a key; a missing key counts as zero. -/
def count (store : Store Int) (key : String) : Int := ((store key).map Entry.value).getD 0

/-- `INCR` and `DECR`: the number changes and the time to live stays. -/
def incrBy (key : String) (change : Int) (store : Store Int) : Store Int :=
  Function.update store key
    (some ⟨store.count key + change, (store key).bind Entry.expiresAt⟩)

@[simp] theorem count_incrBy (store : Store Int) (key other : String) (change : Int) :
    (store.incrBy key change).count other =
      store.count other + if other = key then change else 0 := by
  by_cases h : other = key
  · subst h
    simp [count, incrBy]
  · simp [count, incrBy, h]

@[simp] theorem count_expire (store : Store Int) (key other : String) (deadline : Nat) :
    (store.expire key deadline).count other = store.count other := by
  by_cases h : other = key
  · subst h
    simp [count, expire, Option.map_map, Function.comp_def]
  · simp [count, expire, Function.update_of_ne h]

/-- Dropping a key changes its number only if the number was not zero. -/
theorem count_drop (store : Store Int) (now : Nat) (key : String)
    (h : (store key).any (fun entry => expired now entry && entry.value ≠ 0) = false) :
    (store.drop now).count key = store.count key := by
  unfold count drop
  cases hentry : store key with
  | none => rfl
  | some entry =>
      rw [hentry] at h
      cases hexpired : expired now entry with
      | false => simp [Option.filter, hexpired]
      | true => simp_all [Option.filter]

/-- What a counter loses when the time comes. -/
def overdue (now : Nat) (store : Store Int) (key : String) : Int :=
  if (store key).any (expired now) then store.count key else 0

theorem count_drop_add (store : Store Int) (now : Nat) (key : String) :
    (store.drop now).count key + store.overdue now key = store.count key := by
  unfold overdue count drop
  cases hentry : store key with
  | none => rfl
  | some entry => cases hexpired : expired now entry <;> simp [Option.filter, hexpired]

end Store

/-! Commands on one key that holds a number. -/

/-- Times to live are durations; the reply of a command that replies nothing of
interest is zero. -/
inductive Command where
  | ttl
  | incr
  | expire (duration : Nat)
  | set (value : Int) (duration : Nat)
  | del
  deriving DecidableEq

/-- Remaining time to live; -1 for a key that stays, -2 for a missing one. -/
def remaining (now : Nat) : Option (Entry Int) → Int
  | none => -2
  | some ⟨_, none⟩ => -1
  | some ⟨_, some deadline⟩ => deadline - now

/-- The reply and what the key holds afterwards. -/
def Command.exec (now : Nat) (entry : Option (Entry Int)) : Command → Int × Option (Entry Int)
  | .ttl => (remaining now entry, entry)
  | .incr =>
      let count := (entry.map Entry.value).getD 0 + 1
      (count, some ⟨count, entry.bind Entry.expiresAt⟩)
  | .expire duration => (0, entry.map (fun e => { e with expiresAt := some (now + duration) }))
  | .set value duration => (0, some ⟨value, some (now + duration)⟩)
  | .del => (0, none)

end Redis

end Graveboards.Library
