import Graveboards.Rules.Reserve

/-!
The books of one submission: what its commands and the time that passes have
made of Redis, beside what Redis held at the start. A counter shows what it
showed then and the increments that have not been taken back, less what Redis
has dropped from it. A cooldown key is there if it would be without the
submission, or if the submission has set it.
-/

namespace Graveboards.Rules

open Library Library.Redis

/-! Keys of the two kinds. -/

def IsCounter (key : String) : Prop := "queue_rule_rate_limit:".toList <+: key.toList

def IsCooldown (key : String) : Prop := "queue_rule_cooldown:".toList <+: key.toList

theorem not_counter_and_cooldown {key : String} (hcounter : IsCounter key)
    (hcooldown : IsCooldown key) : False := by
  rcases List.prefix_or_prefix_of_prefix hcounter hcooldown with h | h
  · revert h
    decide
  · revert h
    decide

theorem ne_of_kinds {key other : String} (hkey : IsCounter key) (hother : IsCooldown other) :
    other ≠ key := by
  rintro rfl
  exact not_counter_and_cooldown hkey hother

theorem prefix_append (start rest : String) : start.toList <+: (start ++ rest).toList := by
  rw [String.toList_append]
  exact List.prefix_append _ _

theorem rateLimitKey_isCounter (fingerprint : Json → String) (c : Reserving) (bucket : Int) :
    IsCounter (rateLimitKey fingerprint c bucket) := by
  unfold IsCounter rateLimitKey
  simp only [String.append_assoc, -String.reduceToList]
  exact prefix_append _ _

theorem cooldownKey_isCooldown (fingerprint : Json → String) (c : Reserving) :
    IsCooldown (cooldownKey fingerprint c) := by
  unfold IsCooldown cooldownKey
  simp only [String.append_assoc, -String.reduceToList]
  exact prefix_append _ _

/-! Numbers. -/

/-- Nothing is lost: a counter shows its number at the start and the increments
on it, but for what Redis has dropped from it. -/
def Counted (start : Store Int) (dropped : String → Int) (counted : List String)
    (store : Store Int) : Prop :=
  ∀ key, IsCounter key → store.count key + dropped key = start.count key + counted.count key

/-- Counters that the submission has not touched are as they would be now. -/
def Untouched (base : Store Int) (touched : List String) (store : Store Int) : Prop :=
  ∀ key, IsCounter key → key ∉ touched → store key = base key

section Numbers

variable {start base store : Store Int} {dropped : String → Int} {counted touched : List String}
  {key : String}

theorem Counted.incr (h : Counted start dropped counted store) (key : String) :
    Counted start dropped (key :: counted) (store.incrBy key 1) := by
  intro k hk
  have hcount := h k hk
  rw [Store.count_incrBy, List.count_cons]
  by_cases heq : k = key
  · subst heq
    simp only [if_true, beq_self_eq_true]
    push_cast
    omega
  · simp only [heq, if_false, beq_iff_eq, Ne.symm heq]
    omega

theorem Counted.decr (h : Counted start dropped (key :: counted) store) :
    Counted start dropped counted (store.incrBy key (-1)) := by
  intro k hk
  have hcount := h k hk
  rw [List.count_cons] at hcount
  rw [Store.count_incrBy]
  by_cases heq : k = key
  · subst heq
    simp only [if_true, beq_self_eq_true] at hcount ⊢
    push_cast at hcount
    omega
  · simp only [heq, if_false, beq_iff_eq, Ne.symm heq] at hcount ⊢
    omega

theorem Counted.expire (h : Counted start dropped counted store) (key : String) (deadline : Nat) :
    Counted start dropped counted (store.expire key deadline) := by
  intro k hk
  rw [Store.count_expire]
  exact h k hk

/-- Cooldown keys do not count. -/
theorem Counted.switch (h : Counted start dropped counted store) (hkey : IsCooldown key)
    (entry : Option (Entry Int)) :
    Counted start dropped counted (Function.update store key entry) := by
  intro k hk
  rw [Store.count, Function.update_of_ne (ne_of_kinds hk hkey).symm]
  exact h k hk

theorem Counted.drop (h : Counted start dropped counted store) (now : Nat) :
    Counted start (fun key => dropped key + store.overdue now key) counted (store.drop now) := by
  intro k hk
  have hcount := h k hk
  have hdrop := Store.count_drop_add store now k
  dsimp only
  omega

theorem Counted.perm (h : Counted start dropped counted store) {counted' : List String}
    (hperm : counted.Perm counted') : Counted start dropped counted' store := by
  intro k hk
  rw [← hperm.count_eq]
  exact h k hk

theorem Untouched.update (h : Untouched base touched store) (key : String)
    (entry : Option (Entry Int)) :
    Untouched base (key :: touched) (Function.update store key entry) := by
  intro k hk hnot
  rw [Function.update_of_ne (List.ne_of_not_mem_cons hnot)]
  exact h k hk (List.not_mem_of_not_mem_cons hnot)

theorem Untouched.switch (h : Untouched base touched store) (hkey : IsCooldown key)
    (entry : Option (Entry Int)) : Untouched base touched (Function.update store key entry) := by
  intro k hk hnot
  rw [Function.update_of_ne (ne_of_kinds hk hkey).symm]
  exact h k hk hnot

theorem Untouched.drop (h : Untouched base touched store) (now : Nat) :
    Untouched (base.drop now) touched (store.drop now) := by
  intro k hk hnot
  rw [Store.drop, h k hk hnot, ← Store.drop]

end Numbers

/-! Times to live. -/

/-- The key is there and will never be dropped. -/
def timeless (store : Store Int) (key : String) : Bool :=
  (store key).any (fun entry => entry.expiresAt.isNone)

/-- The counters without a time to live: those of the start, and some others. -/
structure Timed (start : Store Int) (others : List String) (store : Store Int) : Prop where
  known : ∀ key, IsCounter key → timeless store key = true →
    timeless start key = true ∨ key ∈ others
  others : ∀ key ∈ others, IsCounter key ∧ timeless store key = true

section Times

variable {start store : Store Int} {others : List String} {key : String}

theorem timeless_update_of_ne (store : Store Int) {key other : String} (h : other ≠ key)
    (entry : Option (Entry Int)) :
    timeless (Function.update store key entry) other = timeless store other := by
  rw [timeless, Function.update_of_ne h, timeless]

/-- A key that is there keeps its time to live. -/
theorem timeless_incrBy_of_present (hpresent : store.present key = true) (change : Int)
    (other : String) : timeless (store.incrBy key change) other = timeless store other := by
  by_cases heq : other = key
  · obtain ⟨entry, hentry⟩ := Option.isSome_iff_exists.mp hpresent
    simp [heq, timeless, Store.incrBy, hentry]
  · exact timeless_update_of_ne store heq _

/-- A new one has none. -/
theorem timeless_incrBy_of_absent (habsent : store.present key = false) (change : Int) :
    timeless (store.incrBy key change) key = true := by
  simp [timeless, Store.incrBy, Store.absent_of_not_present habsent]

theorem timeless_expire (store : Store Int) (key : String) (deadline : Nat) :
    timeless (store.expire key deadline) key = false := by
  cases hentry : store key <;> simp [timeless, Store.expire, hentry]

theorem timeless_drop (store : Store Int) (now : Nat) (key : String) :
    timeless (store.drop now) key = timeless store key := by
  cases hentry : store key with
  | none => simp [timeless, Store.drop, hentry]
  | some entry =>
      obtain ⟨value, deadline⟩ := entry
      cases deadline with
      | none => simp [timeless, Store.drop, hentry, Option.filter, Store.expired]
      | some deadline =>
          by_cases hnow : deadline ≤ now <;>
            simp [timeless, Store.drop, hentry, Option.filter, Store.expired, hnow]

theorem Timed.incrBy_present (h : Timed start others store) (hpresent : store.present key = true)
    (change : Int) : Timed start others (store.incrBy key change) := by
  refine ⟨fun k hk htimeless => ?_, fun k hk => ?_⟩
  · rw [timeless_incrBy_of_present hpresent] at htimeless
    exact h.known k hk htimeless
  · rw [timeless_incrBy_of_present hpresent]
    exact h.others k hk

theorem Timed.incrBy_absent (h : Timed start others store) (hkey : IsCounter key)
    (habsent : store.present key = false) (change : Int) :
    Timed start (key :: others) (store.incrBy key change) := by
  have hnew := timeless_incrBy_of_absent habsent change
  refine ⟨fun k hk htimeless => ?_, List.forall_mem_cons.mpr ⟨⟨hkey, hnew⟩, fun k hk => ?_⟩⟩
  · by_cases heq : k = key
    · exact Or.inr (heq ▸ List.mem_cons_self)
    · rw [Store.incrBy, timeless_update_of_ne store heq] at htimeless
      exact (h.known k hk htimeless).imp id (List.mem_cons_of_mem key)
  · by_cases heq : k = key
    · subst heq
      exact ⟨hkey, hnew⟩
    · rw [Store.incrBy, timeless_update_of_ne store heq]
      exact h.others k hk

theorem Timed.expire (h : Timed start others store) (key : String) (deadline : Nat) :
    Timed start (others.filter (· ≠ key)) (store.expire key deadline) := by
  refine ⟨fun k hk htimeless => ?_, fun k hk => ?_⟩
  · have hne : k ≠ key := by
      rintro rfl
      rw [timeless_expire] at htimeless
      cases htimeless
    rw [Store.expire, timeless_update_of_ne store hne] at htimeless
    exact (h.known k hk htimeless).imp id
      (fun hmem => List.mem_filter.mpr ⟨hmem, decide_eq_true hne⟩)
  · obtain ⟨hmem, hne⟩ := List.mem_filter.mp hk
    rw [Store.expire, timeless_update_of_ne store (of_decide_eq_true hne)]
    exact h.others k hmem

theorem Timed.switch (h : Timed start others store) (hkey : IsCooldown key)
    (entry : Option (Entry Int)) : Timed start others (Function.update store key entry) := by
  refine ⟨fun k hk htimeless => ?_, fun k hk => ?_⟩
  · rw [timeless_update_of_ne store (ne_of_kinds hk hkey).symm] at htimeless
    exact h.known k hk htimeless
  · rw [timeless_update_of_ne store (ne_of_kinds (h.others k hk).1 hkey).symm]
    exact h.others k hk

theorem Timed.drop (h : Timed start others store) (now : Nat) :
    Timed start others (store.drop now) := by
  refine ⟨fun k hk htimeless => ?_, fun k hk => ?_⟩
  · rw [timeless_drop] at htimeless
    exact h.known k hk htimeless
  · rw [timeless_drop]
    exact h.others k hk

theorem Timed.perm (h : Timed start others store) {others' : List String}
    (hperm : others.Perm others') : Timed start others' store :=
  ⟨fun k hk htimeless => (h.known k hk htimeless).imp id hperm.mem_iff.mp,
    fun k hk => h.others k (hperm.mem_iff.mpr hk)⟩

end Times

/-! Cooldown keys. -/

/-- A cooldown key is there if it would be now, and then as it would be, or if
it is one of those that the submission has set. -/
structure Barred (base : Store Int) (set : List String) (store : Store Int) : Prop where
  present : ∀ key, IsCooldown key → store.present key = true → base.present key = true ∨ key ∈ set
  kept : ∀ key, IsCooldown key → base.present key = true → store key = base key
  absent : ∀ key ∈ set, base.present key = false

section Cooldowns

variable {base store : Store Int} {set : List String} {key : String}

theorem present_update_of_ne (store : Store Int) {key other : String} (h : other ≠ key)
    (entry : Option (Entry Int)) :
    Store.present (Function.update store key entry) other = store.present other := by
  rw [Store.present, Function.update_of_ne h, Store.present]

/-- Counters bar nobody. -/
theorem Barred.count (h : Barred base set store) (hkey : IsCounter key)
    (entry : Option (Entry Int)) : Barred base set (Function.update store key entry) := by
  refine ⟨fun k hk hpresent => ?_, fun k hk hpresent => ?_, h.absent⟩
  · rw [present_update_of_ne store (ne_of_kinds hkey hk)] at hpresent
    exact h.present k hk hpresent
  · rw [Function.update_of_ne (ne_of_kinds hkey hk)]
    exact h.kept k hk hpresent

/-- A key that is not there would not be there. -/
theorem Barred.base_absent (h : Barred base set store) (hkey : IsCooldown key)
    (habsent : store.present key = false) : base.present key = false := by
  by_contra hpresent
  have hbase : base.present key = true := by simpa using hpresent
  rw [Store.present, h.kept key hkey hbase, ← Store.present, hbase] at habsent
  cases habsent

theorem Barred.setNx (h : Barred base set store) (hkey : IsCooldown key)
    (habsent : store.present key = false) (entry : Entry Int) :
    Barred base (key :: set) (Function.update store key (some entry)) := by
  have hbase := h.base_absent hkey habsent
  refine ⟨fun k hk hpresent => ?_, fun k hk hpresent => ?_,
    List.forall_mem_cons.mpr ⟨hbase, h.absent⟩⟩
  · by_cases heq : k = key
    · exact Or.inr (heq ▸ List.mem_cons_self)
    · rw [present_update_of_ne store heq] at hpresent
      exact (h.present k hk hpresent).imp id (List.mem_cons_of_mem key)
  · have hne : k ≠ key := by
      rintro rfl
      rw [hbase] at hpresent
      cases hpresent
    rw [Function.update_of_ne hne]
    exact h.kept k hk hpresent

theorem Barred.delete (h : Barred base (key :: set) store) : Barred base set (store.del key) := by
  obtain ⟨hbase, habsent⟩ := List.forall_mem_cons.mp h.absent
  refine ⟨fun k hk hpresent => ?_, fun k hk hpresent => ?_, habsent⟩
  · have hne : k ≠ key := by
      rintro rfl
      simp [Store.present, Store.del] at hpresent
    rw [Store.del, present_update_of_ne store hne] at hpresent
    exact (h.present k hk hpresent).imp id (List.mem_of_ne_of_mem hne)
  · have hne : k ≠ key := by
      rintro rfl
      rw [hbase] at hpresent
      cases hpresent
    rw [Store.del, Function.update_of_ne hne]
    exact h.kept k hk hpresent

theorem present_of_drop {now : Nat} (h : (store.drop now).present key = true) :
    store.present key = true := by
  obtain ⟨entry, hentry⟩ := Option.isSome_iff_exists.mp h
  simp [Store.present, Store.entry_of_drop hentry]

theorem Barred.drop (h : Barred base set store) (now : Nat) :
    Barred (base.drop now) set (store.drop now) := by
  refine ⟨fun k hk hpresent => ?_, fun k hk hpresent => ?_, fun k hk => ?_⟩
  · rcases h.present k hk (present_of_drop hpresent) with hbase | hset
    · refine Or.inl ?_
      rwa [Store.present, Store.drop, h.kept k hk hbase, ← Store.drop, ← Store.present] at hpresent
    · exact Or.inr hset
  · rw [Store.drop, h.kept k hk (present_of_drop hpresent), ← Store.drop]
  · by_contra hpresent
    have hbase := present_of_drop (by simpa using hpresent : (base.drop now).present k = true)
    rw [h.absent k hk] at hbase
    cases hbase

theorem Barred.perm (h : Barred base set store) {set' : List String} (hperm : set.Perm set') :
    Barred base set' store :=
  ⟨fun k hk hpresent => (h.present k hk hpresent).imp id hperm.mem_iff.mp, h.kept,
    fun k hk => h.absent k (hperm.mem_iff.mpr hk)⟩

end Cooldowns

end Graveboards.Rules
