import Graveboards.Archive.Sessions

/-!
Concurrent `BeatmapManager.archive` transactions and the version locks they take:
`pg_advisory_xact_lock` of each beatmap that gets a snapshot, in the order of the
payload, and then of the beatmapset. Both are keys of one lock space.
-/

namespace Graveboards.Archive

open Library Library.Transaction Relation

/-- What the osu! API returns for a beatmapset: its beatmaps with their checksums. -/
structure Payload where
  beatmapsetId : Int
  beatmaps : List Target

/-- Where an `archive` call stands once the beatmapset and its beatmaps exist.
`updating`: the checksum is known, no snapshot is inserted. -/
inductive Progress where
  | starting
  | snapshotting (beatmaps : List Target)
  | closing
  | updating
  | done
  deriving DecidableEq

structure Archives (n : Nat) where
  system : System n
  progress : Fin n → Progress

inductive ArchiveLabel (n : Nat) where
  | lookup (t : Fin n)
  | next (t : Fin n)
  | advance (t : Fin n)
  | commit (t : Fin n)
  | rollback (t : Fin n)

namespace Archives

variable {n : Nat} (combineChecksums : List String → String) (payload : Fin n → Payload)

def initial (shared : Sequences) (db : Tables) : Archives n :=
  ⟨⟨shared, db, fun _ => ⟨[], [], .idle⟩⟩, fun _ => .starting⟩

/-- A snapshot with the checksum is there. -/
def known (kind : Kind) (checksum : String) (db : Tables) : Bool :=
  (db.snapshots kind).any (·.checksum = checksum)

/-- The beatmapset's checksum. -/
def checksum (t : Fin n) : String := combineChecksums ((payload t).beatmaps.map Target.checksum)

def goto (t : Fin n) (progress : Progress) (a : Archives n) : Archives n :=
  { a with progress := Function.update a.progress t progress }

@[simp] theorem system_goto (t : Fin n) (progress : Progress) (a : Archives n) :
    (a.goto t progress).system = a.system := rfl

@[simp] theorem progress_goto_self (t : Fin n) (progress : Progress) (a : Archives n) :
    (a.goto t progress).progress t = progress := by
  simp [goto]

@[simp] theorem progress_goto_of_ne {t u : Fin n} (h : u ≠ t) (progress : Progress)
    (a : Archives n) :
    (a.goto t progress).progress u = a.progress u := by
  simp [goto, h]

/-- The flush of one object. -/
def add (t : Fin n) (kind : Kind) (target : Target) (a : Archives n) : Archives n :=
  { a with system := a.system.setProgram t (.startBefore kind [] [target]) }

/-- `_snapshot_beatmaps` and `_snapshot_beatmapset`: a snapshot that is known by
its checksum is reused. -/
def next (t : Fin n) (a : Archives n) : Option (Archives n) :=
  if (a.system.sessions t).program = .idle then
    match a.progress t with
    | .snapshotting (target :: rest) =>
        if known .beatmap target.checksum (a.system.view t) then
          some (a.goto t (.snapshotting rest))
        else some ((a.add t .beatmap target).goto t (.snapshotting rest))
    | .snapshotting [] =>
        let checksum := checksum combineChecksums payload t
        if known .beatmapset checksum (a.system.view t) then some (a.goto t .closing)
        else some ((a.add t .beatmapset ⟨(payload t).beatmapsetId, checksum⟩).goto t .closing)
    | _ => none
  else none

def step : ArchiveLabel n → Archives n → Option (Archives n)
  | .lookup t, a =>
      if a.progress t = .starting then
        -- This lookup has a session of its own.
        if known .beatmapset (checksum combineChecksums payload t) a.system.committed then
          some (a.goto t .updating)
        else some (a.goto t (.snapshotting (payload t).beatmaps))
      else none
  | .next t, a => a.next combineChecksums payload t
  | .advance t, a => (a.system.advance t).map fun system => { a with system := system }
  | .commit t, a =>
      if a.progress t = .closing ∨ a.progress t = .updating then
        (System.step (.commit t) a.system).map fun system =>
          { a with system := system }.goto t .done
      else none
  | .rollback t, a =>
      (System.step (.rollback t) a.system).map fun system =>
        { a with system := system }.goto t .done

end Archives

/-- The key that the next statement locks. -/
def Flush.wanted : Flush → Option Int
  | .locking _ _ target _ => some target.owner
  | _ => none

/-- The objects of the flush whose `before_insert` hook is still to come. -/
def Flush.hooksLeft : Flush → List Target
  | .locking _ _ _ rest | .numbering _ _ _ rest => rest
  | _ => []

namespace Flush

/-- No statement of the flush locks a key. -/
def Lockless (program : Flush) : Prop := program.wanted = none ∧ program.hooksLeft = []

variable (kind : Kind)

theorem lockless_startAfter (rows : List Snapshot) : (startAfter kind rows).Lockless := by
  cases rows <;> exact ⟨rfl, rfl⟩

theorem lockless_afterListing (row : Snapshot) (rows : List Snapshot) :
    (afterListing kind row rows).Lockless := by
  cases kind with
  | beatmap => exact lockless_startAfter .beatmap rows
  | beatmapset => exact ⟨rfl, rfl⟩

theorem lockless_startInsert (inserted : List Snapshot) (entries : List (Target × Nat)) :
    (startInsert kind inserted entries).Lockless := by
  cases entries with
  | nil => exact lockless_startAfter kind inserted
  | cons entry rest => exact ⟨rfl, rfl⟩

theorem lockless_startRequests (entries : List (Int × Nat)) : (startRequests entries).Lockless := by
  cases entries <;> exact ⟨rfl, rfl⟩

theorem lockless_startBinding (bound : List (Int × Nat)) (owners : List Int) :
    (startBinding bound owners).Lockless := by
  cases owners with
  | nil => exact lockless_startRequests bound
  | cons owner rest => exact ⟨rfl, rfl⟩

end Flush

namespace System

variable {n : Nat}

def Holds (s : System n) (t : Fin n) (k : Int) : Prop := k ∈ (s.sessions t).held

/-- The next statement of the session locks the key. -/
def Wants (s : System n) (t : Fin n) (k : Int) : Prop := (s.sessions t).program.wanted = some k

/-- A cycle of sessions that wait for each other's advisory locks. -/
def Deadlock (s : System n) : Prop := ∃ t, TransGen (WaitsFor s.Holds s.Wants) t t

variable {s s' : System n} {t : Fin n}

/-- What a statement of `t` does to the locks. -/
structure Locks (s s' : System n) (t : Fin n) : Prop where
  others : ∀ u, u ≠ t → s'.sessions u = s.sessions u
  locked : ∀ k, (s.sessions t).program.wanted = some k →
    ¬ s.heldElsewhere t k ∧ (s'.sessions t).held = k :: (s.sessions t).held ∧
      (s'.sessions t).program.wanted = none ∧
      (s'.sessions t).program.hooksLeft = (s.sessions t).program.hooksLeft
  kept : (s.sessions t).program.wanted = none →
    (s'.sessions t).held = (s.sessions t).held ∧
      ((s.sessions t).program.hooksLeft = [] → (s'.sessions t).program.Lockless)

/-- A statement that does not lock. -/
theorem Locks.of_kept (hwanted : (s.sessions t).program.wanted = none)
    (hothers : ∀ u, u ≠ t → s'.sessions u = s.sessions u)
    (hheld : (s'.sessions t).held = (s.sessions t).held)
    (hprogram : (s.sessions t).program.hooksLeft = [] → (s'.sessions t).program.Lockless) :
    Locks s s' t := by
  constructor
  · exact hothers
  · intro k hk
    rw [hwanted] at hk
    cases hk
  · exact fun _ => ⟨hheld, hprogram⟩

theorem Locks.setProgram {program : Flush} (hwanted : (s.sessions t).program.wanted = none)
    (hprogram : (s.sessions t).program.hooksLeft = [] → program.Lockless) :
    Locks s (s.setProgram t program) t := by
  apply Locks.of_kept hwanted
  · exact fun u hu => World.sessions_setProgram_of_ne s t u program hu
  · exact World.held_setProgram s t t program
  · rw [World.program_setProgram_self]
    exact hprogram

theorem Locks.write {x : Write} {program : Flush} {shared : Sequences}
    (hwanted : (s.sessions t).program.wanted = none) (hprogram : program.Lockless) :
    Locks s { (s.write t x).setProgram t program with shared := shared } t := by
  apply Locks.of_kept hwanted
  · intro u hu
    exact (World.sessions_setProgram_of_ne _ t u program hu).trans
      (World.sessions_write_of_ne s t u x hu)
  · exact (World.held_setProgram _ t t program).trans (World.held_write s t t x)
  · intro _
    rw [show ({ (s.write t x).setProgram t program with shared := shared } : System n).sessions t =
      ((s.write t x).setProgram t program).sessions t from rfl, World.program_setProgram_self]
    exact hprogram

theorem Locks.fail (hwanted : (s.sessions t).program.wanted = none) : Locks s (s.fail t) t := by
  apply Locks.of_kept hwanted
  · exact fun u hu => by simp [System.fail, hu]
  · simp [System.fail]
  · intro _
    simp [System.fail, Flush.Lockless, Flush.wanted, Flush.hooksLeft]

theorem locks_of_advance (hstep : s.advance t = some s') : Locks s s' t := by
  unfold System.advance at hstep
  have hwanted {program : Flush} (hprogram : (s.sessions t).program = program)
      (h : program.wanted = none) :
      (s.sessions t).program.wanted = none := by rw [hprogram, h]
  cases hprogram : (s.sessions t).program with
  | idle => simp [hprogram] at hstep
  | failed => simp [hprogram] at hstep
  | locking kind numbered target rest =>
      simp only [hprogram] at hstep
      obtain ⟨hfree, hstep⟩ := Option.ite_none_left_eq_some.mp hstep
      obtain rfl := Option.some.inj hstep
      constructor
      · exact fun u hu => by simp [hu]
      · intro k hk
        rw [hprogram] at hk
        obtain rfl := Option.some.inj hk
        refine ⟨hfree, by simp, ?_, ?_⟩
        · rw [World.program_setProgram_self]
          rfl
        · rw [World.program_setProgram_self, hprogram]
          rfl
      · intro hnone
        rw [hprogram] at hnone
        cases hnone
  | numbering kind numbered target rest =>
      simp only [hprogram] at hstep
      obtain rfl := Option.some.inj hstep
      apply Locks.setProgram (hwanted hprogram rfl)
      intro hleft
      rw [hprogram] at hleft
      obtain rfl : rest = [] := hleft
      exact Flush.lockless_startInsert _ _ _
  | inserting kind inserted target number rest =>
      simp only [hprogram] at hstep
      obtain ⟨-, hstep⟩ := Option.ite_none_left_eq_some.mp hstep
      split at hstep
      · obtain rfl := Option.some.inj hstep
        exact Locks.fail (hwanted hprogram rfl)
      · obtain rfl := Option.some.inj hstep
        exact Locks.write (hwanted hprogram rfl) (Flush.lockless_startInsert _ _ _)
  | selecting kind row rest =>
      simp only [hprogram] at hstep
      obtain rfl := Option.some.inj hstep
      exact Locks.setProgram (hwanted hprogram rfl) fun _ => ⟨rfl, rfl⟩
  | relisting kind row listingId rest =>
      simp only [hprogram] at hstep
      obtain rfl := Option.some.inj hstep
      cases listingId with
      | none => exact Locks.write (hwanted hprogram rfl) (Flush.lockless_afterListing _ _ _)
      | some id => exact Locks.write (hwanted hprogram rfl) (Flush.lockless_afterListing _ _ _)
  | moving row rest =>
      simp only [hprogram] at hstep
      obtain rfl := Option.some.inj hstep
      exact Locks.write (hwanted hprogram rfl) (Flush.lockless_startAfter _ _)
  | binding bound beatmapsetId rest =>
      simp only [hprogram] at hstep
      split at hstep
      · obtain rfl := Option.some.inj hstep
        exact Locks.fail (hwanted hprogram rfl)
      · obtain rfl := Option.some.inj hstep
        exact Locks.setProgram (hwanted hprogram rfl) fun _ => Flush.lockless_startBinding _ _
  | requesting beatmapsetId snapshotId rest =>
      simp only [hprogram] at hstep
      obtain rfl := Option.some.inj hstep
      exact Locks.write (hwanted hprogram rfl) (Flush.lockless_startRequests _)

theorem exclusive_of_locks (hs : s.Exclusive) (h : Locks s s' t) : s'.Exclusive := by
  cases hwanted : (s.sessions t).program.wanted with
  | none =>
      apply hs.of_held
      intro u
      by_cases hu : u = t
      · subst hu
        rw [(h.kept hwanted).1]
        exact List.Subset.refl _
      · rw [h.others u hu]
        exact List.Subset.refl _
  | some k =>
      obtain ⟨hfree, hheld, -⟩ := h.locked k hwanted
      apply (hs.hold hfree).of_held
      intro u
      by_cases hu : u = t
      · subst hu
        rw [hheld, World.held_hold_self]
        exact List.Subset.refl _
      · rw [h.others u hu, World.sessions_hold_of_ne s t u k hu]
        exact List.Subset.refl _

end System

namespace Archives

variable {n : Nat} {combineChecksums : List String → String} {payload : Fin n → Payload}
  {a a' : Archives n}

/-- The keys of an archive in the order in which it locks them. -/
def keys (p : Payload) : List Int := p.beatmaps.map Target.owner ++ [p.beatmapsetId]

/-- Some archive locks `k` before `k'`. -/
def Before (payload : Fin n → Payload) (k k' : Int) : Prop :=
  k ≠ k' ∧ ∃ t, [k, k'].Sublist (keys (payload t))

/-- The keys that an archive has not come to. -/
def keysLeft (p : Payload) : Progress → List Int
  | .starting => keys p
  | .snapshotting beatmaps => beatmaps.map Target.owner ++ [p.beatmapsetId]
  | _ => []

/-- What the archive holds comes before what it asks for. -/
structure Ordered (p : Payload) (session : Session Write Int Flush) (progress : Progress) :
    Prop where
  hooksLeft : session.program.hooksLeft = []
  held : ∃ earlier, keys p = earlier ++ keysLeft p progress ∧
    match session.program.wanted with
    | none => session.held ⊆ earlier
    | some k => ∃ before, earlier = before ++ [k] ∧ session.held ⊆ before

structure Invariant (payload : Fin n → Payload) (a : Archives n) : Prop where
  exclusive : a.system.Exclusive
  ordered : ∀ t, Ordered (payload t) (a.system.sessions t) (a.progress t)

theorem before_of_ordered {t : Fin n} {k k' : Int}
    (h : Ordered (payload t) (a.system.sessions t) (a.progress t)) (hheld : a.system.Holds t k)
    (hwanted : a.system.Wants t k') :
    [k, k'].Sublist (keys (payload t)) := by
  obtain ⟨earlier, hkeys, hearlier⟩ := h.held
  rw [show (a.system.sessions t).program.wanted = some k' from hwanted] at hearlier
  obtain ⟨before, rfl, hsubset⟩ := hearlier
  rw [hkeys]
  apply List.Sublist.trans _ (List.sublist_append_left _ _)
  exact (List.singleton_sublist.mpr (hsubset hheld)).append (List.Sublist.refl [k'])

/-- An acyclic order leaves no room for a deadlock. -/
theorem Invariant.no_deadlock (ha : Invariant payload a)
    (hacyclic : ∀ k, ¬ TransGen (Before payload) k k) :
    ¬ a.system.Deadlock := by
  rintro ⟨t, hcycle⟩
  apply no_wait_cycle hacyclic _ t hcycle
  intro u v k k' hne hheld hwanted hheld'
  refine ⟨?_, u, before_of_ordered (ha.ordered u) hheld hwanted⟩
  rintro rfl
  exact hne (ha.exclusive u v k hheld hheld')

/-- A step that changes the archive `t` alone. -/
theorem Invariant.update {t : Fin n} (ha : Invariant payload a) (hexclusive : a'.system.Exclusive)
    (hothers : ∀ u, u ≠ t → a'.system.sessions u = a.system.sessions u ∧
      a'.progress u = a.progress u)
    (hordered : Ordered (payload t) (a'.system.sessions t) (a'.progress t)) :
    Invariant payload a' := by
  constructor
  · exact hexclusive
  · intro u
    by_cases hu : u = t
    · subst hu
      exact hordered
    · obtain ⟨hsession, hprogress⟩ := hothers u hu
      rw [hsession, hprogress]
      exact ha.ordered u

theorem Invariant.goto {t : Fin n} {progress : Progress} (ha : Invariant payload a)
    (hleft : keysLeft (payload t) progress <:+ keysLeft (payload t) (a.progress t))
    (hwanted : (a.system.sessions t).program.wanted = none) :
    Invariant payload (a.goto t progress) := by
  refine ha.update (t := t) ha.exclusive ?_ ?_
  · exact fun u hu => ⟨rfl, progress_goto_of_ne hu progress a⟩
  · obtain ⟨hhooks, earlier, hkeys, hheld⟩ := ha.ordered t
    obtain ⟨passed, hpassed⟩ := hleft
    rw [hwanted] at hheld
    constructor
    · exact hhooks
    · refine ⟨earlier ++ passed, ?_, ?_⟩
      · rw [progress_goto_self, List.append_assoc, hpassed]
        exact hkeys
      · rw [system_goto, hwanted]
        exact fun k hk => List.mem_append_left _ (hheld hk)

/-- The flush of the next object of the payload. -/
theorem Invariant.add {t : Fin n} {kind : Kind} {target : Target} {progress : Progress}
    (ha : Invariant payload a) (hidle : (a.system.sessions t).program = .idle)
    (hleft : keysLeft (payload t) (a.progress t) = target.owner :: keysLeft (payload t) progress) :
    Invariant payload ((a.add t kind target).goto t progress) := by
  have hsession : ((a.add t kind target).goto t progress).system.sessions t =
      { a.system.sessions t with program := .locking kind [] target [] } := by
    simp [Archives.add, World.setProgram, World.setSession, Flush.startBefore]
  refine ha.update (t := t) ?_ ?_ ?_
  · exact ha.exclusive.of_held fun u => by simp [Archives.add]
  · intro u hu
    exact ⟨World.sessions_setProgram_of_ne _ t u _ hu, progress_goto_of_ne hu progress _⟩
  · obtain ⟨-, earlier, hkeys, hheld⟩ := ha.ordered t
    rw [hidle] at hheld
    rw [hsession]
    constructor
    · rfl
    · refine ⟨earlier ++ [target.owner], ?_, earlier, rfl, hheld⟩
      rw [progress_goto_self, List.append_assoc]
      exact hkeys.trans (congrArg _ hleft)

theorem Invariant.next {t : Fin n} (ha : Invariant payload a)
    (hstep : a.next combineChecksums payload t = some a') : Invariant payload a' := by
  unfold Archives.next at hstep
  obtain ⟨hidle, hstep⟩ := Option.ite_none_right_eq_some.mp hstep
  have hwanted : (a.system.sessions t).program.wanted = none := by rw [hidle]; rfl
  cases hprogress : a.progress t with
  | snapshotting beatmaps =>
      cases beatmaps with
      | nil =>
          simp only [hprogress] at hstep
          split at hstep
          · obtain rfl := Option.some.inj hstep
            exact ha.goto (List.nil_suffix) hwanted
          · obtain rfl := Option.some.inj hstep
            exact ha.add hidle (by rw [hprogress]; rfl)
      | cons target rest =>
          simp only [hprogress] at hstep
          split at hstep
          · obtain rfl := Option.some.inj hstep
            exact ha.goto (by rw [hprogress]; exact List.suffix_cons _ _) hwanted
          · obtain rfl := Option.some.inj hstep
            exact ha.add hidle (by rw [hprogress]; rfl)
  | _ => simp [hprogress] at hstep

theorem Invariant.advance {t : Fin n} {system : System n} (ha : Invariant payload a)
    (hstep : a.system.advance t = some system) : Invariant payload { a with system := system } := by
  have hlocks := System.locks_of_advance hstep
  refine ha.update (t := t) (System.exclusive_of_locks ha.exclusive hlocks) ?_ ?_
  · exact fun u hu => ⟨hlocks.others u hu, rfl⟩
  · obtain ⟨hhooks, earlier, hkeys, hheld⟩ := ha.ordered t
    cases hwanted : (a.system.sessions t).program.wanted with
    | none =>
        rw [hwanted] at hheld
        obtain ⟨hsame, hprogram⟩ := hlocks.kept hwanted
        obtain ⟨hnone, hnil⟩ := hprogram hhooks
        refine ⟨hnil, earlier, hkeys, ?_⟩
        rw [hnone, hsame]
        exact hheld
    | some k =>
        rw [hwanted] at hheld
        obtain ⟨before, rfl, hsubset⟩ := hheld
        obtain ⟨-, hcons, hnone, hleft⟩ := hlocks.locked k hwanted
        refine ⟨hleft.trans hhooks, before ++ [k], hkeys, ?_⟩
        rw [hnone, hcons]
        apply List.cons_subset.mpr
        exact ⟨by simp, fun x hx => List.mem_append_left _ (hsubset hx)⟩

/-- The transaction has ended, and its locks with it. -/
theorem Invariant.ended {t : Fin n} {system : System n} (ha : Invariant payload a)
    (hothers : ∀ u, u ≠ t → system.sessions u = a.system.sessions u)
    (hself : system.sessions t = ⟨[], [], .idle⟩) :
    Invariant payload ({ a with system := system }.goto t .done) := by
  refine ha.update (t := t) ?_ ?_ ?_
  · apply ha.exclusive.of_held
    intro u
    rw [system_goto]
    by_cases hu : u = t
    · subst hu
      rw [hself]
      exact List.nil_subset _
    · rw [hothers u hu]
      exact List.Subset.refl _
  · exact fun u hu => ⟨hothers u hu, progress_goto_of_ne hu .done _⟩
  · rw [system_goto, progress_goto_self, hself]
    exact ⟨rfl, keys (payload t), (List.append_nil _).symm, List.nil_subset _⟩

/-- An archive that has yet to look up its beatmapset asks for nothing. -/
theorem Invariant.wanted_starting {t : Fin n} (ha : Invariant payload a)
    (hprogress : a.progress t = .starting) :
    (a.system.sessions t).program.wanted = none := by
  obtain ⟨-, earlier, hkeys, hheld⟩ := ha.ordered t
  rw [hprogress] at hkeys
  obtain rfl : earlier = [] := by simpa [keysLeft] using hkeys
  cases hwanted : (a.system.sessions t).program.wanted with
  | none => rfl
  | some k =>
      rw [hwanted] at hheld
      obtain ⟨before, hnil, -⟩ := hheld
      simp at hnil

theorem Invariant.step {label : ArchiveLabel n} (ha : Invariant payload a)
    (hstep : Archives.step combineChecksums payload label a = some a') : Invariant payload a' := by
  cases label with
  | lookup t =>
      obtain ⟨hprogress, hstep⟩ := Option.ite_none_right_eq_some.mp hstep
      have hwanted := ha.wanted_starting hprogress
      split at hstep
      · obtain rfl := Option.some.inj hstep
        exact ha.goto List.nil_suffix hwanted
      · obtain rfl := Option.some.inj hstep
        exact ha.goto (by rw [hprogress]; exact List.suffix_rfl) hwanted
  | next t => exact ha.next hstep
  | advance t =>
      obtain ⟨system, hsystem, rfl⟩ := Option.map_eq_some_iff.mp hstep
      exact ha.advance hsystem
  | commit t =>
      obtain ⟨-, hstep⟩ := Option.ite_none_right_eq_some.mp hstep
      obtain ⟨system, hsystem, rfl⟩ := Option.map_eq_some_iff.mp hstep
      obtain ⟨-, hsystem⟩ := Option.ite_none_right_eq_some.mp hsystem
      obtain rfl := Option.some.inj hsystem
      exact ha.ended (fun u hu => by simp [World.commit, hu]) (by simp [World.commit])
  | rollback t =>
      simp only [Archives.step, System.step, Option.map_some, Option.some.injEq] at hstep
      obtain rfl := hstep
      exact ha.ended (fun u hu => by simp [World.rollback, hu]) (by simp [World.rollback])

theorem Invariant.initial (payload : Fin n → Payload) (shared : Sequences) (db : Tables) :
    Invariant payload (Archives.initial shared db) := by
  constructor
  · intro t u k hk
    cases hk
  · exact fun t => ⟨rfl, [], rfl, List.nil_subset _⟩

/-- Archives whose locks can be put in an order never deadlock, whatever the
database holds and in every interleaving. -/
theorem no_deadlock_of_acyclic (combineChecksums : List String → String) (payload : Fin n → Payload)
    (hacyclic : ∀ k, ¬ TransGen (Before payload) k k) {shared : Sequences} {db : Tables}
    {labels : List (ArchiveLabel n)}
    (hrun : Runs.run (step combineChecksums payload) labels (initial shared db) = some a) :
    ¬ a.system.Deadlock :=
  (Runs.invariant_of_steps (Invariant payload) (fun _ _ _ ha hstep => ha.step hstep)
    (Invariant.initial payload shared db) hrun).no_deadlock hacyclic

/-- Ascending ids are an order for the locks. -/
theorem acyclic_of_ascending {payload : Fin n → Payload}
    (h : ∀ t, (keys (payload t)).Pairwise (· < ·)) (k : Int) : ¬ TransGen (Before payload) k k := by
  have hlt {k k' : Int} (hbefore : Before payload k k') : k < k' := by
    obtain ⟨-, t, hsublist⟩ := hbefore
    exact List.rel_of_pairwise_cons (List.Pairwise.sublist hsublist (h t)) List.mem_cons_self
  intro hcycle
  have hself : TransGen (· < ·) k k := TransGen.mono (fun _ _ => hlt) _ _ hcycle
  rw [transGen_eq_self] at hself
  exact lt_irrefl k hself

/-- Two beatmapsets that share a beatmap; their ids are above those of the beatmaps. -/
def overlapping : Fin 2 → Payload := ![⟨10, [⟨1, "a"⟩, ⟨2, "b"⟩]⟩, ⟨11, [⟨2, "b"⟩, ⟨3, "c"⟩]⟩]

/-- The first archive inserts a snapshot and locks the beatmap that both have, and
the second comes to it. -/
def secondWaits : List (ArchiveLabel 2) :=
  [.lookup 0, .lookup 1, .next 0] ++ List.replicate 5 (.advance 0) ++ [.next 0, .advance 0, .next 1]

theorem no_deadlock_of_acyclic_overlapping :
    ∃ a, Runs.run (step String.join overlapping) secondWaits
        (initial ⟨fun _ => 1, fun _ => 1, 1⟩ .empty) = some a ∧
      WaitsFor a.system.Holds a.system.Wants 1 0 ∧ ¬ a.system.Deadlock := by
  have hend : (Runs.run (step String.join overlapping) secondWaits
      (initial ⟨fun _ => 1, fun _ => 1, 1⟩ .empty)).map (fun a =>
        ((a.system.sessions 0).held, (a.system.sessions 1).program.wanted)) =
          some ([2, 1], some 2) := by
    decide +kernel
  obtain ⟨a, hrun, hlocks⟩ := Option.map_eq_some_iff.mp hend
  obtain ⟨hheld, hwanted⟩ := Prod.mk.inj hlocks
  have hholds : a.system.Holds 0 2 := by
    rw [System.Holds, hheld]
    exact List.mem_cons_self
  exact ⟨a, hrun, ⟨by decide, 2, hwanted, hholds⟩,
    no_deadlock_of_acyclic String.join overlapping (acyclic_of_ascending (by decide)) hrun⟩

/-- Both archives insert their first beatmap snapshot. -/
def bothStarted : List (ArchiveLabel 2) :=
  [.lookup 0, .lookup 1, .next 0, .next 1] ++ List.replicate 5 (.advance 0) ++
    List.replicate 5 (.advance 1) ++
    [.next 0, .next 1]

/-- The id of each beatmapset is the id of the other's beatmap. -/
def crossed : Fin 2 → Payload := ![⟨1, [⟨2, "a"⟩]⟩, ⟨2, [⟨1, "b"⟩]⟩]

theorem deadlock_of_crossed :
    ¬ ∀ (n : Nat) (combineChecksums : List String → String) (payload : Fin n → Payload)
    (shared : Sequences)
      (db : Tables) (labels : List (ArchiveLabel n)) (a : Archives n),
      Runs.run (step combineChecksums payload) labels (initial shared db) = some a →
      ¬ a.system.Deadlock := by
  intro h
  have hend : (Runs.run (step String.join crossed) bothStarted
      (initial ⟨fun _ => 1, fun _ => 1, 1⟩ .empty)).map (fun a =>
        ((a.system.sessions 0).held, (a.system.sessions 0).program.wanted,
          (a.system.sessions 1).held, (a.system.sessions 1).program.wanted)) =
      some ([2], some 1, [1], some 2) := by
    decide +kernel
  obtain ⟨a, hrun, hlocks⟩ := Option.map_eq_some_iff.mp hend
  simp only [Prod.mk.injEq] at hlocks
  obtain ⟨hheld, hwanted, hheld', hwanted'⟩ := hlocks
  apply h 2 String.join crossed _ _ bothStarted a hrun
  refine ⟨0, .tail (.single (b := 1) ⟨by decide, 1, hwanted, ?_⟩) ⟨by decide, 2, hwanted', ?_⟩⟩
  · simp [System.Holds, hheld']
  · simp [System.Holds, hheld]

end Archives

end Graveboards.Archive
