import Graveboards.Daemon.Fetcher
import Graveboards.Daemon.Lost

/-!
Disabled records and the jobs that are left of them. The flag is read when the
jobs are preloaded and never again: a job stays in the heap, in its handler or
on its way to the heap, and a fetcher schedules it again after every execution.
-/

namespace Graveboards.Daemon

open Library

/-- The record of the message at hand. -/
def Subscriber.recordId : Subscriber → Option Nat
  | .listening => none
  | .resolving recordId | .loading recordId _ => some recordId

namespace Fetcher

/-- The record is about to be preloaded, a message about it is on its way, or
the scheduler has it. -/
def scheduled (f : Fetcher) (id : Nat) : Prop :=
  (∃ record ∈ f.preloading.getD [], record.id = id) ∨ id ∈ f.messages ∨
    f.subscriber.recordId = some id ∨ f.scheduler.tracks id

instance (f : Fetcher) (id : Nat) : Decidable (f.scheduled id) :=
  inferInstanceAs (Decidable ((∃ record ∈ f.preloading.getD [], record.id = id) ∨ id ∈ f.messages ∨
    f.subscriber.recordId = some id ∨ f.scheduler.tracks id))

variable (config : FetcherConfig)

/-- The record that is off after the event, by a commit or a rollback. -/
def turnsOff : FetcherEvent → Fetcher → Option Nat
  | .commitUser recordId _, _ => if config.kind.enabledDefault then none else some recordId
  | .commit recordId value, _ => if value then none else some recordId
  | .rollback recordId value, f =>
      if (f.assigned.erase (recordId, value)).contains (recordId, true) then none
      else if f.db.disabled recordId then some recordId
      else none
  | .execute i answer, f =>
      match f.scheduler.handlers[i]?, f.programs i with
      | some h, .disable => if answer = .ok ∨ answer = .lost then some h.jobId else none
      | _, _ => none
  | _, _ => none

/-- A record that is turned off is not scheduled. -/
def Quiet (event : FetcherEvent) (f : Fetcher) : Prop :=
  ∀ id ∈ turnsOff config event f, ¬ f.scheduled id

instance (event : FetcherEvent) (f : Fetcher) : Decidable (Quiet config event f) :=
  inferInstanceAs (Decidable (∀ id ∈ turnsOff config event f, ¬ f.scheduled id))

def publishes : FetcherEvent → Option Nat
  | .userAfterInsert recordId sent => if config.kind = .profile && sent then some recordId else none
  | .enabledSet recordId value sent =>
      if config.kind = .score && value && sent then some recordId else none
  | _ => none

/-- The record is on the first page when the service starts again. -/
def Reloaded (f : Fetcher) (id : Nat) : Prop := ∃ record ∈ f.db.enabledPage, record.id = id

instance (f : Fetcher) (id : Nat) : Decidable (f.Reloaded id) :=
  inferInstanceAs (Decidable (∃ record ∈ f.db.enabledPage, record.id = id))

def isStart : FetcherEvent → Bool
  | .start => true
  | _ => false

def isUnresolved : FetcherEvent → Bool
  | .resolved .raised _ => true
  | _ => false

/-- No published record is lost sight of: published before the service has
subscribed, when the service starts again, or when the resolution raises. -/
def Heard (event : FetcherEvent) (f : Fetcher) : Prop :=
  (∀ id ∈ publishes config event, f.preloading.isSome = true → f.scheduled id) ∧
  (isStart event = true → ∀ id ∈ f.announced, f.Reloaded id) ∧
  (isUnresolved event = true → ∀ id ∈ f.subscriber.recordId, id ∈ f.announced →
    scheduled { f with subscriber := .listening } id)

instance (event : FetcherEvent) (f : Fetcher) : Decidable (Heard config event f) :=
  inferInstanceAs (Decidable (
    (∀ id ∈ publishes config event, f.preloading.isSome = true → f.scheduled id) ∧
    (isStart event = true → ∀ id ∈ f.announced, f.Reloaded id) ∧
    (isUnresolved event = true → ∀ id ∈ f.subscriber.recordId, id ∈ f.announced →
      scheduled { f with subscriber := .listening } id)))

end Fetcher

/-! The scheduler's ids. -/

namespace Scheduler

variable {service : Service} {s s' : Scheduler} {action : Action} {id : Nat}

/-- The scheduler comes to know an id by receiving it only. -/
theorem Move.tracks_inv (hs : Consistent service s) (hmove : Move service s action s')
    (hid : s'.tracks id) :
    s.tracks id ∨ ∃ instruction now, action = .receive id instruction now := by
  cases hmove with
  | load jobId instruction now executionTime hfree htime =>
      rcases tracks_push.mp hid with rfl | hold
      · exact Or.inr ⟨instruction, now, rfl⟩
      · exact Or.inl hold
  | skip | wake | acquire | executed | hooked | finished => exact Or.inl hid
  | drop job heap hfree hpop hactive =>
      refine Or.inl (hid.imp_left ?_)
      rintro ⟨other, hother, rfl⟩
      exact ⟨other, PriorityQueue.entries_of_pop hpop ▸ List.mem_cons_of_mem _ hother, rfl⟩
  | spawn job heap hfree hpop hactive =>
      have hentries := PriorityQueue.entries_of_pop hpop
      rcases hid with ⟨other, hother, rfl⟩ | hid
      · exact Or.inl (Or.inl ⟨other, hentries ▸ List.mem_cons_of_mem _ hother, rfl⟩)
      · rcases Finset.mem_insert.mp hid with rfl | hold
        · exact Or.inl (Or.inl ⟨job, hentries ▸ List.mem_cons_self, rfl⟩)
        · exact Or.inl (Or.inr hold)
  | discard i h failed raised now hget hfrom hservice =>
      exact Or.inl (hid.imp_right Finset.mem_of_mem_erase)
  | reschedule i h next hget hfrom hfree =>
      have hactive := hs.mem_active hget (by rw [hfrom]; rfl)
      rcases hid with ⟨job, hjob, rfl⟩ | hid
      · rcases PriorityQueue.mem_push.mp hjob with rfl | hold
        · exact Or.inl (Or.inr hactive)
        · exact Or.inl (Or.inl ⟨job, hold, rfl⟩)
      · exact Or.inl (Or.inr (Finset.mem_of_mem_erase hid))

/-! Loading the records of the preload. -/

theorem Consistent.loadJob (hs : Consistent service s) (jobId now : Nat)
    (instruction : Option JobLoadInstruction) :
    Consistent service (s.loadJob service jobId instruction now) := by
  unfold Scheduler.loadJob
  split
  · exact hs
  · exact hs.load jobId _

theorem tracks_loadJob {jobId now : Nat} {instruction : Option JobLoadInstruction}
    (htime : loadTime service s.heap now instruction ≠ none) :
    (s.loadJob service jobId instruction now).tracks id ↔ id = jobId ∨ s.tracks id := by
  cases hload : loadTime service s.heap now instruction with
  | none => exact absurd hload htime
  | some executionTime =>
      simp only [loadJob, hload]
      exact tracks_push

section Records

variable {instruction : FetcherTask → JobLoadInstruction} {clock : Nat → Nat}

theorem loadRecords_cons (record : FetcherTask) (records : List FetcherTask) (s : Scheduler) :
    s.loadRecords service instruction clock (record :: records) =
      (if !record.enabled then s
        else s.loadJob service record.id (some (instruction record)) (clock record.id)).loadRecords
          service instruction clock records := rfl

theorem Consistent.loadRecords (hs : Consistent service s) (records : List FetcherTask) :
    Consistent service (s.loadRecords service instruction clock records) := by
  induction records generalizing s with
  | nil => exact hs
  | cons record rest ih =>
      rw [loadRecords_cons]
      refine ih ?_
      split
      · exact hs
      · exact hs.loadJob _ _ _

/-- The ids known after loading some enabled records. -/
theorem tracks_loadRecords (hinstruction : ∀ record, (instruction record).skip = false)
    {records : List FetcherTask} (henabled : ∀ record ∈ records, record.enabled = true) :
    (s.loadRecords service instruction clock records).tracks id ↔
      (∃ record ∈ records, record.id = id) ∨ s.tracks id := by
  induction records generalizing s with
  | nil => simp [loadRecords]
  | cons record rest ih =>
      have hloads : (Action.receive record.id (some (instruction record)) (clock record.id)).loads =
          true := by simp [Action.loads, hinstruction record]
      rw [loadRecords_cons, henabled record List.mem_cons_self,
        ih (fun r hr => henabled r (List.mem_cons_of_mem _ hr))]
      simp only [Bool.not_true, Bool.false_eq_true, if_false,
        tracks_loadJob (loadTime_of_loads hloads), List.exists_mem_cons_iff]
      rw [or_left_comm, or_assoc, @eq_comm _ id record.id]

end Records

end Scheduler

/-! The steps of a fetcher. -/

namespace Fetcher

variable {config : FetcherConfig} {f f' : Fetcher} {event : FetcherEvent} {id recordId : Nat}

theorem scheduled_of_message (h : id ∈ f.messages) : f.scheduled id := Or.inr (Or.inl h)

theorem scheduled_of_subscriber (h : f.subscriber.recordId = some id) : f.scheduled id :=
  Or.inr (Or.inr (Or.inl h))

theorem scheduled_of_tracks (h : f.scheduler.tracks id) : f.scheduled id :=
  Or.inr (Or.inr (Or.inr h))

/-- Nothing is scheduled but the records about to be preloaded. -/
theorem reloaded_of_scheduled {page : List FetcherTask} (hpreloading : f.preloading = some page)
    (hmessages : f.messages = []) (hsubscriber : f.subscriber = .listening)
    (hscheduler : f.scheduler = .initially config.service) (h : f.scheduled id) :
    ∃ record ∈ page, record.id = id := by
  rcases h with hrecord | hmessage | hnone | htracks
  · rwa [hpreloading] at hrecord
  · rw [hmessages] at hmessage
    cases hmessage
  · rw [hsubscriber] at hnone
    cases hnone
  · rw [hscheduler] at htracks
    rcases htracks with ⟨job, hjob, -⟩ | hactive
    · cases hjob
    · exact absurd hactive (Finset.notMem_empty id)

/-- What holds of every reachable state: the scheduler is consistent, the records
about to be loaded were read as enabled, and no instruction is to skip. -/
structure Sound (config : FetcherConfig) (f : Fetcher) : Prop where
  scheduler : Scheduler.Consistent config.service f.scheduler
  preloading : ∀ record ∈ f.preloading.getD [], record.enabled = true
  instructed : ∀ recordId instruction, f.subscriber = .loading recordId instruction →
    instruction.skip = false

theorem preloadInstruction_skip (missing : List Nat) (clock : Nat → Nat) (record : FetcherTask) :
    (config.preloadInstruction missing clock record).skip = false := by
  unfold FetcherConfig.preloadInstruction
  cases config.kind <;> rfl

theorem enabledPage_enabled {db : Database} {record : FetcherTask} (h : record ∈ db.enabledPage) :
    record ∈ db.tasks ∧ record.enabled = true :=
  mem_of_mem_getMany h

theorem Sound.move (hs : Sound config f) (hmove : Move config f event f') : Sound config f' := by
  cases hmove with
  | start =>
      exact ⟨Scheduler.consistent_initially _, fun _ hrecord => (enabledPage_enabled hrecord).2,
        fun _ _ h => nomatch h⟩
  | preloaded clock records hrecords =>
      exact { hs with
        scheduler := hs.scheduler.loadRecords records
        preloading := fun _ h => nomatch h }
  | unsent | inserted | commitUser | assigned | enabled | commit | rollback | execute | fetch
  | disable => exact { hs with }
  | listen | unresolved => exact { hs with instructed := fun _ _ h => nomatch h }
  | resolved recordId resolution now instruction hfrom hskip =>
      refine { hs with instructed := ?_ }
      rintro _ _ ⟨⟩
      exact hskip
  | load recordId now instruction scheduler hfrom hmove =>
      exact { hs with
        scheduler := hs.scheduler.move hmove
        instructed := fun _ _ h => nomatch h }
  | handle action scheduler programs db hreceive hmove hdb =>
      exact { hs with scheduler := hs.scheduler.move hmove }

theorem sound_initially (config : FetcherConfig) (db : Database) :
    Sound config (initially config db) :=
  ⟨Scheduler.consistent_initially _, fun _ hrecord => (enabledPage_enabled hrecord).2,
    fun _ _ h => nomatch h⟩

theorem not_off_of_enabledPage (h : f.Reloaded id) : ¬ f.off id := by
  obtain ⟨record, hrecord, rfl⟩ := h
  obtain ⟨htask, henabled⟩ := enabledPage_enabled hrecord
  exact fun hoff => Database.not_disabled_of_enabled htask henabled hoff.1

/-! Which records are off. -/

theorem off_commitEnabled {value : Bool} (h : (f.commitEnabled recordId value).off id) :
    id = recordId ∧ value = false ∨ f.off id := by
  obtain ⟨hdisabled, henabling⟩ := h
  rcases Database.disabled_updateTask_some hdisabled with hcommitted | hold
  · exact Or.inl hcommitted
  · cases value with
    | true => exact Or.inr ⟨hold, henabling⟩
    | false =>
        by_cases heq : id = recordId
        · exact Or.inl ⟨heq, rfl⟩
        · exact Or.inr ⟨hold, fun hmem => henabling (Finset.mem_erase.mpr ⟨heq, hmem⟩)⟩

theorem off_of_assign {value : Bool} (h : (f.assign recordId value).off id) : f.off id := by
  refine ⟨h.1, fun hmem => h.2 ?_⟩
  cases value with
  | true => exact Finset.mem_insert_of_mem hmem
  | false => exact hmem

theorem Move.off_inv (hmove : Move config f event f') (hoff : f'.off id) :
    f.off id ∨ turnsOff config event f = some id := by
  cases hmove with
  | start | preloaded | unsent | inserted | listen | resolved | unresolved | load | fetch =>
      exact Or.inl hoff
  | commitUser recordId userId hnew =>
      rcases (Database.disabled_insertUser hnew).mp hoff.1 with ⟨rfl, hdefault⟩ | hold
      · have hflag : config.kind.enabledDefault = false := hdefault
        exact Or.inr (by simp only [turnsOff, hflag, Bool.false_eq_true, if_false])
      · exact Or.inl ⟨hold, hoff.2⟩
  | assigned recordId value sent => exact Or.inl (off_of_assign hoff)
  | enabled recordId hkind => exact Or.inl (off_of_assign hoff)
  | commit recordId value =>
      refine (off_commitEnabled hoff).symm.imp_right ?_
      rintro ⟨rfl, rfl⟩
      rfl
  | rollback recordId value =>
      obtain ⟨hdisabled, henabling⟩ := hoff
      by_cases hopen : (recordId, true) ∈ f.assigned.erase (recordId, value)
      · exact Or.inl ⟨hdisabled, by simpa only [hopen, if_true] using henabling⟩
      · simp only [hopen, if_false] at henabling
        by_cases heq : id = recordId
        · subst heq
          exact Or.inr ((if_neg (by simpa using hopen)).trans (if_pos hdisabled))
        · exact Or.inl ⟨hdisabled, fun hmem => henabling (Finset.mem_erase.mpr ⟨heq, hmem⟩)⟩
  | handle action scheduler programs db hreceive hmove hdb =>
      exact Or.inl ⟨(hdb id).mp hoff.1, hoff.2⟩
  | execute i answer programs db hdb => exact Or.inl ⟨(hdb id).mp hoff.1, hoff.2⟩
  | disable i h answer raised hget hprogram hanswer =>
      refine (off_commitEnabled hoff).symm.imp_right ?_
      rintro ⟨rfl, -⟩
      simp only [turnsOff, hget, hprogram, hanswer, if_true]

/-! Which records are scheduled. -/

theorem scheduled_publish_inv (h : (f.publish recordId).scheduled id) :
    id = recordId ∨ f.scheduled id := by
  rcases h with hrecord | hmessage | hrest
  · exact Or.inr (Or.inl hrecord)
  · unfold publish at hmessage
    dsimp only at hmessage
    split at hmessage
    · exact Or.inr (Or.inr (Or.inl hmessage))
    · rcases List.mem_append.mp hmessage with hold | hnew
      · exact Or.inr (Or.inr (Or.inl hold))
      · exact Or.inl (List.mem_singleton.mp hnew)
  · exact Or.inr (Or.inr (Or.inr hrest))

/-- A record becomes scheduled only by a publication or a start, and then it is
not off. -/
theorem Move.scheduled_inv (hs : Sound config f) (hmove : Move config f event f')
    (h : f'.scheduled id) : f.scheduled id ∨ ¬ f'.off id := by
  cases hmove with
  | start =>
      exact Or.inr (not_off_of_enabledPage (f := f) (reloaded_of_scheduled rfl rfl rfl rfl h))
  | preloaded clock records hrecords =>
      have henabled := hs.preloading
      rw [hrecords, Option.getD_some] at henabled
      rcases h with ⟨record, hrecord, -⟩ | hmessage | hsubscriber | htracks
      · cases hrecord
      · exact Or.inl (scheduled_of_message hmessage)
      · exact Or.inl (scheduled_of_subscriber hsubscriber)
      · rcases (Scheduler.tracks_loadRecords (preloadInstruction_skip _ clock) henabled).mp
          htracks with
          hrecord | hold
        · exact Or.inl (Or.inl (by rwa [hrecords, Option.getD_some]))
        · exact Or.inl (scheduled_of_tracks hold)
  | unsent | commitUser | assigned | commit | rollback | execute | fetch | disable => exact Or.inl h
  | inserted recordId hkind hnew =>
      rcases scheduled_publish_inv h with rfl | hold
      · refine Or.inr (fun hoff => ?_)
        have hhas : f.db.has id = true := Database.has_of_disabled hoff.1
        rw [hnew] at hhas
        cases hhas
      · exact Or.inl hold
  | enabled recordId hkind =>
      rcases scheduled_publish_inv h with rfl | hold
      · exact Or.inr (fun hoff => hoff.2 (Finset.mem_insert_self _ _))
      · exact Or.inl hold
  | listen recordId rest hfrom hmessages =>
      rcases h with hrecord | hmessage | hsubscriber | htracks
      · exact Or.inl (Or.inl hrecord)
      · exact Or.inl (scheduled_of_message (hmessages ▸ List.mem_cons_of_mem _ hmessage))
      · obtain rfl := Option.some.inj hsubscriber
        exact Or.inl (scheduled_of_message (hmessages ▸ List.mem_cons_self))
      · exact Or.inl (scheduled_of_tracks htracks)
  | resolved recordId resolution now instruction hfrom hskip =>
      exact Or.inl (by simpa only [scheduled, hfrom, Subscriber.recordId] using h)
  | unresolved recordId now hfrom =>
      refine Or.inl (h.imp_right (Or.imp_right (Or.imp_left ?_)))
      exact fun hnone => nomatch hnone
  | load recordId now instruction scheduler hfrom hmove =>
      rcases h with hrecord | hmessage | hnone | htracks
      · exact Or.inl (Or.inl hrecord)
      · exact Or.inl (scheduled_of_message hmessage)
      · cases hnone
      · rcases hmove.tracks_inv hs.scheduler htracks with hold | ⟨_, _, heq⟩
        · exact Or.inl (scheduled_of_tracks hold)
        · obtain ⟨rfl, -, -⟩ := Action.receive.inj heq
          exact Or.inl (scheduled_of_subscriber (by rw [hfrom]; rfl))
  | handle action scheduler programs db hreceive hmove hdb =>
      refine Or.inl (h.imp_right (Or.imp_right (Or.imp_right fun htracks => ?_)))
      refine (hmove.tracks_inv hs.scheduler htracks).resolve_right ?_
      rintro ⟨instruction, now, heq⟩
      exact hreceive _ _ _ heq

/-- A handler fetches a record that is scheduled. -/
theorem Move.fetches_inv (hs : Sound config f) (hmove : Move config f event f')
    {entry : Nat × Bool} (h : entry ∈ f'.fetches) :
    entry ∈ f.fetches ∨ f.scheduled entry.1 ∧ entry.2 = decide (f.off entry.1) := by
  cases hmove with
  | fetch i attempt handler hget hstage =>
      rcases List.mem_append.mp h with hold | hnew
      · exact Or.inl hold
      · obtain rfl := List.mem_singleton.mp hnew
        have hactive := hs.scheduler.mem_active hget (by rw [hstage]; rfl)
        exact Or.inr ⟨scheduled_of_tracks (Or.inr hactive), rfl⟩
  | _ => exact Or.inl h

/-- No record that is off is scheduled, and none was fetched. -/
structure Silent (config : FetcherConfig) (f : Fetcher) : Prop where
  sound : Sound config f
  off : ∀ id, f.off id → ¬ f.scheduled id
  fetches : ∀ entry ∈ f.fetches, entry.2 = false

theorem Silent.move (hs : Silent config f) (hquiet : Quiet config event f)
    (hmove : Move config f event f') : Silent config f' := by
  refine ⟨hs.sound.move hmove, fun id hoff hscheduled => ?_, fun entry hentry => ?_⟩
  · have hbefore := (hmove.scheduled_inv hs.sound hscheduled).resolve_right (not_not_intro hoff)
    rcases hmove.off_inv hoff with hold | hturned
    · exact hs.off id hold hbefore
    · exact hquiet id hturned hbefore
  · rcases hmove.fetches_inv hs.sound hentry with hold | ⟨hscheduled, hflag⟩
    · exact hs.fetches entry hold
    · rw [hflag, decide_eq_false_iff_not]
      exact fun hoff => hs.off _ hoff hscheduled

theorem silent_initially (config : FetcherConfig) (db : Database) :
    Silent config (initially config db) := by
  refine ⟨sound_initially config db, fun id hoff hscheduled => ?_, fun _ h => nomatch h⟩
  have hreloaded : (initially config db).Reloaded id :=
    reloaded_of_scheduled rfl rfl rfl rfl hscheduled
  exact not_off_of_enabledPage hreloaded hoff

/-! Published records. -/

/-- Every record published and not disabled since is scheduled. -/
structure Delivered (config : FetcherConfig) (f : Fetcher) : Prop where
  sound : Sound config f
  announced : ∀ id ∈ f.announced, f.scheduled id

theorem scheduled_publish_self (h : f.preloading.isSome = true → f.scheduled recordId) :
    (f.publish recordId).scheduled recordId := by
  cases hpreloading : f.preloading with
  | none => exact scheduled_of_message (by simp [publish, hpreloading])
  | some records =>
      have hscheduled := h (by rw [hpreloading]; rfl)
      simpa only [scheduled, publish, hpreloading, Option.isSome_some, if_true] using hscheduled

theorem scheduled_publish (h : f.scheduled id) : (f.publish recordId).scheduled id := by
  refine h.imp_right (Or.imp_left fun hmessage => ?_)
  unfold publish
  dsimp only
  split
  · exact hmessage
  · exact List.mem_append_left _ hmessage

/-- What was published is scheduled after a publication as well. -/
theorem announced_publish (h : f.preloading.isSome = true → f.scheduled recordId)
    (hall : ∀ id ∈ f.announced, f.scheduled id) :
    ∀ id ∈ (f.publish recordId).announced, (f.publish recordId).scheduled id := by
  intro id hid
  rcases Finset.mem_insert.mp hid with rfl | hold
  · exact scheduled_publish_self h
  · exact scheduled_publish (hall id hold)

theorem Delivered.move (hs : Delivered config f) (hheard : Heard config event f)
    (hmove : Move config f event f') : Delivered config f' := by
  refine ⟨hs.sound.move hmove, ?_⟩
  cases hmove with
  | start => exact fun id hid => Or.inl (hheard.2.1 rfl id hid)
  | preloaded clock records hrecords =>
      have henabled := hs.sound.preloading
      rw [hrecords, Option.getD_some] at henabled
      intro id hid
      have hloaded : (f.scheduler.loadRecords config.service
            (config.preloadInstruction f.db.missingProfileUserIds clock) clock records).tracks id ↔
          (∃ record ∈ records, record.id = id) ∨ f.scheduler.tracks id :=
        Scheduler.tracks_loadRecords (preloadInstruction_skip _ clock) henabled
      rcases hs.announced id hid with hrecord | hmessage | hsubscriber | htracks
      · rw [hrecords, Option.getD_some] at hrecord
        exact scheduled_of_tracks (hloaded.mpr (Or.inl hrecord))
      · exact scheduled_of_message hmessage
      · exact scheduled_of_subscriber hsubscriber
      · exact scheduled_of_tracks (hloaded.mpr (Or.inr htracks))
  | unsent | commitUser | assigned | rollback | execute | fetch => exact hs.announced
  | inserted recordId hkind hnew =>
      exact announced_publish (hheard.1 recordId (by simp [publishes, hkind])) hs.announced
  | enabled recordId hkind =>
      exact announced_publish (hheard.1 recordId (by simp [publishes, hkind])) hs.announced
  | commit recordId value =>
      intro id hid
      cases value with
      | true => exact hs.announced id hid
      | false => exact hs.announced id (Finset.mem_of_mem_erase hid)
  | disable => exact fun id hid => hs.announced id (Finset.mem_of_mem_erase hid)
  | listen recordId rest hfrom hmessages =>
      intro id hid
      rcases hs.announced id hid with hrecord | hmessage | hsubscriber | htracks
      · exact Or.inl hrecord
      · rw [hmessages] at hmessage
        rcases List.mem_cons.mp hmessage with rfl | hrest
        · exact scheduled_of_subscriber rfl
        · exact scheduled_of_message hrest
      · rw [hfrom] at hsubscriber
        cases hsubscriber
      · exact scheduled_of_tracks htracks
  | resolved recordId resolution now instruction hfrom hskip =>
      intro id hid
      have hbefore := hs.announced id hid
      simpa only [scheduled, hfrom, Subscriber.recordId] using hbefore
  | unresolved recordId now hfrom =>
      intro id hid
      by_cases heq : f.subscriber.recordId = some id
      · exact hheard.2.2 rfl id heq hid
      · rcases hs.announced id hid with hrecord | hmessage | hsubscriber | htracks
        · exact Or.inl hrecord
        · exact scheduled_of_message hmessage
        · exact absurd hsubscriber heq
        · exact scheduled_of_tracks htracks
  | load recordId now instruction scheduler hfrom hmove =>
      intro id hid
      rcases hs.announced id hid with hrecord | hmessage | hsubscriber | htracks
      · exact Or.inl hrecord
      · exact scheduled_of_message hmessage
      · rw [hfrom] at hsubscriber
        obtain rfl := Option.some.inj hsubscriber
        apply scheduled_of_tracks
        cases hmove with
        | load _ _ _ executionTime hfree htime => exact Scheduler.tracks_push.mpr (Or.inl rfl)
        | skip _ _ _ hfree htime =>
            have hloads : (Action.receive recordId (some instruction) now).loads = true := by
              simp [Action.loads, hs.sound.instructed recordId instruction hfrom]
            exact absurd htime (Scheduler.loadTime_of_loads hloads)
      · exact scheduled_of_tracks (hmove.tracks_mono rfl htracks)
  | handle action scheduler programs db hreceive hmove hdb =>
      intro id hid
      exact (hs.announced id hid).imp_right (Or.imp_right (Or.imp_right (hmove.tracks_mono rfl)))

theorem delivered_initially (config : FetcherConfig) (db : Database) :
    Delivered config (initially config db) :=
  ⟨sound_initially config db, fun id hid => absurd hid (Finset.notMem_empty id)⟩

/-- In every run: if no record is turned off while it is scheduled, no record is
ever fetched while it is off; and if no published record is lost sight of, every
record published and not disabled since is scheduled. -/
theorem off_not_fetched_published_scheduled (config : FetcherConfig) (db : Database)
    {events : List FetcherEvent} {f : Fetcher}
    (hrun : Runs.run (step config) events (initially config db) = some f) :
    (Runs.Meets (step config) (Quiet config) events (initially config db) →
      ∀ entry ∈ f.fetches, entry.2 = false) ∧
    (Runs.Meets (step config) (Heard config) events (initially config db) →
      ∀ id ∈ f.announced, f.scheduled id) := by
  constructor
  · intro hquiet
    exact (Runs.invariant_of_run (Silent config)
      (fun _ _ _ hs hcondition hstep => hs.move hcondition (step_move hstep))
      (silent_initially config db) hquiet hrun).fetches
  · intro hheard
    exact (Runs.invariant_of_run (Delivered config)
      (fun _ _ _ hs hcondition hstep => hs.move hcondition (step_move hstep))
      (delivered_initially config db) hheard hrun).announced

/-- One task, of user 7. -/
def oneTask (enabled : Bool) : Database :=
  ⟨[⟨1, 7, enabled, none⟩], [⟨7, false⟩], List.nodup_singleton _⟩

/-- The handler of the index executes its job up to the request. -/
def untilFetch (i now : Nat) : List FetcherEvent :=
  [.handle .schedule, .handle (.wake i now), .handle (.acquire i), .execute i .ok, .execute i .ok]

/-- The profile of user 7 is fetched as soon as the service has started. -/
def firstFetch : List FetcherEvent := .preloaded (fun _ => 0) :: untilFetch 0 0

/-- A score task is enabled once the service has subscribed, and fetched. -/
def enableThenFetch : List FetcherEvent :=
  [.preloaded (fun _ => 0), .enabledSet 1 true true, .commit 1 true, .listen, .resolved .found 0,
    .load 0] ++ untilFetch 0 0

theorem enabledTask_fetched :
    ∃ f, Runs.run (step ⟨.score, 5, 10, 10⟩) enableThenFetch
        (initially ⟨.score, 5, 10, 10⟩ (oneTask false)) = some f ∧
      f.fetches = [(1, false)] ∧ (∀ entry ∈ f.fetches, entry.2 = false) ∧
      ∀ id ∈ f.announced, f.scheduled id := by
  refine ⟨_, rfl, by decide +kernel, ?_⟩
  have h :=
    @off_not_fetched_published_scheduled ⟨.score, 5, 10, 10⟩ (oneTask false) enableThenFetch _ rfl
  exact ⟨h.1 (by decide +kernel), h.2 (by decide +kernel)⟩

/-- The profile task that its own service has disabled after a 404 is scheduled
again and fetched again; and a score task enabled while the service preloads is
never scheduled. -/
theorem disabledTask_fetched :
    (∃ f, Runs.run (step ⟨.profile, 5, 10, 10⟩)
        (firstFetch ++
          [.execute 0 (.failed .httpStatusError), .execute 0 .ok, .handle (.executed 0 false),
            .handle (.hooked 0 false 0), .handle (.reschedule 0), .handle (.finished 0 false)] ++
          untilFetch 1 10)
        (initially ⟨.profile, 5, 10, 10⟩ (oneTask true)) = some f ∧
      f.fetches = [(1, false), (1, true)]) ∧
    ∃ f, Runs.run (step ⟨.score, 5, 10, 10⟩)
        [.enabledSet 1 true true, .preloaded (fun _ => 0), .commit 1 true]
        (initially ⟨.score, 5, 10, 10⟩ (oneTask false)) = some f ∧
      1 ∈ f.announced ∧ ¬ f.db.disabled 1 ∧ ¬ f.scheduled 1 := by
  refine ⟨⟨_, rfl, ?_⟩, _, rfl, ?_, ?_, ?_⟩ <;> decide +kernel

end Fetcher

end Graveboards.Daemon
