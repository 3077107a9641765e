import Graveboards.Library.Pages
import Graveboards.Requests.Stuck

/-!
`GET /requests/tasks` over the tasks of all pairs. Handler tasks and validation
tasks are stored under one key prefix; the listing scans the prefix, pages the
keys and then decodes every hash of the page as a handler task.
-/

namespace Graveboards.Requests

open Library

/-- What the id of a task is the hash of. -/
inductive TaskKey where
  | handler (pair : Pair)
  | validation (requestId : Nat)
  deriving DecidableEq

/-- The hashes under the namespace by their id, the rows of the requests, and
the jobs that are published and not yet done. `used` records the keys that have
been written. -/
structure TaskStore where
  keys : List Nat
  hashes : Nat → Option Fields
  rows : List (Nat × Pair)
  nextId : Nat
  handlerJobs : List Pair
  validationJobs : List Nat
  used : List TaskKey

namespace TaskStore

def empty : TaskStore := ⟨[], fun _ => none, [], 1, [], [], []⟩

/-- `HSET`, which creates the key if need be. -/
def hset (id : Nat) (change : Fields → Fields) (s : TaskStore) : TaskStore :=
  { s with
    hashes := Function.update s.hashes id (some (change ((s.hashes id).getD Fields.empty)))
    keys := if id ∈ s.keys then s.keys else s.keys ++ [id] }

/-- `DEL`. -/
def delete (id : Nat) (s : TaskStore) : TaskStore :=
  { s with hashes := Function.update s.hashes id none, keys := s.keys.erase id }

end TaskStore

/-- A complete call or job in which no command fails. -/
inductive Operation where
  | post (pair : Pair) (submission : Submission) (userId : Nat)
  | handle (pair : Pair) (snapshot : String) (completedAt : Iso.Moment)
  | validate (requestId : Nat) (completedAt : Iso.Moment)

def Operation.isHandle : Operation → Bool
  | .handle _ _ _ => true
  | _ => false

section Operations

variable (hash : TaskKey → Nat)

/-- The end of a `POST`: the hash is stored and the job published. -/
def enqueue (pair : Pair) (task : QueueRequestHandlerTask) (s : TaskStore) : TaskStore :=
  { s.hset (hash (.handler pair)) (fun fields => fields.setAll task.serialize) with
    handlerJobs := s.handlerJobs ++ [pair]
    used := s.used ++ [.handler pair] }

/-- A `POST` that has passed its first checks, up to its answer. -/
def postTask (pair : Pair) (task : QueueRequestHandlerTask) (s : TaskStore) : TaskStore :=
  if s.rows.any (fun row => row.2 = pair) then s
  else match s.hashes (hash (.handler pair)) with
    | none => enqueue hash pair task s
    | some fields =>
        match QueueRequestHandlerTask.deserialize fields with
        | .error _ => s
        | .ok existing =>
            if existing.failedAt.isSome then
              enqueue hash pair task (s.delete (hash (.handler pair)))
            else s

/-- The validation task of the inserted row. -/
def validationTask (task : QueueRequestHandlerTask) (requestId : Nat) (snapshot : String) :
    QueueRequestValidationTask where
  requestId := requestId
  queueId := task.queueId
  beatmapsetId := task.beatmapsetId
  httpRequestId := task.httpRequestId
  rulesSnapshot := snapshot
  completedAt := none
  failedAt := none

/-- A handler job that succeeds: it inserts the row, stores and publishes the
validation task and marks its own. -/
def handleTask (pair : Pair) (snapshot : String) (m : Iso.Moment) (s : TaskStore) :
    Option TaskStore := do
  if pair ∉ s.handlerJobs ∨ s.rows.any (fun row => row.2 = pair) then none
  else
    let fields ← s.hashes (hash (.handler pair))
    let task ← (QueueRequestHandlerTask.deserialize fields).toOption
    let stored := s.hset (hash (.validation s.nextId))
      (fun fields => fields.setAll (validationTask task s.nextId snapshot).serialize)
    return { stored.hset (hash (.handler pair)) (fun fields => fields.mark "completed_at" m) with
      rows := s.rows ++ [(s.nextId, pair)]
      nextId := s.nextId + 1
      handlerJobs := s.handlerJobs.erase pair
      validationJobs := s.validationJobs ++ [s.nextId]
      used := s.used ++ [.validation s.nextId] }

/-- A validation job that succeeds marks its task. -/
def validateTask (requestId : Nat) (m : Iso.Moment) (s : TaskStore) : Option TaskStore := do
  if requestId ∉ s.validationJobs then none
  else
    let fields ← s.hashes (hash (.validation requestId))
    let _ ← (QueueRequestValidationTask.deserialize fields).toOption
    return { s.hset (hash (.validation requestId)) (fun fields => fields.mark "completed_at" m) with
      validationJobs := s.validationJobs.erase requestId }

def perform : Operation → TaskStore → Option TaskStore
  | .post pair submission userId, s => some (postTask hash pair (submission.task pair userId) s)
  | .handle pair snapshot m, s => handleTask hash pair snapshot m s
  | .validate requestId m, s => validateTask hash requestId m s

end Operations

/-! The readers. -/

/-- The loop of `paginate_scan` over the keys the scan yields. -/
def paginateScan {κ : Type} (limit : Option Nat) (offset : Nat) :
    List κ → Nat → List κ → List κ
  | [], _, keys => keys
  | key :: rest, scanned, keys =>
      if scanned < offset then paginateScan limit offset rest (scanned + 1) keys
      else if limit.any (fun limit => limit ≤ (keys ++ [key]).length) then keys ++ [key]
      else paginateScan limit offset rest scanned (keys ++ [key])

inductive GetError where
  | notFound (message : String)
  | forbidden (message : String)
  | undecodable (e : Undecodable)
  deriving DecidableEq

section Readers

variable (scan : List Nat → List Nat)

/-- `GET /requests/tasks`. -/
def search (limit : Option Nat) (offset : Nat) (s : TaskStore) :
    Except Undecodable (List QueueRequestHandlerTask) :=
  (paginateScan limit offset (scan s.keys) 0 []).mapM (fun id =>
    QueueRequestHandlerTask.deserialize ((s.hashes id).getD Fields.empty))

/-- `GET /requests/tasks/{id}`. -/
def getTask (hashedId : Nat) (caller : Option Nat) (isAdmin : Bool) (s : TaskStore) :
    Except GetError QueueRequestHandlerTask :=
  match s.hashes hashedId with
  | none =>
      .error (.notFound ("Request task with hashed ID '" ++ toString hashedId ++ "' not found"))
  | some fields =>
      match QueueRequestHandlerTask.deserialize fields with
      | .error e => .error (.undecodable e)
      | .ok task =>
          if some task.userId ≠ caller ∧ isAdmin = false then
            .error (.forbidden "You are not authorized to view this request task")
          else .ok task

end Readers

/-! The scan as a page of the keys. -/

section Scan

variable {κ : Type} {limit offset : Nat}

theorem paginateScan_skip {scanned : Nat} (l : List κ) (h : scanned ≤ offset) :
    paginateScan (some limit) offset l scanned [] =
      paginateScan (some limit) offset (l.drop (offset - scanned)) offset [] := by
  induction l generalizing scanned with
  | nil => simp [paginateScan]
  | cons key rest ih =>
      rcases h.eq_or_lt with rfl | hlt
      · simp
      · rw [paginateScan, if_pos hlt, ih hlt,
          show offset - scanned = offset - (scanned + 1) + 1 by omega,
          List.drop_succ_cons]

theorem paginateScan_collect (l keys : List κ) (h : keys.length < limit) :
    paginateScan (some limit) offset l offset keys = keys ++ l.take (limit - keys.length) := by
  induction l generalizing keys with
  | nil => simp [paginateScan]
  | cons key rest ih =>
      rw [paginateScan, if_neg (lt_irrefl offset)]
      by_cases hfull : limit ≤ keys.length + 1
      · rw [if_pos (by simpa using hfull), show limit - keys.length = 1 by omega]
        simp
      · rw [if_neg (by simpa using hfull), ih (keys ++ [key]) (by simp; omega), List.length_append,
          List.length_singleton, show limit - keys.length = limit - (keys.length + 1) + 1 by omega,
          List.take_succ_cons, List.append_assoc]
        rfl

theorem paginateScan_eq_page (hlimit : 1 ≤ limit) (l : List κ) :
    paginateScan (some limit) offset l 0 [] = Pages.page limit offset l := by
  rw [paginateScan_skip l (Nat.zero_le offset), paginateScan_collect _ [] hlimit]
  rfl

end Scan

/-! What is stored. -/

/-- A handler key holds a task of its pair, a validation key a hash without a
comment. -/
def TaskKey.Holds : TaskKey → Fields → Prop
  | .handler pair, fields => ∃ task : QueueRequestHandlerTask, task.StoredIn fields ∧
      task.queueId = pair.queueId ∧ task.beatmapsetId = pair.beatmapsetId
  | .validation _, fields => fields "comment" = none

theorem TaskKey.Holds.markCompleted {key : TaskKey} {fields : Fields} (h : key.Holds fields)
    (m : Iso.Moment) : key.Holds (fields.mark "completed_at" m) := by
  cases key with
  | handler pair =>
      obtain ⟨task, hstored, hpair⟩ := h
      exact ⟨_, hstored.markCompleted m, hpair⟩
  | validation requestId => exact (Fields.set_of_ne (by decide) _ _).trans h

theorem QueueRequestValidationTask.setAll_comment (task : QueueRequestValidationTask)
    (fields : Fields) :
    fields.setAll task.serialize "comment" = fields "comment" := by
  simp [serialize, Fields.setAll, Fields.set, Function.update]

/-- The keys are those of the stored hashes. -/
structure TaskStore.Indexed (s : TaskStore) : Prop where
  nodup : s.keys.Nodup
  present : ∀ id, id ∈ s.keys ↔ (s.hashes id).isSome = true

theorem TaskStore.Indexed.of_same {s s' : TaskStore} (h : s.Indexed) (hkeys : s'.keys = s.keys)
    (hhashes : s'.hashes = s.hashes) : s'.Indexed :=
  ⟨hkeys ▸ h.nodup, by rw [hkeys, hhashes]; exact h.present⟩

theorem TaskStore.Indexed.hset {s : TaskStore} (h : s.Indexed) (id : Nat)
    (change : Fields → Fields) :
    (s.hset id change).Indexed := by
  refine ⟨?_, fun other => ?_⟩
  · unfold TaskStore.hset
    dsimp only
    split
    · exact h.nodup
    · next hnew => exact List.nodup_append.mpr ⟨h.nodup, by simp, by grind⟩
  · have hmem : other ∈ (s.hset id change).keys ↔ other ∈ s.keys ∨ other = id := by
      unfold TaskStore.hset
      dsimp only
      split
      · next hold => exact ⟨Or.inl, fun hor => hor.elim (fun hin => hin) (fun heq => heq ▸ hold)⟩
      · simp
    rw [hmem, h.present]
    by_cases heq : other = id
    · simp [TaskStore.hset, heq]
    · simp [TaskStore.hset, heq]

theorem TaskStore.Indexed.delete {s : TaskStore} (h : s.Indexed) (id : Nat) :
    (s.delete id).Indexed := by
  refine ⟨h.nodup.erase id, fun other => ?_⟩
  rw [TaskStore.delete, h.nodup.mem_erase_iff, h.present]
  by_cases heq : other = id
  · simp [heq]
  · simp [heq]

section Invariant

variable {hash : TaskKey → Nat} {s s' : TaskStore}

/-- Every stored hash belongs to a key that was written, every validation key
has its hash, and the rows have ids of their own. -/
structure Filed (hash : TaskKey → Nat) (s : TaskStore) : Prop where
  indexed : s.Indexed
  kinds : ∀ id fields, s.hashes id = some fields → ∃ key ∈ s.used, hash key = id ∧ key.Holds fields
  validations : ∀ requestId, .validation requestId ∈ s.used →
    (s.hashes (hash (.validation requestId))).isSome = true
  ids : ∀ requestId, .validation requestId ∈ s.used → requestId < s.nextId

theorem update_isSome {id : Nat} {fields : Fields} {hashes : Nat → Option Fields} {other : Nat}
    (h : (hashes other).isSome = true) :
    (Function.update hashes id (some fields) other).isSome = true := by
  by_cases heq : other = id
  · simp [heq]
  · rwa [Function.update_of_ne heq]

/-- Writing the hash of a handler key, into a store that differs from the filed
one in that hash at most. -/
theorem Filed.enqueue {pair : Pair} {task : QueueRequestHandlerTask} {before : TaskStore}
    (h : Filed hash s) (hindexed : before.Indexed)
    (hothers : ∀ id, id ≠ hash (.handler pair) → before.hashes id = s.hashes id)
    (hused : before.used = s.used) (hnext : before.nextId = s.nextId)
    (hqueue : task.queueId = pair.queueId) (hset : task.beatmapsetId = pair.beatmapsetId) :
    Filed hash (enqueue hash pair task before) where
  indexed := (hindexed.hset _ _).of_same rfl rfl
  kinds := by
    intro id fields hfields
    by_cases heq : id = hash (.handler pair)
    · subst heq
      obtain rfl : _ = fields := by
        simpa [Requests.enqueue, TaskStore.hset] using hfields
      exact ⟨.handler pair, by simp [Requests.enqueue], rfl, task,
        QueueRequestHandlerTask.storedIn_setAll task _, hqueue, hset⟩
    · have hbefore : before.hashes id = some fields := by
        simpa [Requests.enqueue, TaskStore.hset, heq] using hfields
      obtain ⟨key, hkey, hid, hholds⟩ := h.kinds id fields ((hothers id heq).symm.trans hbefore)
      exact ⟨key, by simp [Requests.enqueue, hused, hkey], hid, hholds⟩
  validations := by
    intro requestId hmem
    have hold := h.validations requestId (by simpa [Requests.enqueue, hused] using hmem)
    by_cases heq : hash (.validation requestId) = hash (.handler pair)
    · simp [Requests.enqueue, TaskStore.hset, heq]
    · simpa [Requests.enqueue, TaskStore.hset, heq, hothers _ heq] using hold
  ids := by
    intro requestId hmem
    have hold := h.ids requestId (by simpa [Requests.enqueue, hused] using hmem)
    exact hnext ▸ hold

/-- A completed marker in a hash that is there. -/
theorem Filed.mark (h : Filed hash s) {id : Nat} {fields : Fields} (hid : s.hashes id = some fields)
    (m : Iso.Moment) : Filed hash (s.hset id (fun fields => fields.mark "completed_at" m)) where
  indexed := h.indexed.hset _ _
  kinds := by
    intro other fields' hfields'
    by_cases heq : other = id
    · subst heq
      obtain ⟨key, hkey, hhash, hholds⟩ := h.kinds other fields hid
      obtain rfl : fields.mark "completed_at" m = fields' := by
        simpa [TaskStore.hset, hid] using hfields'
      exact ⟨key, hkey, hhash, hholds.markCompleted m⟩
    · exact h.kinds other fields' (by simpa [TaskStore.hset, heq] using hfields')
  validations := fun requestId hused => update_isSome (h.validations requestId hused)
  ids := h.ids

/-- The hash of a new validation task: its key is a new one. -/
theorem Filed.store (h : Filed hash s) (task : QueueRequestValidationTask)
    (hnew : s.hashes (hash (.validation s.nextId)) = none) :
    Filed hash
    { s.hset (hash (.validation s.nextId)) (fun fields => fields.setAll task.serialize) with
      nextId := s.nextId + 1
      used := s.used ++ [.validation s.nextId] } where
  indexed := (h.indexed.hset _ _).of_same rfl rfl
  kinds := by
    intro id fields hfields
    by_cases heq : id = hash (.validation s.nextId)
    · subst heq
      obtain rfl : Fields.empty.setAll task.serialize = fields := by
        simpa [TaskStore.hset, hnew] using hfields
      exact ⟨.validation s.nextId, by simp, rfl, task.setAll_comment _⟩
    · obtain ⟨key, hkey, hid, hholds⟩ := h.kinds id fields (by
        simpa [TaskStore.hset, heq] using hfields)
      exact ⟨key, by simp [hkey], hid, hholds⟩
  validations := by
    intro requestId hused
    rcases List.mem_append.mp hused with hold | hlast
    · exact update_isSome (h.validations requestId hold)
    · obtain rfl : requestId = s.nextId := by simpa using hlast
      simp [TaskStore.hset]
  ids := by
    intro requestId hused
    rcases List.mem_append.mp hused with hold | hlast
    · exact Nat.lt_succ_of_lt (h.ids requestId hold)
    · obtain rfl : requestId = s.nextId := by simpa using hlast
      exact Nat.lt_succ_self _

theorem Filed.of_same (h : Filed hash s) (hkeys : s'.keys = s.keys) (hhashes : s'.hashes = s.hashes)
    (hused : s'.used = s.used) (hnext : s'.nextId = s.nextId) : Filed hash s' := by
  refine ⟨h.indexed.of_same hkeys hhashes, ?_, ?_, ?_⟩
  · rw [hhashes, hused]
    exact h.kinds
  · rw [hhashes, hused]
    exact h.validations
  · rw [hused, hnext]
    exact h.ids

theorem Filed.post {pair : Pair} {task : QueueRequestHandlerTask} (h : Filed hash s)
    (hqueue : task.queueId = pair.queueId) (hset : task.beatmapsetId = pair.beatmapsetId) :
    Filed hash (postTask hash pair task s) := by
  unfold postTask
  split
  · exact h
  · split
    · exact h.enqueue h.indexed (fun _ _ => rfl) rfl rfl hqueue hset
    · split
      · exact h
      · split
        · refine h.enqueue (h.indexed.delete _) (fun id hne => ?_) rfl rfl hqueue hset
          exact Function.update_of_ne hne _ _
        · exact h

theorem handleTask_eq_some {pair : Pair} {snapshot : String} {m : Iso.Moment}
    (h : handleTask hash pair snapshot m s = some s') :
    ∃ fields task, s.hashes (hash (.handler pair)) = some fields ∧
      QueueRequestHandlerTask.deserialize fields = .ok task ∧
      s' = { (s.hset (hash (.validation s.nextId))
            (fun fields => fields.setAll (validationTask task s.nextId snapshot).serialize)).hset
          (hash (.handler pair)) (fun fields => fields.mark "completed_at" m) with
        rows := s.rows ++ [(s.nextId, pair)]
        nextId := s.nextId + 1
        handlerJobs := s.handlerJobs.erase pair
        validationJobs := s.validationJobs ++ [s.nextId]
        used := s.used ++ [.validation s.nextId] } := by
  unfold handleTask at h
  split at h
  · cases h
  · obtain ⟨fields, hfields, h⟩ := Option.bind_eq_some_iff.mp h
    obtain ⟨task, htask, h⟩ := Option.bind_eq_some_iff.mp h
    refine ⟨fields, task, hfields, ?_, (Option.some.inj h).symm⟩
    cases hread : QueueRequestHandlerTask.deserialize fields with
    | error e => simp [hread, Except.toOption] at htask
    | ok read => simpa [hread, Except.toOption] using htask

theorem validateTask_eq_some {requestId : Nat} {m : Iso.Moment}
    (h : validateTask hash requestId m s = some s') :
    ∃ fields, s.hashes (hash (.validation requestId)) = some fields ∧
      s' = { s.hset (hash (.validation requestId)) (fun fields => fields.mark "completed_at" m) with
        validationJobs := s.validationJobs.erase requestId } := by
  unfold validateTask at h
  split at h
  · cases h
  · obtain ⟨fields, hfields, h⟩ := Option.bind_eq_some_iff.mp h
    obtain ⟨-, -, h⟩ := Option.bind_eq_some_iff.mp h
    exact ⟨fields, hfields, (Option.some.inj h).symm⟩

theorem Filed.handle {pair : Pair} {snapshot : String} {m : Iso.Moment} (h : Filed hash s)
    (hinj : Set.InjOn hash { key | key ∈ s.used ++ [.validation s.nextId] })
    (hstep : handleTask hash pair snapshot m s = some s') : Filed hash s' := by
  obtain ⟨fields, task, hfields, -, rfl⟩ := handleTask_eq_some hstep
  have hnew : s.hashes (hash (.validation s.nextId)) = none := by
    by_contra hne
    obtain ⟨old, hold⟩ := Option.ne_none_iff_exists'.mp hne
    obtain ⟨key, hkey, hid, -⟩ := h.kinds _ old hold
    obtain rfl := hinj (by simp [hkey]) (by simp) hid
    exact lt_irrefl _ (h.ids _ hkey)
  have hne : hash (.handler pair) ≠ hash (.validation s.nextId) := by
    intro heq
    rw [heq, hnew] at hfields
    cases hfields
  have hstored := h.store (validationTask task s.nextId snapshot) hnew
  have hthere : (s.hset (hash (.validation s.nextId)) (fun fields =>
      fields.setAll (validationTask task s.nextId snapshot).serialize)).hashes
        (hash (.handler pair)) = some fields := by
    simpa [TaskStore.hset, hne] using hfields
  exact (hstored.mark hthere m).of_same rfl rfl rfl rfl

/-- Nothing is forgotten: the keys in use only grow. -/
theorem perform_used {op : Operation} (h : perform hash op s = some s') :
    (∃ more, s'.used = s.used ++ more) ∧
      ((∃ requestId, .validation requestId ∈ s'.used) ↔
        (∃ requestId, .validation requestId ∈ s.used) ∨ op.isHandle = true) := by
  cases op with
  | post pair submission userId =>
      obtain rfl := Option.some.inj h
      have hused : (postTask hash pair (submission.task pair userId) s).used = s.used ∨
          (postTask hash pair (submission.task pair userId) s).used = s.used ++
          [.handler pair] := by
        unfold postTask
        split
        · exact Or.inl rfl
        · split
          · exact Or.inr rfl
          · split
            · exact Or.inl rfl
            · split
              · exact Or.inr rfl
              · exact Or.inl rfl
      rcases hused with hsame | hmore
      · exact ⟨⟨[], by simp [hsame]⟩, by simp [hsame, Operation.isHandle]⟩
      · exact ⟨⟨_, hmore⟩, by simp [hmore, Operation.isHandle]⟩
  | handle pair snapshot m =>
      obtain ⟨fields, task, -, -, rfl⟩ := handleTask_eq_some h
      exact ⟨⟨_, rfl⟩, by simp [Operation.isHandle]⟩
  | validate requestId m =>
      obtain ⟨fields, -, rfl⟩ := validateTask_eq_some h
      exact ⟨⟨[], by simp [TaskStore.hset]⟩, by simp [TaskStore.hset, Operation.isHandle]⟩

theorem filed_step {op : Operation}
    (h : Set.InjOn hash { key | key ∈ s.used } → Filed hash s) (hstep : perform hash op s = some s')
    (hinj : Set.InjOn hash { key | key ∈ s'.used }) : Filed hash s' := by
  obtain ⟨⟨more, hmore⟩, -⟩ := perform_used hstep
  have hfiled := h (hinj.mono (fun key (hkey : key ∈ s.used) => by
    rw [hmore]
    exact List.mem_append_left _ hkey))
  cases op with
  | post pair submission userId =>
      obtain rfl := Option.some.inj hstep
      exact hfiled.post rfl rfl
  | handle pair snapshot m =>
      refine hfiled.handle ?_ hstep
      obtain ⟨fields, task, -, -, rfl⟩ := handleTask_eq_some hstep
      exact hinj
  | validate requestId m =>
      obtain ⟨fields, hfields, rfl⟩ := validateTask_eq_some hstep
      exact (hfiled.mark hfields m).of_same rfl rfl rfl rfl

theorem filed_empty : Filed hash TaskStore.empty :=
  ⟨⟨by simp [TaskStore.empty], by simp [TaskStore.empty]⟩, by simp [TaskStore.empty],
    by simp [TaskStore.empty], by simp [TaskStore.empty]⟩

/-- There is a validation hash exactly when a handler job has run. -/
theorem validation_used_iff {ops : List Operation}
    (h : Runs.run (perform hash) ops s = some s') :
    (∃ requestId, .validation requestId ∈ s'.used) ↔
      (∃ requestId, .validation requestId ∈ s.used) ∨ ∃ op ∈ ops, op.isHandle = true := by
  induction ops generalizing s with
  | nil =>
      obtain rfl := Option.some.inj h
      simp
  | cons op rest ih =>
      obtain ⟨next, hnext, hrest⟩ := Option.bind_eq_some_iff.mp h
      rw [ih hrest, (perform_used hnext).2, List.exists_mem_cons_iff, or_assoc]

end Invariant

/-! The listing. -/

/-- The task is stored under the key of its pair. -/
def TaskStore.Stored (hash : TaskKey → Nat) (s : TaskStore) (task : QueueRequestHandlerTask) :
    Prop :=
  ∃ fields, s.hashes (hash (.handler ⟨task.queueId, task.beatmapsetId⟩)) = some fields ∧
    QueueRequestHandlerTask.deserialize fields = .ok task

/-- Every page is answered, enough pages list every stored handler task once
and nothing else, and a single task is found, not found or forbidden. -/
structure Listed (hash : TaskKey → Nat) (scan : List Nat → List Nat) (s : TaskStore) : Prop where
  answers : ∀ limit offset, 1 ≤ limit → ∃ tasks, search scan (some limit) offset s = .ok tasks
  pages : ∀ limit count, 1 ≤ limit → s.keys.length ≤ count * limit →
    ∃ pages, (List.range count).mapM (fun i => search scan (some limit) (i * limit) s) = .ok pages ∧
      pages.flatten.Nodup ∧ ∀ task, task ∈ pages.flatten ↔ s.Stored hash task
  single : ∀ hashedId caller isAdmin,
    match getTask hashedId caller isAdmin s with
    | .ok task => ∃ fields, s.hashes hashedId = some fields ∧
        QueueRequestHandlerTask.deserialize fields = .ok task
    | .error (.notFound _) => s.hashes hashedId = none
    | .error (.forbidden _) => True
    | .error (.undecodable _) => False

section Listing

variable {hash : TaskKey → Nat} {scan : List Nat → List Nat} {s : TaskStore}

/-- Without validation hashes every hash is the readable task of its pair. -/
theorem Filed.readable (h : Filed hash s) (hnone : ¬ ∃ requestId, .validation requestId ∈ s.used)
    {id : Nat} {fields : Fields} (hfields : s.hashes id = some fields) :
    ∃ task, QueueRequestHandlerTask.deserialize fields = .ok task ∧
      hash (.handler ⟨task.queueId, task.beatmapsetId⟩) = id := by
  obtain ⟨key, hkey, hid, hholds⟩ := h.kinds id fields hfields
  cases key with
  | validation requestId => exact absurd ⟨requestId, hkey⟩ hnone
  | handler pair =>
      obtain ⟨task, hstored, hqueue, hset⟩ := hholds
      refine ⟨task, hstored.deserialize, ?_⟩
      rw [hqueue, hset]
      exact hid

theorem listed_of_handlers (h : Filed hash s) (hscan : (scan s.keys).Perm s.keys)
    (hnone : ¬ ∃ requestId, .validation requestId ∈ s.used) : Listed hash scan s := by
  have hread : ∀ id ∈ s.keys, ∃ task,
      QueueRequestHandlerTask.deserialize ((s.hashes id).getD Fields.empty) = .ok task ∧
        hash (.handler ⟨task.queueId, task.beatmapsetId⟩) = id := by
    intro id hid
    obtain ⟨fields, hfields⟩ := Option.isSome_iff_exists.mp ((h.indexed.present id).mp hid)
    rw [hfields]
    exact h.readable hnone hfields
  have hnonempty : Nonempty QueueRequestHandlerTask := ⟨(sampleSubmission 0).task samplePair 0⟩
  choose! taskOf hok hhash using hread
  have hsearch (limit offset : Nat) (hlimit : 1 ≤ limit) :
      search scan (some limit) offset s =
        .ok (Pages.page limit offset ((scan s.keys).map taskOf)) := by
    rw [search, paginateScan_eq_page hlimit, ← Pages.map_page]
    exact Pages.mapM_of_forall
      (fun id hid => hok id (hscan.mem_iff.mp (Pages.mem_of_mem_page hid)))
  refine ⟨fun limit offset hlimit => ⟨_, hsearch limit offset hlimit⟩, ?_, ?_⟩
  · intro limit count hlimit hcount
    refine ⟨_, Pages.mapM_of_forall (fun i _ => hsearch limit (i * limit) hlimit), ?_⟩
    have hlength : ((scan s.keys).map taskOf).length ≤ count * limit := by
      rw [List.length_map, hscan.length_eq]
      exact hcount
    rw [Pages.flatten_pages, List.take_of_length_le hlength]
    refine ⟨?_, fun task => ?_⟩
    · refine (hscan.nodup_iff.mpr h.indexed.nodup).map_on (fun id hid other hother heq => ?_)
      rw [← hhash id (hscan.mem_iff.mp hid), heq, hhash other (hscan.mem_iff.mp hother)]
    · rw [List.mem_map]
      constructor
      · rintro ⟨id, hid, rfl⟩
        have hmem := hscan.mem_iff.mp hid
        obtain ⟨fields, hfields⟩ := Option.isSome_iff_exists.mp ((h.indexed.present id).mp hmem)
        have htask := hok id hmem
        rw [hfields, Option.getD_some] at htask
        exact ⟨fields, (hhash id hmem).symm ▸ hfields, htask⟩
      · rintro ⟨fields, hfields, htask⟩
        have hmem := (h.indexed.present _).mpr (Option.isSome_iff_exists.mpr ⟨fields, hfields⟩)
        refine ⟨_, hscan.mem_iff.mpr hmem, ?_⟩
        have hsame := hok _ hmem
        rw [hfields, Option.getD_some, htask] at hsame
        exact (Except.ok.inj hsame).symm
  · intro hashedId caller isAdmin
    unfold getTask
    cases hfields : s.hashes hashedId with
    | none => rfl
    | some fields =>
        obtain ⟨task, htask, -⟩ := h.readable hnone hfields
        simp only [htask]
        split
        · next hresult =>
            split at hresult
            · cases hresult
            · obtain rfl := Except.ok.inj hresult
              exact ⟨fields, rfl, htask⟩
        · next hresult => split at hresult <;> cases hresult
        · trivial
        · next hresult => split at hresult <;> cases hresult

/-- A validation hash makes the page it is on fail. -/
theorem not_listed_of_validation (h : Filed hash s) (hscan : (scan s.keys).Perm s.keys)
    (hinj : Set.InjOn hash { key | key ∈ s.used }) {requestId : Nat}
    (hused : .validation requestId ∈ s.used) : ¬ Listed hash scan s := by
  intro hlisted
  obtain ⟨fields, hfields⟩ := Option.isSome_iff_exists.mp (h.validations requestId hused)
  obtain ⟨key, hkey, hid, hholds⟩ := h.kinds _ fields hfields
  obtain rfl := hinj hkey hused hid
  have hmem : hash (.validation requestId) ∈ scan s.keys := by
    refine hscan.mem_iff.mpr ((h.indexed.present _).mpr ?_)
    rw [hfields]
    rfl
  have hpos : 1 ≤ (scan s.keys).length := List.length_pos_of_mem hmem
  obtain ⟨tasks, htasks⟩ := hlisted.answers (scan s.keys).length 0 hpos
  rw [search, paginateScan_eq_page hpos, Pages.page, List.drop_zero, List.take_length] at htasks
  obtain ⟨task, htask⟩ := Pages.forall_of_mapM htasks _ hmem
  rw [hfields, Option.getD_some] at htask
  exact QueueRequestHandlerTask.deserialize_of_missing hholds htask

end Listing

/-- After any sequence of complete calls and jobs, the two readers do what they
are for exactly when no handler job has been among them: the first one leaves a
validation hash in the namespace, and that hash is no handler task. -/
theorem tasks_listed_iff (hash : TaskKey → Nat) (scan : List Nat → List Nat)
    (hscan : ∀ keys, (scan keys).Perm keys) {ops : List Operation} {s : TaskStore}
    (hrun : Runs.run (perform hash) ops TaskStore.empty = some s)
    (hinj : Set.InjOn hash { key | key ∈ s.used }) :
    Listed hash scan s ↔ ∀ op ∈ ops, op.isHandle = false := by
  have hfiled : Filed hash s :=
    Runs.invariant_of_steps (fun s => Set.InjOn hash { key | key ∈ s.used } → Filed hash s)
      (fun _ _ _ h hstep => filed_step h hstep) (fun _ => filed_empty) hrun hinj
  have hvalidation :
      (∃ requestId, .validation requestId ∈ s.used) ↔ ∃ op ∈ ops, op.isHandle = true := by
    simpa [TaskStore.empty] using validation_used_iff hrun
  constructor
  · intro hlisted op hop
    cases hkind : op.isHandle with
    | false => rfl
    | true =>
        obtain ⟨requestId, hused⟩ := hvalidation.mpr ⟨op, hop, hkind⟩
        exact absurd hlisted (not_listed_of_validation hfiled (hscan _) hinj hused)
  · intro hnone
    refine listed_of_handlers hfiled (hscan _) (fun hused => ?_)
    obtain ⟨op, hop, hkind⟩ := hvalidation.mp hused
    rw [hnone op hop] at hkind
    cases hkind

/-- An injective hash. -/
def sampleHash : TaskKey → Nat
  | .handler pair => 2 * Nat.pair pair.queueId pair.beatmapsetId
  | .validation requestId => 2 * requestId + 1

theorem sampleHash_injective : Function.Injective sampleHash := by
  intro key other h
  rcases key with ⟨⟨queueId, beatmapsetId⟩⟩ | requestId <;>
    rcases other with ⟨⟨queueId', beatmapsetId'⟩⟩ | requestId'
  · have hpair : Nat.pair queueId beatmapsetId = Nat.pair queueId' beatmapsetId' := by
      simp only [sampleHash] at h
      omega
    obtain ⟨rfl, rfl⟩ := Nat.pair_eq_pair.mp hpair
    rfl
  · simp only [sampleHash] at h
    omega
  · simp only [sampleHash] at h
    omega
  · obtain rfl : requestId = requestId' := by
      simp only [sampleHash] at h
      omega
    rfl

/-- Two posted requests, not yet handled. -/
theorem postedTasks_listed :
    ∃ s, Runs.run (perform sampleHash)
        [.post ⟨7, 1000⟩ (sampleSubmission 3) 3, .post ⟨7, 1001⟩ (sampleSubmission 4) 4]
        TaskStore.empty = some s ∧
      s.keys.length = 2 ∧ Listed sampleHash id s := by
  refine ⟨_, rfl, by decide +kernel, ?_⟩
  exact (@tasks_listed_iff sampleHash id (fun _ => List.Perm.refl _)
    [.post ⟨7, 1000⟩ (sampleSubmission 3) 3, .post ⟨7, 1001⟩ (sampleSubmission 4) 4] _ rfl
    sampleHash_injective.injOn).mpr (by decide)

/-- One posted and handled request: the page with its validation hash fails, and
so does the lookup of that hash. -/
theorem handledTask_unlisted :
    ∃ s, Runs.run (perform sampleHash)
        [.post ⟨7, 1000⟩ (sampleSubmission 3) 3, .handle ⟨7, 1000⟩ "[]" Iso.newYear]
        TaskStore.empty = some s ∧
      (search id (some 1) 0 s).isOk = true ∧
      (search id (some 1) 1 s).isOk = false ∧
      getTask (sampleHash (.validation 1)) (some 3) true s =
        .error (.undecodable .validationError) := by
  refine ⟨_, rfl, ?_, ?_, ?_⟩ <;> decide +kernel

end Graveboards.Requests
