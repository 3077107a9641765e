import Graveboards.Archive.Sessions

/-!
What committed tables keep: the numbers of a beatmap(set) are 1 to n, its
listing is on number n, and so is every request of the beatmapset. The last part
fails when the insertion of a request and the insertion of a snapshot overlap.
-/

namespace Graveboards.Archive

open Library Library.Transaction

namespace Tables

variable (kind : Kind) (owner : Int) (db : Tables)

/-- The rows with the highest number, if the numbers are 1 to n. -/
def current : List Snapshot :=
  (db.versions kind owner).filter (·.snapshotNumber = (db.versions kind owner).length)

/-- The numbers are exactly 1 to n. The listing exists if there is a snapshot and
is on number n, and so are the requests. -/
structure Consistent (db : Tables) : Prop where
  numbers : ∀ kind owner, ((db.versions kind owner).map Snapshot.snapshotNumber).Perm
    (List.range' 1 (db.versions kind owner).length)
  listings : ∀ kind owner, (db.listed kind owner).map Listing.snapshotId =
    (db.current kind owner).map Snapshot.id
  requests : ∀ request ∈ db.requests,
    (db.current .beatmapset request.beatmapsetId).map Snapshot.id = [request.beatmapsetSnapshotId]

/-- The primary key of the snapshot inserted last. -/
def lastId : Option Nat := (db.versions kind owner).getLast?.map Snapshot.id

end Tables

namespace Flush

/-- The snapshots that have a number and are not yet inserted. -/
def pending (kind : Kind) : Flush → List (Target × Nat)
  | .locking kind' numbered _ _ | .numbering kind' numbered _ _ =>
      if kind' = kind then numbered else []
  | .inserting kind' _ target number rest => if kind' = kind then (target, number) :: rest else []
  | _ => []

/-- The inserted snapshots whose listing has not been written. -/
def unlisted (kind : Kind) : Flush → List Snapshot
  | .inserting kind' inserted _ _ _ => if kind' = kind then inserted else []
  | .selecting kind' row rest | .relisting kind' row _ rest =>
      if kind' = kind then row :: rest else []
  | .moving _ rest => if .beatmapset = kind then rest else []
  | _ => []

/-- The inserted beatmapset snapshots whose requests have not been moved. -/
def unmoved : Flush → List Snapshot
  | .inserting kind inserted _ _ _ => if kind = .beatmapset then inserted else []
  | .selecting kind row rest | .relisting kind row _ rest =>
      if kind = .beatmapset then row :: rest else []
  | .moving row rest => row :: rest
  | _ => []

/-- The requests that have a snapshot and are not yet inserted. -/
def bound : Flush → List (Int × Nat)
  | .binding bound _ _ => bound
  | .requesting beatmapsetId snapshotId rest => (beatmapsetId, snapshotId) :: rest
  | _ => []

/-- What the flush has locked. -/
def claimed (kind : Kind) : Flush → List Int
  | .locking kind' numbered _ _ => if kind' = kind then numbered.map (·.1.owner) else []
  | .numbering kind' numbered target _ =>
      if kind' = kind then target.owner :: numbered.map (·.1.owner) else []
  | .inserting kind' inserted target _ rest =>
      if kind' = kind then target.owner :: rest.map (·.1.owner) ++ inserted.map Snapshot.owner
      else []
  | .selecting kind' row rest | .relisting kind' row _ rest =>
      if kind' = kind then row.owner :: rest.map Snapshot.owner else []
  | .moving row rest => if .beatmapset = kind then row.owner :: rest.map Snapshot.owner else []
  | _ => []

variable (kind kind' : Kind) (inserted rows : List Snapshot)
  (entries numbered : List (Target × Nat))
  (targets : List Target) (requests : List (Int × Nat)) (owners : List Int)

@[simp] theorem pending_startAfter : (startAfter kind rows).pending kind' = [] := by
  cases rows <;> rfl

@[simp] theorem unlisted_startAfter :
    (startAfter kind rows).unlisted kind' = if kind = kind' then rows else [] := by
  cases rows <;> simp [startAfter, unlisted]

@[simp] theorem unmoved_startAfter :
    (startAfter kind rows).unmoved = if kind = .beatmapset then rows else [] := by
  cases rows <;> cases kind <;> simp [startAfter, unmoved]

@[simp] theorem bound_startAfter : (startAfter kind rows).bound = [] := by
  cases rows <;> rfl

@[simp] theorem claimed_startAfter :
    (startAfter kind rows).claimed kind' = if kind = kind' then
    rows.map Snapshot.owner else [] := by
  cases rows <;> simp [startAfter, claimed]

@[simp] theorem pending_startInsert :
    (startInsert kind inserted entries).pending kind' = if kind = kind' then entries else [] := by
  cases entries with
  | nil => simp [startInsert]
  | cons entry rest => rfl

@[simp] theorem unlisted_startInsert :
    (startInsert kind inserted entries).unlisted kind' = if kind = kind' then inserted else [] := by
  cases entries with
  | nil => exact unlisted_startAfter kind kind' inserted
  | cons entry rest => rfl

@[simp] theorem unmoved_startInsert :
    (startInsert kind inserted entries).unmoved = if kind = .beatmapset then inserted else [] := by
  cases entries with
  | nil => exact unmoved_startAfter kind inserted
  | cons entry rest => rfl

@[simp] theorem bound_startInsert : (startInsert kind inserted entries).bound = [] := by
  cases entries with
  | nil => simp [startInsert]
  | cons entry rest => rfl

@[simp] theorem claimed_startInsert :
    (startInsert kind inserted entries).claimed kind' =
      if kind = kind' then entries.map (·.1.owner) ++ inserted.map Snapshot.owner else [] := by
  cases entries with
  | nil => simp [startInsert]
  | cons entry rest => rfl

@[simp] theorem pending_startBefore :
    (startBefore kind numbered targets).pending kind' = if kind = kind' then numbered else [] := by
  cases targets with
  | nil => exact pending_startInsert kind kind' [] numbered
  | cons target rest => rfl

@[simp] theorem unlisted_startBefore : (startBefore kind numbered targets).unlisted kind' = [] := by
  cases targets with
  | nil => simp [startBefore]
  | cons target rest => rfl

@[simp] theorem unmoved_startBefore : (startBefore kind numbered targets).unmoved = [] := by
  cases targets with
  | nil => simp [startBefore]
  | cons target rest => rfl

@[simp] theorem bound_startBefore : (startBefore kind numbered targets).bound = [] := by
  cases targets with
  | nil => simp [startBefore]
  | cons target rest => rfl

@[simp] theorem claimed_startBefore :
    (startBefore kind numbered targets).claimed kind' =
      if kind = kind' then numbered.map (·.1.owner) else [] := by
  cases targets with
  | nil => simp [startBefore]
  | cons target rest => rfl

theorem unlisted_afterListing (row : Snapshot) :
    (afterListing kind row rows).unlisted kind' = if kind = kind' then rows else [] := by
  cases kind with
  | beatmap => exact unlisted_startAfter .beatmap kind' rows
  | beatmapset => rfl

theorem unmoved_afterListing (row : Snapshot) :
    (afterListing kind row rows).unmoved = if kind = .beatmapset then row :: rows else [] := by
  cases kind with
  | beatmap => exact unmoved_startAfter .beatmap rows
  | beatmapset => rfl

theorem claimed_afterListing (row : Snapshot) :
    (afterListing kind row rows).claimed kind' ⊆
      if kind = kind' then row.owner :: rows.map Snapshot.owner else [] := by
  cases kind with
  | beatmap =>
      rw [afterListing, claimed_startAfter]
      split
      · exact List.subset_cons_self _ _
      · exact List.Subset.refl _
  | beatmapset => exact List.Subset.refl _

theorem pending_afterListing (row : Snapshot) :
    (afterListing kind row rows).pending kind' = [] := by
  cases kind with
  | beatmap => exact pending_startAfter .beatmap kind' rows
  | beatmapset => rfl

theorem bound_afterListing (row : Snapshot) : (afterListing kind row rows).bound = [] := by
  cases kind with
  | beatmap => exact bound_startAfter .beatmap rows
  | beatmapset => rfl

@[simp] theorem bound_startRequests : (startRequests requests).bound = requests := by
  cases requests <;> rfl

@[simp] theorem bound_startBinding : (startBinding requests owners).bound = requests := by
  cases owners with
  | nil => exact bound_startRequests requests
  | cons owner rest => rfl

/-- A flush of requests has nothing to do with snapshots. -/
theorem lists_startBinding : (startBinding requests owners).pending kind = [] ∧
    (startBinding requests owners).unlisted kind = [] ∧
    (startBinding requests owners).unmoved = [] ∧
    (startBinding requests owners).claimed kind = [] := by
  cases owners with
  | nil => cases requests <;> exact ⟨rfl, rfl, rfl, rfl⟩
  | cons owner rest => exact ⟨rfl, rfl, rfl, rfl⟩

theorem lists_startRequests : (startRequests requests).pending kind = [] ∧
    (startRequests requests).unlisted kind = [] ∧ (startRequests requests).unmoved = [] ∧
    (startRequests requests).claimed kind = [] := by
  cases requests <;> exact ⟨rfl, rfl, rfl, rfl⟩

end Flush

/-- Rows in the order of their numbers and primary keys, below the next key. -/
structure Numbered (next : Nat) (rows : List Snapshot) : Prop where
  fresh : ∀ row ∈ rows, row.id < next
  sorted : rows.Pairwise fun row later => row.id < later.id
  numbers : rows.map Snapshot.snapshotNumber = List.range' 1 rows.length

namespace Numbered

variable {next : Nat} {rows : List Snapshot}

theorem nil (next : Nat) : Numbered next [] := ⟨by simp, .nil, rfl⟩

theorem mono {next' : Nat} (h : Numbered next rows) (hle : next ≤ next') : Numbered next' rows :=
  ⟨fun row hrow => (h.fresh row hrow).trans_le hle, h.sorted, h.numbers⟩

theorem concat (h : Numbered next rows) {row : Snapshot} (hid : row.id = next)
    (hnumber : row.snapshotNumber = rows.length + 1) : Numbered (next + 1) (rows ++ [row]) := by
  constructor
  · intro other hother
    rcases List.mem_append.mp hother with hmem | hmem
    · have := h.fresh other hmem
      omega
    · obtain rfl := List.mem_singleton.mp hmem
      omega
  · apply List.pairwise_append.mpr
    refine ⟨h.sorted, List.pairwise_singleton .., ?_⟩
    intro other hother row' hrow'
    obtain rfl := List.mem_singleton.mp hrow'
    have := h.fresh other hother
    omega
  · rw [List.map_append, h.numbers, List.length_append, List.length_singleton, List.range'_concat]
    simp [hnumber, Nat.add_comm]

theorem number_mem_iff (h : Numbered next rows) {number : Nat} :
    number ∈ rows.map Snapshot.snapshotNumber ↔ 1 ≤ number ∧ number ≤ rows.length := by
  rw [h.numbers, List.mem_range'_1]
  omega

/-- The highest number is the number of rows. -/
theorem max_number (h : Numbered next rows) :
    ((rows.map Snapshot.snapshotNumber).max?).getD 0 = rows.length := by
  rcases rows.eq_nil_or_concat' with rfl | ⟨init, last, rfl⟩
  · rfl
  · have hmax :
        ((init ++ [last]).map Snapshot.snapshotNumber).max? = some (init ++ [last]).length := by
      apply List.max?_eq_some_iff.mpr
      constructor
      · apply h.number_mem_iff.mpr
        simp
      · intro number hnumber
        exact (h.number_mem_iff.mp hnumber).2
    rw [hmax]
    rfl

/-- The highest primary key is the last. -/
theorem max_id (h : Numbered next rows) :
    (rows.map Snapshot.id).max? = rows.getLast?.map Snapshot.id := by
  rcases rows.eq_nil_or_concat' with rfl | ⟨init, last, rfl⟩
  · rfl
  · rw [List.getLast?_concat]
    apply List.max?_eq_some_iff.mpr
    constructor
    · simp
    · intro id hid
      obtain ⟨row, hrow, rfl⟩ := List.mem_map.mp hid
      rcases List.mem_append.mp hrow with hmem | hmem
      · exact ((List.pairwise_append.mp h.sorted).2.2 row hmem last (List.mem_singleton.mpr rfl)).le
      · rw [List.mem_singleton.mp hmem]

/-- The last row carries the highest number alone. -/
theorem last_number {init : List Snapshot} {last : Snapshot} (h : Numbered next (init ++ [last])) :
    last.snapshotNumber = init.length + 1 ∧ ∀ row ∈ init, row.snapshotNumber ≤ init.length := by
  have hnumbers := h.numbers
  rw [List.length_append, List.length_singleton, List.range'_concat, List.map_append] at hnumbers
  obtain ⟨hinit, hlast⟩ := List.append_inj' hnumbers rfl
  constructor
  · have := List.singleton_inj.mp hlast
    omega
  · intro row hrow
    have hmem : row.snapshotNumber ∈ init.map Snapshot.snapshotNumber := List.mem_map_of_mem hrow
    rw [hinit, List.mem_range'_1] at hmem
    omega

/-- Exactly the last row carries the highest number. -/
theorem filter_number (h : Numbered next rows) :
    rows.filter (·.snapshotNumber = rows.length) = rows.getLast?.toList := by
  rcases rows.eq_nil_or_concat' with rfl | ⟨init, last, rfl⟩
  · rfl
  · obtain ⟨hnumber, hle⟩ := h.last_number
    have hearlier : init.filter (fun row => row.snapshotNumber = init.length + 1) = [] := by
      apply List.filter_eq_nil_iff.mpr
      intro row hrow
      have := hle row hrow
      simp only [decide_eq_true_eq]
      omega
    rw [List.length_append, List.length_singleton, List.filter_append, hearlier,
      List.getLast?_concat]
    simp [hnumber]

end Numbered

/-- A selection by what a change keeps. -/
theorem filter_map_of_kept {α : Type} {f : α → α} {p : α → Bool}
    (h : ∀ a, p (f a) = p a) (l : List α) :
    (l.map f).filter p = (l.filter p).map f := by
  rw [List.filter_map, show p ∘ f = p from funext h]

@[simp] theorem Listing.owner_updated (owner : Int) (id snapshotId : Nat) (row : Listing) :
    (row.updated owner id snapshotId).owner = row.owner := by
  unfold updated
  split <;> rfl

@[simp] theorem Request.beatmapsetId_updated (owner : Int) (ids : List Nat) (snapshotId : Nat)
    (row : Request) : (row.updated owner ids snapshotId).beatmapsetId = row.beatmapsetId := by
  unfold updated
  split <;> rfl

namespace Write

variable (kind : Kind) (owner : Int) (x : Write) (db : Tables)

/-- The snapshot of the owner that the write inserts. -/
def newVersion (kind : Kind) (owner : Int) : Write → List Snapshot
  | .insertSnapshot kind' row => if kind' = kind ∧ row.owner = owner then [row] else []
  | _ => []

/-- The write is one for which the owner's key has to be held. -/
def Guarded (kind : Kind) (owner : Int) : Write → Prop
  | .insertSnapshot kind' row => kind' = kind ∧ row.owner = owner
  | .insertListing kind' row => kind' = kind ∧ row.owner = owner
  | .updateListing kind' owner' _ _ => kind' = kind ∧ owner' = owner
  | .updateRequests owner' _ _ => .beatmapset = kind ∧ owner' = owner
  | .insertRequest _ => False

theorem versions_apply :
    (x.apply db).versions kind owner = db.versions kind owner ++ x.newVersion kind owner := by
  cases x with
  | insertSnapshot kind' row =>
      by_cases hkind : kind' = kind
      · subst hkind
        by_cases howner : row.owner = owner <;> simp [apply, Tables.versions, newVersion, howner]
      · simp [apply, Tables.versions, newVersion, hkind, Function.update_of_ne (Ne.symm hkind)]
  | _ => simp [apply, Tables.versions, newVersion]

/-- What the write makes of the listing of an owner. -/
def relist (kind : Kind) (owner : Int) : Write → List Listing → List Listing
  | .insertListing kind' row, rows => rows ++ if kind' = kind ∧ row.owner = owner then [row] else []
  | .updateListing kind' owner' id snapshotId, rows =>
      if kind' = kind then rows.map (.updated owner' id snapshotId) else rows
  | _, rows => rows

/-- What the write makes of the requests of a beatmapset. -/
def rebind (owner : Int) : Write → List Request → List Request
  | .insertRequest row, rows => rows ++ if row.beatmapsetId = owner then [row] else []
  | .updateRequests owner' ids snapshotId, rows => rows.map (.updated owner' ids snapshotId)
  | _, rows => rows

theorem listed_apply :
    (x.apply db).listed kind owner = x.relist kind owner (db.listed kind owner) := by
  cases x with
  | insertListing kind' row =>
      by_cases hkind : kind' = kind
      · subst hkind
        by_cases howner : row.owner = owner <;> simp [apply, Tables.listed, relist, howner]
      · simp [apply, Tables.listed, relist, hkind, Function.update_of_ne (Ne.symm hkind)]
  | updateListing kind' owner' id snapshotId =>
      by_cases hkind : kind' = kind
      · subst hkind
        simp only [apply, Tables.listed, relist, Function.update_self, if_true]
        exact filter_map_of_kept (fun row => by simp) _
      · simp [apply, Tables.listed, relist, hkind, Function.update_of_ne (Ne.symm hkind)]
  | _ => rfl

theorem requestsOf_apply :
    (x.apply db).requestsOf owner = x.rebind owner (db.requestsOf owner) := by
  cases x with
  | insertRequest row =>
      by_cases howner : row.beatmapsetId = owner <;> simp [apply, Tables.requestsOf, rebind, howner]
  | updateRequests owner' ids snapshotId => exact filter_map_of_kept (fun row => by simp) _
  | _ => rfl

/-- An update leaves the rows of other owners alone. -/
theorem map_updated_listed {owner' : Int} (id snapshotId : Nat) (h : owner' ≠ owner) :
    (db.listed kind owner).map (.updated owner' id snapshotId) = db.listed kind owner := by
  refine (List.map_congr_left fun row hrow => ?_).trans (List.map_id _)
  have howner : row.owner = owner := by simpa using (List.mem_filter.mp hrow).2
  simp [Listing.updated, howner, Ne.symm h]

theorem map_updated_requestsOf {owner' : Int} (ids : List Nat) (snapshotId : Nat)
    (h : owner' ≠ owner) :
    (db.requestsOf owner).map (.updated owner' ids snapshotId) = db.requestsOf owner := by
  refine (List.map_congr_left fun row hrow => ?_).trans (List.map_id _)
  have howner : row.beatmapsetId = owner := by simpa using (List.mem_filter.mp hrow).2
  simp [Request.updated, howner, Ne.symm h]

/-- The snapshots and the listing of one owner. -/
def versionSlicing : Slicing Write.apply (Kind × Int) (List Snapshot × List Listing) where
  slice := fun i db => (db.versions i.1 i.2, db.listed i.1 i.2)
  Touches := fun x i => x.Guarded i.1 i.2
  frame := by
    intro x i db h
    rw [versions_apply, listed_apply]
    cases x with
    | updateListing kind owner id snapshotId =>
        by_cases hkind : kind = i.1
        · have howner : owner ≠ i.2 := fun howner => h ⟨hkind, howner⟩
          simp [newVersion, relist, hkind, map_updated_listed i.1 i.2 db id snapshotId howner]
        · simp [newVersion, relist, hkind]
    | insertSnapshot kind row => simp_all [Guarded, newVersion, relist]
    | insertListing kind row => simp_all [Guarded, newVersion, relist]
    | _ => simp [newVersion, relist]
  congr := by
    intro x i db db' h
    obtain ⟨hversions, hlisted⟩ := Prod.mk.inj h
    simp [versions_apply, listed_apply, hversions, hlisted]

/-- The write concerns requests of the beatmapset. -/
def Rebinds (owner : Int) : Write → Prop
  | .insertRequest row => row.beatmapsetId = owner
  | .updateRequests owner' _ _ => owner' = owner
  | _ => False

/-- The requests of one beatmapset. -/
def requestSlicing : Slicing Write.apply Int (List Request) where
  slice := fun owner db => db.requestsOf owner
  Touches := fun x owner => x.Rebinds owner
  frame := by
    intro x owner db h
    rw [requestsOf_apply]
    cases x with
    | insertRequest row => simp_all [Rebinds, rebind]
    | updateRequests owner' ids snapshotId => exact map_updated_requestsOf owner db ids snapshotId h
    | _ => rfl
  congr := by
    intro x owner db db' h
    rw [requestsOf_apply, requestsOf_apply, h]

/-- The write inserts a request of the beatmapset. -/
def requests (owner : Int) : Write → Bool
  | .insertRequest row => row.beatmapsetId = owner
  | _ => false

/-- The write moves the requests of the beatmapset. -/
def moves (owner : Int) : Write → Bool
  | .updateRequests owner' _ _ => owner' = owner
  | _ => false

theorem mem_requestsOf_written {owner : Int} {request : Request} {writes : List Write} {db : Tables}
    (h : writes.any (moves owner) = false) :
    request ∈ (World.written apply writes db).requestsOf owner ↔
      request ∈ db.requestsOf owner ∨ .insertRequest request ∈ writes ∧
      request.beatmapsetId = owner := by
  induction writes generalizing db with
  | nil => simp [World.written]
  | cons x rest ih =>
      rw [List.any_cons, Bool.or_eq_false_iff] at h
      rw [show World.written apply (x :: rest) db = World.written apply rest (x.apply db) from rfl,
        ih h.2, requestsOf_apply]
      cases x with
      | insertRequest row =>
          by_cases howner : row.beatmapsetId = owner
          · by_cases hrow : request = row
            · subst hrow
              simp [rebind, howner]
            · simp [rebind, howner, hrow]
          · by_cases hrow : request = row
            · subst hrow
              simp [rebind, howner]
            · simp [rebind, howner, hrow]
      | updateRequests owner' ids snapshotId =>
          have howner : owner' ≠ owner := by simpa [moves] using h.1
          simp [rebind, map_updated_requestsOf owner db ids snapshotId howner]
      | _ => simp [rebind]

theorem versions_written (kind : Kind) (owner : Int) (writes : List Write) (db : Tables) :
    (World.written apply writes db).versions kind owner =
      db.versions kind owner ++ writes.flatMap (newVersion kind owner) := by
  induction writes generalizing db with
  | nil => simp [World.written]
  | cons x rest ih =>
      rw [show World.written apply (x :: rest) db = World.written apply rest (x.apply db) from rfl,
        ih, versions_apply, List.flatMap_cons, List.append_assoc]

end Write

/-- The transaction has chosen a snapshot for a request of the beatmapset. -/
def requesting (owner : Int) (session : Session Write Int Flush) : Bool :=
  session.program.bound.any (·.1 = owner) || session.writes.any (Write.requests owner)

/-- The transaction has moved the requests of the beatmapset. -/
def moved (owner : Int) (session : Session Write Int Flush) : Bool :=
  session.writes.any (Write.moves owner)

theorem moved_concat {owner : Int} {session : Session Write Int Flush} (x : Write) (program : Flush)
    (h : moved owner session = true) :
    moved owner { session with writes := session.writes ++ [x], program := program } = true := by
  simp only [moved, List.any_append, Bool.or_eq_true]
  exact .inl h

/-- What a session sees of the snapshots and the listing of an owner, in the
middle of a flush. -/
structure VersionsSound (next : Nat) (kind : Kind) (owner : Int) (db : Tables) (program : Flush) :
    Prop where
  numbered : Numbered next (db.versions kind owner)
  pending : ∀ entry ∈ program.pending kind, entry.1.owner = owner →
    1 ≤ entry.2 ∧ entry.2 ≤ (db.versions kind owner).length + 1
  listing :
      ∃ done, db.versions kind owner = done ++ (program.unlisted kind).filter (·.owner = owner) ∧
    (db.listed kind owner).map Listing.snapshotId = (done.getLast?.map Snapshot.id).toList
  found : ∀ row listingId rest, program = .relisting kind row listingId rest → row.owner = owner →
    listingId = (db.listed kind owner).head?.map Listing.id

/-- What a session sees of the requests of a beatmapset. -/
structure RequestsSound (owner : Int) (db : Tables) (session : Session Write Int Flush) : Prop where
  unmoved : session.program.unmoved.filter (·.owner = owner) <:+ db.versions .beatmapset owner
  known : ∀ request ∈ db.requestsOf owner,
    request.beatmapsetSnapshotId ∈ (db.versions .beatmapset owner).map Snapshot.id
  latest : session.program.unmoved.filter (·.owner = owner) = [] →
    ∀ request ∈ db.requestsOf owner, db.lastId .beatmapset owner = some request.beatmapsetSnapshotId
  bound : ∀ entry ∈ session.program.bound, entry.1 = owner →
      db.lastId .beatmapset owner = some entry.2
  moved : session.writes.flatMap (Write.newVersion .beatmapset owner) ≠ [] →
    moved owner session = true ∨ session.program.unmoved.filter (·.owner = owner) ≠ []

/-- What a transaction works on is locked. -/
structure Locked (session : Session Write Int Flush) : Prop where
  claimed : ∀ kind, session.program.claimed kind ⊆ session.held
  writes : ∀ x ∈ session.writes, ∀ kind owner, x.Guarded kind owner → owner ∈ session.held

structure Sound (next : Sequences) (db : Tables) (session : Session Write Int Flush) : Prop where
  locked : Locked session
  versions : ∀ kind owner, VersionsSound (next.snapshot kind) kind owner db session.program
  requests : ∀ owner, RequestsSound owner db session

/-- Between transactions. -/
def closed : Session Write Int Flush := ⟨[], [], .idle⟩

/-- No transaction requests a beatmapset whose requests another one has moved. -/
structure Invariant {n : Nat} (s : System n) : Prop where
  exclusive : s.Exclusive
  committed : Sound s.shared s.committed closed
  sessions : ∀ t, Sound s.shared (s.view t) (s.sessions t)
  apart : ∀ t u owner, t ≠ u → requesting owner (s.sessions t) = true →
      moved owner (s.sessions u) = false

namespace Flush

variable {kind kind' : Kind} {program : Flush}

theorem claimed_of_pending {entry : Target × Nat} (h : entry ∈ program.pending kind) :
    entry.1.owner ∈ program.claimed kind := by
  cases program <;> grind [pending, claimed]

theorem claimed_of_unlisted {row : Snapshot} (h : row ∈ program.unlisted kind) :
    row.owner ∈ program.claimed kind := by
  cases program <;> grind [unlisted, claimed]

theorem claimed_of_unmoved {row : Snapshot} (h : row ∈ program.unmoved) :
    row.owner ∈ program.claimed .beatmapset := by
  cases program <;> grind [unmoved, claimed]

theorem startAfter_ne_relisting (rows : List Snapshot) (row : Snapshot) (listingId : Option Nat)
    (rest : List Snapshot) : startAfter kind rows ≠ .relisting kind' row listingId rest := by
  cases rows <;> simp [startAfter]

theorem afterListing_ne_relisting (first : Snapshot) (rows : List Snapshot) (row : Snapshot)
    (listingId : Option Nat) (rest : List Snapshot) :
    afterListing kind first rows ≠ .relisting kind' row listingId rest := by
  cases kind with
  | beatmap => exact startAfter_ne_relisting rows row listingId rest
  | beatmapset => simp [afterListing]

theorem startInsert_ne_relisting (inserted : List Snapshot) (entries : List (Target × Nat))
    (row : Snapshot) (listingId : Option Nat) (rest : List Snapshot) :
    startInsert kind inserted entries ≠ .relisting kind' row listingId rest := by
  cases entries with
  | nil => exact startAfter_ne_relisting inserted row listingId rest
  | cons entry entries => simp [startInsert]

theorem startBefore_ne_relisting (numbered : List (Target × Nat)) (targets : List Target)
    (row : Snapshot) (listingId : Option Nat) (rest : List Snapshot) :
    startBefore kind numbered targets ≠ .relisting kind' row listingId rest := by
  cases targets with
  | nil => exact startInsert_ne_relisting [] numbered row listingId rest
  | cons target targets => simp [startBefore]

theorem startRequests_ne_relisting (entries : List (Int × Nat)) (row : Snapshot)
    (listingId : Option Nat) (rest : List Snapshot) :
    startRequests entries ≠ .relisting kind' row listingId rest := by
  cases entries <;> simp [startRequests]

theorem startBinding_ne_relisting (entries : List (Int × Nat)) (owners : List Int) (row : Snapshot)
    (listingId : Option Nat) (rest : List Snapshot) :
    startBinding entries owners ≠ .relisting kind' row listingId rest := by
  cases owners with
  | nil => exact startRequests_ne_relisting entries row listingId rest
  | cons owner owners => simp [startBinding]

theorem filter_unlisted_of_unclaimed {owner : Int} (h : owner ∉ program.claimed kind) :
    (program.unlisted kind).filter (·.owner = owner) = [] := by
  apply List.filter_eq_nil_iff.mpr
  intro row hrow howner
  rw [decide_eq_true_eq] at howner
  exact h (howner ▸ claimed_of_unlisted hrow)

theorem filter_unmoved_of_unclaimed {owner : Int} (h : owner ∉ program.claimed .beatmapset) :
    program.unmoved.filter (·.owner = owner) = [] := by
  apply List.filter_eq_nil_iff.mpr
  intro row hrow howner
  rw [decide_eq_true_eq] at howner
  exact h (howner ▸ claimed_of_unmoved hrow)

end Flush

section Parts

variable {next : Nat} {kind : Kind} {owner : Int} {db db' : Tables} {program program' : Flush}

theorem VersionsSound.mono {next' : Nat} (h : VersionsSound next kind owner db program)
    (hle : next ≤ next') :
    VersionsSound next' kind owner db program :=
  { h with numbered := h.numbered.mono hle }

/-- A session that sees the same rows. -/
theorem VersionsSound.congr (h : VersionsSound next kind owner db program)
    (hslice : Write.versionSlicing.slice (kind, owner) db' =
      Write.versionSlicing.slice (kind, owner) db) :
    VersionsSound next kind owner db' program := by
  obtain ⟨hversions, hlisted⟩ := Prod.mk.inj hslice
  constructor
  · rw [hversions]
    exact h.numbered
  · rw [hversions]
    exact h.pending
  · rw [hversions, hlisted]
    exact h.listing
  · rw [hlisted]
    exact h.found

/-- The next statement, when it is not one of the listing. -/
theorem VersionsSound.goto (h : VersionsSound next kind owner db program)
    (hpending : ∀ entry ∈ program'.pending kind, entry.1.owner = owner →
      1 ≤ entry.2 ∧ entry.2 ≤ (db.versions kind owner).length + 1)
    (hunlisted : program'.unlisted kind = program.unlisted kind)
    (hfound : ∀ row listingId rest, program' = .relisting kind row listingId rest →
      row.owner = owner →
      listingId = (db.listed kind owner).head?.map Listing.id) :
    VersionsSound next kind owner db program' :=
  ⟨h.numbered, hpending, hunlisted ▸ h.listing, hfound⟩

/-- A session that does not work on the owner's rows. -/
theorem VersionsSound.of_unclaimed (h : VersionsSound next kind owner db .idle)
    (hclaimed : owner ∉ program.claimed kind) : VersionsSound next kind owner db program := by
  constructor
  · exact h.numbered
  · rintro entry hentry rfl
    exact absurd (Flush.claimed_of_pending hentry) hclaimed
  · rw [Flush.filter_unlisted_of_unclaimed hclaimed]
    exact h.listing
  · rintro row listingId rest rfl rfl
    exact absurd (Flush.claimed_of_unlisted (by simp [Flush.unlisted])) hclaimed

variable {session : Session Write Int Flush}

/-- A session that sees the same snapshots and requests. -/
theorem RequestsSound.congr (h : RequestsSound owner db session)
    (hversions : db'.versions .beatmapset owner = db.versions .beatmapset owner)
    (hrequests : db'.requestsOf owner = db.requestsOf owner) : RequestsSound owner db' session := by
  have hlast : db'.lastId .beatmapset owner = db.lastId .beatmapset owner := by
    rw [Tables.lastId, hversions, Tables.lastId]
  constructor
  · rw [hversions]
    exact h.unmoved
  · rw [hversions, hrequests]
    exact h.known
  · rw [hlast, hrequests]
    exact h.latest
  · rw [hlast]
    exact h.bound
  · exact h.moved

/-- A session that has nothing to do with the beatmapset. -/
theorem RequestsSound.of_unclaimed (h : RequestsSound owner db closed)
    (hclaimed : owner ∉ session.program.claimed .beatmapset)
    (hbound : ∀ entry ∈ session.program.bound, entry.1 ≠ owner)
    (hwrites : session.writes.flatMap (Write.newVersion .beatmapset owner) = []) :
    RequestsSound owner db session := by
  have hunmoved := Flush.filter_unmoved_of_unclaimed hclaimed
  constructor
  · rw [hunmoved]
    exact List.nil_suffix
  · exact h.known
  · exact fun _ => h.latest rfl
  · exact fun entry hentry howner => absurd howner (hbound entry hentry)
  · exact fun hne => absurd hwrites hne

/-- Requests that another transaction commits on the latest committed snapshot. -/
theorem RequestsSound.merge (committed other : Tables) (h : RequestsSound owner db session)
    (hversions : db'.versions .beatmapset owner = db.versions .beatmapset owner)
    (hown : db.versions .beatmapset owner = committed.versions .beatmapset owner ++
      session.writes.flatMap (Write.newVersion .beatmapset owner))
    (hmoved : Archive.moved owner session = false)
    (hother : ∀ request ∈ other.requestsOf owner,
      committed.lastId .beatmapset owner = some request.beatmapsetSnapshotId)
    (hrequests : ∀ request ∈ db'.requestsOf owner,
      request ∈ other.requestsOf owner ∨ request ∈ db.requestsOf owner) :
    RequestsSound owner db' session := by
  have hlast : db'.lastId .beatmapset owner = db.lastId .beatmapset owner := by
    rw [Tables.lastId, hversions, Tables.lastId]
  constructor
  · rw [hversions]
    exact h.unmoved
  · intro request hrequest
    rw [hversions]
    rcases hrequests request hrequest with hmem | hmem
    · obtain ⟨row, hrow, hid⟩ := Option.map_eq_some_iff.mp (hother request hmem)
      rw [hown, ← hid]
      exact List.mem_map_of_mem (List.mem_append_left _ (List.mem_of_getLast? hrow))
    · exact h.known request hmem
  · intro hunmoved request hrequest
    rw [hlast]
    rcases hrequests request hrequest with hmem | hmem
    · -- Nothing is inserted and not moved, so nothing is inserted.
      have hnone : session.writes.flatMap (Write.newVersion .beatmapset owner) = [] := by
        by_contra hne
        rcases h.moved hne with htrue | hne'
        · rw [hmoved] at htrue
          cases htrue
        · exact hne' hunmoved
      rw [hnone, List.append_nil] at hown
      rw [Tables.lastId, hown]
      exact hother request hmem
    · exact h.latest hunmoved request hmem
  · rw [hlast]
    exact h.bound
  · exact h.moved

theorem Sound.close {next : Sequences} (h : Sound next db session)
    (hidle : session.program = .idle) :
    Sound next db closed := by
  constructor
  · exact ⟨fun _ => List.nil_subset _, fun x hx => absurd hx (List.not_mem_nil)⟩
  · intro kind owner
    have hversions := h.versions kind owner
    rw [hidle] at hversions
    exact hversions
  · intro owner
    have hr := h.requests owner
    have hunmoved : session.program.unmoved = [] := by
      rw [hidle]
      rfl
    exact ⟨List.nil_suffix, hr.known, fun _ => hr.latest (by rw [hunmoved]; rfl),
      fun entry hentry => absurd hentry (List.not_mem_nil), fun hne => absurd rfl hne⟩

end Parts

section Commit

variable {n : Nat} {s : System n} {t u : Fin n} {owner : Int}

theorem Locked.unwritten (h : Locked (s.sessions t)) (howner : owner ∉ (s.sessions t).held)
    (kind : Kind) :
    ¬ Write.versionSlicing.Writes s t (kind, owner) := by
  rintro ⟨x, hx, hguarded⟩
  exact howner (h.writes x hx kind owner hguarded)

theorem Locked.not_moved {session : Session Write Int Flush} (h : Locked session)
    (howner : owner ∉ session.held) : moved owner session = false := by
  apply List.any_eq_false.mpr
  intro x hx hmoves
  cases x with
  | updateRequests owner' ids snapshotId =>
      apply howner
      exact h.writes _ hx .beatmapset owner ⟨rfl, by simpa [Write.moves] using hmoves⟩
  | _ => cases hmoves

theorem Locked.no_versions {session : Session Write Int Flush} (h : Locked session)
    (howner : owner ∉ session.held) (kind : Kind) :
    session.writes.flatMap (Write.newVersion kind owner) = [] := by
  apply List.flatMap_eq_nil_iff.mpr
  intro x hx
  cases x with
  | insertSnapshot kind' row =>
      apply if_neg
      exact fun hguarded => howner (h.writes _ hx kind owner hguarded)
  | _ => rfl

theorem unrequested (hrequesting : requesting owner (s.sessions t) = false)
    (hmoved : moved owner (s.sessions t) = false) : ¬ Write.requestSlicing.Writes s t owner := by
  rintro ⟨x, hx, hrebinds⟩
  replace hrebinds : x.Rebinds owner := hrebinds
  have hwrites := (Bool.or_eq_false_iff.mp hrequesting).2
  cases x with
  | insertRequest row =>
      have := List.any_eq_false.mp hwrites _ hx
      exact this (by simpa [Write.requests, Write.Rebinds] using hrebinds)
  | updateRequests owner' ids snapshotId =>
      have := List.any_eq_false.mp hmoved _ hx
      exact this (by simpa [Write.moves, Write.Rebinds] using hrebinds)
  | _ => exact hrebinds

/-- A transaction commits under the eyes of another. -/
theorem Invariant.sound_commit (hs : Invariant s) (hidle : (s.sessions t).program = .idle)
    (hne : u ≠ t) :
    Sound s.shared (System.view (World.commit Write.apply t .idle s) u) (s.sessions u) := by
  have ht := (hs.sessions t).close hidle
  have hu := hs.sessions u
  constructor
  · exact hu.locked
  · intro kind owner
    by_cases howner : owner ∈ (s.sessions t).held
    · have howner' : owner ∉ (s.sessions u).held := fun h => hne (hs.exclusive u t owner h howner)
      have hslice := Write.versionSlicing.slice_commit_of_own Flush.idle
        (hu.locked.unwritten howner' kind) hne
      exact ((ht.versions kind owner).of_unclaimed fun h =>
        howner' (hu.locked.claimed kind h)).congr hslice
    · have hslice := Write.versionSlicing.slice_commit_of_frame Flush.idle
        ((hs.sessions t).locked.unwritten howner kind) hne
      exact (hu.versions kind owner).congr hslice
  · intro owner
    have hversions_t := Write.versions_written .beatmapset owner (s.sessions t).writes s.committed
    have hversions_u := Write.versions_written .beatmapset owner (s.sessions u).writes s.committed
    have hnone (hmoved_t : moved owner (s.sessions t) = false) :
        (s.sessions t).writes.flatMap (Write.newVersion .beatmapset owner) = [] := by
      by_contra hne
      rcases ((hs.sessions t).requests owner).moved hne with htrue | hne'
      · rw [hmoved_t] at htrue
        cases htrue
      · rw [hidle] at hne'
        exact hne' rfl
    -- What is left once it is known which of the two has moved the requests.
    have merge (hmoved_t : moved owner (s.sessions t) = false)
        (hmoved_u : moved owner (s.sessions u) = false)
        (hversions : (System.view (World.commit Write.apply t .idle s) u).versions
          .beatmapset owner =
          (s.view u).versions .beatmapset owner) :
        RequestsSound owner (System.view (World.commit Write.apply t .idle s) u)
        (s.sessions u) := by
      rw [hnone hmoved_t, List.append_nil] at hversions_t
      apply (hu.requests owner).merge s.committed (s.view t) hversions hversions_u hmoved_u
      · intro request hrequest
        have hlatest := (ht.requests owner).latest rfl request hrequest
        rwa [Tables.lastId,
          show (s.view t).versions .beatmapset owner = _ from hversions_t] at hlatest
      · intro request hrequest
        have hwrites :
            ((World.commit Write.apply t .idle s).sessions u).writes = (s.sessions u).writes := by
          simp [World.commit, hne]
        rw [System.view, World.view, hwrites, Write.mem_requestsOf_written hmoved_u] at hrequest
        rcases hrequest with hmem | hmem
        · exact .inl hmem
        · exact .inr ((Write.mem_requestsOf_written hmoved_u).mpr (.inr hmem))
    by_cases howner : owner ∈ (s.sessions t).held
    · have howner' : owner ∉ (s.sessions u).held := fun h => hne (hs.exclusive u t owner h howner)
      have hslice := Write.versionSlicing.slice_commit_of_own Flush.idle
        (hu.locked.unwritten howner' .beatmapset) hne
      have hversions := (Prod.mk.inj hslice).1
      have hmoved_u := hu.locked.not_moved howner'
      cases hmoved_t : moved owner (s.sessions t) with
      | true =>
          have hrequesting : requesting owner (s.sessions u) = false := by
            by_contra h
            rw [hs.apart u t owner hne (by simpa using h)] at hmoved_t
            cases hmoved_t
          have hrequests := Write.requestSlicing.slice_commit_of_own Flush.idle
            (unrequested hrequesting hmoved_u) hne
          apply RequestsSound.congr _ hversions hrequests
          apply (ht.requests owner).of_unclaimed
          · exact fun h => howner' (hu.locked.claimed .beatmapset h)
          · intro entry hentry hentry'
            have := List.any_eq_false.mp (Bool.or_eq_false_iff.mp hrequesting).1 entry hentry
            exact this (by simpa using hentry')
          · exact hu.locked.no_versions howner' .beatmapset
      | false =>
          apply merge hmoved_t hmoved_u
          rw [hnone hmoved_t] at hversions_t
          rw [hu.locked.no_versions howner' .beatmapset] at hversions_u
          exact hversions.trans (hversions_t.trans hversions_u.symm)
    · have hslice := Write.versionSlicing.slice_commit_of_frame Flush.idle
        ((hs.sessions t).locked.unwritten howner .beatmapset) hne
      have hversions := (Prod.mk.inj hslice).1
      have hmoved_t := (hs.sessions t).locked.not_moved howner
      cases hmoved_u : moved owner (s.sessions u) with
      | true =>
          have hrequesting : requesting owner (s.sessions t) = false := by
            by_contra h
            rw [hs.apart t u owner (Ne.symm hne) (by simpa using h)] at hmoved_u
            cases hmoved_u
          have hrequests := Write.requestSlicing.slice_commit_of_frame Flush.idle
            (unrequested hrequesting hmoved_t) hne
          exact (hu.requests owner).congr hversions hrequests
      | false => exact merge hmoved_t hmoved_u hversions

theorem Invariant.commit (hs : Invariant s) (hidle : (s.sessions t).program = .idle) :
    Invariant (World.commit Write.apply t .idle s) := by
  have ht := (hs.sessions t).close hidle
  have hother (u : Fin n) (hne : u ≠ t) :
      (World.commit Write.apply t .idle s).sessions u = s.sessions u := by
    simp [World.commit, hne]
  have hself : (World.commit Write.apply t .idle s).sessions t = closed := by
    simp [World.commit, closed]
  constructor
  · exact hs.exclusive.end rfl
  · exact ht
  · intro u
    by_cases hne : u = t
    · subst hne
      rw [hself, System.view, World.view_commit_self]
      exact ht
    · rw [hother u hne]
      exact hs.sound_commit hidle hne
  · intro u v owner hne hrequesting
    by_cases hu : u = t
    · subst hu
      rw [hself] at hrequesting
      cases hrequesting
    · by_cases hv : v = t
      · subst hv
        rw [hself]
        rfl
      · rw [hother u hu] at hrequesting
        rw [hother v hv]
        exact hs.apart u v owner hne hrequesting

/-- A statement that changes the session `t` alone. -/
theorem Invariant.update {s' : System n} (hs : Invariant s)
    (hother : ∀ u, u ≠ t → s'.sessions u = s.sessions u) (hcommitted : s'.committed = s.committed)
    (hnext : ∀ kind, s.shared.snapshot kind ≤ s'.shared.snapshot kind) (hexclusive : s'.Exclusive)
    (hsound : Sound s'.shared (s'.view t) (s'.sessions t))
    (hrequesting : ∀ owner, requesting owner (s'.sessions t) = true →
      requesting owner (s.sessions t) = true ∨ ∀ u, u ≠ t → moved owner (s.sessions u) = false)
    (hmoved : ∀ owner, moved owner (s'.sessions t) = true →
      moved owner (s.sessions t) = true ∨ ∀ u, u ≠ t → requesting owner (s.sessions u) = false) :
    Invariant s' := by
  have mono {db : Tables} {session : Session Write Int Flush} (h : Sound s.shared db session) :
      Sound s'.shared db session :=
    ⟨h.locked, fun kind owner => (h.versions kind owner).mono (hnext kind), h.requests⟩
  constructor
  · exact hexclusive
  · rw [hcommitted]
    exact mono hs.committed
  · intro u
    by_cases hu : u = t
    · subst hu
      exact hsound
    · have hview : s'.view u = s.view u := World.view_congr (by rw [hother u hu]) hcommitted
      rw [hview, hother u hu]
      exact mono (hs.sessions u)
  · intro u v owner hne hrequest
    by_cases hu : u = t
    · subst hu
      have hv : v ≠ u := Ne.symm hne
      rw [hother v hv]
      rcases hrequesting owner hrequest with h | h
      · exact hs.apart u v owner hne h
      · exact h v hv
    · rw [hother u hu] at hrequest
      by_cases hv : v = t
      · subst hv
        by_contra hmove
        rcases hmoved owner (by simpa using hmove) with h | h
        · rw [hs.apart u v owner hne hrequest] at h
          cases h
        · rw [h u hu] at hrequest
          cases hrequest
      · rw [hother v hv]
        exact hs.apart u v owner hne hrequest

end Commit

section Statements

variable {n : Nat} {s : System n} {t : Fin n}

/-- A statement that reads. -/
theorem Invariant.setProgram (hs : Invariant s) {program : Flush}
    (hclaimed : ∀ kind, program.claimed kind ⊆ (s.sessions t).held)
    (hversions : ∀ kind owner, VersionsSound (s.shared.snapshot kind) kind owner (s.view t) program)
    (hunmoved : program.unmoved = (s.sessions t).program.unmoved)
    (hbound : ∀ entry ∈ program.bound, (s.view t).lastId .beatmapset entry.1 = some entry.2)
    (hnew : ∀ entry ∈ program.bound, entry ∈ (s.sessions t).program.bound ∨
      ∀ u, u ≠ t → moved entry.1 (s.sessions u) = false) :
    Invariant (s.setProgram t program) := by
  have hview : System.view (s.setProgram t program) t = s.view t :=
    World.view_congr (World.writes_setProgram s t t program) rfl
  have ht := hs.sessions t
  refine hs.update (t := t) ?_ ?_ ?_ ?_ ?_ ?_ ?_
  · exact fun u hu => World.sessions_setProgram_of_ne s t u program hu
  · rfl
  · exact fun kind => Nat.le_refl _
  · exact hs.exclusive.of_held fun u => by simp
  · rw [hview]
    constructor
    · exact ⟨by simpa using hclaimed, by simpa using ht.locked.writes⟩
    · simpa using hversions
    · intro owner
      have hr := ht.requests owner
      constructor
      · rw [World.program_setProgram_self, hunmoved]
        exact hr.unmoved
      · exact hr.known
      · rw [World.program_setProgram_self, hunmoved]
        exact hr.latest
      · rw [World.program_setProgram_self]
        rintro entry hentry rfl
        exact hbound entry hentry
      · rw [World.program_setProgram_self, hunmoved, moved, World.writes_setProgram]
        exact hr.moved
  · intro owner hrequesting
    simp only [requesting, World.program_setProgram_self, World.writes_setProgram, Bool.or_eq_true,
      List.any_eq_true, decide_eq_true_eq] at hrequesting
    rcases hrequesting with ⟨entry, hentry, rfl⟩ | hwrites
    · rcases hnew entry hentry with hmem | hfree
      · left
        simp only [requesting, Bool.or_eq_true, List.any_eq_true]
        exact .inl ⟨entry, hmem, by simp⟩
      · exact .inr hfree
    · left
      simp only [requesting, Bool.or_eq_true, List.any_eq_true]
      exact .inr hwrites
  · intro owner hmoved
    left
    simpa [moved] using hmoved

theorem Invariant.hold (hs : Invariant s) {k : Int} (hfree : ¬ s.heldElsewhere t k) :
    Invariant (s.hold t k) := by
  have hview : System.view (s.hold t k) t = s.view t :=
    World.view_congr (World.writes_hold s t t k) rfl
  have ht := hs.sessions t
  refine hs.update (t := t) ?_ ?_ ?_ ?_ ?_ ?_ ?_
  · exact fun u hu => World.sessions_hold_of_ne s t u k hu
  · rfl
  · exact fun kind => Nat.le_refl _
  · exact hs.exclusive.hold hfree
  · rw [hview]
    constructor
    · constructor
      · intro kind
        rw [World.program_hold, World.held_hold_self]
        exact fun owner howner => List.mem_cons_of_mem _ (ht.locked.claimed kind howner)
      · intro x hx kind owner hguarded
        rw [World.writes_hold] at hx
        rw [World.held_hold_self]
        exact List.mem_cons_of_mem _ (ht.locked.writes x hx kind owner hguarded)
    · simpa using ht.versions
    · intro owner
      have hr := ht.requests owner
      constructor
      · simpa using hr.unmoved
      · exact hr.known
      · simpa using hr.latest
      · simpa using hr.bound
      · simpa [moved] using hr.moved
  · intro owner hrequesting
    left
    simpa [requesting] using hrequesting
  · intro owner hmoved
    left
    simpa [moved] using hmoved

/-- A statement that writes, with what it takes from the sequences. -/
theorem Invariant.write (hs : Invariant s) (shared : Sequences) {x : Write} {program : Flush}
    (hnext : ∀ kind, s.shared.snapshot kind ≤ shared.snapshot kind)
    (hguarded : ∀ kind owner, x.Guarded kind owner → owner ∈ (s.sessions t).held)
    (hclaimed : ∀ kind, program.claimed kind ⊆ (s.sessions t).held)
    (hversions : ∀ kind owner,
      VersionsSound (shared.snapshot kind) kind owner (x.apply (s.view t)) program)
    (hrequests : ∀ owner, RequestsSound owner (x.apply (s.view t))
      { s.sessions t with writes := (s.sessions t).writes ++ [x], program := program })
    (hbound : program.bound ⊆ (s.sessions t).program.bound)
    (hrequesting : ∀ owner, x.requests owner = true → requesting owner (s.sessions t) = true)
    (hmoved : ∀ owner, x.moves owner = true → ∀ u, u ≠ t →
      requesting owner (s.sessions u) = false) :
    Invariant { (s.write t x).setProgram t program with shared := shared } := by
  have ht := hs.sessions t
  set s' : System n := { (s.write t x).setProgram t program with shared := shared } with hs'
  have hsession : s'.sessions t =
      { s.sessions t with writes := (s.sessions t).writes ++ [x], program := program } := by
    simp [hs', World.write, World.setProgram, World.setSession]
  have hother (u : Fin n) (hu : u ≠ t) : s'.sessions u = s.sessions u := by
    simp [hs', World.write, World.setProgram, World.setSession, hu]
  have hview : s'.view t = x.apply (s.view t) := by
    rw [System.view, World.view, hsession, World.written_concat]
    rfl
  refine hs.update (t := t) hother rfl hnext ?_ ?_ ?_ ?_
  · apply hs.exclusive.of_held
    intro u
    by_cases hu : u = t
    · subst hu
      rw [hsession]
      exact fun k hk => hk
    · rw [hother u hu]
      exact fun k hk => hk
  · rw [hview, hsession]
    constructor
    · constructor
      · exact hclaimed
      · intro y hy kind owner hy'
        rcases List.mem_append.mp hy with hmem | hmem
        · exact ht.locked.writes y hmem kind owner hy'
        · obtain rfl := List.mem_singleton.mp hmem
          exact hguarded kind owner hy'
    · exact hversions
    · exact hrequests
  · intro owner h
    left
    rw [hsession] at h
    simp only [requesting, List.any_append, List.any_cons, List.any_nil, Bool.or_false,
      Bool.or_eq_true] at h
    rcases h with h | h | h
    · obtain ⟨entry, hentry, howner⟩ := List.any_eq_true.mp h
      simp only [requesting, Bool.or_eq_true]
      exact .inl (List.any_eq_true.mpr ⟨entry, hbound hentry, howner⟩)
    · simp only [requesting, Bool.or_eq_true]
      exact .inr h
    · exact hrequesting owner h
  · intro owner h
    rw [hsession] at h
    simp only [moved, List.any_append, List.any_cons, List.any_nil, Bool.or_false,
      Bool.or_eq_true] at h
    rcases h with h | h
    · exact .inl h
    · exact .inr (hmoved owner h)

/-- The transaction is over without a trace, apart from its locks. -/
theorem Invariant.setSession (hs : Invariant s) {session : Session Write Int Flush}
    (hwrites : session.writes = []) (hheld : session.held ⊆ (s.sessions t).held)
    (hlists : (∀ kind, session.program.claimed kind = []) ∧ session.program.bound = []) :
    Invariant (s.setSession t session) := by
  obtain ⟨hclaimed, hbound⟩ := hlists
  have hsession : (s.setSession t session).sessions t = session := by simp
  have hother (u : Fin n) (hu : u ≠ t) : (s.setSession t session).sessions u = s.sessions u := by
    simp [hu]
  have hview : System.view (s.setSession t session) t = s.committed :=
    World.view_of_writes_nil (by rw [hsession, hwrites])
  have hrequesting (owner : Int) : requesting owner session = false := by
    simp [requesting, hbound, hwrites]
  have hmoved (owner : Int) : moved owner session = false := by
    simp [moved, hwrites]
  refine hs.update (t := t) hother rfl (fun _ => Nat.le_refl _) ?_ ?_ ?_ ?_
  · apply hs.exclusive.of_held
    intro u
    by_cases hu : u = t
    · subst hu
      rw [hsession]
      exact hheld
    · rw [hother u hu]
      exact List.Subset.refl _
  · rw [hview, hsession]
    constructor
    · constructor
      · intro kind
        rw [hclaimed kind]
        exact List.nil_subset _
      · rw [hwrites]
        exact fun x hx => absurd hx List.not_mem_nil
    · intro kind owner
      apply (hs.committed.versions kind owner).of_unclaimed
      rw [hclaimed kind]
      exact List.not_mem_nil
    · intro owner
      apply (hs.committed.requests owner).of_unclaimed
      · rw [hclaimed]
        exact List.not_mem_nil
      · rw [hbound]
        exact fun entry hentry => absurd hentry List.not_mem_nil
      · rw [hwrites]
        rfl
  · intro owner h
    rw [hsession, hrequesting] at h
    cases h
  · intro owner h
    rw [hsession, hmoved] at h
    cases h

theorem Invariant.fail (hs : Invariant s) : Invariant (s.fail t) :=
  hs.setSession rfl (List.Subset.refl _) ⟨fun _ => rfl, rfl⟩

theorem Invariant.rollback (hs : Invariant s) : Invariant (World.rollback t .idle s) :=
  hs.setSession rfl (List.nil_subset _) ⟨fun _ => rfl, rfl⟩

theorem Invariant.flush (hs : Invariant s) (hidle : (s.sessions t).program = .idle) (kind : Kind)
    (targets : List Target) : Invariant (s.setProgram t (.startBefore kind [] targets)) := by
  apply hs.setProgram
  · intro kind'
    simp
  · intro kind' owner
    have hv := (hs.sessions t).versions kind' owner
    rw [hidle] at hv
    apply hv.goto
    · simp
    · exact Flush.unlisted_startBefore kind kind' _ _
    · exact fun row listingId rest h => absurd h (Flush.startBefore_ne_relisting _ _ _ _ _)
  · rw [hidle]
    exact Flush.unmoved_startBefore kind _ _
  · simp
  · simp

theorem Invariant.flushRequests (hs : Invariant s) (hidle : (s.sessions t).program = .idle)
    (owners : List Int) : Invariant (s.setProgram t (.startBinding [] owners)) := by
  have hlists (kind : Kind) := Flush.lists_startBinding kind [] owners
  apply hs.setProgram
  · intro kind
    simp [(hlists kind).2.2.2]
  · intro kind owner
    have hv := (hs.sessions t).versions kind owner
    rw [hidle] at hv
    apply hv.goto
    · simp [(hlists kind).1]
    · rw [(hlists kind).2.1]
      rfl
    · exact fun row listingId rest h => absurd h (Flush.startBinding_ne_relisting _ _ _ _ _)
  · rw [(hlists .beatmap).2.2.1, hidle]
    rfl
  · simp
  · simp

section Snapshots

variable {kind : Kind} {numbered : List (Target × Nat)} {target : Target} {targets : List Target}

/-- `pg_advisory_xact_lock` -/
theorem Invariant.lock (hs : Invariant s)
    (hprogram : (s.sessions t).program = .locking kind numbered target targets)
    (hfree : ¬ s.heldElsewhere t target.owner) :
    Invariant ((s.hold t target.owner).setProgram t (.numbering kind numbered target targets)) := by
  have hhold := hs.hold hfree
  have hprogram' :
      ((s.hold t target.owner).sessions t).program = .locking kind numbered target targets := by
    rw [World.program_hold, hprogram]
  have ht := hhold.sessions t
  apply hhold.setProgram
  · intro kind'
    have hclaimed := ht.locked.claimed kind'
    rw [hprogram'] at hclaimed
    simp only [Flush.claimed] at hclaimed ⊢
    split
    · next hkind =>
        rw [if_pos hkind] at hclaimed
        apply List.cons_subset.mpr
        exact ⟨by simp, hclaimed⟩
    · exact List.nil_subset _
  · intro kind' owner
    have hv := ht.versions kind' owner
    rw [hprogram'] at hv
    exact hv.goto hv.pending rfl (by simp)
  · rw [hprogram']
    rfl
  · simp [Flush.bound]
  · simp [Flush.bound]

/-- The `SELECT` of the highest number. -/
theorem Invariant.number (hs : Invariant s)
    (hprogram : (s.sessions t).program = .numbering kind numbered target targets) :
    Invariant (s.setProgram t (.startBefore kind
      (numbered ++ [(target, (s.view t).nextNumber kind target.owner)]) targets)) := by
  have ht := hs.sessions t
  apply hs.setProgram
  · intro kind'
    have hclaimed := ht.locked.claimed kind'
    rw [hprogram] at hclaimed
    simp only [Flush.claimed] at hclaimed
    rw [Flush.claimed_startBefore]
    split
    · next hkind =>
        rw [if_pos hkind] at hclaimed
        obtain ⟨htarget, hnumbered⟩ := List.cons_subset.mp hclaimed
        rw [List.map_append]
        exact List.append_subset.mpr ⟨hnumbered, by simpa using htarget⟩
    · exact List.nil_subset _
  · intro kind' owner
    have hv := ht.versions kind' owner
    rw [hprogram] at hv
    apply hv.goto
    · intro entry hentry howner
      rw [Flush.pending_startBefore] at hentry
      split at hentry
      · next hkind =>
          subst hkind
          rcases List.mem_append.mp hentry with hmem | hmem
          · exact hv.pending entry (by simpa [Flush.pending] using hmem) howner
          · obtain rfl := List.mem_singleton.mp hmem
            subst howner
            have hnumber : (s.view t).nextNumber kind target.owner =
                ((s.view t).versions kind target.owner).length + 1 :=
              congrArg (· + 1) hv.numbered.max_number
            simp only [hnumber]
            omega
      · cases hentry
    · exact Flush.unlisted_startBefore kind kind' _ _
    · exact fun row listingId rest h => absurd h (Flush.startBefore_ne_relisting _ _ _ _ _)
  · rw [hprogram]
    exact Flush.unmoved_startBefore kind _ _
  · simp
  · simp

variable {inserted rest : List Snapshot} {number : Nat} {entries : List (Target × Nat)}
  {row : Snapshot}

/-- A number that is free is the next one. -/
theorem eq_next_of_free {next : Nat} {rows : List Snapshot} (h : Numbered next rows)
    (hbounds : 1 ≤ number ∧ number ≤ rows.length + 1)
    (hfree : number ∉ rows.map Snapshot.snapshotNumber) :
    number = rows.length + 1 := by
  by_contra hne
  apply hfree
  apply h.number_mem_iff.mpr
  omega

/-- The `INSERT` of a snapshot. -/
theorem Invariant.insert (hs : Invariant s)
    (hprogram : (s.sessions t).program = .inserting kind inserted target number entries)
    (hid : row.id = s.shared.snapshot kind) (howner : row.owner = target.owner)
    (hnumber : row.snapshotNumber = number)
    (hfree : Tables.conflicts row ((s.view t).snapshots kind) = false) :
    Invariant { (s.write t (.insertSnapshot kind row)).setProgram t
        (.startInsert kind (inserted ++ [row]) entries) with
      shared := { s.shared with
        snapshot := Function.update s.shared.snapshot kind (s.shared.snapshot kind + 1) } } := by
  have ht := hs.sessions t
  have hv := ht.versions kind target.owner
  rw [hprogram] at hv
  have hnext : number = ((s.view t).versions kind target.owner).length + 1 := by
    apply eq_next_of_free hv.numbered
    · exact hv.pending (target, number) (by simp [Flush.pending]) rfl
    · intro hmem
      obtain ⟨other, hother, hsame⟩ := List.mem_map.mp hmem
      obtain ⟨hrow, hkept⟩ := List.mem_filter.mp hother
      have := List.any_eq_false.mp hfree other hrow
      apply this
      simp_all
  have hclaimed := ht.locked.claimed kind
  rw [hprogram] at hclaimed
  simp only [Flush.claimed, if_true, List.cons_append, List.cons_subset,
    List.append_subset] at hclaimed
  -- The same row is appended to what is seen and to what is not yet listed.
  have hunlisted (kind' : Kind) (owner : Int) :
      ((Flush.startInsert kind (inserted ++ [row]) entries).unlisted kind').filter
      (·.owner = owner) =
        ((s.sessions t).program.unlisted kind').filter (·.owner = owner) ++
          (Write.insertSnapshot kind row).newVersion kind' owner := by
    rw [hprogram, Flush.unlisted_startInsert]
    by_cases hkind : kind = kind'
    · by_cases hrow : row.owner = owner <;> simp [Flush.unlisted, Write.newVersion, hkind, hrow]
    · simp [Flush.unlisted, Write.newVersion, hkind]
  apply hs.write
  · intro kind'
    by_cases hkind : kind' = kind
    · subst hkind
      simp
    · simp [hkind]
  · rintro kind' owner ⟨rfl, rfl⟩
    rw [howner]
    exact hclaimed.1
  · intro kind'
    rw [Flush.claimed_startInsert]
    split
    · rw [List.map_append]
      apply List.append_subset.mpr
      refine ⟨hclaimed.2.1, List.append_subset.mpr ⟨hclaimed.2.2, ?_⟩⟩
      simpa [howner] using hclaimed.1
    · exact List.nil_subset _
  · intro kind' owner
    have hv' := ht.versions kind' owner
    rw [hprogram] at hv'
    constructor
    · rw [Write.versions_apply]
      by_cases hsame : kind = kind' ∧ row.owner = owner
      · obtain ⟨rfl, rfl⟩ := hsame
        have hconcat := hv'.numbered.concat hid (by rw [hnumber, hnext, howner])
        simpa [Write.newVersion] using hconcat
      · simp only [Write.newVersion, if_neg hsame, List.append_nil]
        apply hv'.numbered.mono
        by_cases hkind : kind' = kind
        · subst hkind
          simp
        · simp [hkind]
    · intro entry hentry howner'
      rw [Flush.pending_startInsert] at hentry
      split at hentry
      · next hkind =>
          subst hkind
          obtain ⟨hpos, hle⟩ := hv'.pending entry (by simp [Flush.pending, hentry]) howner'
          rw [Write.versions_apply, List.length_append]
          omega
      · cases hentry
    · obtain ⟨done, hdone, hlisted⟩ := hv'.listing
      refine ⟨done, ?_, ?_⟩
      · rw [hunlisted, ← List.append_assoc, Write.versions_apply, hdone, hprogram]
      · rw [Write.listed_apply]
        exact hlisted
    · exact fun row listingId rest h => absurd h (Flush.startInsert_ne_relisting _ _ _ _ _)
  · intro owner
    have hr := ht.requests owner
    have hunmoved :
        (Flush.startInsert kind (inserted ++ [row]) entries).unmoved.filter (·.owner = owner) =
        (s.sessions t).program.unmoved.filter (·.owner = owner) ++
          (Write.insertSnapshot kind row).newVersion .beatmapset owner := by
      rw [hprogram, Flush.unmoved_startInsert]
      by_cases hkind : kind = .beatmapset
      · by_cases hrow : row.owner = owner <;> simp [Flush.unmoved, Write.newVersion, hkind, hrow]
      · simp [Flush.unmoved, Write.newVersion, hkind]
    have hrequests : ((Write.insertSnapshot kind row).apply (s.view t)).requestsOf owner =
        (s.view t).requestsOf owner := rfl
    constructor
    · rw [hunmoved, Write.versions_apply]
      obtain ⟨earlier, hearlier⟩ := hr.unmoved
      exact ⟨earlier, by rw [← List.append_assoc, hearlier]⟩
    · intro request hrequest
      rw [Write.versions_apply, List.map_append]
      exact List.mem_append_left _ (hr.known request hrequest)
    · rw [hunmoved]
      intro hnone request hrequest
      obtain ⟨hnone, hnew⟩ := List.append_eq_nil_iff.mp hnone
      rw [Tables.lastId, Write.versions_apply, hnew, List.append_nil]
      exact hr.latest hnone request hrequest
    · simp
    · rw [hunmoved]
      intro hne
      by_cases hnew : (Write.insertSnapshot kind row).newVersion .beatmapset owner = []
      · rw [List.flatMap_append, List.flatMap_singleton, hnew, List.append_nil] at hne
        rw [hnew, List.append_nil]
        exact (hr.moved hne).imp_left (moved_concat _ _)
      · exact .inr fun h => hnew (List.append_eq_nil_iff.mp h).2
  · simp
  · simp [Write.requests]
  · simp [Write.moves]

/-- The `SELECT` of the listing. -/
theorem Invariant.select (hs : Invariant s)
    (hprogram : (s.sessions t).program = .selecting kind row rest) :
    Invariant (s.setProgram t
      (.relisting kind row (((s.view t).listed kind row.owner).head?.map Listing.id) rest)) := by
  have ht := hs.sessions t
  apply hs.setProgram
  · intro kind'
    have hclaimed := ht.locked.claimed kind'
    rw [hprogram] at hclaimed
    exact hclaimed
  · intro kind' owner
    have hv := ht.versions kind' owner
    rw [hprogram] at hv
    apply hv.goto
    · simp [Flush.pending]
    · rfl
    · intro row' listingId rest' hrow howner
      obtain ⟨rfl, rfl, rfl, rfl⟩ := Flush.relisting.inj hrow
      rw [howner]
  · rw [hprogram]
    rfl
  · simp [Flush.bound]
  · simp [Flush.bound]

/-- The statement that writes the listing. -/
def listingWrite (kind : Kind) (row : Snapshot) (key : Nat) : Option Nat → Write
  | none => .insertListing kind ⟨key, row.owner, row.id⟩
  | some id => .updateListing kind row.owner id row.id

/-- It leaves the owner with one listing, on the row. -/
theorem map_snapshotId_relist {listings : List Listing} {listingId before : Option Nat} (key : Nat)
    (hfound : listingId = listings.head?.map Listing.id)
    (hbefore : listings.map Listing.snapshotId = before.toList)
    (howner : ∀ l ∈ listings, l.owner = row.owner) :
    ((listingWrite kind row key listingId).relist kind row.owner listings).map Listing.snapshotId =
      [row.id] := by
  cases listings with
  | nil =>
      subst hfound
      simp [listingWrite, Write.relist]
  | cons listing others =>
      subst hfound
      obtain rfl : others = [] := by
        cases before with
        | none => simp at hbefore
        | some id => simpa using (List.cons.inj hbefore).2
      simp [listingWrite, Write.relist, Listing.updated,
        howner listing (List.mem_singleton.mpr rfl)]

theorem guarded_listingWrite_iff {key : Nat} {listingId : Option Nat} {kind' : Kind} {owner : Int} :
    (listingWrite kind row key listingId).Guarded kind' owner ↔
      kind = kind' ∧ row.owner = owner := by
  cases listingId <;> rfl

theorem Invariant.relistWith (hs : Invariant s) {listingId : Option Nat} (key : Nat)
    {shared : Sequences} (hprogram : (s.sessions t).program = .relisting kind row listingId rest)
    (hshared : shared.snapshot = s.shared.snapshot) :
    Invariant { (s.write t (listingWrite kind row key listingId)).setProgram t
      (.afterListing kind row rest) with
      shared := shared } := by
  have ht := hs.sessions t
  have hclaimed := ht.locked.claimed kind
  rw [hprogram] at hclaimed
  simp only [Flush.claimed, if_true] at hclaimed
  have hnew (kind' : Kind) (owner : Int) :
      (listingWrite kind row key listingId).newVersion kind' owner = [] := by
    cases listingId <;> rfl
  have hrebind (owner : Int) (requests : List Request) :
      (listingWrite kind row key listingId).rebind owner requests = requests := by
    cases listingId <;> rfl
  apply hs.write
  · intro kind'
    rw [hshared]
  · intro kind' owner hguarded
    obtain ⟨rfl, rfl⟩ := guarded_listingWrite_iff.mp hguarded
    exact hclaimed List.mem_cons_self
  · intro kind' owner howner
    have := Flush.claimed_afterListing kind kind' rest row howner
    split at this
    · exact hclaimed this
    · cases this
  · intro kind' owner
    have hv := ht.versions kind' owner
    rw [hprogram] at hv
    rw [hshared]
    have hversions : ((listingWrite kind row key listingId).apply (s.view t)).versions kind' owner =
        (s.view t).versions kind' owner := by
      rw [Write.versions_apply, hnew, List.append_nil]
    constructor
    · rw [hversions]
      exact hv.numbered
    · rw [Flush.pending_afterListing]
      exact fun entry hentry => absurd hentry List.not_mem_nil
    · rw [hversions, Flush.unlisted_afterListing]
      obtain ⟨done, hdone, hlisted⟩ := hv.listing
      by_cases hsame : kind = kind' ∧ row.owner = owner
      · obtain ⟨rfl, rfl⟩ := hsame
        refine ⟨done ++ [row], ?_, ?_⟩
        · rw [hdone]
          simp [Flush.unlisted]
        · rw [Write.listed_apply, List.getLast?_concat]
          apply map_snapshotId_relist key (hv.found row listingId rest rfl rfl) hlisted
          intro listing hlisting
          simpa using (List.mem_filter.mp hlisting).2
      · refine ⟨done, ?_, ?_⟩
        · rw [hdone, Flush.unlisted]
          by_cases hkind : kind = kind'
          · have howner : row.owner ≠ owner := fun howner => hsame ⟨hkind, howner⟩
            simp [hkind, howner]
          · simp [hkind]
        · have hframe :=
            Write.versionSlicing.frame (listingWrite kind row key listingId) (kind', owner)
            (s.view t) fun hguarded => hsame (guarded_listingWrite_iff.mp hguarded)
          rw [(Prod.mk.inj hframe).2]
          exact hlisted
    · exact fun row listingId rest h => absurd h (Flush.afterListing_ne_relisting _ _ _ _ _)
  · intro owner
    have hr := ht.requests owner
    have hunmoved :
        (Flush.afterListing kind row rest).unmoved = (s.sessions t).program.unmoved := by
      rw [Flush.unmoved_afterListing, hprogram]
      rfl
    have hversions :
        ((listingWrite kind row key listingId).apply (s.view t)).versions .beatmapset owner =
        (s.view t).versions .beatmapset owner := by
      rw [Write.versions_apply, hnew, List.append_nil]
    have hrequests : ((listingWrite kind row key listingId).apply (s.view t)).requestsOf owner =
        (s.view t).requestsOf owner := by
      rw [Write.requestsOf_apply, hrebind]
    apply RequestsSound.congr _ hversions hrequests
    constructor
    · rw [hunmoved]
      exact hr.unmoved
    · exact hr.known
    · rw [hunmoved]
      exact hr.latest
    · rw [Flush.bound_afterListing]
      exact fun entry hentry => absurd hentry List.not_mem_nil
    · rw [hunmoved]
      intro hne
      rw [List.flatMap_append, List.flatMap_singleton, hnew, List.append_nil] at hne
      exact (hr.moved hne).imp_left (moved_concat _ _)
  · rw [Flush.bound_afterListing]
    exact List.nil_subset _
  · intro owner h
    cases listingId <;> cases h
  · intro owner h
    cases listingId <;> cases h

theorem Invariant.relist (hs : Invariant s) {listingId : Option Nat}
    (hprogram : (s.sessions t).program = .relisting kind row listingId rest) :
    Invariant (s.relist t kind row listingId rest) := by
  cases listingId with
  | none => exact hs.relistWith (s.shared.listing kind) hprogram rfl
  | some id => exact hs.relistWith (s.shared.listing kind) hprogram rfl

/-- The `UPDATE` of the requests, while nobody else has a request under way. -/
theorem Invariant.move (hs : Invariant s) (hprogram : (s.sessions t).program = .moving row rest)
    (hquiet : ∀ u, u ≠ t → requesting row.owner (s.sessions u) = false) :
    Invariant ((s.write t (.updateRequests row.owner ((s.view t).outdated row) row.id)).setProgram t
      (.startAfter .beatmapset rest)) := by
  have ht := hs.sessions t
  have hclaimed := ht.locked.claimed .beatmapset
  rw [hprogram] at hclaimed
  simp only [Flush.claimed, if_true] at hclaimed
  apply hs.write s.shared
  · exact fun kind => Nat.le_refl _
  · rintro kind owner ⟨rfl, rfl⟩
    exact hclaimed List.mem_cons_self
  · intro kind
    rw [Flush.claimed_startAfter]
    split
    · exact (List.cons_subset.mp hclaimed).2
    · exact List.nil_subset _
  · intro kind owner
    have hv := ht.versions kind owner
    rw [hprogram] at hv
    refine (hv.goto ?_ ?_ ?_).congr rfl
    · simp
    · exact Flush.unlisted_startAfter .beatmapset kind rest
    · exact fun row listingId rest h => absurd h (Flush.startAfter_ne_relisting _ _ _ _)
  · intro owner
    have hr := ht.requests owner
    have hversions : ((Write.updateRequests row.owner ((s.view t).outdated row) row.id).apply
        (s.view t)).versions .beatmapset owner = (s.view t).versions .beatmapset owner := rfl
    have hold : (s.sessions t).program.unmoved = row :: rest := by
      rw [hprogram]
      rfl
    have hunmoved : (Flush.startAfter .beatmapset rest).unmoved = rest :=
      Flush.unmoved_startAfter _ _
    by_cases howner : row.owner = owner
    · subst howner
      obtain ⟨earlier, hearlier⟩ := hr.unmoved
      rw [hold, List.filter_cons_of_pos (by simp)] at hearlier
      have hrow : row.id ∈ ((s.view t).versions .beatmapset row.owner).map Snapshot.id := by
        rw [← hearlier]
        simp
      have hkept {request : Request} (hrequest : request ∈ ((Write.updateRequests row.owner
          ((s.view t).outdated row) row.id).apply (s.view t)).requestsOf row.owner) :
          request.beatmapsetSnapshotId = row.id ∨
            request ∈ (s.view t).requestsOf row.owner ∧ request.id ∉ (s.view t).outdated row := by
        rw [Write.requestsOf_apply] at hrequest
        obtain ⟨old, hmem, rfl⟩ := List.mem_map.mp hrequest
        unfold Request.updated
        split
        · exact .inl rfl
        · next hnot =>
            right
            have hset : old.beatmapsetId = row.owner := by simpa using (List.mem_filter.mp hmem).2
            exact ⟨hmem, fun hid => hnot ⟨hset, hid⟩⟩
      constructor
      · rw [hunmoved]
        exact ⟨earlier ++ [row], by rw [List.append_assoc]; exact hearlier⟩
      · intro request hrequest
        rw [hversions]
        rcases hkept hrequest with hid | ⟨hmem, -⟩
        · rw [hid]
          exact hrow
        · exact hr.known request hmem
      · rw [hunmoved]
        intro hnone request hrequest
        rw [hnone] at hearlier
        have hlast : (s.view t).lastId .beatmapset row.owner = some row.id := by
          rw [Tables.lastId, ← hearlier, List.getLast?_concat]
          rfl
        refine hlast.trans (congrArg some ?_)
        rcases hkept hrequest with hid | ⟨hmem, hnot⟩
        · exact hid.symm
        · -- A request that is not outdated is on the row already.
          by_contra hne
          obtain ⟨version, hversion, hid⟩ := List.mem_map.mp (hr.known request hmem)
          have hnumbered := (ht.versions .beatmapset row.owner).numbered
          rw [← hearlier] at hnumbered hversion
          obtain ⟨hnumber, hle⟩ := hnumbered.last_number
          have hmem' : version ∈ earlier := by
            rcases List.mem_append.mp hversion with h | h
            · exact h
            · rw [List.mem_singleton.mp h] at hid
              exact absurd hid hne
          apply hnot
          refine List.mem_map.mpr ⟨request, List.mem_filter.mpr ⟨hmem, ?_⟩, rfl⟩
          rw [decide_eq_true_eq]
          refine List.mem_map.mpr ⟨version, List.mem_filter.mpr ⟨?_, ?_⟩, hid⟩
          · rw [← hearlier]
            exact List.mem_append_left _ hmem'
          · have := hle version hmem'
            rw [decide_eq_true_eq]
            omega
      · simp
      · intro _
        left
        simp [moved, Write.moves]
    · have hrequests : ((Write.updateRequests row.owner ((s.view t).outdated row) row.id).apply
          (s.view t)).requestsOf owner = (s.view t).requestsOf owner := by
        rw [Write.requestsOf_apply]
        exact Write.map_updated_requestsOf owner (s.view t) _ _ howner
      have hfilter :
          rest.filter (·.owner = owner) =
            (s.sessions t).program.unmoved.filter (·.owner = owner) := by
        rw [hold, List.filter_cons_of_neg (by simpa using howner)]
      apply RequestsSound.congr _ hversions hrequests
      constructor
      · rw [hunmoved, hfilter]
        exact hr.unmoved
      · exact hr.known
      · rw [hunmoved, hfilter]
        exact hr.latest
      · simp
      · rw [hunmoved, hfilter]
        intro hne
        rw [List.flatMap_append, List.flatMap_singleton] at hne
        exact (hr.moved (by simpa [Write.newVersion] using hne)).imp_left (moved_concat _ _)
  · simp
  · intro owner h
    cases h
  · intro owner h u hu
    obtain rfl : row.owner = owner := by simpa [Write.moves] using h
    exact hquiet u hu

end Snapshots

section Requests

variable {bound entries : List (Int × Nat)} {beatmapsetId : Int} {snapshotId : Nat}
  {owners : List Int}

/-- The `SELECT` of the snapshot, while nobody else has moved requests. -/
theorem Invariant.bind (hs : Invariant s)
    (hprogram : (s.sessions t).program = .binding bound beatmapsetId owners)
    (hfound : (s.view t).latestId beatmapsetId = some snapshotId)
    (hquiet : ∀ u, u ≠ t → moved beatmapsetId (s.sessions u) = false) :
    Invariant (s.setProgram t (.startBinding (bound ++ [(beatmapsetId, snapshotId)]) owners)) := by
  have ht := hs.sessions t
  have hlists (kind : Kind) :=
    Flush.lists_startBinding kind (bound ++ [(beatmapsetId, snapshotId)]) owners
  apply hs.setProgram
  · intro kind
    rw [(hlists kind).2.2.2]
    exact List.nil_subset _
  · intro kind owner
    have hv := ht.versions kind owner
    rw [hprogram] at hv
    apply hv.goto
    · simp [(hlists kind).1]
    · exact (hlists kind).2.1
    · exact fun row listingId rest h => absurd h (Flush.startBinding_ne_relisting _ _ _ _ _)
  · rw [(hlists .beatmap).2.2.1, hprogram]
    rfl
  · intro entry hentry
    rw [Flush.bound_startBinding] at hentry
    rcases List.mem_append.mp hentry with hmem | hmem
    · exact (ht.requests entry.1).bound entry (by simpa [hprogram, Flush.bound] using hmem) rfl
    · obtain rfl := List.mem_singleton.mp hmem
      exact (ht.versions .beatmapset beatmapsetId).numbered.max_id.symm.trans hfound
  · intro entry hentry
    rw [Flush.bound_startBinding] at hentry
    rcases List.mem_append.mp hentry with hmem | hmem
    · left
      simpa [hprogram, Flush.bound] using hmem
    · obtain rfl := List.mem_singleton.mp hmem
      exact .inr hquiet

/-- The `INSERT` of a request. -/
theorem Invariant.insertRequest (hs : Invariant s)
    (hprogram : (s.sessions t).program = .requesting beatmapsetId snapshotId entries) :
    Invariant (s.insertRequest t beatmapsetId snapshotId entries) := by
  have ht := hs.sessions t
  have hlists (kind : Kind) := Flush.lists_startRequests kind entries
  have hbound : (beatmapsetId, snapshotId) ∈ (s.sessions t).program.bound := by
    simp [hprogram, Flush.bound]
  apply hs.write
  · exact fun kind => Nat.le_refl _
  · exact fun kind owner hguarded => absurd hguarded id
  · intro kind
    rw [(hlists kind).2.2.2]
    exact List.nil_subset _
  · intro kind owner
    have hv := ht.versions kind owner
    rw [hprogram] at hv
    refine (hv.goto ?_ ?_ ?_).congr rfl
    · simp [(hlists kind).1]
    · exact (hlists kind).2.1
    · exact fun row listingId rest h => absurd h (Flush.startRequests_ne_relisting _ _ _ _)
  · intro owner
    have hr := ht.requests owner
    have hnone : (s.sessions t).program.unmoved = [] := by
      rw [hprogram]
      rfl
    have hmem {request : Request} (h : request ∈ ((Write.insertRequest
        ⟨s.shared.request, beatmapsetId, snapshotId⟩).apply (s.view t)).requestsOf owner) :
        (s.view t).lastId .beatmapset owner = some request.beatmapsetSnapshotId := by
      rw [Write.requestsOf_apply] at h
      rcases List.mem_append.mp h with hold | hnew
      · exact hr.latest (by rw [hnone]; rfl) request hold
      · split at hnew
        · next howner =>
            obtain rfl := List.mem_singleton.mp hnew
            exact hr.bound _ hbound howner
        · cases hnew
    constructor
    · rw [(hlists .beatmap).2.2.1]
      exact List.nil_suffix
    · intro request hrequest
      obtain ⟨row, hrow, hid⟩ := Option.map_eq_some_iff.mp (hmem hrequest)
      rw [← hid]
      exact List.mem_map_of_mem (List.mem_of_getLast? hrow)
    · exact fun _ request hrequest => hmem hrequest
    · intro entry hentry howner
      rw [Flush.bound_startRequests] at hentry
      exact hr.bound entry (by simp [hprogram, Flush.bound, hentry]) howner
    · rw [(hlists .beatmap).2.2.1, List.filter_nil]
      intro hne
      rw [List.flatMap_append, List.flatMap_singleton] at hne
      have hmoved := hr.moved (by simpa [Write.newVersion] using hne)
      rw [hnone] at hmoved
      exact hmoved.imp_left (moved_concat _ _)
  · intro entry hentry
    rw [Flush.bound_startRequests] at hentry
    simp [hprogram, Flush.bound, hentry]
  · intro owner h
    obtain rfl : beatmapsetId = owner := by simpa [Write.requests] using h
    simp only [requesting, Bool.or_eq_true]
    exact .inl (List.any_eq_true.mpr ⟨_, hbound, by simp⟩)
  · intro owner h
    cases h

end Requests

end Statements

/-- A request selects its snapshot while another transaction has moved the
requests of the beatmapset, or the requests are moved while another transaction
has a request with its snapshot. -/
def overlaps {n : Nat} : Label n → System n → Bool
  | .advance t, s =>
      match (s.sessions t).program with
      | .binding _ beatmapsetId _ => decide (∃ u, u ≠ t ∧ moved beatmapsetId (s.sessions u) = true)
      | .moving row _ => decide (∃ u, u ≠ t ∧ requesting row.owner (s.sessions u) = true)
      | _ => false
  | _, _ => false

section Runs

variable {n : Nat} {s s' : System n} {label : Label n}

theorem Invariant.advance {t : Fin n} (hs : Invariant s) (hquiet : overlaps (.advance t) s = false)
    (hstep : s.advance t = some s') : Invariant s' := by
  unfold System.advance at hstep
  unfold overlaps at hquiet
  cases hprogram : (s.sessions t).program with
  | idle => simp [hprogram] at hstep
  | failed => simp [hprogram] at hstep
  | locking kind numbered target rest =>
      simp only [hprogram] at hstep
      obtain ⟨hfree, hstep⟩ := Option.ite_none_left_eq_some.mp hstep
      obtain rfl := Option.some.inj hstep
      exact hs.lock hprogram hfree
  | numbering kind numbered target rest =>
      simp only [hprogram] at hstep
      obtain rfl := Option.some.inj hstep
      exact hs.number hprogram
  | inserting kind inserted target number rest =>
      simp only [hprogram] at hstep
      obtain ⟨-, hstep⟩ := Option.ite_none_left_eq_some.mp hstep
      split at hstep
      · obtain rfl := Option.some.inj hstep
        exact hs.fail
      · next hfree =>
          obtain rfl := Option.some.inj hstep
          exact hs.insert hprogram rfl rfl rfl (by simpa using hfree)
  | selecting kind row rest =>
      simp only [hprogram] at hstep
      obtain rfl := Option.some.inj hstep
      exact hs.select hprogram
  | relisting kind row listingId rest =>
      simp only [hprogram] at hstep
      obtain rfl := Option.some.inj hstep
      exact hs.relist hprogram
  | moving row rest =>
      simp only [hprogram] at hstep hquiet
      obtain rfl := Option.some.inj hstep
      apply hs.move hprogram
      intro u hu
      by_contra hrequesting
      exact (of_decide_eq_false hquiet) ⟨u, hu, by simpa using hrequesting⟩
  | binding bound beatmapsetId rest =>
      simp only [hprogram] at hstep hquiet
      split at hstep
      · obtain rfl := Option.some.inj hstep
        exact hs.fail
      · next snapshotId hfound =>
          obtain rfl := Option.some.inj hstep
          apply hs.bind hprogram hfound
          intro u hu
          by_contra hmoved
          exact (of_decide_eq_false hquiet) ⟨u, hu, by simpa using hmoved⟩
  | requesting beatmapsetId snapshotId rest =>
      simp only [hprogram] at hstep
      obtain rfl := Option.some.inj hstep
      exact hs.insertRequest hprogram

theorem Invariant.step (hs : Invariant s) (hquiet : overlaps label s = false)
    (hstep : System.step label s = some s') : Invariant s' := by
  cases label with
  | flush t kind targets =>
      obtain ⟨hidle, hstep⟩ := Option.ite_none_right_eq_some.mp hstep
      obtain rfl := Option.some.inj hstep
      exact hs.flush hidle kind targets
  | flushRequests t owners =>
      obtain ⟨hidle, hstep⟩ := Option.ite_none_right_eq_some.mp hstep
      obtain rfl := Option.some.inj hstep
      exact hs.flushRequests hidle owners
  | advance t => exact hs.advance hquiet hstep
  | commit t =>
      obtain ⟨hidle, hstep⟩ := Option.ite_none_right_eq_some.mp hstep
      obtain rfl := Option.some.inj hstep
      exact hs.commit hidle
  | rollback t =>
      obtain rfl := Option.some.inj hstep
      exact hs.rollback

theorem Invariant.initial (n : Nat) : Invariant (System.initial n) := by
  have hsound : Sound (System.initial n).shared .empty closed := by
    constructor
    · exact ⟨fun _ => List.nil_subset _, fun x hx => absurd hx List.not_mem_nil⟩
    · intro kind owner
      exact ⟨Numbered.nil _, fun entry hentry => absurd hentry List.not_mem_nil, ⟨[], rfl, rfl⟩,
        fun row listingId rest h => by cases h⟩
    · intro owner
      exact ⟨List.nil_suffix, fun request h => absurd h List.not_mem_nil,
        fun _ request h => absurd h List.not_mem_nil, fun entry h => absurd h List.not_mem_nil,
        fun h => absurd rfl h⟩
  constructor
  · intro t u k hk
    cases hk
  · exact hsound
  · exact fun t => hsound
  · intro t u owner _ h
    cases h

theorem Tables.consistent_of_sound {next : Sequences} {db : Tables} (h : Sound next db closed) :
    db.Consistent := by
  constructor
  · intro kind owner
    rw [(h.versions kind owner).numbered.numbers]
  · intro kind owner
    obtain ⟨done, hdone, hlisted⟩ := (h.versions kind owner).listing
    obtain rfl : db.versions kind owner = done := by simpa [closed, Flush.unlisted] using hdone
    rw [hlisted, Tables.current, (h.versions kind owner).numbered.filter_number]
    cases (db.versions kind owner).getLast? <;> rfl
  · intro request hrequest
    have hmem : request ∈ db.requestsOf request.beatmapsetId :=
      List.mem_filter.mpr ⟨hrequest, by simp⟩
    obtain ⟨row, hrow, hid⟩ := Option.map_eq_some_iff.mp
      ((h.requests request.beatmapsetId).latest rfl request hmem)
    rw [Tables.current, (h.versions .beatmapset request.beatmapsetId).numbered.filter_number, hrow,
      ← hid]
    rfl

/-- Over any interleaving in which no request overlaps with the moving of the
requests, every committed state is consistent. -/
theorem System.consistent_of_run {labels : List (Label n)}
    (hquiet : Runs.Meets System.step (fun label s => overlaps label s = false) labels
      (System.initial n))
    (hrun : Runs.run System.step labels (System.initial n) = some s) : s.committed.Consistent :=
  Tables.consistent_of_sound (Runs.invariant_of_run Invariant
    (fun _ _ _ hs hquiet hstep => hs.step hquiet hstep) (Invariant.initial n) hquiet hrun).committed

/-- A session inserts a snapshot of beatmapset 1 and commits. -/
def snapshotted (n : Nat) (t : Fin n) (checksum : String) : List (Label n) :=
  .flush t .beatmapset [⟨1, checksum⟩] :: List.replicate 6 (.advance t) ++ [.commit t]

/-- The numbers of the two sessions of these runs are literals of `Fin 2`. -/
local instance twoSessions : NeZero 2 := ⟨two_ne_zero⟩

/-- Two snapshots in a row, and then a request. -/
def serial : List (Label 2) :=
  snapshotted 2 0 "a" ++ snapshotted 2 1 "b" ++
    [.flushRequests 1 [1], .advance 1, .advance 1, .commit 1]

theorem System.consistent_of_run_serial :
    ∃ s, Runs.run System.step serial (System.initial 2) = some s ∧ s.committed.Consistent := by
  have hsome : (Runs.run System.step serial (System.initial 2)).isSome = true := by decide +kernel
  obtain ⟨s, hs⟩ := Option.isSome_iff_exists.mp hsome
  exact ⟨s, hs, System.consistent_of_run (by decide +kernel) hs⟩

/-- A request has read snapshot 1; snapshot 2 is inserted and committed before
the request is. -/
def overlapping : List (Label 2) :=
  snapshotted 2 0 "a" ++ [.flushRequests 1 [1], .advance 1] ++ snapshotted 2 0 "b" ++
    [.advance 1, .commit 1]

theorem System.not_consistent_of_run :
    ¬ ∀ (n : Nat) (labels : List (Label n)) (s : System n),
      Runs.run System.step labels (System.initial n) = some s → s.committed.Consistent := by
  intro h
  have hend : (Runs.run System.step overlapping (System.initial 2)).map (fun s =>
      s.committed.requests.map fun request =>
        ((s.committed.current .beatmapset request.beatmapsetId).map Snapshot.id,
          request.beatmapsetSnapshotId)) = some [([2], 1)] := by
    decide +kernel
  obtain ⟨s, hrun, hpairs⟩ := Option.map_eq_some_iff.mp hend
  obtain ⟨request, hrequest, hpair⟩ := List.mem_map.mp (hpairs ▸ List.mem_singleton.mpr rfl)
  obtain ⟨hcurrent, hbound⟩ := Prod.mk.inj hpair
  have hconsistent := (h 2 overlapping s hrun).requests request hrequest
  rw [hcurrent, hbound] at hconsistent
  exact absurd hconsistent (by decide)

end Runs

end Graveboards.Archive
