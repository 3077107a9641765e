import Graveboards.Library.Runs
import Graveboards.Library.Transaction

/-!
Transactions that insert beatmap snapshots, beatmapset snapshots and requests
through the ORM, one SQL statement at a step. A flush saves objects of one
class: the `before_insert` hooks of all of them, then the `INSERT`s, then the
`after_insert` hooks. No caller supplies `snapshot_number`, so the hooks never
return early.
-/

namespace Graveboards.Archive

open Library Library.Transaction

/-- `BeatmapSnapshot` with `BeatmapListing`, `BeatmapsetSnapshot` with
`BeatmapsetListing`: two pairs of tables with the same hooks. -/
inductive Kind where
  | beatmap
  | beatmapset
  deriving DecidableEq

/-- `owner`: `beatmap_id`, respectively `beatmapset_id`. -/
structure Snapshot where
  id : Nat
  owner : Int
  snapshotNumber : Nat
  checksum : String
  deriving DecidableEq

structure Listing where
  id : Nat
  owner : Int
  snapshotId : Nat
  deriving DecidableEq

structure Request where
  id : Nat
  beatmapsetId : Int
  beatmapsetSnapshotId : Nat
  deriving DecidableEq

structure Tables where
  snapshots : Kind → List Snapshot
  listings : Kind → List Listing
  requests : List Request

namespace Tables

variable (kind : Kind) (owner : Int) (db : Tables)

def empty : Tables := ⟨fun _ => [], fun _ => [], []⟩

/-- The snapshots of one beatmap or beatmapset, in the order of insertion. -/
def versions : List Snapshot := (db.snapshots kind).filter (·.owner = owner)

def listed : List Listing := (db.listings kind).filter (·.owner = owner)

def requestsOf : List Request := db.requests.filter (·.beatmapsetId = owner)

/-- `(select max(snapshot_number) or 0) + 1` -/
def nextNumber : Nat := (((db.versions kind owner).map Snapshot.snapshotNumber).max?).getD 0 + 1

/-- `select max(BeatmapsetSnapshot.id)` -/
def latestId : Option Nat := ((db.versions .beatmapset owner).map Snapshot.id).max?

/-- `UniqueConstraint(owner, snapshot_number)` and `checksum` `unique=True`. -/
def conflicts (row : Snapshot) (rows : List Snapshot) : Bool :=
  rows.any fun other =>
    (other.owner = row.owner && other.snapshotNumber = row.snapshotNumber) ||
      other.checksum = row.checksum

/-- The requests that the `UPDATE` of the `after_insert` hook finds. -/
def outdated (row : Snapshot) : List Nat :=
  let older :=
    ((db.versions .beatmapset row.owner).filter (·.snapshotNumber < row.snapshotNumber)).map
    Snapshot.id
  ((db.requestsOf row.owner).filter (·.beatmapsetSnapshotId ∈ older)).map Request.id

end Tables

/-- What a statement changes. An `UPDATE` names the rows that it has found by
their primary keys, with the column that it selected them by. -/
inductive Write where
  | insertSnapshot (kind : Kind) (row : Snapshot)
  | insertListing (kind : Kind) (row : Listing)
  | updateListing (kind : Kind) (owner : Int) (id snapshotId : Nat)
  | insertRequest (row : Request)
  | updateRequests (owner : Int) (ids : List Nat) (snapshotId : Nat)

def Listing.updated (owner : Int) (id snapshotId : Nat) (row : Listing) : Listing :=
  if row.owner = owner ∧ row.id = id then { row with snapshotId := snapshotId } else row

def Request.updated (owner : Int) (ids : List Nat) (snapshotId : Nat) (row : Request) : Request :=
  if row.beatmapsetId = owner ∧ row.id ∈ ids then
    { row with beatmapsetSnapshotId := snapshotId } else row

def Write.apply : Write → Tables → Tables
  | .insertSnapshot kind row, db =>
      { db with snapshots := Function.update db.snapshots kind (db.snapshots kind ++ [row]) }
  | .insertListing kind row, db =>
      { db with listings := Function.update db.listings kind (db.listings kind ++ [row]) }
  | .updateListing kind owner id snapshotId, db =>
      { db with
        listings := Function.update db.listings kind
            ((db.listings kind).map (.updated owner id snapshotId)) }
  | .insertRequest row, db => { db with requests := db.requests ++ [row] }
  | .updateRequests owner ids snapshotId, db =>
      { db with requests := db.requests.map (.updated owner ids snapshotId) }

/-- The next primary keys: a sequence is not rolled back. -/
structure Sequences where
  snapshot : Kind → Nat
  listing : Kind → Nat
  request : Nat

/-- An object to be inserted, as the caller built it. -/
structure Target where
  owner : Int
  checksum : String
  deriving DecidableEq

/-- The statement that a session runs next. `before_insert` of a snapshot:
`locking`, `numbering`. `after_insert`: `selecting` its listing, `relisting`,
`moving` the requests. `before_insert` of a request: `binding`. After an
exception only a rollback is possible. -/
inductive Flush where
  | idle
  | locking (kind : Kind) (numbered : List (Target × Nat)) (target : Target) (rest : List Target)
  | numbering (kind : Kind) (numbered : List (Target × Nat)) (target : Target) (rest : List Target)
  | inserting (kind : Kind) (inserted : List Snapshot) (target : Target) (number : Nat)
      (rest : List (Target × Nat))
  | selecting (kind : Kind) (row : Snapshot) (rest : List Snapshot)
  | relisting (kind : Kind) (row : Snapshot) (listingId : Option Nat) (rest : List Snapshot)
  | moving (row : Snapshot) (rest : List Snapshot)
  | binding (bound : List (Int × Nat)) (beatmapsetId : Int) (rest : List Int)
  | requesting (beatmapsetId : Int) (snapshotId : Nat) (rest : List (Int × Nat))
  | failed
  deriving DecidableEq

namespace Flush

/-- The `after_insert` hooks that are left. -/
def startAfter (kind : Kind) : List Snapshot → Flush
  | [] => .idle
  | row :: rest => .selecting kind row rest

/-- What follows the listing: only the hook of a beatmapset moves requests. -/
def afterListing : Kind → Snapshot → List Snapshot → Flush
  | .beatmap, _, rest => startAfter .beatmap rest
  | .beatmapset, row, rest => .moving row rest

/-- The `INSERT`s that are left. -/
def startInsert (kind : Kind) (inserted : List Snapshot) : List (Target × Nat) → Flush
  | [] => startAfter kind inserted
  | (target, number) :: rest => .inserting kind inserted target number rest

/-- The `before_insert` hooks that are left. -/
def startBefore (kind : Kind) (numbered : List (Target × Nat)) : List Target → Flush
  | [] => startInsert kind [] numbered
  | target :: rest => .locking kind numbered target rest

def startRequests : List (Int × Nat) → Flush
  | [] => .idle
  | (beatmapsetId, snapshotId) :: rest => .requesting beatmapsetId snapshotId rest

def startBinding (bound : List (Int × Nat)) : List Int → Flush
  | [] => startRequests bound
  | beatmapsetId :: rest => .binding bound beatmapsetId rest

end Flush

abbrev System (n : Nat) := World n Sequences Tables Write Int Flush

inductive Label (n : Nat) where
  | flush (t : Fin n) (kind : Kind) (targets : List Target)
  | flushRequests (t : Fin n) (beatmapsetIds : List Int)
  | advance (t : Fin n)
  | commit (t : Fin n)
  | rollback (t : Fin n)

namespace System

variable {n : Nat}

def initial (n : Nat) : System n := ⟨⟨fun _ => 1, fun _ => 1, 1⟩, .empty, fun _ => ⟨[], [], .idle⟩⟩

def view (s : System n) (t : Fin n) : Tables := World.view Write.apply s t

/-- An exception: what the transaction has written is lost, its keys stay locked
until the rollback. -/
def fail (t : Fin n) (s : System n) : System n :=
  s.setSession t { s.sessions t with writes := [], program := .failed }

/-- The snapshots that other sessions have inserted and not committed. -/
def insertedBy (session : Session Write Int Flush) (kind : Kind) : List Snapshot :=
  session.writes.filterMap fun
    | .insertSnapshot kind' row => if kind' = kind then some row else none
    | _ => none

/-- The `INSERT` waits for another transaction to end. -/
def waitsForRow (s : System n) (t : Fin n) (kind : Kind) (row : Snapshot) : Prop :=
  ∃ u, u ≠ t ∧ Tables.conflicts row (insertedBy (s.sessions u) kind) = true

instance (s : System n) (t : Fin n) (kind : Kind) (row : Snapshot) :
    Decidable (s.waitsForRow t kind row) :=
  inferInstanceAs
    (Decidable (∃ u, u ≠ t ∧ Tables.conflicts row (insertedBy (s.sessions u) kind) = true))

/-- `INSERT INTO` the snapshots, with the next primary key. -/
def insertSnapshot (t : Fin n) (kind : Kind) (inserted : List Snapshot)
    (target : Target) (number : Nat) (rest : List (Target × Nat)) (s : System n) :
    Option (System n) :=
  let row := ⟨s.shared.snapshot kind, target.owner, number, target.checksum⟩
  if s.waitsForRow t kind row then none
  else if Tables.conflicts row ((s.view t).snapshots kind) then some (s.fail t)
  else
    let s := (s.write t (.insertSnapshot kind row)).setProgram t
      (.startInsert kind (inserted ++ [row]) rest)
    some { s with
      shared := { s.shared with
        snapshot := Function.update s.shared.snapshot kind (s.shared.snapshot kind + 1) } }

/-- Inserts the listing, or moves the one that was found. -/
def relist (t : Fin n) (kind : Kind) (row : Snapshot) (listingId : Option Nat)
    (rest : List Snapshot) (s : System n) : System n :=
  match listingId with
  | none =>
      let s :=
        (s.write t (.insertListing kind ⟨s.shared.listing kind, row.owner, row.id⟩)).setProgram t
        (.afterListing kind row rest)
      { s with
        shared := { s.shared with
          listing := Function.update s.shared.listing kind (s.shared.listing kind + 1) } }
  | some id =>
      (s.write t (.updateListing kind row.owner id row.id)).setProgram t
        (.afterListing kind row rest)

/-- `INSERT INTO requests` -/
def insertRequest (t : Fin n) (beatmapsetId : Int) (snapshotId : Nat) (rest : List (Int × Nat))
    (s : System n) : System n :=
  let s := (s.write t (.insertRequest ⟨s.shared.request, beatmapsetId, snapshotId⟩)).setProgram t
    (.startRequests rest)
  { s with shared := { s.shared with request := s.shared.request + 1 } }

/-- The next statement of the session, unless it has to wait. -/
def advance (t : Fin n) (s : System n) : Option (System n) :=
  match (s.sessions t).program with
  | .idle | .failed => none
  | .locking kind numbered target rest =>
      -- pg_advisory_xact_lock
      if s.heldElsewhere t target.owner then none
      else some ((s.hold t target.owner).setProgram t (.numbering kind numbered target rest))
  | .numbering kind numbered target rest =>
      some (s.setProgram t
        (.startBefore kind (numbered ++ [(target, (s.view t).nextNumber kind target.owner)]) rest))
  | .inserting kind inserted target number rest =>
      s.insertSnapshot t kind inserted target number rest
  | .selecting kind row rest =>
      some (s.setProgram t
        (.relisting kind row (((s.view t).listed kind row.owner).head?.map Listing.id) rest))
  | .relisting kind row listingId rest => some (s.relist t kind row listingId rest)
  | .moving row rest =>
      some ((s.write t (.updateRequests row.owner ((s.view t).outdated row) row.id)).setProgram t
        (.startAfter .beatmapset rest))
  | .binding bound beatmapsetId rest =>
      match (s.view t).latestId beatmapsetId with
      | none => some (s.fail t)
      | some snapshotId =>
          some (s.setProgram t (.startBinding (bound ++ [(beatmapsetId, snapshotId)]) rest))
  | .requesting beatmapsetId snapshotId rest =>
      some (s.insertRequest t beatmapsetId snapshotId rest)

def step : Label n → System n → Option (System n)
  | .flush t kind targets, s =>
      if (s.sessions t).program = .idle then
        some (s.setProgram t (.startBefore kind [] targets)) else none
  | .flushRequests t beatmapsetIds, s =>
      if (s.sessions t).program = .idle then
        some (s.setProgram t (.startBinding [] beatmapsetIds)) else none
  | .advance t, s => s.advance t
  | .commit t, s =>
      if (s.sessions t).program = .idle then some (World.commit Write.apply t .idle s) else none
  | .rollback t, s => some (World.rollback t .idle s)

end System

end Graveboards.Archive
