import Graveboards.Archive.Sessions
import Graveboards.Daemon.Preload
import Graveboards.Library.Json
import Graveboards.Library.Numeral

/-!
`BeatmapManager.archive`, one call after the other. A call is one transaction:
it keeps the tables as it sees them and the snapshots that it writes. All users
have a profile on osu!, and rows of users, beatmapsets, beatmaps and named tags
are there when they are needed.
-/

namespace Graveboards.Archive.Manager

open Library

/-! What the osu! API returns. -/

/-- The columns among `BeatmapOsuApiSchema.UPDATABLE_FIELDS`. -/
inductive BeatmapColumn where
  | failtimes
  | isScoreable
  | lastUpdated
  | passcount
  | playcount
  | ranked
  | status
  | userId
  deriving DecidableEq

namespace BeatmapColumn

def all : List BeatmapColumn :=
  [.failtimes, .isScoreable, .lastUpdated, .passcount, .playcount, .ranked, .status, .userId]

theorem mem_all (c : BeatmapColumn) : c ∈ all := by cases c <;> decide

/-- The values of `model_dump`. -/
def Value : BeatmapColumn → Type
  | .userId => Int
  | _ => Json

instance : (c : BeatmapColumn) → DecidableEq c.Value
  | .userId => inferInstanceAs (DecidableEq Int)
  | .failtimes | .isScoreable | .lastUpdated | .passcount | .playcount | .ranked | .status =>
      inferInstanceAs (DecidableEq Json)

end BeatmapColumn

/-- `BeatmapsetOsuApiSchema.UPDATABLE_FIELDS` -/
inductive BeatmapsetColumn where
  | availability
  | canBeHyped
  | currentNominations
  | description
  | discussionEnabled
  | discussionLocked
  | favouriteCount
  | genre
  | hype
  | isScoreable
  | language
  | lastUpdated
  | nominationsSummary
  | nsfw
  | offset
  | packTags
  | playCount
  | ranked
  | ratings
  | spotlight
  | status
  | trackId
  deriving DecidableEq

namespace BeatmapsetColumn

def all : List BeatmapsetColumn :=
  [.availability, .canBeHyped, .currentNominations, .description, .discussionEnabled,
    .discussionLocked, .favouriteCount, .genre, .hype, .isScoreable, .language, .lastUpdated,
    .nominationsSummary, .nsfw,
    .offset, .packTags, .playCount, .ranked, .ratings, .spotlight, .status, .trackId]

theorem mem_all (c : BeatmapsetColumn) : c ∈ all := by cases c <;> decide

end BeatmapsetColumn

structure Owner where
  id : Int
  username : String
  deriving DecidableEq

/-- `beatmap_dict`; of `top_tag_ids`, only the tag ids. -/
structure BeatmapDict where
  id : Int
  beatmapsetId : Int
  checksum : String
  columns : (c : BeatmapColumn) → c.Value
  owners : List Owner
  topTagIds : List Nat

/-- `beatmap_dict["user_id"]` -/
def BeatmapDict.userId (b : BeatmapDict) : Int := b.columns .userId

/-- `beatmapset_dict`, with the beatmaps of this beatmapset and each of them once. -/
structure BeatmapsetDict where
  id : Int
  userId : Int
  tags : String
  columns : BeatmapsetColumn → Json
  beatmaps : List BeatmapDict
  beatmapset_ids : ∀ b ∈ beatmaps, b.beatmapsetId = id
  beatmap_ids : (beatmaps.map BeatmapDict.id).Nodup

def BeatmapsetDict.checksums (p : BeatmapsetDict) : List String :=
  p.beatmaps.map BeatmapDict.checksum

/-- `get_beatmapset`, `get_user` and `get_tags` during a call. -/
structure OsuApi where
  beatmapset : BeatmapsetDict
  username : Int → String
  tags : List Nat

/-! The tables. A relationship holds the related rows, in the order in which they were read or
assigned; only the snapshots of a beatmapset are joined with their beatmap snapshots by id. -/

structure Profile where
  id : Nat
  userId : Int
  username : String
  deriving DecidableEq

/-- The entry of `owners` that `from_snapshot` builds. -/
def Profile.owner (profile : Profile) : Owner := ⟨profile.userId, profile.username⟩

/-- `owner` is the beatmap. -/
structure BeatmapSnapshot extends Snapshot where
  beatmapsetId : Int
  columns : (c : BeatmapColumn) → c.Value
  beatmapTags : List Nat
  ownerProfiles : List Profile

/-- `owner` is the beatmapset. -/
structure BeatmapsetSnapshot extends Snapshot where
  userId : Int
  columns : BeatmapsetColumn → Json
  beatmapSnapshots : List Nat
  beatmapsetTags : List (List Char)

structure Database where
  beatmapSnapshots : List BeatmapSnapshot
  beatmapsetSnapshots : List BeatmapsetSnapshot
  listings : Kind → List Listing
  requests : List Request
  profiles : List Profile
  beatmapTags : List Nat
  sequences : Sequences
  nextProfile : Nat

namespace Database

variable (db : Database)

def empty : Database := ⟨[], [], fun _ => [], [], [], [], ⟨fun _ => 1, fun _ => 1, 1⟩, 1⟩

/-- The rows that the hooks read. -/
def tables : Tables where
  snapshots
    | .beatmap => db.beatmapSnapshots.map BeatmapSnapshot.toSnapshot
    | .beatmapset => db.beatmapsetSnapshots.map BeatmapsetSnapshot.toSnapshot
  listings := db.listings
  requests := db.requests

/-- `get(BeatmapSnapshot, checksum=checksum)` -/
def beatmapSnapshot? (checksum : String) : Option BeatmapSnapshot :=
  db.beatmapSnapshots.find? (·.checksum = checksum)

/-- `get(BeatmapsetSnapshot, checksum=checksum)` -/
def beatmapsetSnapshot? (checksum : String) : Option BeatmapsetSnapshot :=
  db.beatmapsetSnapshots.find? (·.checksum = checksum)

/-- The `after_insert` hooks: the listing of the owner points to the new row. -/
def relist (kind : Kind) (row : Snapshot) : Database :=
  match (db.listings kind).find? (·.owner = row.owner) with
  | none =>
      { db with
        listings := Function.update db.listings kind
          (db.listings kind ++ [⟨db.sequences.listing kind, row.owner, row.id⟩])
        sequences := { db.sequences with
          listing := Function.update db.sequences.listing kind (db.sequences.listing kind + 1) } }
  | some listing =>
      { db with
        listings := Function.update db.listings kind
          ((db.listings kind).map (.updated row.owner listing.id row.id)) }

/-- `beatmapset_snapshot_after_insert`: the requests of older snapshots follow. -/
def moveRequests (row : Snapshot) : Database :=
  { db with requests := db.requests.map (.updated row.owner (db.tables.outdated row) row.id) }

def takeSnapshotId (kind : Kind) : Database :=
  { db with
    sequences := { db.sequences with
      snapshot := Function.update db.sequences.snapshot kind (db.sequences.snapshot kind + 1) } }

end Database

/-- Rows in the order of their primary keys. -/
def byKey {α : Type} (primaryKey : α → Nat) (rows : List α) : List α :=
  rows.insertionSort fun a b => primaryKey a ≤ primaryKey b

def sortedTags (tags : List Nat) : List Nat := byKey id tags

def sortedOwners (owners : List Profile) : List Profile := byKey Profile.id owners

/-- The order in which a transaction reads the tags and owners of a beatmap snapshot. Their
association rows have no position and are read without `ORDER BY`: those that are there come in
any order, here one of the rows sorted by primary key. -/
structure ReadOrder where
  tags : String → List Nat → List Nat
  owners : String → List Profile → List Profile
  tags_perm : ∀ checksum rows, (tags checksum rows).Perm rows
  owners_perm : ∀ checksum rows, (owners checksum rows).Perm rows

namespace ReadOrder

def ascending : ReadOrder :=
  ⟨fun _ rows => rows, fun _ rows => rows, fun _ => .refl, fun _ => .refl⟩

def descending : ReadOrder :=
  ⟨fun _ rows => rows.reverse, fun _ rows => rows.reverse, fun _ => List.reverse_perm,
    fun _ => List.reverse_perm⟩

variable (order : ReadOrder)

def row (row : BeatmapSnapshot) : BeatmapSnapshot :=
  { row with
    beatmapTags := order.tags row.checksum (sortedTags row.beatmapTags)
    ownerProfiles := order.owners row.checksum (sortedOwners row.ownerProfiles) }

end ReadOrder

/-- The database as a transaction reads it. -/
def Database.read (order : ReadOrder) (db : Database) : Database :=
  { db with beatmapSnapshots := db.beatmapSnapshots.map order.row }

/-- A snapshot that `archive` writes, with the hooks of its class. -/
inductive Write where
  | insertBeatmapSnapshot (row : BeatmapSnapshot)
  | updateBeatmapSnapshot (old new : BeatmapSnapshot)
  | insertBeatmapsetSnapshot (row : BeatmapsetSnapshot) (beatmapSnapshots : List BeatmapSnapshot)
  | updateBeatmapsetSnapshot (old new : BeatmapsetSnapshot)

def Write.apply : Write → Database → Database
  | .insertBeatmapSnapshot row, db =>
      { db.takeSnapshotId .beatmap with
        beatmapSnapshots := db.beatmapSnapshots ++ [row] }.relist .beatmap row.toSnapshot
  | .updateBeatmapSnapshot old new, db =>
      { db with
        beatmapSnapshots :=
            db.beatmapSnapshots.map fun row => if row.id = old.id then new else row }
  | .insertBeatmapsetSnapshot row _, db =>
      ({ db.takeSnapshotId .beatmapset with
        beatmapsetSnapshots := db.beatmapsetSnapshots ++ [row] }.relist .beatmapset
          row.toSnapshot).moveRequests row.toSnapshot
  | .updateBeatmapsetSnapshot old new, db =>
      { db with
        beatmapsetSnapshots :=
            db.beatmapsetSnapshots.map fun row => if row.id = old.id then new else row }

/-- The transaction of a call. -/
structure Session where
  db : Database
  writes : List Write

def Session.write (w : Write) (s : Session) : Session := ⟨w.apply s.db, s.writes ++ [w]⟩

inductive Error where
  /-- `IntegrityError`: a row of an association table is inserted twice. -/
  | integrity
  /-- `ValidationError`: there is no snapshot to compare with. -/
  | validation
  deriving DecidableEq

/-! Deltas of `UPDATABLE_FIELDS`. -/

section Delta

variable {F : Type} {V : F → Type} [∀ f, DecidableEq (V f)]

/-- The fields whose values differ. -/
def delta (fields : List F) (old new : (f : F) → V f) : List F :=
  fields.filter fun f => new f ≠ old f

/-- `setattr` for each of them. -/
def setattrs [DecidableEq F] (names : List F) (old new : (f : F) → V f) : (f : F) → V f :=
  names.foldl (fun row f => Function.update row f (new f)) old

variable {fields : List F} {old new : (f : F) → V f}

theorem delta_eq_nil_iff (hall : ∀ f, f ∈ fields) : delta fields old new = [] ↔ old = new := by
  rw [delta, List.filter_eq_nil_iff]
  constructor
  · intro hsame
    funext f
    have hf := hsame f (hall f)
    simp only [ne_eq, decide_eq_true_eq, not_not] at hf
    exact hf.symm
  · rintro rfl f -
    simp

omit [∀ f, DecidableEq (V f)] in
theorem setattrs_apply [DecidableEq F] (names : List F) (old new : (f : F) → V f) (f : F) :
    setattrs names old new f = if f ∈ names then new f else old f := by
  induction names generalizing old with
  | nil => simp [setattrs]
  | cons name rest ih =>
      have hstep := ih (Function.update old name (new name))
      rw [setattrs] at hstep
      rw [setattrs, List.foldl_cons, hstep]
      by_cases hrest : f ∈ rest
      · simp [hrest]
      · by_cases hname : f = name
        · subst hname
          simp [hrest]
        · simp [hrest, hname]

/-- After the update nothing differs. -/
theorem setattrs_delta [DecidableEq F] (hall : ∀ f, f ∈ fields) :
    setattrs (delta fields old new) old new = new := by
  funext f
  rw [setattrs_apply]
  split
  · rfl
  · rename_i hsame
    simp only [delta, List.mem_filter, hall f, true_and, decide_eq_true_eq, not_not] at hsame
    exact hsame.symm

end Delta

inductive BeatmapField where
  | column (c : BeatmapColumn)
  | owners
  | topTagIds
  deriving DecidableEq

/-- The delta of `_update_beatmaps`. -/
def BeatmapDict.delta (b : BeatmapDict) (row : BeatmapSnapshot) : List BeatmapField :=
  (Manager.delta BeatmapColumn.all row.columns b.columns).map .column ++
    (if b.owners ≠ row.ownerProfiles.map Profile.owner then [.owners] else []) ++
    (if b.topTagIds ≠ row.beatmapTags then [.topTagIds] else [])

/-- The delta of `_update_beatmapset`. -/
def BeatmapsetDict.delta (p : BeatmapsetDict) (row : BeatmapsetSnapshot) : List BeatmapsetColumn :=
  Manager.delta BeatmapsetColumn.all row.columns p.columns

/-- `beatmap_dict["owners"] or [{"id": beatmap_dict["user_id"]}]` -/
def BeatmapDict.ownerIds (b : BeatmapDict) : List Int :=
  if b.owners = [] then [b.userId] else b.owners.map Owner.id

/-! Profiles and tags. -/

/-- `_populate_user`: the profile, created if it is not there. -/
def populateUser (username : Int → String) (userId : Int) (db : Database) : Database × Profile :=
  match db.profiles.find? (·.userId = userId) with
  | some profile => (db, profile)
  | none =>
      let profile := ⟨db.nextProfile, userId, username userId⟩
      ({ db with profiles := db.profiles ++ [profile], nextProfile := db.nextProfile + 1 }, profile)

/-- `_populate_owner_profiles` -/
def populateOwnerProfiles (username : Int → String) : List Int → Database → Database × List Profile
  | [], db => (db, [])
  | userId :: rest, db =>
      let user := populateUser username userId db
      let owners := populateOwnerProfiles username rest user.1
      (owners.1, user.2 :: owners.2)

/-- `_update_beatmap_tags_from_osu` -/
def updateBeatmapTagsFromOsu (osuTags : List Nat) (db : Database) : Database :=
  { db with
    beatmapTags :=
        osuTags.foldl (fun tags tag => if tag ∈ tags then tags else tags ++ [tag]) db.beatmapTags }

/-- `fetch_beatmap_tag`: `none` when osu! does not know the tag either. -/
def fetchBeatmapTag (osuTags : List Nat) (tag : Nat) (db : Database) : Database × Option Nat :=
  if tag ∈ db.beatmapTags then (db, some tag)
  else
    let db := updateBeatmapTagsFromOsu osuTags db
    (db, if tag ∈ db.beatmapTags then some tag else none)

/-- `_populate_beatmap_tags` -/
def populateBeatmapTags (osuTags : List Nat) : List Nat → Database → Database × List Nat
  | [], db => (db, [])
  | tag :: rest, db =>
      let fetched := fetchBeatmapTag osuTags tag db
      let tags := populateBeatmapTags osuTags rest fetched.1
      (tags.1, fetched.2.toList ++ tags.2)

/-- `_populate_beatmapset_tags` -/
def beatmapsetTags (tags : String) : List (List Char) :=
  (((tags.toList.splitOn ' ').map Numeral.strip).filter (· ≠ [])).dedup

/-- `get_many(BeatmapTag, _where=BeatmapTag.id.in_(tags))` -/
def getBeatmapTags (tags : List Nat) (db : Database) : List Nat :=
  Daemon.getMany id (· ∈ tags) Paging.queryDefaultLimit db.beatmapTags

/-- `get_many(Profile, _where=Profile.id.in_(ids))` -/
def getProfiles (ids : List Nat) (db : Database) : List Profile :=
  Daemon.getMany Profile.id (·.id ∈ ids) Paging.queryDefaultLimit db.profiles

/-! The call. -/

/-- `_populate_beatmapset` -/
def populateBeatmapset (api : OsuApi) (db : Database) : Database :=
  (populateOwnerProfiles api.username
    (api.beatmapset.userId :: api.beatmapset.beatmaps.map BeatmapDict.userId) db).1

/-- The tags and owners of a beatmap, as both branches populate them. -/
structure Links where
  db : Database
  tags : List Nat
  owners : List Profile

def populateLinks (api : OsuApi) (b : BeatmapDict) (db : Database) : Links :=
  let tags := populateBeatmapTags api.tags b.topTagIds db
  let owners := populateOwnerProfiles api.username b.ownerIds tags.1
  ⟨owners.1, tags.2, owners.2⟩

/-- The new row, with the number that `before_insert` computes. -/
def BeatmapDict.snapshot (b : BeatmapDict) (links : Links) : BeatmapSnapshot where
  id := links.db.sequences.snapshot .beatmap
  owner := b.id
  snapshotNumber := links.db.tables.nextNumber .beatmap b.id
  checksum := b.checksum
  beatmapsetId := b.beatmapsetId
  columns := b.columns
  beatmapTags := links.tags
  ownerProfiles := links.owners

def BeatmapsetDict.snapshot (p : BeatmapsetDict) (checksum : String) (rows : List BeatmapSnapshot)
    (db : Database) : BeatmapsetSnapshot where
  id := db.sequences.snapshot .beatmapset
  owner := p.id
  snapshotNumber := db.tables.nextNumber .beatmapset p.id
  checksum := checksum
  userId := p.userId
  columns := p.columns
  beatmapSnapshots := rows.map (·.id)
  beatmapsetTags := beatmapsetTags p.tags

/-- `_snapshot_beatmaps`, for one beatmap. The checksum is new when `add` looks
for it, so `_resolve_or_create` creates the row. -/
def snapshotBeatmap (api : OsuApi) (b : BeatmapDict) (s : Session) :
    Except Error (Session × BeatmapSnapshot) :=
  match s.db.beatmapSnapshot? b.checksum with
  | some row => .ok (s, row)
  | none =>
      let links := populateLinks api b s.db
      let row := b.snapshot links
      if links.tags.Nodup ∧ (links.owners.map Profile.id).Nodup then
        .ok ((Session.mk links.db s.writes).write (.insertBeatmapSnapshot row), row)
      else .error .integrity

def snapshotBeatmaps (api : OsuApi) :
    List BeatmapDict → Session → Except Error (Session × List BeatmapSnapshot)
  | [], s => .ok (s, [])
  | b :: rest, s => do
      let (s, row) ← snapshotBeatmap api b s
      let (s, rows) ← snapshotBeatmaps api rest s
      return (s, row :: rows)

/-- `_snapshot_beatmapset` -/
def snapshotBeatmapset (api : OsuApi) (checksum : String) (s : Session) : Except Error Session := do
  let (s, rows) ← snapshotBeatmaps api api.beatmapset.beatmaps s
  if (rows.map (·.id)).Nodup then
    return s.write (.insertBeatmapsetSnapshot (api.beatmapset.snapshot checksum rows s.db) rows)
  else throw .integrity

/-- The relationships are read again with `get_many`. -/
def BeatmapDict.update (b : BeatmapDict) (links : Links) (row : BeatmapSnapshot) :
    BeatmapSnapshot :=
  { row with
    columns :=
      setattrs (Manager.delta BeatmapColumn.all row.columns b.columns) row.columns b.columns
    beatmapTags := getBeatmapTags links.tags links.db
    ownerProfiles := getProfiles (links.owners.map Profile.id) links.db }

def BeatmapsetDict.update (p : BeatmapsetDict) (row : BeatmapsetSnapshot) : BeatmapsetSnapshot :=
  { row with columns := setattrs (p.delta row) row.columns p.columns }

/-- `_update_beatmaps`, for one beatmap. -/
def updateBeatmap (api : OsuApi) (b : BeatmapDict) (s : Session) : Except Error Session :=
  match s.db.beatmapSnapshot? b.checksum with
  | none => .error .validation
  | some row =>
      if b.delta row = [] then .ok s
      else
        let links := populateLinks api b s.db
        .ok ((Session.mk links.db s.writes).write (.updateBeatmapSnapshot row (b.update links row)))

def updateBeatmaps (api : OsuApi) : List BeatmapDict → Session → Except Error Session
  | [], s => .ok s
  | b :: rest, s => do
      let s ← updateBeatmap api b s
      updateBeatmaps api rest s

/-- `_update_beatmapset` -/
def updateBeatmapset (api : OsuApi) (checksum : String) (s : Session) : Except Error Session := do
  let s ← updateBeatmaps api api.beatmapset.beatmaps s
  match s.db.beatmapsetSnapshot? checksum with
  | none => throw .validation
  | some row =>
      if api.beatmapset.delta row = [] then return s
      else return s.write (.updateBeatmapsetSnapshot row (api.beatmapset.update row))

/-- The transaction, once the beatmapset and its beatmaps are populated. -/
def Session.start (api : OsuApi) (db : Database) : Session := ⟨populateBeatmapset api db, []⟩

section Archive

variable (combineChecksums : List String → String)

/-- `archive`. The checksum is looked up in a session of its own, before
anything of the call is committed. -/
def archive (api : OsuApi) (db : Database) : Except Error Session :=
  let checksum := combineChecksums api.beatmapset.checksums
  let s := Session.start api db
  match db.beatmapsetSnapshot? checksum with
  | none => snapshotBeatmapset api checksum s
  | some _ => updateBeatmapset api checksum s

/-- A call, with the order in which it reads. -/
structure Call where
  order : ReadOrder
  api : OsuApi

/-- The transaction is committed, or rolled back after an exception. -/
def step (call : Call) (db : Database) : Option Database :=
  match archive combineChecksums call.api (db.read call.order) with
  | .ok s => some s.db
  | .error _ => some db

end Archive

end Graveboards.Archive.Manager
