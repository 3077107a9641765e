import Graveboards.Archive.Isolation
import Graveboards.Library.Runs

/-!
What the listings point to after a call of `archive`. A listing moves only when
a snapshot is inserted, and a snapshot that is found is not always compared with
the payload.
-/

namespace Graveboards.Archive.Manager

open Library Database

namespace Database

variable (kind : Kind) (owner : Int) (db : Database)

/-- `snapshot_id` of the listing of a beatmap or beatmapset. -/
def listedId : Option Nat :=
  ((db.listings kind).find? (·.owner = owner)).map Listing.snapshotId

/-- The snapshot that the listing of a beatmap points to. -/
def listedBeatmap : Option BeatmapSnapshot :=
  (db.listedId .beatmap owner).bind fun id => db.beatmapSnapshots.find? (·.id = id)

def listedBeatmapset : Option BeatmapsetSnapshot :=
  (db.listedId .beatmapset owner).bind fun id => db.beatmapsetSnapshots.find? (·.id = id)

/-- The checksums of the beatmap snapshots of a beatmapset snapshot. -/
def linkedChecksums (row : BeatmapsetSnapshot) : List String :=
  (db.beatmapSnapshots.filter (·.id ∈ row.beatmapSnapshots)).map (·.checksum)

end Database

/-- The updatable fields of the snapshot are the payload's, tags and owners
included. -/
structure BeatmapDict.Reflects (b : BeatmapDict) (row : BeatmapSnapshot) : Prop where
  columns : row.columns = b.columns
  tags : ∀ tag, tag ∈ row.beatmapTags ↔ tag ∈ b.topTagIds
  owners : ∀ userId, userId ∈ row.ownerProfiles.map Profile.userId ↔ userId ∈ b.ownerIds

/-- The listings show the payload. -/
structure Converged (combineChecksums : List String → String) (p : BeatmapsetDict) (db : Database) :
    Prop where
  beatmapset :
      ∃ row, db.listedBeatmapset p.id = some row ∧ row.checksum = combineChecksums p.checksums ∧
    (∀ checksum, checksum ∈ db.linkedChecksums row ↔ checksum ∈ p.checksums) ∧
    row.columns = p.columns
  beatmaps : ∀ b ∈ p.beatmaps, ∃ row, db.listedBeatmap b.id = some row ∧ row.checksum = b.checksum ∧
    b.Reflects row

/-- `get_many` returns all that an update links. -/
def BeatmapDict.FitsPage (b : BeatmapDict) : Prop :=
  b.topTagIds.dedup.length ≤ Paging.queryDefaultLimit ∧
    b.ownerIds.dedup.length ≤ Paging.queryDefaultLimit

/-- Where the call cannot leave an old version in the listings. If the combined
checksum is new: a snapshot that is there for a beatmap of the payload is the
listed one of the beatmap, with the payload's fields. If it is known: the
snapshot is the listed one of the beatmapset, with the payload's beatmaps, and so
are the beatmaps' snapshots; what has to be updated fits into one page. -/
def Steady (combineChecksums : List String → String) (api : OsuApi) (db : Database) : Prop :=
  let p := api.beatmapset
  match db.beatmapsetSnapshot? (combineChecksums p.checksums) with
  | none => ∀ b ∈ p.beatmaps, ∀ row, db.beatmapSnapshot? b.checksum = some row →
      db.listedBeatmap b.id = some row ∧ b.Reflects row
  | some found => db.listedBeatmapset p.id = some found ∧
      (∀ checksum, checksum ∈ db.linkedChecksums found ↔ checksum ∈ p.checksums) ∧
      ∀ b ∈ p.beatmaps, ∀ row, db.beatmapSnapshot? b.checksum = some row →
        db.listedBeatmap b.id = some row ∧ (b.delta row = [] ∨ b.FitsPage)

/-- The tags of the payload are in the table or in the list of osu!. -/
def TagsKnown (api : OsuApi) (beatmaps : List BeatmapDict) (db : Database) : Prop :=
  ∀ b ∈ beatmaps, ∀ tag ∈ b.topTagIds, tag ∈ db.beatmapTags ∨ tag ∈ api.tags

/-! The conditions can be evaluated. -/

instance : DecidableEq ((c : BeatmapColumn) → c.Value) := fun old new =>
  decidable_of_iff (delta BeatmapColumn.all old new = []) (delta_eq_nil_iff BeatmapColumn.mem_all)

instance : DecidableEq (BeatmapsetColumn → Json) := fun old new =>
  decidable_of_iff (delta BeatmapsetColumn.all old new = [])
    (delta_eq_nil_iff BeatmapsetColumn.mem_all)

deriving instance DecidableEq for BeatmapSnapshot

deriving instance DecidableEq for BeatmapsetSnapshot

theorem mem_iff_mem_iff {α : Type} {values others : List α} :
    (∀ a ∈ values, a ∈ others) ∧ (∀ a ∈ others, a ∈ values) ↔ ∀ a, a ∈ values ↔ a ∈ others :=
  ⟨fun h a => ⟨h.1 a, h.2 a⟩, fun h => ⟨fun a => (h a).mp, fun a => (h a).mpr⟩⟩

instance decidableSameMembers {α : Type} [DecidableEq α] (values others : List α) :
    Decidable (∀ a, a ∈ values ↔ a ∈ others) :=
  decidable_of_iff _ mem_iff_mem_iff

instance (b : BeatmapDict) (row : BeatmapSnapshot) : Decidable (b.Reflects row) :=
  decidable_of_iff (row.columns = b.columns ∧ (∀ tag, tag ∈ row.beatmapTags ↔ tag ∈ b.topTagIds) ∧
      ∀ userId, userId ∈ row.ownerProfiles.map Profile.userId ↔ userId ∈ b.ownerIds)
    ⟨fun ⟨hcolumns, htags, howners⟩ => ⟨hcolumns, htags, howners⟩,
      fun h => ⟨h.columns, h.tags, h.owners⟩⟩

instance (b : BeatmapDict) : Decidable b.FitsPage := inferInstanceAs (Decidable (_ ∧ _))

instance (combineChecksums : List String → String) (api : OsuApi) (db : Database) :
    Decidable (Steady combineChecksums api db) :=
  match h : db.beatmapsetSnapshot? (combineChecksums api.beatmapset.checksums) with
  | none =>
      decidable_of_iff
        (∀ b ∈ api.beatmapset.beatmaps, ∀ row, db.beatmapSnapshot? b.checksum = some row →
        db.listedBeatmap b.id = some row ∧ b.Reflects row) (by simp [Steady, h])
  | some found =>
      decidable_of_iff (db.listedBeatmapset api.beatmapset.id = some found ∧
        (∀ checksum, checksum ∈ db.linkedChecksums found ↔ checksum ∈ api.beatmapset.checksums) ∧
        ∀ b ∈ api.beatmapset.beatmaps, ∀ row, db.beatmapSnapshot? b.checksum = some row →
          db.listedBeatmap b.id = some row ∧ (b.delta row = [] ∨ b.FitsPage)) (by simp [Steady, h])

instance (api : OsuApi) (beatmaps : List BeatmapDict) (db : Database) :
    Decidable (TagsKnown api beatmaps db) :=
  inferInstanceAs
    (Decidable (∀ b ∈ beatmaps, ∀ tag ∈ b.topTagIds, tag ∈ db.beatmapTags ∨ tag ∈ api.tags))

/-- What holds in the database of every run. -/
structure Database.Consistent (db : Database) : Prop where
  keys : db.Keys
  listed : ∀ owner id, db.listedId .beatmap owner = some id →
    ∃ row ∈ db.beatmapSnapshots, row.id = id ∧ row.owner = owner
  owned : ∀ row ∈ db.beatmapSnapshots, row.ownerProfiles ≠ []

/-! Listings. -/

section Listings

variable {db db' : Database}

theorem listedId_relist (kind kind' : Kind) (row : Snapshot) (owner : Int) (db : Database) :
    (db.relist kind row).listedId kind' owner =
      if kind' = kind ∧ owner = row.owner then some row.id else db.listedId kind' owner := by
  unfold listedId relist
  cases hfind : (db.listings kind).find? (·.owner = row.owner) with
  | none =>
      by_cases hkind : kind' = kind
      · subst hkind
        by_cases howner : owner = row.owner
        · subst howner
          simp [hfind]
        · have hlast : ¬ row.owner = owner := fun h => howner h.symm
          simp [howner, hlast]
      · simp [hkind]
  | some listing =>
      by_cases hkind : kind' = kind
      · subst hkind
        have hfinds : ((db.listings kind').map (Listing.updated row.owner listing.id row.id)).find?
            (·.owner = owner) = ((db.listings kind').find? (·.owner = owner)).map
              (Listing.updated row.owner listing.id row.id) := by
          rw [List.find?_map]
          congr 2
          funext l
          by_cases hl : l.owner = row.owner ∧ l.id = listing.id <;> simp [Listing.updated, hl]
        by_cases howner : owner = row.owner
        · subst howner
          have hlisting : listing.owner = row.owner := by simpa using List.find?_some hfind
          simp [hfinds, hfind, Listing.updated, hlisting]
        · simp only [howner, and_false, if_false, Function.update_self, hfinds]
          cases hl : (db.listings kind').find? (·.owner = owner) with
          | none => rfl
          | some l =>
              have hlowner : l.owner = owner := by simpa using List.find?_some hl
              have hne : ¬ (l.owner = row.owner ∧ l.id = listing.id) :=
                fun h => howner (hlowner ▸ h.1)
              simp [Listing.updated, hne]
      · simp [hkind]

theorem listedId_populates (h : Populates db db') (kind : Kind) (owner : Int) :
    db'.listedId kind owner = db.listedId kind owner := by
  rw [listedId, listedId, h.listings]

theorem listedBeatmap_populates (h : Populates db db') (owner : Int) :
    db'.listedBeatmap owner = db.listedBeatmap owner := by
  rw [listedBeatmap, listedBeatmap, listedId_populates h, h.beatmapSnapshots]

theorem listedBeatmapset_populates (h : Populates db db') (owner : Int) :
    db'.listedBeatmapset owner = db.listedBeatmapset owner := by
  rw [listedBeatmapset, listedBeatmapset, listedId_populates h, h.beatmapsetSnapshots]

theorem linkedChecksums_populates (h : Populates db db') (row : BeatmapsetSnapshot) :
    db'.linkedChecksums row = db.linkedChecksums row := by
  rw [linkedChecksums, linkedChecksums, h.beatmapSnapshots]

theorem Consistent.of_populates (h : Populates db db') (hdb : db.Consistent) : db'.Consistent where
  keys := h.keys hdb.keys
  listed owner id hid := by
    rw [h.beatmapSnapshots]
    exact hdb.listed owner id (listedId_populates h .beatmap owner ▸ hid)
  owned := by
    rw [h.beatmapSnapshots]
    exact hdb.owned

/-- The listed snapshot is one of the beatmap. -/
theorem owner_of_listedBeatmap (hdb : db.Consistent) {owner : Int} {row : BeatmapSnapshot}
    (h : db.listedBeatmap owner = some row) : row.owner = owner := by
  obtain ⟨id, hid, hrow⟩ := Option.bind_eq_some_iff.mp h
  obtain ⟨r, hr, hrid, howner⟩ := hdb.listed owner id hid
  have hrow' : row.id = id := by simpa using List.find?_some hrow
  have heq := List.inj_on_of_nodup_map hdb.keys.beatmapIds hr (List.mem_of_find?_eq_some hrow)
    (hrid.trans hrow'.symm)
  exact heq ▸ howner

/-- A row of the table is found by its primary key. -/
theorem find?_id_of_mem {α : Type} {id : α → Nat} {rows : List α} {row : α}
    (hids : (rows.map id).Nodup) (hrow : row ∈ rows) :
    rows.find? (fun r => id r = id row) = some row := by
  cases hfind : rows.find? (fun r => id r = id row) with
  | none =>
      have hnone := List.find?_eq_none.mp hfind row hrow
      simp at hnone
  | some r =>
      have hr : id r = id row := by simpa using List.find?_some hfind
      exact congrArg some (List.inj_on_of_nodup_map hids (List.mem_of_find?_eq_some hfind) hrow hr)

/-- A replaced row is found in the place of the old one. -/
theorem find?_id_replace {α : Type} (id : α → Nat) {old new : α} (hid : id new = id old)
    (rows : List α) (k : Nat) :
    (rows.map fun r => if id r = id old then new else r).find? (fun r => id r = k) =
      (rows.find? (fun r => id r = k)).map fun r => if id r = id old then new else r := by
  rw [List.find?_map]
  congr 2
  funext r
  by_cases hr : id r = id old
  · simp [hr, hid]
  · simp [hr]

end Listings

/-! Rows that show the payload. -/

section Reflects

variable {api : OsuApi} {b : BeatmapDict} {db : Database} {row : BeatmapSnapshot}

/-- Nothing differs, and there is an owner. -/
theorem reflects_of_delta (h : b.delta row = []) (howned : row.ownerProfiles ≠ []) :
    b.Reflects row := by
  obtain ⟨hfirst, htags⟩ := List.append_eq_nil_iff.mp h
  obtain ⟨hcolumns, howners⟩ := List.append_eq_nil_iff.mp hfirst
  have htags : b.topTagIds = row.beatmapTags := by
    by_contra hne
    simp [hne] at htags
  have howners : b.owners = row.ownerProfiles.map Profile.owner := by
    by_contra hne
    simp [hne] at howners
  have hids : row.ownerProfiles.map Profile.userId = b.ownerIds := by
    rw [BeatmapDict.ownerIds, howners, if_neg (by simpa using howned), List.map_map]
    rfl
  constructor
  · exact (delta_eq_nil_iff BeatmapColumn.mem_all).mp (List.map_eq_nil_iff.mp hcolumns)
  · intro tag
    rw [htags]
  · intro userId
    rw [hids]

theorem populateLinks_tags_of_known
    (hknown : ∀ tag ∈ b.topTagIds, tag ∈ db.beatmapTags ∨ tag ∈ api.tags) :
    (populateLinks api b db).tags = b.topTagIds := by
  rw [populateLinks_tags, List.filter_eq_self]
  intro tag htag
  simpa using hknown tag htag

/-- A new snapshot shows the payload. -/
theorem reflects_snapshot (hknown : ∀ tag ∈ b.topTagIds, tag ∈ db.beatmapTags ∨ tag ∈ api.tags) :
    b.Reflects (b.snapshot (populateLinks api b db)) where
  columns := rfl
  tags tag := by rw [BeatmapDict.snapshot, populateLinks_tags_of_known hknown]
  owners userId := by rw [BeatmapDict.snapshot, populateLinks_userIds]

/-- The rows of a unique column are not more than the values they have. -/
theorem length_le_dedup {α β : Type} [DecidableEq β] (f : α → β) {rows : List α} (values : List β)
    (hnodup : (rows.map f).Nodup) (hvalues : ∀ row ∈ rows, f row ∈ values) :
    rows.length ≤ values.dedup.length := by
  rw [← List.length_map f]
  apply (List.subperm_of_subset hnodup _).length_le
  intro value hvalue
  obtain ⟨row, hrow, rfl⟩ := List.mem_map.mp hvalue
  exact List.mem_dedup.mpr (hvalues row hrow)

/-- An updated snapshot shows the payload, if `get_many` returns all its tags and
owners. -/
theorem reflects_update (hkeys : db.Keys)
    (hknown : ∀ tag ∈ b.topTagIds, tag ∈ db.beatmapTags ∨ tag ∈ api.tags) (hfits : b.FitsPage)
    (row : BeatmapSnapshot) : b.Reflects (b.update (populateLinks api b db) row) := by
  have hkeys' := (populateLinks_populates api b db).keys hkeys
  have howners := populateLinks_owners_mem api b db
  have hids := populateLinks_userIds api b db
  have htags := populateLinks_tags_of_known hknown
  -- A profile of the table with the id of an owner is that owner.
  have hprofile {profile : Profile} (hmem : profile ∈ (populateLinks api b db).db.profiles) :
      profile.id ∈ (populateLinks api b db).owners.map Profile.id ↔
        profile ∈ (populateLinks api b db).owners := by
    constructor
    · intro hid
      obtain ⟨owner, howner, hsame⟩ := List.mem_map.mp hid
      exact List.inj_on_of_nodup_map hkeys'.profileIds (howners owner howner) hmem hsame ▸ howner
    · exact List.mem_map_of_mem
  have htagPage : ((populateLinks api b db).db.beatmapTags.filter
      (· ∈ (populateLinks api b db).tags)).length ≤ Paging.queryDefaultLimit := by
    refine le_trans (length_le_dedup id b.topTagIds ?_ ?_) hfits.1
    · rw [List.map_id]
      exact hkeys'.tagIds.filter _
    · intro tag htag
      have hmem : tag ∈ (populateLinks api b db).tags := by simpa using (List.mem_filter.mp htag).2
      exact htags ▸ hmem
  have hownerPage : ((populateLinks api b db).db.profiles.filter
      (·.id ∈ (populateLinks api b db).owners.map Profile.id)).length ≤
        Paging.queryDefaultLimit := by
    refine le_trans (length_le_dedup Profile.userId b.ownerIds ?_ ?_) hfits.2
    · exact hkeys'.userIds.sublist (List.filter_sublist.map _)
    · intro profile hfilter
      obtain ⟨hmem, hid⟩ := List.mem_filter.mp hfilter
      rw [← hids]
      exact List.mem_map_of_mem ((hprofile hmem).mp (of_decide_eq_true hid))
  constructor
  · exact setattrs_delta BeatmapColumn.mem_all
  · intro tag
    rw [BeatmapDict.update, getBeatmapTags, (Daemon.getMany_perm htagPage).mem_iff, List.mem_filter,
      decide_eq_true_eq, and_iff_right_of_imp (populateLinks_tags_mem api b db tag), htags]
  · intro userId
    rw [BeatmapDict.update, getProfiles,
      ((Daemon.getMany_perm hownerPage).map Profile.userId).mem_iff,
      ← hids, List.mem_map, List.mem_map]
    constructor
    · rintro ⟨profile, hfilter, rfl⟩
      obtain ⟨hmem, hid⟩ := List.mem_filter.mp hfilter
      exact ⟨profile, (hprofile hmem).mp (of_decide_eq_true hid), rfl⟩
    · rintro ⟨profile, howner, rfl⟩
      have hmem := howners profile howner
      exact ⟨profile, List.mem_filter.mpr ⟨hmem, decide_eq_true ((hprofile hmem).mpr howner)⟩, rfl⟩

theorem ownerIds_ne_nil (b : BeatmapDict) : b.ownerIds ≠ [] := by
  rw [BeatmapDict.ownerIds]
  split
  · exact List.cons_ne_nil _ _
  · rename_i howners
    simpa using howners

theorem owners_ne_nil (api : OsuApi) (b : BeatmapDict) (db : Database) :
    (populateLinks api b db).owners ≠ [] := by
  intro hnil
  have hids := populateLinks_userIds api b db
  rw [hnil] at hids
  exact ownerIds_ne_nil b hids.symm

/-- An updated snapshot has an owner. -/
theorem update_owned (row : BeatmapSnapshot) :
    (b.update (populateLinks api b db) row).ownerProfiles ≠ [] := by
  obtain ⟨owner, rest, howners⟩ := List.exists_cons_of_ne_nil (owners_ne_nil api b db)
  have hmem := populateLinks_owners_mem api b db owner (howners ▸ List.mem_cons_self)
  have hfilter : owner ∈ (populateLinks api b db).db.profiles.filter
      (·.id ∈ (populateLinks api b db).owners.map Profile.id) := by
    refine List.mem_filter.mpr ⟨hmem, ?_⟩
    simp [howners]
  intro hnil
  have hlength := Daemon.getMany_length Profile.id
    (·.id ∈ (populateLinks api b db).owners.map Profile.id) (populateLinks api b db).db.profiles
  have hpos := List.length_pos_of_mem hfilter
  have hzero : (getProfiles ((populateLinks api b db).owners.map Profile.id)
      (populateLinks api b db).db).length = 0 := by
    rw [List.length_eq_zero_iff]
    exact hnil
  rw [getProfiles, hlength, Paging.queryDefaultLimit] at hzero
  omega

end Reflects

/-! One beatmap. -/

section Beatmap

variable {api : OsuApi} {b : BeatmapDict} {s : Session} {row : BeatmapSnapshot}

theorem inserted_listedId (kind : Kind) (owner : Int) :
    (s.inserted api b).db.listedId kind owner =
      if kind = .beatmap ∧ owner = b.id then some (b.snapshot (populateLinks api b s.db)).id
      else s.db.listedId kind owner :=
  (listedId_relist .beatmap kind _ owner _).trans (by
    rw [← listedId_populates (populateLinks_populates api b s.db)]
    rfl)

/-- The listing of the beatmap points to the new snapshot. -/
theorem inserted_listedBeatmap (hkeys : s.db.Keys) :
    (s.inserted api b).db.listedBeatmap b.id = some (b.snapshot (populateLinks api b s.db)) := by
  rw [listedBeatmap, inserted_listedId, if_pos ⟨rfl, rfl⟩, Option.bind_some]
  apply find?_id_of_mem (inserted_keys hkeys).beatmapIds
  rw [inserted_beatmapSnapshots]
  exact List.mem_append_right _ (List.mem_singleton_self _)

/-- And those of the others stay. -/
theorem inserted_listedBeatmap_of_ne {owner : Int} (howner : owner ≠ b.id)
    (h : s.db.listedBeatmap owner = some row) :
    (s.inserted api b).db.listedBeatmap owner = some row := by
  obtain ⟨id, hid, hrow⟩ := Option.bind_eq_some_iff.mp h
  rw [listedBeatmap, inserted_listedId, if_neg (fun h => howner h.2), hid, Option.bind_some,
    inserted_beatmapSnapshots, List.find?_append, hrow]
  rfl

theorem inserted_consistent (hdb : s.db.Consistent) : (s.inserted api b).db.Consistent where
  keys := inserted_keys hdb.keys
  listed owner id hid := by
    rw [inserted_beatmapSnapshots]
    rw [inserted_listedId] at hid
    split at hid
    · rename_i howner
      obtain rfl := Option.some.inj hid
      exact ⟨_, List.mem_append_right _ (List.mem_singleton_self _), rfl, howner.2.symm⟩
    · obtain ⟨row, hrow, hsame⟩ := hdb.listed owner id hid
      exact ⟨row, List.mem_append_left _ hrow, hsame⟩
  owned := by
    rw [inserted_beatmapSnapshots]
    intro row hrow
    rcases List.mem_append.mp hrow with hold | hnew
    · exact hdb.owned row hold
    · obtain rfl := List.mem_singleton.mp hnew
      exact owners_ne_nil api b s.db

theorem updated_beatmapSnapshots :
    (s.updated api b row).db.beatmapSnapshots = s.db.beatmapSnapshots.map fun r =>
      if r.id = row.id then b.update (populateLinks api b s.db) row else r := by
  rw [← (populateLinks_populates api b s.db).beatmapSnapshots]
  rfl

theorem updated_listedId (kind : Kind) (owner : Int) :
    (s.updated api b row).db.listedId kind owner = s.db.listedId kind owner :=
  listedId_populates (populateLinks_populates api b s.db) kind owner

/-- The listings show the updated row. -/
theorem updated_listedBeatmap (owner : Int) :
    (s.updated api b row).db.listedBeatmap owner = (s.db.listedBeatmap owner).map fun r =>
      if r.id = row.id then b.update (populateLinks api b s.db) row else r := by
  rw [listedBeatmap, listedBeatmap, updated_listedId, updated_beatmapSnapshots]
  cases s.db.listedId .beatmap owner with
  | none => rfl
  | some id =>
      have hid : (b.update (populateLinks api b s.db) row).id = row.id := rfl
      exact find?_id_replace (fun r : BeatmapSnapshot => r.id) hid s.db.beatmapSnapshots id

theorem updated_consistent (hdb : s.db.Consistent)
    (h : s.db.beatmapSnapshot? b.checksum = some row) :
    (s.updated api b row).db.Consistent where
  keys := updated_keys hdb.keys h
  listed owner id hid := by
    rw [updated_listedId] at hid
    obtain ⟨r, hr, hrid, howner⟩ := hdb.listed owner id hid
    rw [updated_beatmapSnapshots]
    refine ⟨_, List.mem_map_of_mem hr, ?_⟩
    split
    · rename_i hsame
      obtain rfl :=
        List.inj_on_of_nodup_map hdb.keys.beatmapIds hr (List.mem_of_find?_eq_some h) hsame
      exact ⟨hrid, howner⟩
    · exact ⟨hrid, howner⟩
  owned r hr := by
    rw [updated_beatmapSnapshots] at hr
    rcases mem_replace hr with ⟨hold, -⟩ | rfl
    · exact hdb.owned r hold
    · exact update_owned row

theorem updated_linkedChecksums (hkeys : s.db.Keys)
    (h : s.db.beatmapSnapshot? b.checksum = some row) (set : BeatmapsetSnapshot) :
    (s.updated api b row).db.linkedChecksums set = s.db.linkedChecksums set := by
  rw [linkedChecksums, linkedChecksums, updated_beatmapSnapshots, List.filter_map, List.map_map]
  have hsame (r : BeatmapSnapshot) (hr : r ∈ s.db.beatmapSnapshots) (hid : r.id = row.id) :
      r = row :=
    List.inj_on_of_nodup_map hkeys.beatmapIds hr (List.mem_of_find?_eq_some h) hid
  have hfilter :
      s.db.beatmapSnapshots.filter ((fun r => decide (r.id ∈ set.beatmapSnapshots)) ∘ fun r =>
      if r.id = row.id then b.update (populateLinks api b s.db) row else r) =
        s.db.beatmapSnapshots.filter (·.id ∈ set.beatmapSnapshots) := by
    apply List.filter_congr
    intro r hr
    by_cases hid : r.id = row.id
    · obtain rfl := hsame r hr hid
      simp [BeatmapDict.update]
    · simp [hid]
  rw [hfilter]
  apply List.map_congr_left
  intro r hr
  by_cases hid : r.id = row.id
  · obtain rfl := hsame r (List.mem_of_mem_filter hr) hid
    simp [BeatmapDict.update]
  · simp [hid]

theorem known_inserted (beatmaps : List BeatmapDict) :
    TagsKnown api beatmaps (s.inserted api b).db ↔ TagsKnown api beatmaps s.db := by
  have htags : (s.inserted api b).db.beatmapTags = (populateLinks api b s.db).db.beatmapTags := by
    simp only [Session.inserted, Session.write, Write.apply, relist_beatmapTags, takeSnapshotId]
  simp only [TagsKnown, htags, populateLinks_known]

theorem known_updated (beatmaps : List BeatmapDict) :
    TagsKnown api beatmaps (s.updated api b row).db ↔ TagsKnown api beatmaps s.db := by
  have htags : (s.updated api b row).db.beatmapTags = (populateLinks api b s.db).db.beatmapTags :=
    rfl
  simp only [TagsKnown, htags, populateLinks_known]

end Beatmap

/-! The loops. -/

section Loops

variable {api : OsuApi} {beatmaps : List BeatmapDict} {s s' : Session} {rows : List BeatmapSnapshot}

/-- What insertions keep, the loop of `_snapshot_beatmaps` keeps. -/
theorem snapshotBeatmaps_induction (P : Session → Prop)
    (hstep : ∀ b ∈ beatmaps, ∀ s : Session, P s → s.db.beatmapSnapshot? b.checksum = none →
      P (s.inserted api b))
    (hs : P s) (h : snapshotBeatmaps api beatmaps s = .ok (s', rows)) : P s' := by
  induction beatmaps generalizing s rows with
  | nil =>
      cases h
      exact hs
  | cons b rest ih =>
      obtain ⟨next, row, later, hfirst, hrest, -⟩ := snapshotBeatmaps_cons.mp h
      have hlater := fun b' hb' => hstep b' (List.mem_cons_of_mem b hb')
      cases hfind : s.db.beatmapSnapshot? b.checksum with
      | some found =>
          rw [snapshotBeatmap_found hfind] at hfirst
          cases hfirst
          exact ih hlater hs hrest
      | none =>
          rw [snapshotBeatmap_new hfind] at hfirst
          split at hfirst
          · cases hfirst
            exact ih hlater (hstep b List.mem_cons_self s hs hfind) hrest
          · cases hfirst

/-- What updates keep, the loop of `_update_beatmaps` keeps. -/
theorem updateBeatmaps_induction (P : Session → Prop)
    (hstep : ∀ b ∈ beatmaps, ∀ (s : Session) row, P s →
      s.db.beatmapSnapshot? b.checksum = some row →
      P (s.updated api b row))
    (hs : P s) (h : updateBeatmaps api beatmaps s = .ok s') : P s' := by
  induction beatmaps generalizing s with
  | nil =>
      cases h
      exact hs
  | cons b rest ih =>
      obtain ⟨next, hnext, hrest⟩ := bind_eq_ok h
      have hlater := fun b' hb' => hstep b' (List.mem_cons_of_mem b hb')
      cases hfind : s.db.beatmapSnapshot? b.checksum with
      | none =>
          rw [updateBeatmap_none hfind] at hnext
          cases hnext
      | some row =>
          rw [updateBeatmap_some hfind] at hnext
          cases hnext
          apply ih hlater _ hrest
          split
          · exact hs
          · exact hstep b List.mem_cons_self s row hs hfind

/-- The snapshot of the beatmap is listed and shows the payload. -/
def Shown (b : BeatmapDict) (db : Database) : Prop :=
  ∃ row, db.beatmapSnapshot? b.checksum = some row ∧
    db.listedBeatmap b.id = some row ∧ b.Reflects row

/-- After the loop the listings show the payload, if the snapshots that were
there did. -/
theorem snapshotBeatmaps_shown (hkeys : s.db.Keys) (hknown : TagsKnown api beatmaps s.db)
    (hids : (beatmaps.map BeatmapDict.id).Nodup)
    (hchecksums : (beatmaps.map BeatmapDict.checksum).Nodup)
    (hthere : ∀ b ∈ beatmaps, ∀ row, s.db.beatmapSnapshot? b.checksum = some row →
      s.db.listedBeatmap b.id = some row ∧ b.Reflects row)
    (h : snapshotBeatmaps api beatmaps s = .ok (s', rows)) : ∀ b ∈ beatmaps, Shown b s'.db := by
  induction beatmaps generalizing s rows with
  | nil => intro b hb; cases hb
  | cons b rest ih =>
      obtain ⟨next, row, later, hfirst, hrest, -⟩ := snapshotBeatmaps_cons.mp h
      obtain ⟨hid, hids⟩ := List.nodup_cons.mp hids
      obtain ⟨hchecksum, hchecksums⟩ := List.nodup_cons.mp hchecksums
      obtain ⟨hthereFirst, hthereRest⟩ := List.forall_mem_cons.mp hthere
      have hknownRest : TagsKnown api rest s.db :=
        fun b' hb' => hknown b' (List.mem_cons_of_mem b hb')
      -- What the first beatmap's step shows, the rest of the loop keeps.
      have hkeep (hshown : Shown b next.db) : Shown b s'.db := by
        apply snapshotBeatmaps_induction (fun s => Shown b s.db) _ hshown hrest
        rintro b' hb' s ⟨row, hrow, hlisted, hreflects⟩ hnone
        have hne : b.id ≠ b'.id := fun heq => hid (heq ▸ List.mem_map_of_mem hb')
        exact ⟨row, (inserted_inserts hnone).persists b.checksum row hrow,
          inserted_listedBeatmap_of_ne hne hlisted, hreflects⟩
      rw [List.forall_mem_cons]
      cases hfind : s.db.beatmapSnapshot? b.checksum with
      | some found =>
          rw [snapshotBeatmap_found hfind] at hfirst
          cases hfirst
          obtain ⟨hlisted, hreflects⟩ := hthereFirst row hfind
          exact ⟨hkeep ⟨row, hfind, hlisted, hreflects⟩,
            ih hkeys hknownRest hids hchecksums hthereRest hrest⟩
      | none =>
          rw [snapshotBeatmap_new hfind] at hfirst
          split at hfirst
          · cases hfirst
            constructor
            · apply hkeep
              refine ⟨b.snapshot (populateLinks api b s.db), ?_, inserted_listedBeatmap hkeys,
                reflects_snapshot (hknown b List.mem_cons_self)⟩
              rw [inserted_beatmapSnapshot? hfind, if_pos rfl]
            · apply ih (inserted_keys hkeys) ((known_inserted rest).mpr hknownRest) hids
                hchecksums _ hrest
              intro b' hb' row hrow
              have hne : b'.id ≠ b.id := fun heq => hid (heq ▸ List.mem_map_of_mem hb')
              rw [inserted_beatmapSnapshot? hfind, if_neg] at hrow
              · obtain ⟨hlisted, hreflects⟩ := hthereRest b' hb' row hrow
                exact ⟨inserted_listedBeatmap_of_ne hne hlisted, hreflects⟩
              · intro heq
                exact hchecksum (heq ▸ List.mem_map_of_mem hb')
          · cases hfirst

/-- An update of another row leaves what is shown. -/
theorem shown_updated {b b' : BeatmapDict} {row : BeatmapSnapshot} (hkeys : s.db.Keys)
    (hne : b.checksum ≠ b'.checksum) (h : s.db.beatmapSnapshot? b'.checksum = some row)
    {shown : BeatmapSnapshot} (hfind : s.db.beatmapSnapshot? b.checksum = some shown)
    (hlisted : s.db.listedBeatmap b.id = some shown) :
    (s.updated api b' row).db.beatmapSnapshot? b.checksum = some shown ∧
      (s.updated api b' row).db.listedBeatmap b.id = some shown := by
  have hshown : shown.checksum = b.checksum := by simpa using List.find?_some hfind
  have hrow : row.checksum = b'.checksum := by simpa using List.find?_some h
  constructor
  · rw [updated_beatmapSnapshot? hkeys h, if_neg hne, hfind]
  · rw [updated_listedBeatmap, hlisted, Option.map_some, if_neg]
    intro hid
    have heq := List.inj_on_of_nodup_map hkeys.beatmapIds (List.mem_of_find?_eq_some hfind)
      (List.mem_of_find?_eq_some h) hid
    rw [heq, hrow] at hshown
    exact hne hshown.symm

/-- After the loop of the updates the listings show the payload, if the listed
snapshots are the ones that are updated. -/
theorem updateBeatmaps_shown (hdb : s.db.Consistent) (hknown : TagsKnown api beatmaps s.db)
    (hchecksums : (beatmaps.map BeatmapDict.checksum).Nodup)
    (hthere : ∀ b ∈ beatmaps, ∀ row, s.db.beatmapSnapshot? b.checksum = some row →
      s.db.listedBeatmap b.id = some row ∧ (b.delta row = [] ∨ b.FitsPage))
    (h : updateBeatmaps api beatmaps s = .ok s') : ∀ b ∈ beatmaps, Shown b s'.db := by
  induction beatmaps generalizing s with
  | nil => intro b hb; cases hb
  | cons b rest ih =>
      obtain ⟨next, hnext, hrest⟩ := bind_eq_ok h
      obtain ⟨hchecksum, hchecksums⟩ := List.nodup_cons.mp hchecksums
      obtain ⟨hthereFirst, hthereRest⟩ := List.forall_mem_cons.mp hthere
      have hknownRest : TagsKnown api rest s.db :=
        fun b' hb' => hknown b' (List.mem_cons_of_mem b hb')
      have hkeep (hkeys : next.db.Keys) (hshown : Shown b next.db) : Shown b s'.db := by
        refine (updateBeatmaps_induction (fun s => s.db.Keys ∧ Shown b s.db) ?_
          ⟨hkeys, hshown⟩ hrest).2
        rintro b' hb' s row ⟨hkeys, shown, hfind, hlisted, hreflects⟩ hrow
        have hne : b.checksum ≠ b'.checksum := fun heq => hchecksum (heq ▸ List.mem_map_of_mem hb')
        obtain ⟨hfind', hlisted'⟩ := shown_updated hkeys hne hrow hfind hlisted
        exact ⟨updated_keys hkeys hrow, shown, hfind', hlisted', hreflects⟩
      rw [List.forall_mem_cons]
      cases hfind : s.db.beatmapSnapshot? b.checksum with
      | none =>
          rw [updateBeatmap_none hfind] at hnext
          cases hnext
      | some row =>
          rw [updateBeatmap_some hfind] at hnext
          cases hnext
          obtain ⟨hlisted, hsizes⟩ := hthereFirst row hfind
          by_cases hdelta : b.delta row = []
          · rw [if_pos hdelta] at hrest hkeep
            have howned := hdb.owned row (List.mem_of_find?_eq_some hfind)
            exact ⟨hkeep hdb.keys ⟨row, hfind, hlisted, reflects_of_delta hdelta howned⟩,
              ih hdb hknownRest hchecksums hthereRest hrest⟩
          · rw [if_neg hdelta] at hrest hkeep
            constructor
            · apply hkeep (updated_keys hdb.keys hfind)
              refine ⟨b.update (populateLinks api b s.db) row, ?_, ?_, ?_⟩
              · rw [updated_beatmapSnapshot? hdb.keys hfind, if_pos rfl]
              · rw [updated_listedBeatmap, hlisted, Option.map_some, if_pos rfl]
              · exact reflects_update hdb.keys (hknown b List.mem_cons_self)
                  (hsizes.resolve_left hdelta) row
            · apply ih (updated_consistent hdb hfind) ((known_updated rest).mpr hknownRest)
                hchecksums _ hrest
              intro b' hb' row' hrow'
              have hne : b'.checksum ≠ b.checksum :=
                fun heq => hchecksum (heq ▸ List.mem_map_of_mem hb')
              rw [updated_beatmapSnapshot? hdb.keys hfind, if_neg hne] at hrow'
              obtain ⟨hlisted', hsizes'⟩ := hthereRest b' hb' row' hrow'
              exact ⟨(shown_updated hdb.keys hne hfind hrow' hlisted').2, hsizes'⟩

end Loops

/-! The call. -/

section Call

variable {combineChecksums : List String → String} {api : OsuApi} {db : Database} {s s' : Session}

theorem insertSet_listedId (row : BeatmapsetSnapshot) (rows : List BeatmapSnapshot) (kind : Kind)
    (owner : Int) :
    ((Write.insertBeatmapsetSnapshot row rows).apply db).listedId kind owner =
      if kind = .beatmapset ∧ owner = row.owner then some row.id else db.listedId kind owner :=
  listedId_relist .beatmapset kind row.toSnapshot owner _

theorem insertSet_beatmapSnapshots (row : BeatmapsetSnapshot) (rows : List BeatmapSnapshot) :
    ((Write.insertBeatmapsetSnapshot row rows).apply db).beatmapSnapshots =
      db.beatmapSnapshots := by
  simp only [Write.apply, moveRequests, relist_beatmapSnapshots, takeSnapshotId]

theorem insertSet_listedBeatmap (row : BeatmapsetSnapshot) (rows : List BeatmapSnapshot)
    (owner : Int) :
    ((Write.insertBeatmapsetSnapshot row rows).apply db).listedBeatmap owner =
      db.listedBeatmap owner := by
  rw [listedBeatmap, listedBeatmap, insertSet_listedId, insertSet_beatmapSnapshots,
    if_neg (by simp)]

theorem snapshotBeatmapset_consistent {checksum : String} (hdb : s.db.Consistent)
    (h : snapshotBeatmapset api checksum s = .ok s') : s'.db.Consistent := by
  obtain ⟨next, rows, hrows, -, rfl⟩ := snapshotBeatmapset_ok.mp h
  have hnext : next.db.Consistent := by
    apply snapshotBeatmaps_induction (fun s => s.db.Consistent) _ hdb hrows
    intro b _ s hs _
    exact inserted_consistent hs
  constructor
  · exact hnext.keys.insertBeatmapsetSnapshot rows rfl
  · intro owner id hid
    rw [Session.write, insertSet_beatmapSnapshots]
    rw [Session.write, insertSet_listedId, if_neg (by simp)] at hid
    exact hnext.listed owner id hid
  · rw [Session.write, insertSet_beatmapSnapshots]
    exact hnext.owned

theorem updateBeatmaps_consistent {beatmaps : List BeatmapDict} (hdb : s.db.Consistent)
    (h : updateBeatmaps api beatmaps s = .ok s') : s'.db.Consistent := by
  apply updateBeatmaps_induction (fun s => s.db.Consistent) _ hdb h
  intro b _ s row hs hrow
  exact updated_consistent hs hrow

/-- A call that succeeds keeps the database consistent. -/
theorem archive_consistent (hdb : db.Consistent) (h : archive combineChecksums api db = .ok s) :
    s.db.Consistent := by
  have hstart := Consistent.of_populates (start_populates api db) hdb
  unfold archive at h
  dsimp only at h
  split at h
  · exact snapshotBeatmapset_consistent hstart h
  · rename_i found hfound
    have hfound' := ((start_populates api db).beatmapsetSnapshot? _).trans hfound
    obtain ⟨next, hnext, rfl⟩ := (updateBeatmapset_ok hstart.keys hfound').mp h
    have hconsistent := updateBeatmaps_consistent hstart hnext
    split
    · exact hconsistent
    · refine { hconsistent with keys := ?_ }
      have hmem : found ∈ next.db.beatmapsetSnapshots := by
        rw [(updateBeatmaps_writes 0 hstart.keys hnext).1]
        exact List.mem_of_find?_eq_some hfound'
      exact hconsistent.keys.updateBeatmapsetSnapshot (api.beatmapset.update found) hmem rfl

theorem consistent_empty : Database.empty.Consistent where
  keys := keys_empty
  listed owner id hid := by cases hid
  owned row hrow := by cases hrow

theorem consistent_read (order : ReadOrder) (hdb : db.Consistent) : (db.read order).Consistent where
  keys := keys_read order hdb.keys
  listed owner id hid := by
    obtain ⟨row, hrow, hrowId, howner⟩ := hdb.listed owner id hid
    exact ⟨order.row row, List.mem_map_of_mem hrow, hrowId, howner⟩
  owned row hrow := by
    obtain ⟨stored, hstored, rfl⟩ := List.mem_map.mp hrow
    intro hnil
    exact hdb.owned stored hstored (List.Perm.eq_nil (hnil ▸ (owners_row order stored).symm))

/-- The database of every run is consistent. -/
theorem database_consistent_of_run {calls : List Call}
    (hrun : Runs.run (step combineChecksums) calls .empty = some db) : db.Consistent := by
  apply Runs.invariant_of_steps Database.Consistent _ consistent_empty hrun
  intro call db db' hdb hstep
  unfold step at hstep
  split at hstep
  · rename_i s hs
    obtain rfl := Option.some.inj hstep
    exact archive_consistent (consistent_read call.order hdb) hs
  · obtain rfl := Option.some.inj hstep
    exact hdb

/-- The branch that inserts. -/
theorem converged_of_new (hdb : db.Consistent) (hknown : TagsKnown api api.beatmapset.beatmaps db)
    (hnew : db.beatmapsetSnapshot? (combineChecksums api.beatmapset.checksums) = none)
    (hsteady : Steady combineChecksums api db) (h : archive combineChecksums api db = .ok s) :
    Converged combineChecksums api.beatmapset s.db := by
  have hpopulates := start_populates api db
  have hstart := Consistent.of_populates hpopulates hdb
  simp only [Steady, hnew] at hsteady
  simp only [archive, hnew] at h
  obtain ⟨next, rows, hrows, hnodup, rfl⟩ := snapshotBeatmapset_ok.mp h
  obtain ⟨hinserts, hchecksums, hfound⟩ :=
    snapshotBeatmaps_inserts api.beatmapset.beatmapset_ids hrows
  have hkeys := hinserts.keys hstart.keys
  have hmem : ∀ row ∈ rows, row ∈ next.db.beatmapSnapshots := fun row hrow =>
    List.mem_of_find?_eq_some (hfound row hrow)
  have htags : (Session.start api db).db.beatmapTags = db.beatmapTags :=
    populateOwnerProfiles_beatmapTags _ _ _
  have hshown : ∀ b ∈ api.beatmapset.beatmaps, Shown b next.db := by
    apply snapshotBeatmaps_shown hstart.keys _ api.beatmapset.beatmap_ids _ _ hrows
    · rw [TagsKnown, htags]
      exact hknown
    · exact (snapshotBeatmaps_nodup hstart.keys api.beatmapset.beatmapset_ids hrows).mp hnodup
    · simp only [hpopulates.beatmapSnapshot?, listedBeatmap_populates hpopulates]
      exact hsteady
  constructor
  · refine ⟨api.beatmapset.snapshot (combineChecksums api.beatmapset.checksums) rows next.db,
      ?_, rfl, ?_, rfl⟩
    · rw [Session.write, listedBeatmapset, insertSet_listedId, if_pos ⟨rfl, rfl⟩, Option.bind_some]
      apply find?_id_of_mem (hkeys.insertBeatmapsetSnapshot rows rfl).beatmapsetIds
      simp only [Write.apply, moveRequests, relist_beatmapsetSnapshots]
      exact List.mem_append_right _ (List.mem_singleton_self _)
    · intro checksum
      rw [Session.write, linkedChecksums, insertSet_beatmapSnapshots,
        BeatmapsetDict.checksums, ← hchecksums, List.mem_map, List.mem_map]
      constructor
      · rintro ⟨row, hrow, rfl⟩
        obtain ⟨hrow, hid⟩ := List.mem_filter.mp hrow
        obtain ⟨linked, hlinked, hsame⟩ := List.mem_map.mp (of_decide_eq_true hid)
        obtain rfl := List.inj_on_of_nodup_map hkeys.beatmapIds (hmem linked hlinked) hrow hsame
        exact ⟨linked, hlinked, rfl⟩
      · rintro ⟨row, hrow, rfl⟩
        exact ⟨row, List.mem_filter.mpr ⟨hmem row hrow, decide_eq_true (List.mem_map_of_mem hrow)⟩,
          rfl⟩
  · intro b hb
    obtain ⟨row, hrow, hlisted, hreflects⟩ := hshown b hb
    refine ⟨row, ?_, by simpa using List.find?_some hrow, hreflects⟩
    rw [Session.write, insertSet_listedBeatmap, hlisted]

/-- Beatmaps that are listed with their checksums have different ones. -/
theorem checksums_nodup_of_listed {p : BeatmapsetDict} (hdb : db.Consistent)
    (hthere : ∀ b ∈ p.beatmaps, (db.beatmapSnapshot? b.checksum).isSome)
    (hlisted : ∀ b ∈ p.beatmaps, ∀ row, db.beatmapSnapshot? b.checksum = some row →
      db.listedBeatmap b.id = some row) : p.checksums.Nodup := by
  apply (List.Nodup.of_map _ p.beatmap_ids).map_on
  intro b hb b' hb' hchecksum
  obtain ⟨row, hrow⟩ := Option.isSome_iff_exists.mp (hthere b hb)
  have hrow' : db.beatmapSnapshot? b'.checksum = some row := hchecksum ▸ hrow
  have howner := owner_of_listedBeatmap hdb (hlisted b hb row hrow)
  have howner' := owner_of_listedBeatmap hdb (hlisted b' hb' row hrow')
  exact List.inj_on_of_nodup_map p.beatmap_ids hb hb' (howner.symm.trans howner')

/-- The branch that updates. -/
theorem converged_of_known (hdb : db.Consistent) (hknown : TagsKnown api api.beatmapset.beatmaps db)
    {found : BeatmapsetSnapshot}
    (hfound : db.beatmapsetSnapshot? (combineChecksums api.beatmapset.checksums) = some found)
    (hsteady : Steady combineChecksums api db) (h : archive combineChecksums api db = .ok s) :
    Converged combineChecksums api.beatmapset s.db := by
  have hpopulates := start_populates api db
  have hstart := Consistent.of_populates hpopulates hdb
  simp only [Steady, hfound] at hsteady
  obtain ⟨hlistedSet, hlinked, hthere⟩ := hsteady
  simp only [archive, hfound] at h
  have hfound' := (hpopulates.beatmapsetSnapshot? _).trans hfound
  obtain ⟨next, hnext, rfl⟩ := (updateBeatmapset_ok hstart.keys hfound').mp h
  have htags : (Session.start api db).db.beatmapTags = db.beatmapTags :=
    populateOwnerProfiles_beatmapTags _ _ _
  have hisSome := (updateBeatmaps_isOk hstart.keys).mp ⟨next, hnext⟩
  simp only [hpopulates.beatmapSnapshot?] at hisSome
  have hshown : ∀ b ∈ api.beatmapset.beatmaps, Shown b next.db := by
    apply updateBeatmaps_shown hstart _ _ _ hnext
    · rw [TagsKnown, htags]
      exact hknown
    · exact checksums_nodup_of_listed hdb hisSome fun b hb row hrow => (hthere b hb row hrow).1
    · simp only [hpopulates.beatmapSnapshot?, listedBeatmap_populates hpopulates]
      exact hthere
  -- The loop leaves the listing of the beatmapset and its links.
  have hkept : next.db.listedBeatmapset api.beatmapset.id = some found ∧
      next.db.linkedChecksums found = db.linkedChecksums found := by
    refine (updateBeatmaps_induction
      (fun s => s.db.Keys ∧ s.db.listedBeatmapset api.beatmapset.id = some found ∧
      s.db.linkedChecksums found = db.linkedChecksums found) ?_ ⟨hstart.keys, ?_, ?_⟩ hnext).2
    · rintro b - s row ⟨hkeys, hlisted, hlinks⟩ hrow
      refine ⟨updated_keys hkeys hrow, ?_, (updated_linkedChecksums hkeys hrow found).trans hlinks⟩
      exact (listedBeatmapset_populates (populateLinks_populates api b s.db) _).trans hlisted
    · exact (listedBeatmapset_populates hpopulates _).trans hlistedSet
    · exact linkedChecksums_populates hpopulates found
  have hchecksum : found.checksum = combineChecksums api.beatmapset.checksums := by
    simpa using List.find?_some hfound
  by_cases hdelta : api.beatmapset.delta found = []
  · rw [if_pos hdelta]
    constructor
    · refine ⟨found, hkept.1, hchecksum, ?_, (delta_eq_nil_iff BeatmapsetColumn.mem_all).mp hdelta⟩
      rw [hkept.2]
      exact hlinked
    · intro b hb
      obtain ⟨row, hrow, hlisted, hreflects⟩ := hshown b hb
      exact ⟨row, hlisted, by simpa using List.find?_some hrow, hreflects⟩
  · rw [if_neg hdelta]
    constructor
    · refine ⟨api.beatmapset.update found, ?_, hchecksum, ?_,
        setattrs_delta BeatmapsetColumn.mem_all⟩
      · obtain ⟨id, hid, hrow⟩ := Option.bind_eq_some_iff.mp hkept.1
        have hreplace := find?_id_replace (fun r : BeatmapsetSnapshot => r.id)
          (show (api.beatmapset.update found).id = found.id from rfl) next.db.beatmapsetSnapshots id
        rw [hrow, Option.map_some, if_pos rfl] at hreplace
        exact Option.bind_eq_some_iff.mpr ⟨id, hid, hreplace⟩
      · intro checksum
        rw [← hlinked checksum, ← hkept.2]
        rfl
    · intro b hb
      obtain ⟨row, hrow, hlisted, hreflects⟩ := hshown b hb
      exact ⟨row, hlisted, by simpa using List.find?_some hrow, hreflects⟩

/-- A call that finds the listings in step with the stored versions leaves them
with the payload. -/
theorem converged_of_steady (hdb : db.Consistent)
    (hknown : TagsKnown api api.beatmapset.beatmaps db) (hsteady : Steady combineChecksums api db)
    (h : archive combineChecksums api db = .ok s) :
    Converged combineChecksums api.beatmapset s.db := by
  cases hfind : db.beatmapsetSnapshot? (combineChecksums api.beatmapset.checksums) with
  | none => exact converged_of_new hdb hknown hfind hsteady h
  | some found => exact converged_of_known hdb hknown hfind hsteady h

/-- In every history of calls, each call that finds the listings in step with
the stored versions, and succeeds, leaves them with the payload. -/
theorem archive_converges {calls : List Call} {call : Call}
    (hrun : Runs.run (step combineChecksums) calls .empty = some db)
    (hknown : TagsKnown call.api call.api.beatmapset.beatmaps db)
    (hsteady : Steady combineChecksums call.api (db.read call.order))
    (h : archive combineChecksums call.api (db.read call.order) = .ok s) :
    Converged combineChecksums call.api.beatmapset s.db :=
  converged_of_steady (consistent_read call.order (database_consistent_of_run hrun))
    hknown hsteady h

end Call

/-- A beatmap of a version: its id and checksum, how often it has been played, its owners and its
tags. -/
structure Difficulty where
  id : Int
  checksum : String
  playcount : Int
  owners : List Owner
  tags : List Nat

def Difficulty.dict (beatmapsetId : Int) (d : Difficulty) : BeatmapDict :=
  ⟨d.id, beatmapsetId, d.checksum, Function.update sampleColumns .playcount (Json.int d.playcount),
    d.owners, d.tags⟩

/-- A version of a beatmapset. -/
def version (id : Int) (beatmaps : List Difficulty) (hids : (beatmaps.map Difficulty.id).Nodup) :
    OsuApi where
  beatmapset :=
    { id := id
      userId := 7
      tags := ""
      columns := fun _ => .null
      beatmaps := beatmaps.map (Difficulty.dict id)
      beatmapset_ids := by
        intro b hb
        obtain ⟨entry, -, rfl⟩ := List.mem_map.mp hb
        rfl
      beatmap_ids := by simpa [Function.comp_def, Difficulty.dict] using hids }
  username userId := if userId = 7 then "peppy" else "guest"
  tags := [4, 5, 6]

/-- A beatmap is archived, and updated after it has been played and got another owner and tag. -/
def twoCalls : List Call :=
  [⟨.descending,
    version 1 [⟨10, "0cc175b9c0f1b6a831c399e269772661", 0, [⟨7, "peppy"⟩, ⟨8, "guest"⟩], [5, 4]⟩]
      (List.nodup_singleton _)⟩,
    ⟨.descending, version 1 [⟨10, "0cc175b9c0f1b6a831c399e269772661", 2, [⟨8, "guest"⟩], [4, 6]⟩]
      (List.nodup_singleton _)⟩]

/-- A second beatmap is added. -/
def thirdCall : Call :=
  ⟨.descending, version 1 [⟨10, "0cc175b9c0f1b6a831c399e269772661", 2, [⟨8, "guest"⟩], [4, 6]⟩,
    ⟨11, "92eb5ffee6ae2fec3ad71c777531578f", 0, [], [5]⟩] (by decide)⟩

/-- The next version takes over the snapshot of the first beatmap. -/
theorem archive_converges_third : ∃ db s, Runs.run (step combined) twoCalls .empty = some db ∧
    archive combined thirdCall.api (db.read thirdCall.order) = .ok s ∧
    Converged combined thirdCall.api.beatmapset s.db := by
  have hends : (Runs.run (step combined) twoCalls .empty).map (fun db =>
      (decide (TagsKnown thirdCall.api thirdCall.api.beatmapset.beatmaps db),
        decide (Steady combined thirdCall.api (db.read thirdCall.order)),
        (archive combined thirdCall.api (db.read thirdCall.order)).isOk)) = some
        (true, true, true) := by
    decide +kernel
  obtain ⟨db, hrun, hends⟩ := Option.map_eq_some_iff.mp hends
  obtain ⟨hknown, hends⟩ := Prod.mk.inj hends
  obtain ⟨hsteady, hok⟩ := Prod.mk.inj hends
  cases hs : archive combined thirdCall.api (db.read thirdCall.order) with
  | error e =>
      rw [hs] at hok
      cases hok
  | ok s =>
      exact ⟨db, s, hrun, hs,
        archive_converges hrun (of_decide_eq_true hknown) (of_decide_eq_true hsteady) hs⟩

/-- A version, the next one, and the first again: the listing stays with the
second. -/
theorem revert_not_converged :
    ¬ ∀ (calls : List Call) (call : Call) (db : Database) (s : Session),
      Runs.run (step combined) calls .empty = some db →
      TagsKnown call.api call.api.beatmapset.beatmaps db →
        archive combined call.api (db.read call.order) = .ok s →
        Converged combined call.api.beatmapset s.db := by
  intro hall
  let first : Call :=
    ⟨.ascending, sample 1 [(10, "0cc175b9c0f1b6a831c399e269772661")] (List.nodup_singleton _)⟩
  let second : Call :=
    ⟨.ascending, sample 1 [(10, "92eb5ffee6ae2fec3ad71c777531578f")] (List.nodup_singleton _)⟩
  have hends : (Runs.run (step combined) [first, second] .empty).map (fun db =>
      ((archive combined first.api (db.read first.order)).isOk,
        ((outcome combined first.api (db.read first.order)).db.listedBeatmapset 1).map fun row =>
          row.checksum)) =
        some (true, some (combined ["92eb5ffee6ae2fec3ad71c777531578f"])) := by
    decide +kernel
  obtain ⟨db, hrun, hends⟩ := Option.map_eq_some_iff.mp hends
  obtain ⟨hok, hlisted⟩ := Prod.mk.inj hends
  cases hs : archive combined first.api (db.read first.order) with
  | error e =>
      rw [hs] at hok
      cases hok
  | ok s =>
      rw [outcome_ok hs] at hlisted
      obtain ⟨row, hrow, hchecksum, -⟩ := (hall [first, second] first db s hrun (by
        intro b hb tag htag
        obtain rfl := List.mem_singleton.mp hb
        cases htag) hs).beatmapset
      have hrow' : s.db.listedBeatmapset 1 = some row := hrow
      rw [hrow', Option.map_some, hchecksum] at hlisted
      exact absurd hlisted (by decide +kernel)

end Graveboards.Archive.Manager
