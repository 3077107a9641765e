import Graveboards.Archive.Convergence

/-!
A second call of `archive`, with the payload of the first in any order of its beatmaps. The rows
that the first call has left are compared with the payload field by field.
-/

namespace Graveboards.Archive.Manager

open Library Database

/-! The changelog. -/

/-- `info` of a new snapshot. -/
structure Info where
  id : Nat
  owner : Int
  snapshotNumber : Nat
  checksum : String
  deriving DecidableEq

def Snapshot.info (row : Snapshot) : Info := ⟨row.id, row.owner, row.snapshotNumber, row.checksum⟩

/-- `self._changelog`. Of what is updated, the beatmap or beatmapset. -/
structure Changelog where
  snapshottedBeatmapset : Option Info
  snapshottedBeatmaps : List Info
  updatedBeatmapset : Option Int
  updatedBeatmaps : List Int
  deriving DecidableEq

/-- `_reset_changelog` -/
def Changelog.empty : Changelog := ⟨none, [], none, []⟩

/-- Each write is noted. -/
def Changelog.note (log : Changelog) : Write → Changelog
  | .insertBeatmapSnapshot row =>
      { log with snapshottedBeatmaps := log.snapshottedBeatmaps ++ [Snapshot.info row.toSnapshot] }
  | .updateBeatmapSnapshot old _ =>
      { log with updatedBeatmaps := log.updatedBeatmaps ++ [old.owner] }
  | .insertBeatmapsetSnapshot row _ =>
      { log with snapshottedBeatmapset := some (Snapshot.info row.toSnapshot) }
  | .updateBeatmapsetSnapshot old _ => { log with updatedBeatmapset := some old.owner }

/-- What `archive` returns. -/
def Session.changelog (s : Session) : Changelog := s.writes.foldl Changelog.note .empty

theorem note_ne_empty (log : Changelog) (w : Write) : log.note w ≠ .empty := by
  cases w with
  | insertBeatmapSnapshot row => simp [Changelog.note, Changelog.empty]
  | updateBeatmapSnapshot old new => simp [Changelog.note, Changelog.empty]
  | insertBeatmapsetSnapshot row rows => simp [Changelog.note, Changelog.empty]
  | updateBeatmapsetSnapshot old new => simp [Changelog.note, Changelog.empty]

theorem changelog_eq_empty {s : Session} : s.changelog = .empty ↔ s.writes = [] := by
  constructor
  · intro h
    rcases List.eq_nil_or_concat s.writes with hnil | ⟨earlier, w, hwrites⟩
    · exact hnil
    · rw [Session.changelog, hwrites, List.concat_eq_append, List.foldl_append] at h
      exact absurd h (note_ne_empty _ w)
  · intro h
    rw [Session.changelog, h]
    rfl

/-! The second call. -/

/-- The same payload, its beatmaps listed in any order. -/
structure BeatmapsetDict.SameAs (p p' : BeatmapsetDict) : Prop where
  id : p'.id = p.id
  userId : p'.userId = p.userId
  tags : p'.tags = p.tags
  columns : p'.columns = p.columns
  beatmaps : p'.beatmaps.Perm p.beatmaps

/-- A call with the payload again writes nothing. -/
def Repeats (combineChecksums : List String → String) (p : BeatmapsetDict) (db : Database) : Prop :=
  ∀ api : OsuApi, p.SameAs api.beatmapset → ∃ s, archive combineChecksums api db = .ok s ∧
    s.db.beatmapSnapshots = db.beatmapSnapshots ∧
    s.db.beatmapsetSnapshots = db.beatmapsetSnapshots ∧
    s.db.listings = db.listings ∧ s.db.requests = db.requests ∧ s.changelog = .empty

theorem delta_eq_nil {b : BeatmapDict} {row : BeatmapSnapshot} :
    b.delta row = [] ↔ row.columns = b.columns ∧ b.owners = row.ownerProfiles.map Profile.owner ∧
      b.topTagIds = row.beatmapTags := by
  rw [BeatmapDict.delta, List.append_eq_nil_iff, List.append_eq_nil_iff, List.map_eq_nil_iff,
    delta_eq_nil_iff BeatmapColumn.mem_all, and_assoc]
  simp

theorem BeatmapsetDict.delta_eq_nil {p : BeatmapsetDict} {row : BeatmapsetSnapshot} :
    p.delta row = [] ↔ row.columns = p.columns :=
  delta_eq_nil_iff BeatmapsetColumn.mem_all

section Quiet

variable {api : OsuApi} {beatmaps : List BeatmapDict} {s s' : Session}

/-- Nothing differs in the beatmaps. -/
def Unchanged (beatmaps : List BeatmapDict) (db : Database) : Prop :=
  ∀ b ∈ beatmaps, ∃ row, db.beatmapSnapshot? b.checksum = some row ∧ b.delta row = []

theorem updateBeatmaps_of_unchanged (h : Unchanged beatmaps s.db) :
    updateBeatmaps api beatmaps s = .ok s := by
  induction beatmaps with
  | nil => rfl
  | cons b rest ih =>
      obtain ⟨⟨row, hrow, hdelta⟩, hrest⟩ := List.forall_mem_cons.mp h
      rw [updateBeatmaps, updateBeatmap_some hrow, if_pos hdelta, ok_bind]
      exact ih hrest

/-- A loop that writes nothing has found nothing that differs. -/
theorem unchanged_of_writes (hkeys : s.db.Keys) (h : updateBeatmaps api beatmaps s = .ok s')
    (hwrites : s'.writes.length ≤ s.writes.length) : Unchanged beatmaps s.db := by
  induction beatmaps generalizing s with
  | nil =>
      intro b hb
      cases hb
  | cons b rest ih =>
      obtain ⟨next, hnext, hrest⟩ := bind_eq_ok h
      cases hfind : s.db.beatmapSnapshot? b.checksum with
      | none =>
          rw [updateBeatmap_none hfind] at hnext
          cases hnext
      | some row =>
          rw [updateBeatmap_some hfind] at hnext
          cases hnext
          by_cases hdelta : b.delta row = []
          · rw [if_pos hdelta] at hrest
            exact List.forall_mem_cons.mpr ⟨⟨row, hfind, hdelta⟩, ih hkeys hrest hwrites⟩
          · rw [if_neg hdelta] at hrest
            obtain ⟨-, added, hadded, -⟩ := updateBeatmaps_writes 0 (updated_keys hkeys hfind) hrest
            rw [hadded, Session.updated, Session.write] at hwrites
            simp only [List.length_append, List.length_singleton] at hwrites
            omega

end Quiet

section Call

variable {combineChecksums : List String → String} {api : OsuApi} {db : Database} {s : Session}

/-- A call that finds the combined checksum and nothing that differs only populates. -/
theorem archive_of_unchanged (hkeys : db.Keys) {found : BeatmapsetSnapshot}
    (hfind : db.beatmapsetSnapshot? (combineChecksums api.beatmapset.checksums) = some found)
    (hcolumns : found.columns = api.beatmapset.columns)
    (hsame : Unchanged api.beatmapset.beatmaps db) :
    archive combineChecksums api db = .ok (Session.start api db) := by
  have hpopulates := start_populates api db
  have hfound := (hpopulates.beatmapsetSnapshot? _).trans hfind
  have hstart : Unchanged api.beatmapset.beatmaps (Session.start api db).db := by
    simp only [Unchanged, hpopulates.beatmapSnapshot?]
    exact hsame
  simp only [archive, hfind]
  rw [updateBeatmapset_ok (hpopulates.keys hkeys) hfound]
  exact ⟨_,
    updateBeatmaps_of_unchanged hstart, by rw [if_pos (BeatmapsetDict.delta_eq_nil.mpr hcolumns)]⟩

/-- A call that writes nothing has found the combined checksum and nothing that differs. -/
theorem unchanged_of_archive (hkeys : db.Keys) (h : archive combineChecksums api db = .ok s)
    (hwrites : s.writes = []) :
    (∃ row, db.beatmapsetSnapshot? (combineChecksums api.beatmapset.checksums) = some row ∧
      row.columns = api.beatmapset.columns) ∧ Unchanged api.beatmapset.beatmaps db := by
  have hpopulates := start_populates api db
  have hkeys' := hpopulates.keys hkeys
  cases hfind : db.beatmapsetSnapshot? (combineChecksums api.beatmapset.checksums) with
  | none =>
      simp only [archive, hfind] at h
      obtain ⟨next, rows, -, -, rfl⟩ := snapshotBeatmapset_ok.mp h
      simp [Session.write] at hwrites
  | some found =>
      have hfound := (hpopulates.beatmapsetSnapshot? _).trans hfind
      simp only [archive, hfind] at h
      obtain ⟨next, hnext, rfl⟩ := (updateBeatmapset_ok hkeys' hfound).mp h
      by_cases hdelta : api.beatmapset.delta found = []
      · rw [if_pos hdelta] at hwrites
        have hsame := unchanged_of_writes hkeys' hnext (by simp [hwrites])
        simp only [Unchanged, hpopulates.beatmapSnapshot?] at hsame
        exact ⟨⟨found, rfl, BeatmapsetDict.delta_eq_nil.mp hdelta⟩, hsame⟩
      · rw [if_neg hdelta] at hwrites
        simp [Session.write] at hwrites

/-- The calls with a payload again write nothing exactly if the combined checksum of every order is
found, with the columns of the payload, and nothing differs in the beatmaps. -/
theorem repeats_iff (hkeys : db.Keys) {p : BeatmapsetDict} (username : Int → String)
    (tags : List Nat) :
    Repeats combineChecksums p db ↔
      (∀ order : List BeatmapDict, order.Perm p.beatmaps →
        ∃ row, db.beatmapsetSnapshot? (combineChecksums (order.map BeatmapDict.checksum)) =
          some row ∧
          row.columns = p.columns) ∧ Unchanged p.beatmaps db := by
  constructor
  · intro h
    have horder (order : List BeatmapDict) (hperm : order.Perm p.beatmaps) :
        (∃ row, db.beatmapsetSnapshot? (combineChecksums (order.map BeatmapDict.checksum)) =
          some row ∧
          row.columns = p.columns) ∧ Unchanged order db := by
      let payload : BeatmapsetDict :=
        { p with
          beatmaps := order
          beatmapset_ids := fun b hb => p.beatmapset_ids b (hperm.subset hb)
          beatmap_ids := (hperm.map BeatmapDict.id).nodup_iff.mpr p.beatmap_ids }
      obtain ⟨s, hs, -, -, -, -, hlog⟩ := h ⟨payload, username, tags⟩ ⟨rfl, rfl, rfl, rfl, hperm⟩
      exact unchanged_of_archive hkeys hs (changelog_eq_empty.mp hlog)
    exact ⟨fun order hperm => (horder order hperm).1, (horder p.beatmaps (List.Perm.refl _)).2⟩
  · rintro ⟨horder, hsame⟩ api hpayload
    obtain ⟨row, hrow, hcolumns⟩ := horder api.beatmapset.beatmaps hpayload.beatmaps
    have hpopulates := start_populates api db
    refine ⟨Session.start api db, ?_, hpopulates.beatmapSnapshots, hpopulates.beatmapsetSnapshots,
      hpopulates.listings, hpopulates.requests, changelog_eq_empty.mpr rfl⟩
    apply archive_of_unchanged hkeys hrow (hcolumns.trans hpayload.columns.symm)
    intro b hb
    exact hsame b (hpayload.beatmaps.subset hb)

end Call

/-! What the first call leaves. -/

/-- The owners are profiles with their names, as many as the payload lists. -/
def BeatmapDict.NamesProfiles (b : BeatmapDict) (profiles owners : List Profile) : Prop :=
  owners ≠ [] ∧ owners ⊆ profiles ∧ b.owners = owners.map Profile.owner

/-- The tags and owners are listed in the order in which they are read back. -/
structure BeatmapDict.Listed (b : BeatmapDict) (order : ReadOrder) (profiles : List Profile) :
    Prop where
  owners : ∃ owners, b.NamesProfiles profiles owners ∧
    order.owners b.checksum (sortedOwners owners) = owners
  tags : order.tags b.checksum (sortedTags b.topTagIds) = b.topTagIds

/-- An update links each tag and owner that is listed, once. -/
structure BeatmapDict.OnePage (b : BeatmapDict) : Prop where
  fits : b.FitsPage
  tags : b.topTagIds.Nodup
  owners : b.ownerIds.Nodup

def OsuApi.Knows (api : OsuApi) (b : BeatmapDict) (db : Database) : Prop :=
  ∀ tag ∈ b.topTagIds, tag ∈ db.beatmapTags ∨ tag ∈ api.tags

section Pages

variable {α : Type} {primaryKey : α → Nat} {condition : α → Bool} {rows page : List α}

theorem getMany_length_le :
    (Daemon.getMany primaryKey condition Paging.queryDefaultLimit rows).length ≤
    Paging.queryDefaultLimit := by
  rw [Daemon.getMany_length]
  exact Nat.min_le_left _ _

theorem byKey_pairwise (hkeys : (rows.map primaryKey).Nodup) :
    ((byKey primaryKey rows).map primaryKey).Pairwise (· < ·) := by
  have hnodup : ((byKey primaryKey rows).map primaryKey).Nodup :=
    ((byKey_perm primaryKey rows).map primaryKey).nodup_iff.mpr hkeys
  have hle := List.pairwise_insertionSort (fun a b => primaryKey a ≤ primaryKey b) rows
  rw [List.pairwise_map]
  refine (hle.and (List.pairwise_map.mp hnodup)).imp ?_
  rintro a b ⟨hab, hne⟩
  omega

/-- The order of the keys is the same for the same rows. -/
theorem byKey_congr (hkeys : (rows.map primaryKey).Nodup) (hperm : rows.Perm page) :
    byKey primaryKey rows = byKey primaryKey page := by
  have hkeys' := (hperm.map primaryKey).nodup_iff.mp hkeys
  apply List.Perm.eq_of_pairwise _ (List.pairwise_map.mp (byKey_pairwise hkeys))
    (List.pairwise_map.mp (byKey_pairwise hkeys'))
  · exact (byKey_perm primaryKey rows).trans (hperm.trans (byKey_perm primaryKey page).symm)
  · intro a b _ _ hab hba
    omega

/-- A page is in the order of the primary keys. -/
theorem getMany_pairwise (hkeys : (rows.map primaryKey).Nodup) (limit : Nat) :
    ((Daemon.getMany primaryKey condition limit rows).map primaryKey).Pairwise (· < ·) := by
  have hsorted := byKey_pairwise (hkeys.sublist (List.filter_sublist.map primaryKey) :
    ((rows.filter condition).map primaryKey).Nodup)
  exact hsorted.sublist ((List.take_sublist _ _).trans (List.drop_sublist _ _) |>.map _)

/-- All rows that meet the condition, in the order of their keys, are the page. -/
theorem getMany_eq (hkeys : (rows.map primaryKey).Nodup)
    (hmem : ∀ row, row ∈ page ↔ row ∈ rows ∧ condition row = true)
    (hpage : (page.map primaryKey).Pairwise (· < ·))
    (hlength : page.length ≤ Paging.queryDefaultLimit) :
    Daemon.getMany primaryKey condition Paging.queryDefaultLimit rows = page := by
  have hpageNodup : page.Nodup := List.Nodup.of_map primaryKey (hpage.imp fun h => Nat.ne_of_lt h)
  have hfilter : page.Perm (rows.filter condition) := by
    rw [List.perm_ext_iff_of_nodup hpageNodup (hkeys.of_map.filter _)]
    intro row
    rw [hmem, List.mem_filter]
  have hall := @Daemon.getMany_perm _ primaryKey _ _ (hfilter.length_eq ▸ hlength)
  apply List.Perm.eq_of_pairwise _ (List.pairwise_map.mp (getMany_pairwise hkeys _))
    (List.pairwise_map.mp hpage)
    (hall.trans hfilter.symm)
  intro a b _ _ hab hba
  omega

end Pages

/-- Rows of a table with the same values in a unique column. -/
theorem eq_of_map_eq {α β : Type} {f : α → β} {table : List α} (hnodup : (table.map f).Nodup)
    {rows rows' : List α} (hrows : rows ⊆ table) (hrows' : rows' ⊆ table)
    (h : rows.map f = rows'.map f) : rows = rows' := by
  induction rows generalizing rows' with
  | nil =>
      cases rows' with
      | nil => rfl
      | cons row' rest' => cases h
  | cons row rest ih =>
      cases rows' with
      | nil => cases h
      | cons row' rest' =>
          obtain ⟨hrow, hrest⟩ := List.cons_subset.mp hrows
          obtain ⟨hrow', hrest'⟩ := List.cons_subset.mp hrows'
          obtain ⟨hfirst, hothers⟩ := List.cons.inj h
          rw [List.inj_on_of_nodup_map hnodup hrow hrow' hfirst, ih hrest hrest' hothers]

section Links

variable {api : OsuApi} {b : BeatmapDict} {mid db : Database}

/-- The owners that are populated are the only ones that the payload can list. -/
theorem owners_eq (hkeys : db.Keys)
    (hprofiles : (populateLinks api b mid).db.profiles ⊆ db.profiles) {owners : List Profile}
    (h : b.NamesProfiles db.profiles owners) : (populateLinks api b mid).owners = owners := by
  obtain ⟨hne, hsub, howners⟩ := h
  have hids : b.ownerIds = owners.map Profile.userId := by
    rw [BeatmapDict.ownerIds, howners, if_neg (by simpa using hne), List.map_map]
    rfl
  apply eq_of_map_eq hkeys.userIds _ hsub ((populateLinks_userIds api b mid).trans hids)
  exact fun profile hprofile => hprofiles (populateLinks_owners_mem api b mid profile hprofile)

theorem tags_eq_iff : b.topTagIds = (populateLinks api b mid).tags ↔ api.Knows b mid := by
  rw [populateLinks_tags, eq_comm, List.filter_eq_self]
  simp [OsuApi.Knows]

/-- Nothing differs in a new snapshot when it is read exactly if the payload lists known tags, and
owners with the names of their profiles, in the order in which they are read. -/
theorem delta_snapshot_iff (hkeys : db.Keys)
    (hprofiles : (populateLinks api b mid).db.profiles ⊆ db.profiles) (order : ReadOrder) :
    b.delta (order.row (b.snapshot (populateLinks api b mid))) = [] ↔
      b.Listed order db.profiles ∧ api.Knows b mid := by
  rw [delta_eq_nil]
  constructor
  · rintro ⟨-, howners, htags⟩
    have hread := owners_row order (b.snapshot (populateLinks api b mid))
    have hnames : b.NamesProfiles db.profiles
        (order.row (b.snapshot (populateLinks api b mid))).ownerProfiles := by
      refine ⟨?_, ?_, howners⟩
      · intro hnil
        exact owners_ne_nil api b mid (List.Perm.eq_nil (hnil ▸ hread.symm))
      · intro profile hprofile
        exact hprofiles (populateLinks_owners_mem api b mid profile (hread.mem_iff.mp hprofile))
    have hsame := owners_eq hkeys hprofiles hnames
    have hknown : api.Knows b mid := by
      have hlength := (tags_row order (b.snapshot (populateLinks api b mid))).length_eq
      rw [← htags, BeatmapDict.snapshot, populateLinks_tags] at hlength
      have hall := List.filter_eq_self.mp (List.filter_sublist.eq_of_length hlength.symm)
      exact fun tag htag => of_decide_eq_true (hall tag htag)
    refine ⟨⟨⟨_, hnames, ?_⟩, ?_⟩, hknown⟩
    · rw [← hsame]
      exact hsame.symm
    · rw [tags_eq_iff.mpr hknown]
      exact htags.symm.trans (tags_eq_iff.mpr hknown)
  · rintro ⟨⟨⟨owners, hnames, howners⟩, htags⟩, hknown⟩
    have hsame := owners_eq hkeys hprofiles hnames
    refine ⟨rfl, ?_, ?_⟩
    · rw [ReadOrder.row, BeatmapDict.snapshot, hsame, howners]
      exact hnames.2.2
    · rw [ReadOrder.row, BeatmapDict.snapshot, ← tags_eq_iff.mpr hknown]
      exact htags.symm

/-- The page of the profiles that are linked. -/
theorem getProfiles_owners (hmid : mid.Keys) :
    (∀ profile ∈ getProfiles ((populateLinks api b mid).owners.map Profile.id)
      (populateLinks api b mid).db,
      profile ∈ (populateLinks api b mid).owners) ∧
    (((populateLinks api b mid).owners.map Profile.id).Nodup →
      (populateLinks api b mid).owners.length ≤ Paging.queryDefaultLimit →
      getProfiles ((populateLinks api b mid).owners.map Profile.id) (populateLinks api b mid).db =
        sortedOwners (populateLinks api b mid).owners) := by
  have hkeys := (populateLinks_populates api b mid).keys hmid
  have hlinked := populateLinks_owners_mem api b mid
  have hmem (profile : Profile) : profile ∈ (populateLinks api b mid).owners ↔
      profile ∈ (populateLinks api b mid).db.profiles ∧
        decide (profile.id ∈ (populateLinks api b mid).owners.map Profile.id) = true := by
    constructor
    · intro hprofile
      exact ⟨hlinked profile hprofile, decide_eq_true (List.mem_map_of_mem hprofile)⟩
    · rintro ⟨hprofile, hid⟩
      obtain ⟨owner, howner, hsame⟩ := List.mem_map.mp (of_decide_eq_true hid)
      exact List.inj_on_of_nodup_map hkeys.profileIds (hlinked owner howner) hprofile hsame ▸ howner
  constructor
  · intro profile hprofile
    exact (hmem profile).mpr (Daemon.mem_of_mem_getMany hprofile)
  · intro hnodup hlength
    have hperm := byKey_perm Profile.id (populateLinks api b mid).owners
    apply getMany_eq hkeys.profileIds _ (byKey_pairwise hnodup) (hperm.length_eq ▸ hlength)
    intro profile
    rw [← hmem, ← hperm.mem_iff]

/-- The page of the tags that are linked. -/
theorem getBeatmapTags_tags (hmid : mid.Keys) (hnodup : b.topTagIds.Nodup)
    (hfits : b.topTagIds.length ≤ Paging.queryDefaultLimit) (hknown : api.Knows b mid) :
    getBeatmapTags (populateLinks api b mid).tags (populateLinks api b mid).db =
      sortedTags b.topTagIds := by
  have hkeys := (populateLinks_populates api b mid).keys hmid
  have htags := tags_eq_iff.mpr hknown
  have hperm := byKey_perm id b.topTagIds
  apply getMany_eq (by simpa using hkeys.tagIds) _ (byKey_pairwise (by simpa using hnodup))
    (hperm.length_eq ▸ hfits)
  intro tag
  rw [hperm.mem_iff, ← htags]
  constructor
  · intro htag
    exact ⟨populateLinks_tags_mem api b mid tag (htags ▸ htag), decide_eq_true htag⟩
  · rintro ⟨-, htag⟩
    exact of_decide_eq_true htag

theorem sortedTags_perm (tags : List Nat) : (sortedTags tags).Perm tags := byKey_perm id tags

theorem sortedOwners_perm (owners : List Profile) : (sortedOwners owners).Perm owners :=
  byKey_perm Profile.id owners

theorem sortedTags_congr {tags tags' : List Nat} (hnodup : tags.Nodup) (hperm : tags.Perm tags') :
    sortedTags tags = sortedTags tags' :=
  byKey_congr (by simpa using hnodup) hperm

theorem sortedOwners_congr {owners owners' : List Profile} (hnodup : (owners.map Profile.id).Nodup)
    (hperm : owners.Perm owners') : sortedOwners owners = sortedOwners owners' :=
  byKey_congr hnodup hperm

/-- What is read of the tags that an update links. -/
theorem read_tags_iff (hmid : mid.Keys) (order : ReadOrder) (checksum : String) :
    b.topTagIds = order.tags checksum
        (sortedTags (getBeatmapTags (populateLinks api b mid).tags (populateLinks api b mid).db)) ↔
      order.tags checksum (sortedTags b.topTagIds) = b.topTagIds ∧ b.topTagIds.Nodup ∧
        b.topTagIds.length ≤ Paging.queryDefaultLimit ∧ api.Knows b mid := by
  have hkeys := (populateLinks_populates api b mid).keys hmid
  constructor
  · intro htags
    have hperm : b.topTagIds.Perm
        (getBeatmapTags (populateLinks api b mid).tags (populateLinks api b mid).db) := by
      conv_lhs => rw [htags]
      exact (order.tags_perm _ _).trans (sortedTags_perm _)
    have hpage := @getMany_pairwise Nat id (· ∈ (populateLinks api b mid).tags) _
      (by simpa using hkeys.tagIds) Paging.queryDefaultLimit
    rw [List.map_id] at hpage
    have hnodup : b.topTagIds.Nodup := hperm.nodup_iff.mpr (hpage.imp fun h => Nat.ne_of_lt h)
    refine ⟨?_, hnodup, hperm.length_eq ▸ getMany_length_le, ?_⟩
    · rw [sortedTags_congr hnodup hperm]
      exact htags.symm
    · intro tag htag
      obtain ⟨-, hmem⟩ := Daemon.mem_of_mem_getMany (hperm.mem_iff.mp htag)
      have hmem := of_decide_eq_true hmem
      rw [populateLinks_tags] at hmem
      exact of_decide_eq_true (List.mem_filter.mp hmem).2
  · rintro ⟨hread, hnodup, hfits, hknown⟩
    have hsorted := sortedTags_perm b.topTagIds
    rw [getBeatmapTags_tags hmid hnodup hfits hknown,
      sortedTags_congr (hsorted.nodup_iff.mpr hnodup) hsorted, hread]

/-- What is read of the owners that an update links. -/
theorem read_owners_iff (hmid : mid.Keys) (hkeys : db.Keys)
    (hprofiles : (populateLinks api b mid).db.profiles ⊆ db.profiles) (order : ReadOrder)
    (checksum : String) :
    b.owners =
      (order.owners checksum
        (sortedOwners (getProfiles ((populateLinks api b mid).owners.map Profile.id)
        (populateLinks api b mid).db))).map Profile.owner ↔
      (∃ owners, b.NamesProfiles db.profiles owners ∧
        order.owners checksum (sortedOwners owners) = owners) ∧
        b.ownerIds.Nodup ∧ b.ownerIds.length ≤ Paging.queryDefaultLimit := by
  have hkeys' := (populateLinks_populates api b mid).keys hmid
  obtain ⟨hlinked, hall⟩ := @getProfiles_owners api b mid hmid
  have hids := populateLinks_userIds api b mid
  constructor
  · intro howners
    set page := getProfiles ((populateLinks api b mid).owners.map Profile.id)
      (populateLinks api b mid).db with hpage
    set owners := order.owners checksum (sortedOwners page)
    have hperm : owners.Perm page := (order.owners_perm _ _).trans (sortedOwners_perm _)
    have htable : ∀ profile ∈ page, profile ∈ (populateLinks api b mid).db.profiles :=
      fun profile hprofile => populateLinks_owners_mem api b mid profile (hlinked profile hprofile)
    have hnodup : (page.map Profile.id).Nodup :=
      (getMany_pairwise hkeys'.profileIds _).imp fun h => Nat.ne_of_lt h
    have hnames : b.NamesProfiles db.profiles owners := by
      refine ⟨?_, ?_, howners⟩
      · intro hnil
        have howned : page ≠ [] := @update_owned api b mid (b.snapshot (populateLinks api b mid))
        exact howned (List.Perm.eq_nil (hnil ▸ hperm.symm))
      · exact fun profile hprofile => hprofiles (htable profile (hperm.mem_iff.mp hprofile))
    have hsame : (populateLinks api b mid).owners = owners := owners_eq hkeys hprofiles hnames
    refine ⟨⟨owners, hnames, ?_⟩, ?_, ?_⟩
    · rw [← sortedOwners_congr hnodup hperm.symm]
    · rw [← hids, hsame, (hperm.map Profile.userId).nodup_iff,
        nodup_map_iff_of_subset hkeys'.userIds htable,
        ← nodup_map_iff_of_subset hkeys'.profileIds htable]
      exact hnodup
    · rw [← hids, hsame, List.length_map, hperm.length_eq, hpage]
      exact getMany_length_le
  · rintro ⟨⟨owners, hnames, hread⟩, hnodup, hfits⟩
    have hsame := owners_eq hkeys hprofiles hnames
    have hownerIds : ((populateLinks api b mid).owners.map Profile.id).Nodup :=
      (populateLinks_owners_nodup api b hmid).mpr hnodup
    rw [← hids, List.length_map] at hfits
    have hsorted := sortedOwners_perm (populateLinks api b mid).owners
    rw [hall hownerIds hfits,
      sortedOwners_congr ((hsorted.map Profile.id).nodup_iff.mpr hownerIds) hsorted, hsame,
      hread]
    exact hnames.2.2

/-- Nothing differs in an updated snapshot when it is read exactly if, besides, no tag or owner is
listed twice, and no more of them than a page holds. -/
theorem delta_update_iff (hmid : mid.Keys) (hkeys : db.Keys)
    (hprofiles : (populateLinks api b mid).db.profiles ⊆ db.profiles) {row : BeatmapSnapshot}
    (hchecksum : row.checksum = b.checksum) (order : ReadOrder) :
    b.delta (order.row (b.update (populateLinks api b mid) row)) = [] ↔
      b.Listed order db.profiles ∧ b.OnePage ∧ api.Knows b mid := by
  have hcolumns : (order.row (b.update (populateLinks api b mid) row)).columns = b.columns :=
    setattrs_delta BeatmapColumn.mem_all
  have htags := @read_tags_iff api b mid hmid order b.checksum
  have howners := read_owners_iff hmid hkeys hprofiles order b.checksum
  rw [delta_eq_nil, and_iff_right hcolumns]
  simp only [ReadOrder.row, BeatmapDict.update, hchecksum]
  rw [htags, howners]
  constructor
  · rintro ⟨⟨hlisted, hids, howned⟩, hread, hnodup, hfits, hknown⟩
    refine ⟨⟨hlisted, hread⟩, ⟨⟨?_, ?_⟩, hnodup, hids⟩, hknown⟩
    · rw [hnodup.dedup]
      exact hfits
    · rw [hids.dedup]
      exact howned
  · rintro ⟨⟨hlisted, hread⟩, ⟨⟨hfits, howned⟩, hnodup, hids⟩, hknown⟩
    rw [hnodup.dedup] at hfits
    rw [hids.dedup] at howned
    exact ⟨⟨hlisted, hids, howned⟩, hread, hnodup, hfits, hknown⟩

end Links

/-! The rows after the loops. -/

section Loops

variable {api : OsuApi} {beatmaps : List BeatmapDict} {s s' : Session} {rows : List BeatmapSnapshot}

/-- Profiles stay, and the tags that are known stay so. -/
structure Grows (api : OsuApi) (db db' : Database) : Prop where
  profiles : db.profiles ⊆ db'.profiles
  known : ∀ tag, tag ∈ db'.beatmapTags ∨ tag ∈ api.tags ↔ tag ∈ db.beatmapTags ∨ tag ∈ api.tags

theorem Grows.refl (api : OsuApi) (db : Database) : Grows api db db :=
  ⟨fun _ h => h, fun _ => Iff.rfl⟩

theorem Grows.trans {db db' db'' : Database} (h : Grows api db db') (h' : Grows api db' db'') :
    Grows api db db'' :=
  ⟨List.Subset.trans h.profiles h'.profiles, fun tag => (h'.known tag).trans (h.known tag)⟩

theorem Grows.knows_iff {db db' : Database} (h : Grows api db db') (b : BeatmapDict) :
    api.Knows b db' ↔ api.Knows b db :=
  forall₂_congr fun tag _ => h.known tag

theorem populateLinks_grows (api : OsuApi) (b : BeatmapDict) (db : Database) :
    Grows api db (populateLinks api b db).db :=
  ⟨(populateLinks_populates api b db).profiles, populateLinks_known api b db⟩

theorem inserted_grows (api : OsuApi) (b : BeatmapDict) (s : Session) :
    Grows api (populateLinks api b s.db).db (s.inserted api b).db := by
  have hprofiles : (s.inserted api b).db.profiles = (populateLinks api b s.db).db.profiles := by
    simp only [Session.inserted, Session.write, Write.apply, relist_profiles, takeSnapshotId]
  have htags : (s.inserted api b).db.beatmapTags = (populateLinks api b s.db).db.beatmapTags := by
    simp only [Session.inserted, Session.write, Write.apply, relist_beatmapTags, takeSnapshotId]
  exact ⟨fun profile h => hprofiles ▸ h, fun tag => by rw [htags]⟩

theorem snapshotBeatmaps_grows (h : snapshotBeatmaps api beatmaps s = .ok (s', rows)) :
    Grows api s.db s'.db := by
  apply snapshotBeatmaps_induction (fun s' => Grows api s.db s'.db) _ (Grows.refl api s.db) h
  intro b _ s hs _
  exact hs.trans ((populateLinks_grows api b s.db).trans (inserted_grows api b s))

/-- The rows after the insertions: those that were there, and for each other beatmap a new one with
what was populated for it. -/
theorem snapshotBeatmaps_rows (hkeys : s.db.Keys)
    (hchecksums : (beatmaps.map BeatmapDict.checksum).Nodup)
    (h : snapshotBeatmaps api beatmaps s = .ok (s', rows)) :
    ∀ b ∈ beatmaps, s.db.beatmapSnapshot? b.checksum = none →
      ∃ mid : Database,
      s'.db.beatmapSnapshot? b.checksum = some (b.snapshot (populateLinks api b mid)) ∧
        Grows api s.db mid ∧ Grows api (populateLinks api b mid).db s'.db := by
  induction beatmaps generalizing s rows with
  | nil =>
      intro b hb
      cases hb
  | cons b rest ih =>
      obtain ⟨next, row, later, hfirst, hrest, -⟩ := snapshotBeatmaps_cons.mp h
      obtain ⟨hchecksum, hchecksums⟩ := List.nodup_cons.mp hchecksums
      have hgrows := snapshotBeatmaps_grows hrest
      rw [List.forall_mem_cons]
      cases hfind : s.db.beatmapSnapshot? b.checksum with
      | some found =>
          rw [snapshotBeatmap_found hfind] at hfirst
          cases hfirst
          exact ⟨fun hnone => absurd hnone (Option.some_ne_none _), ih hkeys hchecksums hrest⟩
      | none =>
          rw [snapshotBeatmap_new hfind] at hfirst
          split at hfirst
          · cases hfirst
            constructor
            · intro _
              refine ⟨s.db, ?_, Grows.refl api s.db, (inserted_grows api b s).trans hgrows⟩
              apply snapshotBeatmaps_induction
                (fun s' => s'.db.beatmapSnapshot? b.checksum =
                  some (b.snapshot (populateLinks api b s.db))) _ _ hrest
              · intro b' _ s hs hnone
                exact (inserted_inserts hnone).persists _ _ hs
              · rw [inserted_beatmapSnapshot? hfind, if_pos rfl]
            · intro b' hb' hnone
              have hne : b'.checksum ≠ b.checksum :=
                fun heq => hchecksum (heq ▸ List.mem_map_of_mem hb')
              obtain ⟨mid, hmid, hbefore, hafter⟩ :=
                ih (inserted_keys hkeys) hchecksums hrest b' hb' (by
                rw [inserted_beatmapSnapshot? hfind, if_neg hne]
                exact hnone)
              have hstep := (populateLinks_grows api b s.db).trans (inserted_grows api b s)
              exact ⟨mid, hmid, hstep.trans hbefore, hafter⟩
          · cases hfirst

/-- The row is what an update of the loop has left for the beatmap. -/
def Wrote (api : OsuApi) (start db : Database) (b : BeatmapDict) (row : BeatmapSnapshot) : Prop :=
  ∃ (mid : Database) (old : BeatmapSnapshot), mid.Keys ∧ old.checksum = b.checksum ∧
    row = b.update (populateLinks api b mid) old ∧ Grows api start mid ∧
    Grows api (populateLinks api b mid).db db

theorem Wrote.grows {start db db' : Database} {b : BeatmapDict} {row : BeatmapSnapshot}
    (h : Wrote api start db b row) (hgrows : Grows api db db') : Wrote api start db' b row := by
  obtain ⟨mid, old, hkeys, hchecksum, hrow, hbefore, hafter⟩ := h
  exact ⟨mid, old, hkeys, hchecksum, hrow, hbefore, hafter.trans hgrows⟩

theorem Wrote.delta_iff {start db : Database} {b : BeatmapDict} {row : BeatmapSnapshot}
    (h : Wrote api start db b row) (hkeys : db.Keys) (order : ReadOrder) :
    b.delta (order.row row) = [] ↔ b.Listed order db.profiles ∧ b.OnePage ∧ api.Knows b start := by
  obtain ⟨mid, old, hmid, hchecksum, rfl, hbefore, hafter⟩ := h
  rw [delta_update_iff hmid hkeys hafter.profiles hchecksum, hbefore.knows_iff]

theorem checksum_of_find {db : Database} {checksum : String} {row : BeatmapSnapshot}
    (h : db.beatmapSnapshot? checksum = some row) : row.checksum = checksum := by
  simpa using List.find?_some h

theorem links_grows (api : OsuApi) (b : BeatmapDict) (row : BeatmapSnapshot) (s : Session) :
    Grows api (populateLinks api b s.db).db (s.updated api b row).db :=
  ⟨fun _ h => h, fun _ => Iff.rfl⟩

theorem updated_grows (api : OsuApi) (b : BeatmapDict) (row : BeatmapSnapshot) (s : Session) :
    Grows api s.db (s.updated api b row).db :=
  (populateLinks_grows api b s.db).trans (links_grows api b row s)

/-- After the updates each row is as it was, or an update has left it. -/
theorem updateBeatmaps_rows (hkeys : s.db.Keys) (h : updateBeatmaps api beatmaps s = .ok s')
    {checksum : String} {row : BeatmapSnapshot} (hrow : s.db.beatmapSnapshot? checksum = some row) :
    Grows api s.db s'.db ∧ ∃ row', s'.db.beatmapSnapshot? checksum = some row' ∧
      (row' = row ∨ ∃ b ∈ beatmaps, b.checksum = checksum ∧ Wrote api s.db s'.db b row') := by
  refine (updateBeatmaps_induction (fun s' => s'.db.Keys ∧ Grows api s.db s'.db ∧
    ∃ row', s'.db.beatmapSnapshot? checksum = some row' ∧
      (row' = row ∨ ∃ b ∈ beatmaps, b.checksum = checksum ∧ Wrote api s.db s'.db b row')) ?_
    ⟨hkeys, Grows.refl api s.db, row, hrow, .inl rfl⟩ h).2
  rintro b hb s₁ found ⟨hkeys₁, hgrows, row', hrow', hwrote⟩ hfound
  have hstep := updated_grows api b found s₁
  refine ⟨updated_keys hkeys₁ hfound, hgrows.trans hstep, ?_⟩
  rw [updated_beatmapSnapshot? hkeys₁ hfound]
  by_cases hchecksum : checksum = b.checksum
  · rw [if_pos hchecksum]
    exact ⟨_, rfl,
      .inr ⟨b, hb, hchecksum.symm, s₁.db, found, hkeys₁, checksum_of_find hfound, rfl, hgrows,
      links_grows api b found s₁⟩⟩
  · rw [if_neg hchecksum]
    refine ⟨row', hrow', hwrote.imp_right ?_⟩
    rintro ⟨b', hb', hsame, hwrote⟩
    exact ⟨b', hb', hsame, hwrote.grows hstep⟩

/-- After the updates nothing differs in a beatmap, unless an update has left its row. -/
theorem updateBeatmaps_delta (hkeys : s.db.Keys) (h : updateBeatmaps api beatmaps s = .ok s') :
    ∀ b ∈ beatmaps, ∃ row, s'.db.beatmapSnapshot? b.checksum = some row ∧
      (b.delta row = [] ∨ ∃ b' ∈ beatmaps, b'.checksum = b.checksum ∧
        Wrote api s.db s'.db b' row) := by
  induction beatmaps generalizing s with
  | nil =>
      intro b hb
      cases hb
  | cons b rest ih =>
      obtain ⟨next, hnext, hrest⟩ := bind_eq_ok h
      cases hfind : s.db.beatmapSnapshot? b.checksum with
      | none =>
          rw [updateBeatmap_none hfind] at hnext
          cases hnext
      | some found =>
          rw [updateBeatmap_some hfind] at hnext
          cases hnext
          have hgrows :
              Grows api s.db (if b.delta found = [] then s else s.updated api b found).db := by
            split
            · exact Grows.refl api s.db
            · exact updated_grows api b found s
          have hkeys' : (if b.delta found = [] then s else s.updated api b found).db.Keys := by
            split
            · exact hkeys
            · exact updated_keys hkeys hfind
          -- What an update of the rest has left was left after the first step.
          have hlater : ∀ b' row,
              Wrote api (if b.delta found = [] then s else s.updated api b found).db s'.db b' row →
              Wrote api s.db s'.db b' row := by
            rintro b' row ⟨mid, old, hmid, hchecksum, hrow, hbefore, hafter⟩
            exact ⟨mid, old, hmid, hchecksum, hrow, hgrows.trans hbefore, hafter⟩
          rw [List.forall_mem_cons]
          constructor
          · have hrow :
                ∃ row, (if b.delta found = [] then s else s.updated api b found).db.beatmapSnapshot?
                b.checksum =
                some row ∧ (b.delta row = [] ∨ Wrote api s.db
                  (if b.delta found = [] then s else s.updated api b found).db b row) := by
              split
              · exact ⟨found, hfind, .inl (by assumption)⟩
              · refine ⟨_, by rw [updated_beatmapSnapshot? hkeys hfind, if_pos rfl], .inr ?_⟩
                exact ⟨s.db, found, hkeys, checksum_of_find hfind, rfl, Grows.refl api _,
                  links_grows api b found s⟩
            obtain ⟨row, hrow, hfirst⟩ := hrow
            obtain ⟨hafter, row', hrow', hsame | ⟨b', hb', hchecksum, hwrote⟩⟩ :=
              updateBeatmaps_rows hkeys' hrest hrow
            · refine ⟨row', hrow', ?_⟩
              subst hsame
              refine hfirst.imp_right fun hwrote => ?_
              exact ⟨b, List.mem_cons_self, rfl, hwrote.grows hafter⟩
            · exact ⟨row', hrow',
                .inr ⟨b', List.mem_cons_of_mem b hb', hchecksum, hlater _ _ hwrote⟩⟩
          · intro b' hb'
            obtain ⟨row, hrow, hdelta | ⟨b'', hb'', hchecksum, hwrote⟩⟩ := ih hkeys' hrest b' hb'
            · exact ⟨row, hrow, .inl hdelta⟩
            · exact ⟨row, hrow,
                .inr ⟨b'', List.mem_cons_of_mem b hb'', hchecksum, hlater _ _ hwrote⟩⟩

/-- A row that no beatmap of its checksum differs from is not updated. -/
theorem updateBeatmaps_kept (hkeys : s.db.Keys) (h : updateBeatmaps api beatmaps s = .ok s')
    {checksum : String} {row : BeatmapSnapshot} (hrow : s.db.beatmapSnapshot? checksum = some row)
    (hsame : ∀ b ∈ beatmaps, b.checksum = checksum → b.delta row = []) :
    s'.db.beatmapSnapshot? checksum = some row := by
  induction beatmaps generalizing s with
  | nil =>
      cases h
      exact hrow
  | cons b rest ih =>
      obtain ⟨next, hnext, hrest⟩ := bind_eq_ok h
      obtain ⟨hfirst, hothers⟩ := List.forall_mem_cons.mp hsame
      cases hfind : s.db.beatmapSnapshot? b.checksum with
      | none =>
          rw [updateBeatmap_none hfind] at hnext
          cases hnext
      | some found =>
          rw [updateBeatmap_some hfind] at hnext
          cases hnext
          by_cases hdelta : b.delta found = []
          · rw [if_pos hdelta] at hrest
            exact ih hkeys hrest hrow hothers
          · rw [if_neg hdelta] at hrest
            have hne : checksum ≠ b.checksum := by
              rintro rfl
              obtain rfl := Option.some.inj (hfind.symm.trans hrow)
              exact hdelta (hfirst rfl)
            apply ih (updated_keys hkeys hfind) hrest _ hothers
            rw [updated_beatmapSnapshot? hkeys hfind, if_neg hne]
            exact hrow

end Loops

/-! Both calls. -/

def BeatmapDict.SameFields (b b' : BeatmapDict) : Prop :=
  b.columns = b'.columns ∧ b.owners = b'.owners ∧ b.topTagIds = b'.topTagIds

theorem BeatmapDict.SameFields.delta {b b' : BeatmapDict} (h : b.SameFields b')
    {row : BeatmapSnapshot} (hdelta : b'.delta row = []) : b.delta row = [] := by
  obtain ⟨hcolumns, howners, htags⟩ := delta_eq_nil.mp hdelta
  exact delta_eq_nil.mpr ⟨hcolumns.trans h.1.symm, h.2.1.trans howners, h.2.2.trans htags⟩

theorem BeatmapDict.SameFields.listed {api : OsuApi} {b b' : BeatmapDict} (h : b.SameFields b')
    (hchecksum : b.checksum = b'.checksum) {order : ReadOrder} {db : Database}
    {profiles : List Profile} (hlisted : b'.Listed order profiles ∧ b'.OnePage ∧ api.Knows b' db) :
    b.Listed order profiles ∧ b.OnePage ∧ api.Knows b db := by
  obtain ⟨hcolumns, howners, htags⟩ := h
  have huser : b.ownerIds = b'.ownerIds := by
    rw [BeatmapDict.ownerIds, BeatmapDict.ownerIds, BeatmapDict.userId, BeatmapDict.userId,
      hcolumns, howners]
  obtain ⟨⟨⟨owners, ⟨hne, hsub, hnames⟩, hread⟩, hreadTags⟩, ⟨⟨hfits, howned⟩, hnodup, hids⟩,
      hknown⟩ := hlisted
  refine ⟨⟨⟨owners, ⟨hne, hsub, howners.trans hnames⟩, ?_⟩, ?_⟩, ⟨⟨?_, ?_⟩, ?_, ?_⟩, ?_⟩
  · rw [hchecksum]
    exact hread
  · rw [hchecksum, htags]
    exact hreadTags
  · rw [htags]
    exact hfits
  · rw [huser]
    exact howned
  · rw [htags]
    exact hnodup
  · rw [huser]
    exact hids
  · intro tag htag
    exact hknown tag (htags ▸ htag)

/-- Where the second call finds what the payload says. Every order of the beatmaps has the same
combined checksum, or that of a snapshot with the payload's columns. If the first call takes a
snapshot: the snapshots that are there for its beatmaps do not differ from them when they are read
again, and the others list known tags, and owners with the names of their profiles, in the order in
which they are read. If it updates: what differs from its snapshot is listed so and fits into one
page, and beatmaps with one checksum have the same fields. -/
def Echoes (combineChecksums : List String → String) (api : OsuApi) (db : Database)
    (order : ReadOrder) (profiles : List Profile) : Prop :=
  let p := api.beatmapset
  (∀ listed : List BeatmapDict, listed.Perm p.beatmaps →
    combineChecksums (listed.map BeatmapDict.checksum) = combineChecksums p.checksums ∨
      ∃ row, db.beatmapsetSnapshot? (combineChecksums (listed.map BeatmapDict.checksum)) =
        some row ∧
        row.columns = p.columns) ∧
  match db.beatmapsetSnapshot? (combineChecksums p.checksums) with
  | none => ∀ b ∈ p.beatmaps,
      (∀ row, db.beatmapSnapshot? b.checksum = some row → b.delta (order.row row) = []) ∧
        (db.beatmapSnapshot? b.checksum = none → b.Listed order profiles ∧ api.Knows b db)
  | some _ =>
      (∀ b ∈ p.beatmaps, ∀ b' ∈ p.beatmaps, b.checksum = b'.checksum → b.SameFields b') ∧
        ∀ b ∈ p.beatmaps, ∀ row, db.beatmapSnapshot? b.checksum = some row →
          if b.delta row = [] then b.delta (order.row row) = []
          else b.Listed order profiles ∧ b.OnePage ∧ api.Knows b db

section Both

variable {combineChecksums : List String → String} {api : OsuApi} {db : Database} {s : Session}
  (order : ReadOrder)

omit order in
theorem start_grows (api : OsuApi) (db : Database) : Grows api db (Session.start api db).db := by
  have htags : (Session.start api db).db.beatmapTags = db.beatmapTags :=
    populateOwnerProfiles_beatmapTags _ _ _
  exact ⟨(start_populates api db).profiles, fun tag => by rw [htags]⟩

/-- The branch that inserts. -/
theorem unchanged_iff_of_new (hkeys : db.Keys)
    (hnew : db.beatmapsetSnapshot? (combineChecksums api.beatmapset.checksums) = none)
    (h : archive combineChecksums api db = .ok s) :
    s.db.Keys ∧
    (∃ row, s.db.beatmapsetSnapshot? (combineChecksums api.beatmapset.checksums) = some row ∧
      row.columns = api.beatmapset.columns) ∧
    (∀ checksum, checksum ≠ combineChecksums api.beatmapset.checksums →
      s.db.beatmapsetSnapshot? checksum = db.beatmapsetSnapshot? checksum) ∧
    (Unchanged api.beatmapset.beatmaps (s.db.read order) ↔ ∀ b ∈ api.beatmapset.beatmaps,
      (∀ row, db.beatmapSnapshot? b.checksum = some row → b.delta (order.row row) = []) ∧
        (db.beatmapSnapshot? b.checksum = none → b.Listed order s.db.profiles ∧
          api.Knows b db)) := by
  have hpopulates := start_populates api db
  have hstart := hpopulates.keys hkeys
  simp only [archive, hnew] at h
  obtain ⟨next, rows, hrows, hids, rfl⟩ := snapshotBeatmapset_ok.mp h
  obtain ⟨hinserts, -, -⟩ := snapshotBeatmaps_inserts api.beatmapset.beatmapset_ids hrows
  have hchecksums := (snapshotBeatmaps_nodup hstart api.beatmapset.beatmapset_ids hrows).mp hids
  have hnext := hinserts.keys hstart
  set row :=
    api.beatmapset.snapshot (combineChecksums api.beatmapset.checksums) rows next.db with hrow
  have hsets : (next.write (.insertBeatmapsetSnapshot row rows)).db.beatmapsetSnapshots =
      db.beatmapsetSnapshots ++ [row] := by
    simp only [Session.write, Write.apply, moveRequests, relist_beatmapsetSnapshots,
      hinserts.beatmapsetSnapshots, hpopulates.beatmapsetSnapshots]
  have hprofiles :
      (next.write (.insertBeatmapsetSnapshot row rows)).db.profiles = next.db.profiles := by
    simp only [Session.write, Write.apply, moveRequests, relist_profiles, takeSnapshotId]
  have hfind (checksum : String) :
      (next.write (.insertBeatmapsetSnapshot row rows)).db.beatmapSnapshot? checksum =
      next.db.beatmapSnapshot? checksum := by
    rw [beatmapSnapshot?, Session.write, insertSet_beatmapSnapshots]
    rfl
  refine ⟨hnext.insertBeatmapsetSnapshot rows rfl, ⟨row, ?_, rfl⟩, ?_, ?_⟩
  · rw [beatmapsetSnapshot?] at hnew
    rw [beatmapsetSnapshot?, hsets, List.find?_append, hnew]
    simp [hrow, BeatmapsetDict.snapshot]
  · intro checksum hne
    rw [beatmapsetSnapshot?, hsets, List.find?_append]
    simp [beatmapsetSnapshot?, hrow, BeatmapsetDict.snapshot, Ne.symm hne]
  · apply forall₂_congr
    intro b hb
    simp only [beatmapSnapshot?_read, hfind, hprofiles]
    cases hthere : db.beatmapSnapshot? b.checksum with
    | some old =>
        have hkept :=
          hinserts.persists b.checksum old ((hpopulates.beatmapSnapshot? _).trans hthere)
        simp [hkept]
    | none =>
        obtain ⟨mid, hmid, hbefore, hafter⟩ :=
          snapshotBeatmaps_rows hstart hchecksums hrows b hb
            ((hpopulates.beatmapSnapshot? _).trans hthere)
        rw [hmid]
        have hdelta := delta_snapshot_iff hnext hafter.profiles order
        rw [hbefore.knows_iff, (start_grows api db).knows_iff] at hdelta
        simp [hdelta]

/-- After the loop of the updates nothing is found to differ exactly if beatmaps of one checksum
have the same fields, what did not differ does not when it is read again, and what was updated is
listed as it is read. -/
theorem unchanged_iff_of_updates {beatmaps : List BeatmapDict} {start next : Session}
    (hkeys : start.db.Keys) (h : updateBeatmaps api beatmaps start = .ok next) :
    Unchanged beatmaps (next.db.read order) ↔
      (∀ b ∈ beatmaps, ∀ b' ∈ beatmaps, b.checksum = b'.checksum → b.SameFields b') ∧
        ∀ b ∈ beatmaps, ∀ row, start.db.beatmapSnapshot? b.checksum = some row →
          if b.delta row = [] then b.delta (order.row row) = []
          else b.Listed order next.db.profiles ∧ b.OnePage ∧ api.Knows b start.db := by
  have hnext := updateBeatmaps_keys hkeys h
  -- Where the fields are the same for one checksum, an update is made exactly if the beatmap
  -- differs.
  have hrows (hfields : ∀ b ∈ beatmaps, ∀ b' ∈ beatmaps, b.checksum = b'.checksum → b.SameFields b')
      {b : BeatmapDict} (hb : b ∈ beatmaps) {row : BeatmapSnapshot}
      (hrow : start.db.beatmapSnapshot? b.checksum = some row) :
      ∃ row', next.db.beatmapSnapshot? b.checksum = some row' ∧
        if b.delta row = [] then row' = row
        else ∃ b' ∈ beatmaps, b'.checksum = b.checksum ∧ Wrote api start.db next.db b' row' := by
    split
    case isTrue hdelta =>
        have hall : ∀ b' ∈ beatmaps, b'.checksum = b.checksum → b'.delta row = [] :=
          fun b' hb' heq => (hfields b' hb' b hb heq).delta hdelta
        exact ⟨row, updateBeatmaps_kept hkeys h hrow hall, rfl⟩
    case isFalse hdelta =>
        obtain ⟨row', hrow', hsame | hwrote⟩ := updateBeatmaps_delta hkeys h b hb
        · obtain ⟨-, row'', hrow'', hkept | hwrote⟩ := updateBeatmaps_rows hkeys h hrow
          · obtain rfl := Option.some.inj (hrow'.symm.trans hrow'')
            exact absurd (hkept ▸ hsame) hdelta
          · exact ⟨row'', hrow'', hwrote⟩
        · exact ⟨row', hrow', hwrote⟩
  have hread (b : BeatmapDict) : (next.db.read order).beatmapSnapshot? b.checksum =
      (next.db.beatmapSnapshot? b.checksum).map order.row := beatmapSnapshot?_read order b.checksum
  constructor
  · intro hsame
    have hfields : ∀ b ∈ beatmaps, ∀ b' ∈ beatmaps, b.checksum = b'.checksum → b.SameFields b' := by
      intro b hb b' hb' hchecksum
      obtain ⟨row, hrow, hdelta⟩ := hsame b hb
      obtain ⟨row', hrow', hdelta'⟩ := hsame b' hb'
      obtain rfl : row = row' := Option.some.inj (hrow.symm.trans (hchecksum ▸ hrow'))
      obtain ⟨hcolumns, howners, htags⟩ := delta_eq_nil.mp hdelta
      obtain ⟨hcolumns', howners', htags'⟩ := delta_eq_nil.mp hdelta'
      exact ⟨hcolumns.symm.trans hcolumns', howners.trans howners'.symm, htags.trans htags'.symm⟩
    refine ⟨hfields, ?_⟩
    intro b hb row hrow
    obtain ⟨row', hrow', hwrote⟩ := hrows hfields hb hrow
    obtain ⟨found, hfound, hdelta⟩ := hsame b hb
    rw [hread, hrow', Option.map_some] at hfound
    obtain rfl := Option.some.inj hfound
    split at hwrote
    case isTrue hfirst =>
        rw [if_pos hfirst, ← hwrote]
        exact hdelta
    case isFalse hfirst =>
        obtain ⟨b', hb', hchecksum, hwrote⟩ := hwrote
        have hsame' := hfields b hb b' hb' hchecksum.symm
        rw [if_neg hfirst]
        apply hsame'.listed hchecksum.symm
        exact (hwrote.delta_iff hnext order).mp ((hfields b' hb' b hb hchecksum).delta hdelta)
  · rintro ⟨hfields, hlisted⟩ b hb
    obtain ⟨row, hrow⟩ :=
      Option.isSome_iff_exists.mp ((updateBeatmaps_isOk hkeys).mp ⟨next, h⟩ b hb)
    obtain ⟨row', hrow', hwrote⟩ := hrows hfields hb hrow
    have hfirst := hlisted b hb row hrow
    refine ⟨order.row row', by rw [hread, hrow', Option.map_some], ?_⟩
    split at hwrote
    case isTrue hdelta =>
        rw [if_pos hdelta] at hfirst
        rw [hwrote]
        exact hfirst
    case isFalse hdelta =>
        obtain ⟨b', hb', hchecksum, hwrote⟩ := hwrote
        rw [if_neg hdelta] at hfirst
        have hsame' := hfields b' hb' b hb hchecksum
        apply (hfields b hb b' hb' hchecksum.symm).delta
        exact (hwrote.delta_iff hnext order).mpr (hsame'.listed hchecksum hfirst)

/-- The branch that updates. -/
theorem unchanged_iff_of_known (hkeys : db.Keys) {found : BeatmapsetSnapshot}
    (hfound : db.beatmapsetSnapshot? (combineChecksums api.beatmapset.checksums) = some found)
    (h : archive combineChecksums api db = .ok s) :
    s.db.Keys ∧
    (∃ row, s.db.beatmapsetSnapshot? (combineChecksums api.beatmapset.checksums) = some row ∧
      row.columns = api.beatmapset.columns) ∧
    (∀ checksum, checksum ≠ combineChecksums api.beatmapset.checksums →
      s.db.beatmapsetSnapshot? checksum = db.beatmapsetSnapshot? checksum) ∧
    (Unchanged api.beatmapset.beatmaps (s.db.read order) ↔
      (∀ b ∈ api.beatmapset.beatmaps, ∀ b' ∈ api.beatmapset.beatmaps, b.checksum = b'.checksum →
        b.SameFields b') ∧
        ∀ b ∈ api.beatmapset.beatmaps, ∀ row, db.beatmapSnapshot? b.checksum = some row →
          if b.delta row = [] then b.delta (order.row row) = []
          else b.Listed order s.db.profiles ∧ b.OnePage ∧ api.Knows b db) := by
  have hpopulates := start_populates api db
  have hstart := hpopulates.keys hkeys
  have hfound' := (hpopulates.beatmapsetSnapshot? _).trans hfound
  simp only [archive, hfound] at h
  obtain ⟨next, hnext, rfl⟩ := (updateBeatmapset_ok hstart hfound').mp h
  have hkeysNext := updateBeatmaps_keys hstart hnext
  have hsets : next.db.beatmapsetSnapshots = db.beatmapsetSnapshots :=
    (updateBeatmaps_writes 0 hstart hnext).1.trans hpopulates.beatmapsetSnapshots
  have hchecksum : found.checksum = combineChecksums api.beatmapset.checksums := by
    simpa using List.find?_some hfound
  have hiff := unchanged_iff_of_updates order hstart hnext
  simp only [hpopulates.beatmapSnapshot?, (start_grows api db).knows_iff] at hiff
  by_cases hdelta : api.beatmapset.delta found = []
  · rw [if_pos hdelta]
    refine ⟨hkeysNext, ⟨found, ?_, BeatmapsetDict.delta_eq_nil.mp hdelta⟩, ?_, hiff⟩
    · rw [beatmapsetSnapshot?, hsets]
      exact hfound
    · intro checksum _
      rw [beatmapsetSnapshot?, hsets]
      rfl
  · rw [if_neg hdelta]
    have hmem : found ∈ next.db.beatmapsetSnapshots := by
      rw [hsets]
      exact List.mem_of_find?_eq_some hfound
    have hold : next.db.beatmapsetSnapshots.find? (fun row => row.checksum = found.checksum) =
        some found := by
      rw [hsets, hchecksum]
      exact hfound
    have hfind (checksum : String) :
        (next.write
          (.updateBeatmapsetSnapshot found (api.beatmapset.update found))).db.beatmapsetSnapshot?
          checksum =
          if checksum = found.checksum then some (api.beatmapset.update found)
          else next.db.beatmapsetSnapshot? checksum :=
      find?_replace (fun row : BeatmapsetSnapshot => row.checksum) (api.beatmapset.update found)
        hkeysNext.beatmapsetIds hold rfl checksum
    refine ⟨hkeysNext.updateBeatmapsetSnapshot (api.beatmapset.update found) hmem rfl,
      ⟨api.beatmapset.update found, ?_, setattrs_delta BeatmapsetColumn.mem_all⟩, ?_, hiff⟩
    · rw [hfind, if_pos hchecksum.symm]
    · intro checksum hne
      rw [hfind, if_neg (hchecksum ▸ hne), beatmapsetSnapshot?, hsets]
      rfl

/-- After a call that succeeds, calls with its payload again write nothing exactly if they find what
the payload says, in whatever order they read the tags and owners. -/
theorem archive_repeats_iff (hkeys : db.Keys) (h : archive combineChecksums api db = .ok s) :
    Repeats combineChecksums api.beatmapset (s.db.read order) ↔
      Echoes combineChecksums api db order s.db.profiles := by
  -- The combined checksums that are found after the call.
  have horders (hset : ∃ row,
      s.db.beatmapsetSnapshot? (combineChecksums api.beatmapset.checksums) = some row ∧
        row.columns = api.beatmapset.columns)
      (hothers : ∀ checksum, checksum ≠ combineChecksums api.beatmapset.checksums →
        s.db.beatmapsetSnapshot? checksum = db.beatmapsetSnapshot? checksum)
        (listed : List BeatmapDict) :
      (∃ row, s.db.beatmapsetSnapshot? (combineChecksums (listed.map BeatmapDict.checksum)) =
        some row ∧
          row.columns = api.beatmapset.columns) ↔
        combineChecksums (listed.map BeatmapDict.checksum) =
          combineChecksums api.beatmapset.checksums ∨
          ∃ row, db.beatmapsetSnapshot? (combineChecksums (listed.map BeatmapDict.checksum)) =
            some row ∧
            row.columns = api.beatmapset.columns := by
    by_cases hsame : combineChecksums (listed.map BeatmapDict.checksum) =
      combineChecksums api.beatmapset.checksums
    · rw [hsame]
      exact ⟨fun _ => .inl rfl, fun _ => hset⟩
    · rw [hothers _ hsame]
      exact ⟨.inr, fun hor => hor.resolve_left hsame⟩
  cases hfind : db.beatmapsetSnapshot? (combineChecksums api.beatmapset.checksums) with
  | none =>
      obtain ⟨hkeys', hset, hothers, hunchanged⟩ := unchanged_iff_of_new order hkeys hfind h
      simp only [Echoes, hfind]
      rw [repeats_iff (keys_read order hkeys') api.username api.tags, hunchanged]
      exact and_congr (forall₂_congr fun listed _ => horders hset hothers listed) Iff.rfl
  | some found =>
      obtain ⟨hkeys', hset, hothers, hunchanged⟩ := unchanged_iff_of_known order hkeys hfind h
      simp only [Echoes, hfind]
      rw [repeats_iff (keys_read order hkeys') api.username api.tags, hunchanged]
      exact and_congr (forall₂_congr fun listed _ => horders hset hothers listed) Iff.rfl

end Both

instance decidableForallPerm {α : Type} (rows : List α) (P : List α → Prop) [DecidablePred P] :
    Decidable (∀ listed : List α, listed.Perm rows → P listed) :=
  decidable_of_iff (∀ listed ∈ rows.permutations', P listed) (by simp)

instance decidableExistsFound {α : Type} (found : Option α) (P : α → Prop) [DecidablePred P] :
    Decidable (∃ a, found = some a ∧ P a) :=
  decidable_of_iff (∃ a ∈ found.toList, P a) (by simp)

instance (b b' : BeatmapDict) : Decidable (b.SameFields b') :=
  inferInstanceAs (Decidable (_ ∧ _ ∧ _))

/-- `combine_checksums`, also of two beatmaps the other way round. -/
def combinedInOrder : List String → String
  | ["92eb5ffee6ae2fec3ad71c777531578f", "0cc175b9c0f1b6a831c399e269772661"] =>
      "3a13f2408f269db87ef0110a90e168ae"
  | checksums => combined checksums

/-- The two beatmaps of a beatmapset. -/
def peppys : Difficulty := ⟨10, "0cc175b9c0f1b6a831c399e269772661", 0, [⟨7, "peppy"⟩], [5, 4]⟩

def guests : Difficulty :=
  ⟨11, "92eb5ffee6ae2fec3ad71c777531578f", 0, [⟨8, "guest"⟩, ⟨7, "peppy"⟩], [6, 5]⟩

/-- The beatmapset is archived with its beatmaps in both orders. -/
def bothOrders : List Call :=
  [⟨.ascending, version 1 [peppys, guests] (by decide)⟩,
    ⟨.ascending, version 1 [guests, peppys] (by decide)⟩]

def archivedTwice : Database := (Runs.run (step combinedInOrder) bothOrders .empty).getD .empty

theorem archivedTwice_keys : archivedTwice.Keys := by
  have hrun : Runs.run (step combinedInOrder) bothOrders .empty = some archivedTwice := by
    have hsome : (Runs.run (step combinedInOrder) bothOrders .empty).isSome = true := by
      decide +kernel
    obtain ⟨db, hdb⟩ := Option.isSome_iff_exists.mp hsome
    rw [archivedTwice, hdb]
    rfl
  exact (database_consistent_of_run hrun).keys

/-- The first beatmap has been played, and both owners have it. -/
def shared : Difficulty :=
  { peppys with playcount := 2, owners := [⟨8, "guest"⟩, ⟨7, "peppy"⟩], tags := [6, 4] }

def played : OsuApi := version 1 [shared, guests] (by decide)

/-- Tags and owners are listed as they are read, from the last. -/
theorem archive_repeats_played :
    Repeats combinedInOrder played.beatmapset
      ((outcome combinedInOrder played (archivedTwice.read .descending)).db.read .descending) := by
  cases hs : archive combinedInOrder played (archivedTwice.read .descending) with
  | error e =>
      have hok : (archive combinedInOrder played (archivedTwice.read .descending)).isOk = true := by
        decide +kernel
      rw [hs] at hok
      cases hok
  | ok s =>
      have hprofiles : [⟨2, 8, "guest"⟩, ⟨1, 7, "peppy"⟩] ⊆
          (outcome combinedInOrder played (archivedTwice.read .descending)).db.profiles := by
        decide +kernel
      rw [outcome_ok hs] at hprofiles ⊢
      apply (archive_repeats_iff .descending (keys_read .descending archivedTwice_keys) hs).mpr
      constructor
      · decide +kernel
      · have hthere : ((archivedTwice.read .descending).beatmapsetSnapshot?
            (combinedInOrder played.beatmapset.checksums)).isSome = true := by decide +kernel
        obtain ⟨found, hfound⟩ := Option.isSome_iff_exists.mp hthere
        rw [hfound]
        refine ⟨by decide +kernel, ?_⟩
        intro b hb row hrow
        rcases List.mem_cons.mp hb with rfl | hb
        · have hdiffers :
              ∀ row, (archivedTwice.read .descending).beatmapSnapshot? shared.checksum = some row →
              (shared.dict 1).delta row ≠ [] := by decide +kernel
          rw [if_neg (hdiffers row hrow)]
          refine ⟨⟨⟨[⟨2, 8, "guest"⟩, ⟨1, 7, "peppy"⟩],
            ⟨List.cons_ne_nil _ _, hprofiles, rfl⟩, rfl⟩, rfl⟩,
            ⟨⟨by decide, by decide⟩, by decide, by decide⟩, ?_⟩
          intro tag htag
          right
          revert tag
          decide
        · obtain rfl := List.mem_singleton.mp hb
          have hsame :
              ∀ row, (archivedTwice.read .descending).beatmapSnapshot? guests.checksum = some row →
              (guests.dict 1).delta row = [] ∧
              (guests.dict 1).delta (ReadOrder.descending.row row) = [] := by
            decide +kernel
          rw [if_pos (hsame row hrow).1]
          exact (hsame row hrow).2

/-- A beatmap without owners is updated in every call, the beatmaps in another order are another
snapshot, and tags that are read in another order than they are listed are a difference. -/
theorem archive_not_repeated :
    ¬ Repeats combined (sample 1 [(10, "0cc175b9c0f1b6a831c399e269772661")] (by decide)).beatmapset
        ((outcome combined (sample 1 [(10, "0cc175b9c0f1b6a831c399e269772661")] (by decide))
          .empty).db.read
          .ascending) ∧
      ¬ Repeats combinedInOrder (version 1 [peppys, guests] (by decide)).beatmapset
        ((outcome combinedInOrder (version 1 [peppys, guests] (by decide)) .empty).db.read
          .descending) ∧
      ¬ Repeats combined (version 1 [peppys] (by decide)).beatmapset
        ((outcome combined (version 1 [peppys] (by decide)) .empty).db.read .ascending) := by
  -- A call with the payload again that notes a change.
  have hagain {combineChecksums : List String → String} {p : BeatmapsetDict}
      {db : Database} {api : OsuApi}
      (hsame : p.SameAs api.beatmapset)
      (hlog : (outcome combineChecksums api db).changelog ≠ .empty) :
      ¬ Repeats combineChecksums p db := by
    intro h
    obtain ⟨s, hs, -, -, -, -, hempty⟩ := h api hsame
    rw [outcome_ok hs] at hlog
    exact hlog hempty
  refine ⟨?_, ?_, ?_⟩
  · apply @hagain _ _ _ (sample 1 [(10, "0cc175b9c0f1b6a831c399e269772661")] (by decide))
    · exact ⟨rfl, rfl, rfl, rfl, List.Perm.refl _⟩
    · decide +kernel
  · apply @hagain _ _ _ (version 1 [guests, peppys] (by decide))
    · exact ⟨rfl, rfl, rfl, rfl, List.Perm.swap _ _ []⟩
    · decide +kernel
  · apply @hagain _ _ _ (version 1 [peppys] (by decide))
    · exact ⟨rfl, rfl, rfl, rfl, List.Perm.refl _⟩
    · decide +kernel

end Graveboards.Archive.Manager
