import Graveboards.Archive.Manager

/-!
What the parts of `archive` do to the tables: population adds profiles and tags
and nothing else, an insertion adds one snapshot, an update keeps its identity.
-/

namespace Graveboards.Archive.Manager

open Library

/-- In a table with a unique column, rows differ when their values do. -/
theorem nodup_map_iff_of_subset {α β : Type} {f : α → β} {table rows : List α}
    (htable : (table.map f).Nodup) (hrows : ∀ row ∈ rows, row ∈ table) :
    (rows.map f).Nodup ↔ rows.Nodup := by
  constructor
  · exact List.Nodup.of_map f
  · intro hnodup
    apply hnodup.map_on
    intro x hx y hy hxy
    exact List.inj_on_of_nodup_map htable (hrows x hx) (hrows y hy) hxy

namespace Database

/-- The primary keys, and the unique columns of profiles. -/
structure Keys (db : Database) : Prop where
  beatmapIds : (db.beatmapSnapshots.map (·.id)).Nodup
  beatmapsetIds : (db.beatmapsetSnapshots.map (·.id)).Nodup
  profileIds : (db.profiles.map Profile.id).Nodup
  userIds : (db.profiles.map Profile.userId).Nodup
  tagIds : db.beatmapTags.Nodup
  beatmapFresh : ∀ row ∈ db.beatmapSnapshots, row.id < db.sequences.snapshot .beatmap
  beatmapsetFresh : ∀ row ∈ db.beatmapsetSnapshots, row.id < db.sequences.snapshot .beatmapset
  profileFresh : ∀ profile ∈ db.profiles, profile.id < db.nextProfile

/-- `db'` has the rows of `db`, and perhaps more profiles and tags. -/
structure Populates (db db' : Database) : Prop where
  beatmapSnapshots : db'.beatmapSnapshots = db.beatmapSnapshots
  beatmapsetSnapshots : db'.beatmapsetSnapshots = db.beatmapsetSnapshots
  listings : db'.listings = db.listings
  requests : db'.requests = db.requests
  sequences : db'.sequences = db.sequences
  profiles : ∀ profile ∈ db.profiles, profile ∈ db'.profiles
  beatmapTags : ∀ tag ∈ db.beatmapTags, tag ∈ db'.beatmapTags
  keys : db.Keys → db'.Keys

namespace Populates

variable {db db' db'' : Database}

theorem refl (db : Database) : Populates db db :=
  ⟨rfl, rfl, rfl, rfl, rfl, fun _ h => h, fun _ h => h, fun h => h⟩

theorem trans (h : Populates db db') (h' : Populates db' db'') : Populates db db'' where
  beatmapSnapshots := h'.beatmapSnapshots.trans h.beatmapSnapshots
  beatmapsetSnapshots := h'.beatmapsetSnapshots.trans h.beatmapsetSnapshots
  listings := h'.listings.trans h.listings
  requests := h'.requests.trans h.requests
  sequences := h'.sequences.trans h.sequences
  profiles profile hprofile := h'.profiles profile (h.profiles profile hprofile)
  beatmapTags tag htag := h'.beatmapTags tag (h.beatmapTags tag htag)
  keys hkeys := h'.keys (h.keys hkeys)

theorem beatmapSnapshot? (h : Populates db db') (checksum : String) :
    db'.beatmapSnapshot? checksum = db.beatmapSnapshot? checksum := by
  rw [Database.beatmapSnapshot?, Database.beatmapSnapshot?, h.beatmapSnapshots]

theorem beatmapsetSnapshot? (h : Populates db db') (checksum : String) :
    db'.beatmapsetSnapshot? checksum = db.beatmapsetSnapshot? checksum := by
  rw [Database.beatmapsetSnapshot?, Database.beatmapsetSnapshot?, h.beatmapsetSnapshots]

end Populates

end Database

open Database

/-! Profiles. -/

section Profiles

variable (username : Int → String)

theorem populateUser_populates (userId : Int) (db : Database) :
    Populates db (populateUser username userId db).1 := by
  unfold populateUser
  cases hfind : db.profiles.find? (·.userId = userId) with
  | some profile => exact Populates.refl db
  | none =>
      refine ⟨rfl, rfl, rfl, rfl, rfl, fun profile h => List.mem_append_left _ h, fun _ h => h, ?_⟩
      intro hkeys
      have hnew : ∀ profile ∈ db.profiles, profile.userId ≠ userId := by
        intro profile hprofile
        simpa using List.find?_eq_none.mp hfind profile hprofile
      refine { hkeys with profileIds := ?_, userIds := ?_, profileFresh := ?_ }
      · rw [List.map_append, List.nodup_append']
        refine ⟨hkeys.profileIds, List.nodup_singleton _, ?_⟩
        intro id hid hlast
        obtain ⟨profile, hprofile, rfl⟩ := List.mem_map.mp hid
        have hfresh := hkeys.profileFresh profile hprofile
        simp only [List.map_cons, List.map_nil, List.mem_singleton] at hlast
        omega
      · rw [List.map_append, List.nodup_append']
        refine ⟨hkeys.userIds, List.nodup_singleton _, ?_⟩
        intro id hid hlast
        obtain ⟨profile, hprofile, rfl⟩ := List.mem_map.mp hid
        exact hnew profile hprofile (by simpa using hlast)
      · intro profile hprofile
        rcases List.mem_append.mp hprofile with hold | hlast
        · exact Nat.lt_succ_of_lt (hkeys.profileFresh profile hold)
        · obtain rfl := List.mem_singleton.mp hlast
          exact Nat.lt_succ_self _

theorem populateUser_profile (userId : Int) (db : Database) :
    (populateUser username userId db).2.userId = userId ∧
      (populateUser username userId db).2 ∈ (populateUser username userId db).1.profiles := by
  unfold populateUser
  cases hfind : db.profiles.find? (·.userId = userId) with
  | some profile =>
      have huser := List.find?_some hfind
      exact ⟨by simpa using huser, List.mem_of_find?_eq_some hfind⟩
  | none => exact ⟨rfl, List.mem_append_right _ (List.mem_singleton_self _)⟩

theorem populateUser_beatmapTags (userId : Int) (db : Database) :
    (populateUser username userId db).1.beatmapTags = db.beatmapTags := by
  unfold populateUser
  cases db.profiles.find? (·.userId = userId) <;> rfl

theorem populateOwnerProfiles_populates (ids : List Int) (db : Database) :
    Populates db (populateOwnerProfiles username ids db).1 := by
  induction ids generalizing db with
  | nil => exact Populates.refl db
  | cons userId rest ih => exact (populateUser_populates username userId db).trans (ih _)

theorem populateOwnerProfiles_beatmapTags (ids : List Int) (db : Database) :
    (populateOwnerProfiles username ids db).1.beatmapTags = db.beatmapTags := by
  induction ids generalizing db with
  | nil => rfl
  | cons userId rest ih => exact (ih _).trans (populateUser_beatmapTags username userId db)

theorem populateOwnerProfiles_userIds (ids : List Int) (db : Database) :
    (populateOwnerProfiles username ids db).2.map Profile.userId = ids := by
  induction ids generalizing db with
  | nil => rfl
  | cons userId rest ih =>
      rw [populateOwnerProfiles, List.map_cons, ih, (populateUser_profile username userId db).1]

theorem populateOwnerProfiles_mem (ids : List Int) (db : Database) :
    ∀ profile ∈ (populateOwnerProfiles username ids db).2,
      profile ∈ (populateOwnerProfiles username ids db).1.profiles := by
  induction ids generalizing db with
  | nil => intro profile h; cases h
  | cons userId rest ih =>
      intro profile hprofile
      rcases List.mem_cons.mp hprofile with rfl | hrest
      · exact (populateOwnerProfiles_populates username rest _).profiles _
          (populateUser_profile username userId db).2
      · exact ih _ profile hrest

end Profiles

/-! Tags. -/

section Tags

variable (osuTags : List Nat)

theorem mem_updateBeatmapTagsFromOsu (db : Database) (tag : Nat) :
    tag ∈ (updateBeatmapTagsFromOsu osuTags db).beatmapTags ↔ tag ∈ db.beatmapTags ∨
    tag ∈ osuTags := by
  unfold updateBeatmapTagsFromOsu
  dsimp only
  generalize db.beatmapTags = tags
  induction osuTags generalizing tags with
  | nil => simp
  | cons first rest ih =>
      rw [List.foldl_cons, ih]
      split
      · rename_i hfirst
        constructor
        · rintro (h | h) <;> simp [h]
        · rintro (h | h)
          · exact Or.inl h
          · rcases List.mem_cons.mp h with rfl | h
            · exact Or.inl hfirst
            · exact Or.inr h
      · simp [or_assoc]

theorem updateBeatmapTagsFromOsu_nodup {db : Database} (h : db.beatmapTags.Nodup) :
    (updateBeatmapTagsFromOsu osuTags db).beatmapTags.Nodup := by
  unfold updateBeatmapTagsFromOsu
  dsimp only
  generalize db.beatmapTags = tags at h
  induction osuTags generalizing tags with
  | nil => exact h
  | cons first rest ih =>
      rw [List.foldl_cons]
      apply ih
      split
      · exact h
      · rename_i hfirst
        rw [List.nodup_append']
        refine ⟨h, List.nodup_singleton _, ?_⟩
        intro tag htag hlast
        obtain rfl := List.mem_singleton.mp hlast
        exact hfirst htag

theorem updateBeatmapTagsFromOsu_populates (db : Database) :
    Populates db (updateBeatmapTagsFromOsu osuTags db) where
  beatmapSnapshots := rfl
  beatmapsetSnapshots := rfl
  listings := rfl
  requests := rfl
  sequences := rfl
  profiles _ h := h
  beatmapTags tag h := (mem_updateBeatmapTagsFromOsu osuTags db tag).mpr (Or.inl h)
  keys hkeys := { hkeys with tagIds := updateBeatmapTagsFromOsu_nodup osuTags hkeys.tagIds }

theorem fetchBeatmapTag_populates (tag : Nat) (db : Database) :
    Populates db (fetchBeatmapTag osuTags tag db).1 := by
  unfold fetchBeatmapTag
  split
  · exact Populates.refl db
  · exact updateBeatmapTagsFromOsu_populates osuTags db

/-- A tag is found if the table or osu! has it. -/
theorem fetchBeatmapTag_snd (tag : Nat) (db : Database) :
    (fetchBeatmapTag osuTags tag db).2 =
      if tag ∈ db.beatmapTags ∨ tag ∈ osuTags then some tag else none := by
  unfold fetchBeatmapTag
  by_cases htag : tag ∈ db.beatmapTags
  · simp [htag]
  · simp only [htag, if_false, mem_updateBeatmapTagsFromOsu]

theorem mem_fetchBeatmapTag (tag : Nat) (db : Database) (other : Nat) :
    other ∈ (fetchBeatmapTag osuTags tag db).1.beatmapTags ∨ other ∈ osuTags ↔
      other ∈ db.beatmapTags ∨ other ∈ osuTags := by
  unfold fetchBeatmapTag
  split
  · exact Iff.rfl
  · rw [mem_updateBeatmapTagsFromOsu, or_assoc, or_self]

theorem fetchBeatmapTag_mem {tag found : Nat} {db : Database}
    (h : (fetchBeatmapTag osuTags tag db).2 = some found) :
    found = tag ∧ tag ∈ (fetchBeatmapTag osuTags tag db).1.beatmapTags := by
  unfold fetchBeatmapTag at h ⊢
  by_cases htag : tag ∈ db.beatmapTags
  · simp only [htag, if_true, Option.some.injEq] at h ⊢
    exact ⟨h.symm, trivial⟩
  · simp only [htag, if_false] at h ⊢
    split at h
    · rename_i hmem
      exact ⟨(Option.some.inj h).symm, hmem⟩
    · cases h

theorem populateBeatmapTags_populates (ids : List Nat) (db : Database) :
    Populates db (populateBeatmapTags osuTags ids db).1 := by
  induction ids generalizing db with
  | nil => exact Populates.refl db
  | cons tag rest ih => exact (fetchBeatmapTag_populates osuTags tag db).trans (ih _)

/-- The known tags, in the order of the payload. -/
theorem populateBeatmapTags_snd (ids : List Nat) (db : Database) :
    (populateBeatmapTags osuTags ids db).2 =
      ids.filter (fun tag => tag ∈ db.beatmapTags ∨ tag ∈ osuTags) := by
  induction ids generalizing db with
  | nil => rfl
  | cons tag rest ih =>
      rw [populateBeatmapTags, ih, fetchBeatmapTag_snd]
      simp only [mem_fetchBeatmapTag]
      by_cases htag : tag ∈ db.beatmapTags ∨ tag ∈ osuTags
      · rw [if_pos htag, List.filter_cons_of_pos (by simpa using htag)]
        rfl
      · rw [if_neg htag, List.filter_cons_of_neg (by simpa using htag)]
        rfl

theorem populateBeatmapTags_mem (ids : List Nat) (db : Database) :
    ∀ tag ∈ (populateBeatmapTags osuTags ids db).2,
      tag ∈ (populateBeatmapTags osuTags ids db).1.beatmapTags := by
  induction ids generalizing db with
  | nil => intro tag h; cases h
  | cons first rest ih =>
      intro tag htag
      rcases List.mem_append.mp htag with hfirst | hrest
      · obtain ⟨rfl, hmem⟩ := fetchBeatmapTag_mem osuTags (Option.mem_toList.mp hfirst)
        exact (populateBeatmapTags_populates osuTags rest _).beatmapTags _ hmem
      · exact ih _ tag hrest

/-- Which tags are in the table does not change which are known. -/
theorem populateBeatmapTags_known (ids : List Nat) (db : Database) (tag : Nat) :
    tag ∈ (populateBeatmapTags osuTags ids db).1.beatmapTags ∨ tag ∈ osuTags ↔
      tag ∈ db.beatmapTags ∨ tag ∈ osuTags := by
  induction ids generalizing db with
  | nil => exact Iff.rfl
  | cons first rest ih => exact (ih _).trans (mem_fetchBeatmapTag osuTags first db tag)

end Tags

/-! The tags and owners of a beatmap. -/

section Links

variable (api : OsuApi) (b : BeatmapDict) (db : Database)

theorem populateLinks_populates : Populates db (populateLinks api b db).db :=
  (populateBeatmapTags_populates api.tags b.topTagIds db).trans
    (populateOwnerProfiles_populates _ _ _)

theorem populateLinks_tags :
    (populateLinks api b db).tags = b.topTagIds.filter
    (fun tag => tag ∈ db.beatmapTags ∨ tag ∈ api.tags) :=
  populateBeatmapTags_snd api.tags b.topTagIds db

theorem populateLinks_userIds : (populateLinks api b db).owners.map Profile.userId = b.ownerIds :=
  populateOwnerProfiles_userIds api.username b.ownerIds _

theorem populateLinks_tags_mem :
    ∀ tag ∈ (populateLinks api b db).tags, tag ∈ (populateLinks api b db).db.beatmapTags := by
  intro tag htag
  have hmem := populateBeatmapTags_mem api.tags b.topTagIds db tag htag
  exact (populateOwnerProfiles_populates _ _ _).beatmapTags tag hmem

theorem populateLinks_owners_mem :
    ∀ profile ∈ (populateLinks api b db).owners, profile ∈ (populateLinks api b db).db.profiles :=
  populateOwnerProfiles_mem api.username b.ownerIds _

theorem populateLinks_known (tag : Nat) :
    tag ∈ (populateLinks api b db).db.beatmapTags ∨ tag ∈ api.tags ↔
      tag ∈ db.beatmapTags ∨ tag ∈ api.tags := by
  have hlast : (populateLinks api b db).db.beatmapTags =
      (populateBeatmapTags api.tags b.topTagIds db).1.beatmapTags :=
    populateOwnerProfiles_beatmapTags _ _ _
  rw [hlast]
  exact populateBeatmapTags_known api.tags b.topTagIds db tag

variable {db} in
theorem populateLinks_owners_nodup (hkeys : db.Keys) :
    ((populateLinks api b db).owners.map Profile.id).Nodup ↔ b.ownerIds.Nodup := by
  have hkeys' := (populateLinks_populates api b db).keys hkeys
  have hmem := populateLinks_owners_mem api b db
  rw [nodup_map_iff_of_subset hkeys'.profileIds hmem, ← nodup_map_iff_of_subset hkeys'.userIds hmem,
    populateLinks_userIds]

end Links

/-! What a transaction reads. -/

section Read

variable (order : ReadOrder) {db : Database}

theorem byKey_perm {α : Type} (primaryKey : α → Nat) (rows : List α) :
    (byKey primaryKey rows).Perm rows :=
  List.perm_insertionSort _ rows

theorem tags_row (row : BeatmapSnapshot) : (order.row row).beatmapTags.Perm row.beatmapTags :=
  (order.tags_perm _ _).trans (byKey_perm id _)

theorem owners_row (row : BeatmapSnapshot) : (order.row row).ownerProfiles.Perm row.ownerProfiles :=
  (order.owners_perm _ _).trans (byKey_perm Profile.id _)

theorem beatmapSnapshot?_read (checksum : String) :
    (db.read order).beatmapSnapshot? checksum = (db.beatmapSnapshot? checksum).map order.row :=
  List.find?_map

/-- Only the order of tags and owners is open. -/
theorem keys_read (h : db.Keys) : (db.read order).Keys :=
  { h with
    beatmapIds := by
      unfold Database.read
      rw [List.map_map]
      exact h.beatmapIds
    beatmapFresh := by
      intro row hrow
      obtain ⟨stored, hstored, rfl⟩ := List.mem_map.mp hrow
      exact h.beatmapFresh stored hstored }

end Read

/-! Writes. -/

namespace Database

variable (kind : Kind) (row : Snapshot) (db : Database)

@[simp] theorem relist_beatmapSnapshots :
    (db.relist kind row).beatmapSnapshots = db.beatmapSnapshots := by
  unfold relist
  split <;> rfl

@[simp] theorem relist_beatmapsetSnapshots :
    (db.relist kind row).beatmapsetSnapshots = db.beatmapsetSnapshots := by
  unfold relist
  split <;> rfl

@[simp] theorem relist_requests : (db.relist kind row).requests = db.requests := by
  unfold relist
  split <;> rfl

@[simp] theorem relist_profiles : (db.relist kind row).profiles = db.profiles := by
  unfold relist
  split <;> rfl

@[simp] theorem relist_nextProfile : (db.relist kind row).nextProfile = db.nextProfile := by
  unfold relist
  split <;> rfl

@[simp] theorem relist_beatmapTags : (db.relist kind row).beatmapTags = db.beatmapTags := by
  unfold relist
  split <;> rfl

@[simp] theorem relist_snapshotIds :
    (db.relist kind row).sequences.snapshot = db.sequences.snapshot := by
  unfold relist
  split <;> rfl

end Database

/-- A row with the next primary key is added. -/
theorem nodup_ids_append {α : Type} {id : α → Nat} {rows : List α} {row : α} {next : Nat}
    (hrows : (rows.map id).Nodup) (hfresh : ∀ r ∈ rows, id r < next) (hrow : id row = next) :
    ((rows ++ [row]).map id).Nodup ∧ ∀ r ∈ rows ++ [row], id r < next + 1 := by
  constructor
  · rw [List.map_append, List.nodup_append']
    refine ⟨hrows, List.nodup_singleton _, ?_⟩
    intro i hi hlast
    obtain ⟨r, hr, rfl⟩ := List.mem_map.mp hi
    have hlt := hfresh r hr
    simp only [List.map_cons, List.map_nil, List.mem_singleton] at hlast
    omega
  · intro r hr
    rcases List.mem_append.mp hr with hold | hlast
    · exact Nat.lt_succ_of_lt (hfresh r hold)
    · obtain rfl := List.mem_singleton.mp hlast
      omega

/-- A row is replaced by one with the same primary key. -/
theorem map_ids_replace {α : Type} (id : α → Nat) {old new : α} (hid : id new = id old)
    (rows : List α) :
    (rows.map fun row => if id row = id old then new else row).map id = rows.map id := by
  rw [List.map_map]
  apply List.map_congr_left
  intro row _
  by_cases hrow : id row = id old
  · simp [hrow, hid]
  · simp [hrow]

theorem mem_replace {α : Type} {id : α → Nat} {old new row : α} {rows : List α}
    (h : row ∈ rows.map fun row => if id row = id old then new else row) :
    row ∈ rows ∧ id row ≠ id old ∨ row = new := by
  obtain ⟨r, hr, hrow⟩ := List.mem_map.mp h
  by_cases hid : id r = id old
  · rw [if_pos hid] at hrow
    exact Or.inr hrow.symm
  · rw [if_neg hid] at hrow
    subst hrow
    exact Or.inl ⟨hr, hid⟩

/-- And it is found in the place of the old one. -/
theorem find?_replace {α : Type} {id : α → Nat} (key : α → String) {old : α} (new : α)
    {rows : List α} (hids : (rows.map id).Nodup)
    (hold : rows.find? (fun row => key row = key old) = some old)
    (hkey : key new = key old) (k : String) :
    (rows.map fun row => if id row = id old then new else row).find? (fun row => key row = k) =
      if k = key old then some new else rows.find? (fun row => key row = k) := by
  have hmem := List.mem_of_find?_eq_some hold
  have heq (row : α) (hrow : row ∈ rows) (hid : id row = id old) : row = old :=
    List.inj_on_of_nodup_map hids hrow hmem hid
  have hcongr :
      rows.find?
      ((fun row => decide (key row = k)) ∘ fun row => if id row = id old then new else row) =
      rows.find? (fun row => key row = k) := by
    apply List.find?_congr
    intro row hrow
    by_cases hid : id row = id old
    · obtain rfl := heq row hrow hid
      simp [hkey]
    · simp [hid]
  rw [List.find?_map, hcongr]
  by_cases hk : k = key old
  · subst hk
    rw [hold, if_pos rfl, Option.map_some, if_pos rfl]
  · rw [if_neg hk]
    cases hfind : rows.find? (fun row => key row = k) with
    | none => rfl
    | some row =>
        have hrow : key row = k := by simpa using List.find?_some hfind
        have hid : id row ≠ id old := by
          intro hid
          rw [heq row (List.mem_of_find?_eq_some hfind) hid] at hrow
          exact hk hrow.symm
        rw [Option.map_some, if_neg hid]

namespace Database.Keys

variable {db : Database} (hkeys : db.Keys)
include hkeys

theorem insertBeatmapSnapshot {row : BeatmapSnapshot}
    (hid : row.id = db.sequences.snapshot .beatmap) :
    ((Write.insertBeatmapSnapshot row).apply db).Keys := by
  obtain ⟨hnodup, hfresh⟩ := nodup_ids_append hkeys.beatmapIds hkeys.beatmapFresh hid
  constructor <;> simp only [Write.apply, relist_beatmapSnapshots, relist_beatmapsetSnapshots,
    relist_profiles, relist_beatmapTags, relist_nextProfile, relist_snapshotIds, takeSnapshotId]
  · exact hnodup
  · exact hkeys.beatmapsetIds
  · exact hkeys.profileIds
  · exact hkeys.userIds
  · exact hkeys.tagIds
  · rw [Function.update_self]
    exact hfresh
  · rw [Function.update_of_ne (by decide)]
    exact hkeys.beatmapsetFresh
  · exact hkeys.profileFresh

theorem insertBeatmapsetSnapshot {row : BeatmapsetSnapshot} (rows : List BeatmapSnapshot)
    (hid : row.id = db.sequences.snapshot .beatmapset) :
    ((Write.insertBeatmapsetSnapshot row rows).apply db).Keys := by
  obtain ⟨hnodup, hfresh⟩ := nodup_ids_append hkeys.beatmapsetIds hkeys.beatmapsetFresh hid
  constructor <;>
    simp only [Write.apply, moveRequests, relist_beatmapSnapshots, relist_beatmapsetSnapshots,
    relist_profiles, relist_beatmapTags, relist_nextProfile, relist_snapshotIds, takeSnapshotId]
  · exact hkeys.beatmapIds
  · exact hnodup
  · exact hkeys.profileIds
  · exact hkeys.userIds
  · exact hkeys.tagIds
  · rw [Function.update_of_ne (by decide)]
    exact hkeys.beatmapFresh
  · rw [Function.update_self]
    exact hfresh
  · exact hkeys.profileFresh

theorem updateBeatmapSnapshot {old new : BeatmapSnapshot} (hold : old ∈ db.beatmapSnapshots)
    (hid : new.id = old.id) : ((Write.updateBeatmapSnapshot old new).apply db).Keys := by
  refine { hkeys with beatmapIds := ?_, beatmapFresh := ?_ }
  · have hids := map_ids_replace (fun row : BeatmapSnapshot => row.id) hid db.beatmapSnapshots
    exact hids ▸ hkeys.beatmapIds
  · intro row hrow
    rcases mem_replace hrow with ⟨hrow, -⟩ | rfl
    · exact hkeys.beatmapFresh row hrow
    · exact hid ▸ hkeys.beatmapFresh old hold

theorem updateBeatmapsetSnapshot {old : BeatmapsetSnapshot} (new : BeatmapsetSnapshot)
    (hold : old ∈ db.beatmapsetSnapshots) (hid : new.id = old.id) :
    ((Write.updateBeatmapsetSnapshot old new).apply db).Keys := by
  refine { hkeys with beatmapsetIds := ?_, beatmapsetFresh := ?_ }
  · have hids := map_ids_replace (fun row : BeatmapsetSnapshot => row.id) hid db.beatmapsetSnapshots
    exact hids ▸ hkeys.beatmapsetIds
  · intro row hrow
    rcases mem_replace hrow with ⟨hrow, -⟩ | rfl
    · exact hkeys.beatmapsetFresh row hrow
    · exact hid ▸ hkeys.beatmapsetFresh old hold

end Database.Keys

end Graveboards.Archive.Manager
