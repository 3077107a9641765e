import Graveboards.Archive.Rows
import Graveboards.Library.Text

/-!
Which snapshots a call of `archive` writes. All lookups go by checksum over the
whole table, so a row of another beatmapset can be found; only the rows of the
beatmapset itself should be written or linked.
-/

namespace Graveboards.Archive.Manager

open Library Database

/-- The written snapshot, and the snapshots it is linked to, are rows of the
beatmapset. A row that is written again with the values it has counts as well: the changelog
reports it as updated. -/
def Write.BelongsTo (beatmapsetId : Int) : Write → Prop
  | .insertBeatmapSnapshot row => row.beatmapsetId = beatmapsetId
  | .updateBeatmapSnapshot old _ => old.beatmapsetId = beatmapsetId
  | .insertBeatmapsetSnapshot row rows =>
      row.owner = beatmapsetId ∧ ∀ linked ∈ rows, linked.beatmapsetId = beatmapsetId
  | .updateBeatmapsetSnapshot old _ => old.owner = beatmapsetId

instance (beatmapsetId : Int) : (w : Write) → Decidable (w.BelongsTo beatmapsetId)
  | .insertBeatmapSnapshot row => inferInstanceAs (Decidable (row.beatmapsetId = beatmapsetId))
  | .updateBeatmapSnapshot old _ => inferInstanceAs (Decidable (old.beatmapsetId = beatmapsetId))
  | .insertBeatmapsetSnapshot row rows =>
      inferInstanceAs
        (Decidable (row.owner = beatmapsetId ∧ ∀ linked ∈ rows, linked.beatmapsetId = beatmapsetId))
  | .updateBeatmapsetSnapshot old _ => inferInstanceAs (Decidable (old.owner = beatmapsetId))

/-- The beatmapset has a snapshot. -/
def Database.Archived (beatmapsetId : Int) (db : Database) : Prop :=
  ∃ row ∈ db.beatmapsetSnapshots, row.owner = beatmapsetId

/-- The snapshots of the other beatmapsets are the same rows. -/
structure Database.Frame (beatmapsetId : Int) (db db' : Database) : Prop where
  beatmapSnapshots : ∀ row : BeatmapSnapshot, row.beatmapsetId ≠ beatmapsetId →
    (row ∈ db'.beatmapSnapshots ↔ row ∈ db.beatmapSnapshots)
  beatmapsetSnapshots : ∀ row : BeatmapsetSnapshot, row.owner ≠ beatmapsetId →
    (row ∈ db'.beatmapsetSnapshots ↔ row ∈ db.beatmapsetSnapshots)

namespace Database.Frame

variable {beatmapsetId : Int} {db db' db'' : Database}

theorem refl (db : Database) : Frame beatmapsetId db db := ⟨fun _ _ => Iff.rfl, fun _ _ => Iff.rfl⟩

theorem trans (h : Frame beatmapsetId db db') (h' : Frame beatmapsetId db' db'') :
    Frame beatmapsetId db db'' where
  beatmapSnapshots row hrow := (h'.beatmapSnapshots row hrow).trans (h.beatmapSnapshots row hrow)
  beatmapsetSnapshots row hrow :=
    (h'.beatmapsetSnapshots row hrow).trans (h.beatmapsetSnapshots row hrow)

theorem of_populates (h : Populates db db') : Frame beatmapsetId db db' where
  beatmapSnapshots _ _ := by rw [h.beatmapSnapshots]
  beatmapsetSnapshots _ _ := by rw [h.beatmapsetSnapshots]

/-- A row that is appended, of the beatmapset. -/
theorem mem_append_iff {α : Type} (owner : α → Int) {rows : List α} {row new : α}
    (hnew : owner new = beatmapsetId) (hrow : owner row ≠ beatmapsetId) :
    row ∈ rows ++ [new] ↔ row ∈ rows := by
  rw [List.mem_append, List.mem_singleton, or_iff_left]
  rintro rfl
  exact hrow hnew

/-- A row that is replaced, of the beatmapset. -/
theorem mem_replace_iff {α : Type} {id : α → Nat} (owner : α → Int) {rows : List α}
    {row old : α} (new : α) (hids : (rows.map id).Nodup) (hold : old ∈ rows)
    (howner : owner old = beatmapsetId) (hnew : owner new = beatmapsetId)
    (hrow : owner row ≠ beatmapsetId) :
    (row ∈ rows.map fun r => if id r = id old then new else r) ↔ row ∈ rows := by
  constructor
  · intro h
    rcases mem_replace h with ⟨h, -⟩ | rfl
    · exact h
    · exact absurd hnew hrow
  · intro h
    refine List.mem_map.mpr ⟨row, h, if_neg ?_⟩
    intro hid
    obtain rfl := List.inj_on_of_nodup_map hids h hold hid
    exact hrow howner

end Database.Frame

section Outcome

variable (combineChecksums : List String → String) (api : OsuApi) (db : Database)

/-- What the call leaves behind: nothing after an exception. -/
def outcome : Session :=
  match archive combineChecksums api db with
  | .ok s => s
  | .error _ => ⟨db, []⟩

/-- The call writes and links rows of its beatmapset only, and the beatmapset
has a snapshot after it. -/
structure Isolated : Prop where
  writes : ∀ w ∈ (outcome combineChecksums api db).writes, w.BelongsTo api.beatmapset.id
  archived : (outcome combineChecksums api db).db.Archived api.beatmapset.id

end Outcome

/-! The branch that inserts. -/

/-- No row of an association table is inserted twice. -/
def Insertable (api : OsuApi) (beatmaps : List BeatmapDict) (db : Database) : Prop :=
  ∀ b ∈ beatmaps, db.beatmapSnapshot? b.checksum = none →
    (b.topTagIds.filter (fun tag => tag ∈ db.beatmapTags ∨ tag ∈ api.tags)).Nodup ∧ b.ownerIds.Nodup

/-- What `_snapshot_beatmaps` keeps of a session and what it adds. -/
structure Inserts (beatmapsetId : Int) (s s' : Session) : Prop where
  persists : ∀ checksum row, s.db.beatmapSnapshot? checksum = some row →
    s'.db.beatmapSnapshot? checksum = some row
  belongs : ∀ checksum row, s'.db.beatmapSnapshot? checksum = some row →
    s.db.beatmapSnapshot? checksum = some row ∨ row.beatmapsetId = beatmapsetId
  beatmapsetSnapshots : s'.db.beatmapsetSnapshots = s.db.beatmapsetSnapshots
  frame : Frame beatmapsetId s.db s'.db
  writes : ∃ added, s'.writes = s.writes ++ added ∧ ∀ w ∈ added, w.BelongsTo beatmapsetId
  keys : s.db.Keys → s'.db.Keys

namespace Inserts

variable {beatmapsetId : Int} {s s' s'' : Session}

theorem refl (s : Session) : Inserts beatmapsetId s s where
  persists _ _ h := h
  belongs _ _ h := Or.inl h
  beatmapsetSnapshots := rfl
  frame := Frame.refl s.db
  writes := ⟨[], (List.append_nil _).symm, fun _ h => (List.not_mem_nil h).elim⟩
  keys h := h

theorem trans (h : Inserts beatmapsetId s s') (h' : Inserts beatmapsetId s' s'') :
    Inserts beatmapsetId s s'' where
  persists checksum row hrow := h'.persists checksum row (h.persists checksum row hrow)
  belongs checksum row hrow := by
    rcases h'.belongs checksum row hrow with hold | hnew
    · exact h.belongs checksum row hold
    · exact Or.inr hnew
  beatmapsetSnapshots := h'.beatmapsetSnapshots.trans h.beatmapsetSnapshots
  frame := h.frame.trans h'.frame
  writes := by
    obtain ⟨added, hadded, hbelongs⟩ := h.writes
    obtain ⟨later, hlater, hbelongs'⟩ := h'.writes
    refine ⟨added ++ later, by rw [hlater, hadded, List.append_assoc], ?_⟩
    intro w hw
    rcases List.mem_append.mp hw with hw | hw
    · exact hbelongs w hw
    · exact hbelongs' w hw
  keys hkeys := h'.keys (h.keys hkeys)

end Inserts

section Snapshot

variable {api : OsuApi} {b : BeatmapDict} {s s' : Session} {row : BeatmapSnapshot}

theorem snapshotBeatmap_found (h : s.db.beatmapSnapshot? b.checksum = some row) :
    snapshotBeatmap api b s = .ok (s, row) := by
  simp only [snapshotBeatmap, h]

/-- The session after the insertion of a beatmap's snapshot. -/
def Session.inserted (api : OsuApi) (b : BeatmapDict) (s : Session) : Session :=
  (Session.mk (populateLinks api b s.db).db s.writes).write
    (.insertBeatmapSnapshot (b.snapshot (populateLinks api b s.db)))

theorem snapshotBeatmap_new (h : s.db.beatmapSnapshot? b.checksum = none) :
    snapshotBeatmap api b s =
      if (populateLinks api b s.db).tags.Nodup ∧
          ((populateLinks api b s.db).owners.map Profile.id).Nodup then
        .ok (s.inserted api b, b.snapshot (populateLinks api b s.db))
      else .error .integrity := by
  simp only [snapshotBeatmap, h]
  rfl

theorem inserted_beatmapSnapshots :
    (s.inserted api b).db.beatmapSnapshots =
      s.db.beatmapSnapshots ++ [b.snapshot (populateLinks api b s.db)] := by
  simp only [Session.inserted, Session.write, Write.apply, relist_beatmapSnapshots,
    (populateLinks_populates api b s.db).beatmapSnapshots]

/-- The new row is found by its checksum, and the others as before. -/
theorem inserted_beatmapSnapshot? (h : s.db.beatmapSnapshot? b.checksum = none)
    (checksum : String) :
    (s.inserted api b).db.beatmapSnapshot? checksum =
      if checksum = b.checksum then some (b.snapshot (populateLinks api b s.db))
      else s.db.beatmapSnapshot? checksum := by
  rw [beatmapSnapshot?, inserted_beatmapSnapshots, List.find?_append]
  by_cases hchecksum : checksum = b.checksum
  · subst hchecksum
    rw [beatmapSnapshot?] at h
    simp [h, BeatmapDict.snapshot]
  · have hlast : ¬ b.checksum = checksum := fun heq => hchecksum heq.symm
    simp [beatmapSnapshot?, hchecksum, hlast, BeatmapDict.snapshot]

theorem inserted_beatmapsetSnapshots :
    (s.inserted api b).db.beatmapsetSnapshots = s.db.beatmapsetSnapshots := by
  simp only [Session.inserted, Session.write, Write.apply, relist_beatmapsetSnapshots,
    takeSnapshotId, (populateLinks_populates api b s.db).beatmapsetSnapshots]

theorem inserted_keys (hkeys : s.db.Keys) : (s.inserted api b).db.Keys :=
  ((populateLinks_populates api b s.db).keys hkeys).insertBeatmapSnapshot rfl

theorem inserted_inserts (h : s.db.beatmapSnapshot? b.checksum = none) :
    Inserts b.beatmapsetId s (s.inserted api b) where
  persists checksum row hrow := by
    rw [inserted_beatmapSnapshot? h, if_neg, hrow]
    rintro rfl
    rw [h] at hrow
    cases hrow
  belongs checksum row hrow := by
    rw [inserted_beatmapSnapshot? h] at hrow
    split at hrow
    · obtain rfl := Option.some.inj hrow
      exact Or.inr rfl
    · exact Or.inl hrow
  beatmapsetSnapshots := inserted_beatmapsetSnapshots
  frame :=
    { beatmapSnapshots := fun row hrow => by
        rw [inserted_beatmapSnapshots]
        exact Frame.mem_append_iff BeatmapSnapshot.beatmapsetId rfl hrow
      beatmapsetSnapshots := fun _ _ => by rw [inserted_beatmapsetSnapshots] }
  writes := by
    refine ⟨[_], rfl, ?_⟩
    intro w hw
    obtain rfl := List.mem_singleton.mp hw
    rfl
  keys := inserted_keys

/-- One beatmap: its snapshot is there, or it is inserted. -/
theorem snapshotBeatmap_inserts (h : snapshotBeatmap api b s = .ok (s', row)) :
    Inserts b.beatmapsetId s s' ∧ s'.db.beatmapSnapshot? b.checksum = some row := by
  cases hfind : s.db.beatmapSnapshot? b.checksum with
  | some found =>
      rw [snapshotBeatmap_found hfind] at h
      cases h
      exact ⟨Inserts.refl s, hfind⟩
  | none =>
      rw [snapshotBeatmap_new hfind] at h
      split at h
      · cases h
        exact ⟨inserted_inserts hfind, by rw [inserted_beatmapSnapshot? hfind, if_pos rfl]⟩
      · cases h

variable {beatmaps : List BeatmapDict} {rows : List BeatmapSnapshot} {beatmapsetId : Int}

theorem snapshotBeatmaps_cons {rest : List BeatmapDict} :
    snapshotBeatmaps api (b :: rest) s = .ok (s', rows) ↔
      ∃ next row later, snapshotBeatmap api b s = .ok (next, row) ∧
        snapshotBeatmaps api rest next = .ok (s', later) ∧ rows = row :: later := by
  constructor
  · intro h
    obtain ⟨⟨next, row⟩, hfirst, h⟩ := bind_eq_ok h
    obtain ⟨⟨last, later⟩, hrest, h⟩ := bind_eq_ok h
    cases h
    exact ⟨next, row, later, hfirst, hrest, rfl⟩
  · rintro ⟨next, row, later, hfirst, hrest, rfl⟩
    rw [snapshotBeatmaps, hfirst, ok_bind]
    dsimp only
    rw [hrest, ok_bind]
    rfl

/-- The loop returns the snapshot of each beatmap. -/
theorem snapshotBeatmaps_inserts (hbeatmaps : ∀ b ∈ beatmaps, b.beatmapsetId = beatmapsetId)
    (h : snapshotBeatmaps api beatmaps s = .ok (s', rows)) :
    Inserts beatmapsetId s s' ∧
    rows.map (fun row => row.checksum) = beatmaps.map BeatmapDict.checksum ∧
      ∀ row ∈ rows, s'.db.beatmapSnapshot? row.checksum = some row := by
  induction beatmaps generalizing s rows with
  | nil =>
      cases h
      exact ⟨Inserts.refl _, rfl, fun row hrow => (List.not_mem_nil hrow).elim⟩
  | cons b rest ih =>
      obtain ⟨next, row, later, hfirst, hrest, rfl⟩ := snapshotBeatmaps_cons.mp h
      obtain ⟨hinserts, hfound⟩ := snapshotBeatmap_inserts hfirst
      rw [hbeatmaps b List.mem_cons_self] at hinserts
      obtain ⟨hinserts', hchecksums, hrows⟩ :=
        ih (fun b hb => hbeatmaps b (List.mem_cons_of_mem _ hb)) hrest
      have hchecksum : row.checksum = b.checksum := by simpa using List.find?_some hfound
      refine ⟨hinserts.trans hinserts', by rw [List.map_cons, List.map_cons, hchecksums, hchecksum],
        ?_⟩
      intro r hr
      rcases List.mem_cons.mp hr with rfl | hr
      · exact hinserts'.persists r.checksum r (hchecksum ▸ hfound)
      · exact hrows r hr

/-- For beatmaps with different checksums, the loop succeeds if no link is
inserted twice. -/
theorem snapshotBeatmaps_isOk (hkeys : s.db.Keys)
    (hnodup : (beatmaps.map BeatmapDict.checksum).Nodup) :
    (∃ result, snapshotBeatmaps api beatmaps s = .ok result) ↔ Insertable api beatmaps s.db := by
  induction beatmaps generalizing s with
  | nil =>
      constructor
      · intro _ b hb
        cases hb
      · intro _
        exact ⟨_, rfl⟩
  | cons b rest ih =>
      obtain ⟨hb, hrest⟩ := List.nodup_cons.mp hnodup
      have hcons : (∃ result, snapshotBeatmaps api (b :: rest) s = .ok result) ↔
          ∃ next row, snapshotBeatmap api b s = .ok (next, row) ∧
            ∃ result, snapshotBeatmaps api rest next = .ok result := by
        constructor
        · rintro ⟨⟨last, rows⟩, h⟩
          obtain ⟨next, row, later, hfirst, hlater, -⟩ := snapshotBeatmaps_cons.mp h
          exact ⟨next, row, hfirst, (last, later), hlater⟩
        · rintro ⟨next, row, hfirst, ⟨last, later⟩, hlater⟩
          exact ⟨(last, row :: later),
            snapshotBeatmaps_cons.mpr ⟨next, row, later, hfirst, hlater, rfl⟩⟩
      rw [hcons]
      cases hfind : s.db.beatmapSnapshot? b.checksum with
      | some found =>
          simp only [snapshotBeatmap_found hfind, Except.ok.injEq, Prod.mk.injEq]
          constructor
          · rintro ⟨next, row, ⟨rfl, -⟩, hlater⟩ b' hb'
            rcases List.mem_cons.mp hb' with rfl | hb'
            · intro hnone
              rw [hfind] at hnone
              cases hnone
            · exact (ih hkeys hrest).mp hlater b' hb'
          · intro hinsertable
            exact ⟨s, found, ⟨rfl, rfl⟩,
              (ih hkeys hrest).mpr fun b' hb' => hinsertable b' (List.mem_cons_of_mem _ hb')⟩
      | none =>
          have hsame (b' : BeatmapDict) (hb' : b' ∈ rest) :
              (s.inserted api b).db.beatmapSnapshot? b'.checksum =
                s.db.beatmapSnapshot? b'.checksum := by
            rw [inserted_beatmapSnapshot? hfind, if_neg]
            intro heq
            exact hb (heq ▸ List.mem_map_of_mem hb')
          have hknown (tag : Nat) : tag ∈ (s.inserted api b).db.beatmapTags ∨ tag ∈ api.tags ↔
              tag ∈ s.db.beatmapTags ∨ tag ∈ api.tags := by
            have htags :
                (s.inserted api b).db.beatmapTags = (populateLinks api b s.db).db.beatmapTags := by
              simp only [Session.inserted, Session.write, Write.apply, relist_beatmapTags,
                takeSnapshotId]
            rw [htags, populateLinks_known]
          have hlater : Insertable api rest (s.inserted api b).db ↔ Insertable api rest s.db := by
            constructor
            · intro h b' hb' hnone
              have hb'' := h b' hb' ((hsame b' hb').trans hnone)
              simpa only [hknown] using hb''
            · intro h b' hb' hnone
              have hb'' := h b' hb' ((hsame b' hb').symm.trans hnone)
              simpa only [hknown] using hb''
          have hlinks := populateLinks_owners_nodup api b hkeys
          rw [snapshotBeatmap_new hfind, populateLinks_tags]
          constructor
          · rintro ⟨next, row, hfirst, hok⟩
            split at hfirst
            · rename_i hdistinct
              cases hfirst
              have hinsertable := hlater.mp ((ih (inserted_keys hkeys) hrest).mp hok)
              intro b' hb' hnone
              rcases List.mem_cons.mp hb' with rfl | hb'
              · exact ⟨hdistinct.1, hlinks.mp hdistinct.2⟩
              · exact hinsertable b' hb' hnone
            · cases hfirst
          · intro hinsertable
            have hdistinct := hinsertable b List.mem_cons_self hfind
            refine ⟨_, _, if_pos ⟨hdistinct.1, hlinks.mpr hdistinct.2⟩,
              (ih (inserted_keys hkeys) hrest).mpr (hlater.mpr ?_)⟩
            intro b' hb'
            exact hinsertable b' (List.mem_cons_of_mem _ hb')

/-- The rows of different checksums are different rows. -/
theorem snapshotBeatmaps_nodup (hkeys : s.db.Keys)
    (hbeatmaps : ∀ b ∈ beatmaps, b.beatmapsetId = beatmapsetId)
    (h : snapshotBeatmaps api beatmaps s = .ok (s', rows)) :
    (rows.map (fun row => row.id)).Nodup ↔ (beatmaps.map BeatmapDict.checksum).Nodup := by
  obtain ⟨hinserts, hchecksums, hrows⟩ := snapshotBeatmaps_inserts hbeatmaps h
  have hmem : ∀ row ∈ rows, row ∈ s'.db.beatmapSnapshots := fun row hrow =>
    List.mem_of_find?_eq_some (hrows row hrow)
  rw [← hchecksums, nodup_map_iff_of_subset (hinserts.keys hkeys).beatmapIds hmem]
  constructor
  · intro hnodup
    apply hnodup.map_on
    intro x hx y hy hxy
    have hx' := hrows x hx
    rw [hxy, hrows y hy] at hx'
    exact (Option.some.inj hx').symm
  · exact List.Nodup.of_map _

/-- The rows are rows of the beatmapset exactly if the ones that were there are. -/
theorem snapshotBeatmaps_belong (hbeatmaps : ∀ b ∈ beatmaps, b.beatmapsetId = beatmapsetId)
    (h : snapshotBeatmaps api beatmaps s = .ok (s', rows)) :
    (∀ row ∈ rows, row.beatmapsetId = beatmapsetId) ↔
      ∀ b ∈ beatmaps, ∀ row, s.db.beatmapSnapshot? b.checksum = some row →
      row.beatmapsetId = beatmapsetId := by
  obtain ⟨hinserts, hchecksums, hrows⟩ := snapshotBeatmaps_inserts hbeatmaps h
  constructor
  · intro hbelong b hb row hrow
    have hmem : b.checksum ∈ rows.map fun row => row.checksum := hchecksums ▸ List.mem_map_of_mem hb
    obtain ⟨r, hr, hchecksum⟩ := List.mem_map.mp hmem
    have hfound := hrows r hr
    rw [hchecksum, hinserts.persists b.checksum row hrow] at hfound
    obtain rfl := Option.some.inj hfound
    exact hbelong row hr
  · intro hthere row hrow
    have hmem : row.checksum ∈ beatmaps.map BeatmapDict.checksum :=
      hchecksums ▸ List.mem_map_of_mem hrow
    obtain ⟨b, hb, hchecksum⟩ := List.mem_map.mp hmem
    rcases hinserts.belongs row.checksum row (hrows row hrow) with hold | hnew
    · exact hthere b hb row (hchecksum ▸ hold)
    · exact hnew

variable {checksum : String}

theorem snapshotBeatmapset_ok :
    snapshotBeatmapset api checksum s = .ok s' ↔
      ∃ next rows, snapshotBeatmaps api api.beatmapset.beatmaps s = .ok (next, rows) ∧
        (rows.map (fun row => row.id)).Nodup ∧
        s' = next.write
        (.insertBeatmapsetSnapshot (api.beatmapset.snapshot checksum rows next.db) rows) := by
  constructor
  · intro h
    obtain ⟨⟨next, rows⟩, hrows, h⟩ := bind_eq_ok h
    dsimp only at h
    split at h
    · rename_i hnodup
      cases h
      exact ⟨next, rows, hrows, hnodup, rfl⟩
    · cases h
  · rintro ⟨next, rows, hrows, hnodup, rfl⟩
    rw [snapshotBeatmapset, hrows, ok_bind]
    dsimp only
    rw [if_pos hnodup]
    rfl

theorem snapshotBeatmapset_isOk (hkeys : s.db.Keys) :
    (∃ s', snapshotBeatmapset api checksum s = .ok s') ↔
      api.beatmapset.checksums.Nodup ∧ Insertable api api.beatmapset.beatmaps s.db := by
  constructor
  · rintro ⟨s', h⟩
    obtain ⟨next, rows, hrows, hids, -⟩ := snapshotBeatmapset_ok.mp h
    have hnodup := (snapshotBeatmaps_nodup hkeys api.beatmapset.beatmapset_ids hrows).mp hids
    exact ⟨hnodup, (snapshotBeatmaps_isOk hkeys hnodup).mp ⟨_, hrows⟩⟩
  · rintro ⟨hnodup, hinsertable⟩
    obtain ⟨⟨next, rows⟩, hrows⟩ := (snapshotBeatmaps_isOk hkeys hnodup).mpr hinsertable
    have hids := (snapshotBeatmaps_nodup hkeys api.beatmapset.beatmapset_ids hrows).mpr hnodup
    exact ⟨_, snapshotBeatmapset_ok.mpr ⟨next, rows, hrows, hids, rfl⟩⟩

end Snapshot

/-! The branch that updates. -/

/-- Every row that is found for a beatmap is a row of the beatmapset, or already
as the payload has it. -/
def Settled (beatmapsetId : Int) (beatmaps : List BeatmapDict) (db : Database) : Prop :=
  ∀ b ∈ beatmaps, ∀ row, db.beatmapSnapshot? b.checksum = some row →
    row.beatmapsetId = beatmapsetId ∨ b.delta row = []

section Update

variable {api : OsuApi} {b : BeatmapDict} {s s' : Session} {row : BeatmapSnapshot}

/-- The session after the update of a beatmap's snapshot. -/
def Session.updated (api : OsuApi) (b : BeatmapDict) (row : BeatmapSnapshot) (s : Session) :
    Session :=
  (Session.mk (populateLinks api b s.db).db s.writes).write
    (.updateBeatmapSnapshot row (b.update (populateLinks api b s.db) row))

theorem updateBeatmap_none (h : s.db.beatmapSnapshot? b.checksum = none) :
    updateBeatmap api b s = .error .validation := by
  simp only [updateBeatmap, h]

theorem updateBeatmap_some (h : s.db.beatmapSnapshot? b.checksum = some row) :
    updateBeatmap api b s = .ok (if b.delta row = [] then s else s.updated api b row) := by
  simp only [updateBeatmap, h]
  split <;> rfl

theorem updated_keys (hkeys : s.db.Keys) (h : s.db.beatmapSnapshot? b.checksum = some row) :
    (s.updated api b row).db.Keys := by
  have hpopulates := populateLinks_populates api b s.db
  apply (hpopulates.keys hkeys).updateBeatmapSnapshot
  · rw [hpopulates.beatmapSnapshots]
    exact List.mem_of_find?_eq_some h
  · rfl

/-- The row keeps its checksum, and the other rows are as before. -/
theorem updated_beatmapSnapshot? (hkeys : s.db.Keys)
    (h : s.db.beatmapSnapshot? b.checksum = some row) (checksum : String) :
    (s.updated api b row).db.beatmapSnapshot? checksum =
      if checksum = b.checksum then some (b.update (populateLinks api b s.db) row)
      else s.db.beatmapSnapshot? checksum := by
  have hrow : row.checksum = b.checksum := by simpa using List.find?_some h
  have hpopulates := populateLinks_populates api b s.db
  have hold : s.db.beatmapSnapshots.find? (fun r => r.checksum = row.checksum) = some row := by
    rw [hrow]
    exact h
  have hreplace := find?_replace (fun r : BeatmapSnapshot => r.checksum)
    (b.update (populateLinks api b s.db) row) hkeys.beatmapIds hold rfl checksum
  rw [hrow] at hreplace
  rw [beatmapSnapshot?, beatmapSnapshot?, ← hreplace, ← hpopulates.beatmapSnapshots]
  rfl

variable {beatmaps : List BeatmapDict}

/-- The loop finds the snapshot of each beatmap. -/
theorem updateBeatmaps_isOk (hkeys : s.db.Keys) :
    (∃ s', updateBeatmaps api beatmaps s = .ok s') ↔
      ∀ b ∈ beatmaps, (s.db.beatmapSnapshot? b.checksum).isSome := by
  induction beatmaps generalizing s with
  | nil =>
      constructor
      · intro _ b hb
        cases hb
      · intro _
        exact ⟨s, rfl⟩
  | cons b rest ih =>
      rw [List.forall_mem_cons]
      cases hfind : s.db.beatmapSnapshot? b.checksum with
      | none =>
          rw [updateBeatmaps, updateBeatmap_none hfind, error_bind]
          simp
      | some row =>
          rw [updateBeatmaps, updateBeatmap_some hfind, ok_bind]
          split
          · rw [ih hkeys]
            simp
          · rw [ih (updated_keys hkeys hfind)]
            have hsame (b' : BeatmapDict) :
                ((s.updated api b row).db.beatmapSnapshot? b'.checksum).isSome =
                (s.db.beatmapSnapshot? b'.checksum).isSome := by
              rw [updated_beatmapSnapshot? hkeys hfind]
              split
              · rename_i hchecksum
                rw [hchecksum, hfind]
                rfl
              · rfl
            simp [hsame]

/-- The update of a row of the beatmapset settles nothing else. -/
theorem settled_updated_iff {beatmapsetId : Int} (hkeys : s.db.Keys)
    (h : s.db.beatmapSnapshot? b.checksum = some row) (hrow : row.beatmapsetId = beatmapsetId) :
    Settled beatmapsetId beatmaps (s.updated api b row).db ↔
      Settled beatmapsetId beatmaps s.db := by
  simp only [Settled, updated_beatmapSnapshot? hkeys h]
  apply forall₂_congr
  intro b' _
  by_cases hchecksum : b'.checksum = b.checksum
  · rw [if_pos hchecksum, hchecksum, h]
    simp [BeatmapDict.update, hrow]
  · rw [if_neg hchecksum]

/-- The rows that the loop writes are rows of the beatmapset exactly if all
other rows that it finds are settled. -/
theorem updateBeatmaps_writes (beatmapsetId : Int) (hkeys : s.db.Keys)
    (h : updateBeatmaps api beatmaps s = .ok s') :
    s'.db.beatmapsetSnapshots = s.db.beatmapsetSnapshots ∧ ∃ added, s'.writes = s.writes ++ added ∧
      ((∀ w ∈ added, w.BelongsTo beatmapsetId) ↔ Settled beatmapsetId beatmaps s.db) := by
  induction beatmaps generalizing s with
  | nil =>
      cases h
      refine ⟨rfl, [], (List.append_nil _).symm, ?_⟩
      simp [Settled]
  | cons b rest ih =>
      cases hfind : s.db.beatmapSnapshot? b.checksum with
      | none =>
          rw [updateBeatmaps, updateBeatmap_none hfind, error_bind] at h
          cases h
      | some row =>
          rw [updateBeatmaps, updateBeatmap_some hfind, ok_bind] at h
          have hcons : Settled beatmapsetId (b :: rest) s.db ↔
              (row.beatmapsetId = beatmapsetId ∨ b.delta row = []) ∧
              Settled beatmapsetId rest s.db := by
            rw [Settled, List.forall_mem_cons, hfind]
            simp [Settled]
          rw [hcons]
          split at h
          · rename_i hdelta
            obtain ⟨hsets, added, hadded, hiff⟩ := ih hkeys h
            refine ⟨hsets, added, hadded, ?_⟩
            rw [hiff]
            simp [hdelta]
          · rename_i hdelta
            obtain ⟨hsets, added, hadded, hiff⟩ := ih (updated_keys hkeys hfind) h
            refine ⟨hsets.trans (populateLinks_populates api b s.db).beatmapsetSnapshots,
              .updateBeatmapSnapshot row (b.update (populateLinks api b s.db) row) :: added, ?_, ?_⟩
            · rw [hadded, Session.updated, Session.write, List.append_assoc, List.singleton_append]
            · rw [List.forall_mem_cons, hiff]
              constructor
              · rintro ⟨hrow, hsettled⟩
                exact ⟨Or.inl hrow, (settled_updated_iff hkeys hfind hrow).mp hsettled⟩
              · rintro ⟨hrow, hsettled⟩
                have hrow := hrow.resolve_right hdelta
                exact ⟨hrow, (settled_updated_iff hkeys hfind hrow).mpr hsettled⟩

theorem updated_frame (hkeys : s.db.Keys) (h : s.db.beatmapSnapshot? b.checksum = some row) :
    Frame row.beatmapsetId s.db (s.updated api b row).db := by
  have hpopulates := populateLinks_populates api b s.db
  refine (Frame.of_populates hpopulates).trans ⟨?_, fun _ _ => Iff.rfl⟩
  intro other hother
  have hmem : row ∈ (populateLinks api b s.db).db.beatmapSnapshots := by
    rw [hpopulates.beatmapSnapshots]
    exact List.mem_of_find?_eq_some h
  exact Frame.mem_replace_iff BeatmapSnapshot.beatmapsetId (b.update (populateLinks api b s.db) row)
    (hpopulates.keys hkeys).beatmapIds hmem rfl rfl hother

theorem updateBeatmaps_frame {beatmapsetId : Int} (hkeys : s.db.Keys)
    (hsettled : Settled beatmapsetId beatmaps s.db) (h : updateBeatmaps api beatmaps s = .ok s') :
    Frame beatmapsetId s.db s'.db := by
  induction beatmaps generalizing s with
  | nil =>
      cases h
      exact Frame.refl _
  | cons b rest ih =>
      obtain ⟨next, hnext, hrest⟩ := bind_eq_ok h
      obtain ⟨hb, hsettled⟩ := List.forall_mem_cons.mp hsettled
      cases hfind : s.db.beatmapSnapshot? b.checksum with
      | none =>
          rw [updateBeatmap_none hfind] at hnext
          cases hnext
      | some row =>
          rw [updateBeatmap_some hfind] at hnext
          cases hnext
          split at hrest
          · exact ih hkeys hsettled hrest
          · rename_i hdelta
            have hrow := (hb row hfind).resolve_right hdelta
            apply (hrow ▸ updated_frame hkeys hfind).trans
            exact ih (updated_keys hkeys hfind)
              ((settled_updated_iff hkeys hfind hrow).mpr hsettled) hrest

theorem updateBeatmaps_keys (hkeys : s.db.Keys) (h : updateBeatmaps api beatmaps s = .ok s') :
    s'.db.Keys := by
  induction beatmaps generalizing s with
  | nil =>
      cases h
      exact hkeys
  | cons b rest ih =>
      obtain ⟨next, hnext, hrest⟩ := bind_eq_ok h
      apply ih _ hrest
      cases hfind : s.db.beatmapSnapshot? b.checksum with
      | none =>
          rw [updateBeatmap_none hfind] at hnext
          cases hnext
      | some row =>
          rw [updateBeatmap_some hfind] at hnext
          cases hnext
          split
          · exact hkeys
          · exact updated_keys hkeys hfind

variable {checksum : String} {found : BeatmapsetSnapshot}

theorem updateBeatmapset_ok (hkeys : s.db.Keys)
    (hfound : s.db.beatmapsetSnapshot? checksum = some found) :
    updateBeatmapset api checksum s = .ok s' ↔
      ∃ next, updateBeatmaps api api.beatmapset.beatmaps s = .ok next ∧
        s' = if api.beatmapset.delta found = [] then next
          else next.write (.updateBeatmapsetSnapshot found (api.beatmapset.update found)) := by
  have hsame {next : Session} (hnext : updateBeatmaps api api.beatmapset.beatmaps s = .ok next) :
      next.db.beatmapsetSnapshot? checksum = some found := by
    rw [beatmapsetSnapshot?, (updateBeatmaps_writes 0 hkeys hnext).1]
    exact hfound
  constructor
  · intro h
    obtain ⟨next, hnext, h⟩ := bind_eq_ok h
    simp only [hsame hnext] at h
    refine ⟨next, hnext, ?_⟩
    by_cases hdelta : api.beatmapset.delta found = []
    · rw [if_pos hdelta] at h ⊢
      cases h
      rfl
    · rw [if_neg hdelta] at h ⊢
      cases h
      rfl
  · rintro ⟨next, hnext, rfl⟩
    rw [updateBeatmapset, hnext, ok_bind]
    simp only [hsame hnext]
    split <;> rfl

end Update

/-! The call. -/

/-- Where no lookup leads to another beatmapset. If the combined checksum is
new: the snapshots that are there for the payload's beatmaps are of this
beatmapset, unless a link is inserted twice, which fails and leaves a beatmapset
without a snapshot if it has none. If it is known: the beatmapset has a snapshot,
and what is found of other beatmapsets has nothing to update, unless the
snapshot of a beatmap is missing, which fails. -/
def Apart (combineChecksums : List String → String) (api : OsuApi) (db : Database) : Prop :=
  let p := api.beatmapset
  match db.beatmapsetSnapshot? (combineChecksums p.checksums) with
  | none =>
      (p.checksums.Nodup ∧ Insertable api p.beatmaps db ∧
        ∀ b ∈ p.beatmaps, ∀ row, db.beatmapSnapshot? b.checksum = some row →
        row.beatmapsetId = p.id) ∨
      (¬ (p.checksums.Nodup ∧ Insertable api p.beatmaps db) ∧ db.Archived p.id)
  | some found =>
      db.Archived p.id ∧
        ((∀ b ∈ p.beatmaps, (db.beatmapSnapshot? b.checksum).isSome) →
          Settled p.id p.beatmaps db ∧ (found.owner = p.id ∨ p.delta found = []))

section Call

variable {combineChecksums : List String → String} {api : OsuApi} {db : Database} {s : Session}

theorem outcome_ok (h : archive combineChecksums api db = .ok s) :
    outcome combineChecksums api db = s := by
  rw [outcome, h]

theorem outcome_error (h : ¬ ∃ s, archive combineChecksums api db = .ok s) :
    outcome combineChecksums api db = ⟨db, []⟩ := by
  rw [outcome]
  split
  · rename_i s hs
    exact absurd ⟨s, hs⟩ h
  · rfl

theorem start_populates (api : OsuApi) (db : Database) : Populates db (Session.start api db).db :=
  populateOwnerProfiles_populates _ _ _

@[simp] theorem start_writes (api : OsuApi) (db : Database) : (Session.start api db).writes = [] :=
  rfl

theorem insertable_start {beatmaps : List BeatmapDict} :
    Insertable api beatmaps (Session.start api db).db ↔ Insertable api beatmaps db := by
  have htags : (Session.start api db).db.beatmapTags = db.beatmapTags :=
    populateOwnerProfiles_beatmapTags _ _ _
  simp only [Insertable, (start_populates api db).beatmapSnapshot?, htags]

/-- A call that fails is isolated if the beatmapset has a snapshot anyway. -/
theorem isolated_iff_of_error (h : ¬ ∃ s, archive combineChecksums api db = .ok s) :
    Isolated combineChecksums api db ↔ db.Archived api.beatmapset.id := by
  constructor
  · intro hisolated
    have harchived := hisolated.archived
    rw [outcome_error h] at harchived
    exact harchived
  · intro harchived
    constructor <;> rw [outcome_error h]
    · intro w hw
      cases hw
    · exact harchived

theorem isolated_iff_of_ok (h : archive combineChecksums api db = .ok s) :
    Isolated combineChecksums api db ↔
      (∀ w ∈ s.writes, w.BelongsTo api.beatmapset.id) ∧ s.db.Archived api.beatmapset.id := by
  constructor
  · rintro ⟨hwrites, harchived⟩
    rw [outcome_ok h] at hwrites harchived
    exact ⟨hwrites, harchived⟩
  · rintro ⟨hwrites, harchived⟩
    constructor <;> rw [outcome_ok h]
    · exact hwrites
    · exact harchived

theorem isolated_iff_of_new (hkeys : db.Keys)
    (hnew : db.beatmapsetSnapshot? (combineChecksums api.beatmapset.checksums) = none) :
    Isolated combineChecksums api db ↔ Apart combineChecksums api db := by
  have hpopulates := start_populates api db
  have harchive : archive combineChecksums api db =
      snapshotBeatmapset api (combineChecksums api.beatmapset.checksums)
      (Session.start api db) := by
    simp only [archive, hnew]
  have hok :
      (∃ s, snapshotBeatmapset api (combineChecksums api.beatmapset.checksums) (.start api db) =
        .ok s) ↔ _ :=
    snapshotBeatmapset_isOk (hpopulates.keys hkeys)
  rw [insertable_start, ← harchive] at hok
  simp only [Apart, hnew]
  by_cases hinsertable : api.beatmapset.checksums.Nodup ∧ Insertable api api.beatmapset.beatmaps db
  · obtain ⟨s, hs⟩ := hok.mpr hinsertable
    rw [isolated_iff_of_ok hs]
    obtain ⟨next, rows, hrows, -, rfl⟩ := snapshotBeatmapset_ok.mp (harchive ▸ hs)
    have hbelong := snapshotBeatmaps_belong api.beatmapset.beatmapset_ids hrows
    simp only [hpopulates.beatmapSnapshot?] at hbelong
    obtain ⟨hinserts, -, -⟩ := snapshotBeatmaps_inserts api.beatmapset.beatmapset_ids hrows
    obtain ⟨added, hadded, hadded'⟩ := hinserts.writes
    simp only [Session.write, hadded, start_writes, List.nil_append, List.forall_mem_append,
      List.forall_mem_singleton]
    constructor
    · rintro ⟨⟨-, -, hlinked⟩, -⟩
      exact Or.inl ⟨hinsertable.1, hinsertable.2, hbelong.mp hlinked⟩
    · rintro (⟨-, -, hthere⟩ | ⟨hnot, -⟩)
      · refine ⟨⟨hadded', rfl, hbelong.mpr hthere⟩,
          api.beatmapset.snapshot (combineChecksums api.beatmapset.checksums) rows next.db, ?_, rfl⟩
        simp only [Write.apply, moveRequests, relist_beatmapsetSnapshots]
        exact List.mem_append_right _ (List.mem_singleton_self _)
      · exact absurd hinsertable hnot
  · rw [isolated_iff_of_error (fun h => hinsertable (hok.mp h))]
    constructor
    · intro harchived
      exact Or.inr ⟨hinsertable, harchived⟩
    · rintro (⟨hnodup, hlinks, -⟩ | ⟨-, harchived⟩)
      · exact absurd ⟨hnodup, hlinks⟩ hinsertable
      · exact harchived

/-- An update keeps the owners. -/
theorem archived_updateBeatmapset (hkeys : db.Keys) {old : BeatmapsetSnapshot}
    (hold : old ∈ db.beatmapsetSnapshots) (api : OsuApi) :
    ((Write.updateBeatmapsetSnapshot old (api.beatmapset.update old)).apply db).Archived
    api.beatmapset.id ↔
      db.Archived api.beatmapset.id := by
  constructor
  · rintro ⟨row, hrow, howner⟩
    rcases mem_replace hrow with ⟨hrow, -⟩ | rfl
    · exact ⟨row, hrow, howner⟩
    · exact ⟨old, hold, howner⟩
  · rintro ⟨row, hrow, howner⟩
    refine ⟨if row.id = old.id then api.beatmapset.update old else row,
      List.mem_map_of_mem hrow, ?_⟩
    split
    · rename_i hid
      obtain rfl := List.inj_on_of_nodup_map hkeys.beatmapsetIds hrow hold hid
      exact howner
    · exact howner

theorem isolated_iff_of_known (hkeys : db.Keys) {found : BeatmapsetSnapshot}
    (hfound : db.beatmapsetSnapshot? (combineChecksums api.beatmapset.checksums) = some found) :
    Isolated combineChecksums api db ↔ Apart combineChecksums api db := by
  have hpopulates := start_populates api db
  have hkeys' := hpopulates.keys hkeys
  have hfound' := (hpopulates.beatmapsetSnapshot? _).trans hfound
  have harchive : archive combineChecksums api db =
      updateBeatmapset api (combineChecksums api.beatmapset.checksums) (Session.start api db) := by
    simp only [archive, hfound]
  have hok : (∃ s, updateBeatmaps api api.beatmapset.beatmaps (.start api db) = .ok s) ↔ _ :=
    updateBeatmaps_isOk hkeys'
  simp only [hpopulates.beatmapSnapshot?] at hok
  simp only [Apart, hfound]
  by_cases hthere : ∀ b ∈ api.beatmapset.beatmaps, (db.beatmapSnapshot? b.checksum).isSome
  · obtain ⟨next, hnext⟩ := hok.mpr hthere
    have hs := harchive ▸ (updateBeatmapset_ok hkeys' hfound').mpr ⟨next, hnext, rfl⟩
    obtain ⟨hsets, added, hadded, hiff⟩ := updateBeatmaps_writes api.beatmapset.id hkeys' hnext
    have hsettled : Settled api.beatmapset.id api.beatmapset.beatmaps (Session.start api db).db ↔
        Settled api.beatmapset.id api.beatmapset.beatmaps db := by
      simp only [Settled, hpopulates.beatmapSnapshot?]
    rw [hsettled] at hiff
    have hsets : next.db.beatmapsetSnapshots = db.beatmapsetSnapshots :=
      hsets.trans hpopulates.beatmapsetSnapshots
    have harchived : next.db.Archived api.beatmapset.id ↔ db.Archived api.beatmapset.id := by
      rw [Archived, Archived, hsets]
    rw [isolated_iff_of_ok hs, forall_prop_of_true hthere]
    by_cases hdelta : api.beatmapset.delta found = []
    · simp only [hdelta, if_true, hadded, start_writes, List.nil_append, hiff, harchived,
        or_true, and_true]
      exact And.comm
    · have hmem : found ∈ next.db.beatmapsetSnapshots := hsets ▸ List.mem_of_find?_eq_some hfound
      have hkept := archived_updateBeatmapset (updateBeatmaps_keys hkeys' hnext) hmem api
      have hlast : (Write.updateBeatmapsetSnapshot found (api.beatmapset.update found)).BelongsTo
          api.beatmapset.id ↔ found.owner = api.beatmapset.id := Iff.rfl
      simp only [hdelta, if_false, Session.write, hadded, start_writes, List.nil_append,
        List.forall_mem_append, List.forall_mem_singleton, hiff, hkept, harchived, or_false, hlast]
      exact And.comm
  · rw [isolated_iff_of_error]
    · simp [hthere]
    · rintro ⟨s, hs⟩
      obtain ⟨next, hnext, -⟩ := (updateBeatmapset_ok hkeys' hfound').mp (harchive ▸ hs)
      exact hthere (hok.mp ⟨next, hnext⟩)

/-- A call is isolated exactly if no lookup leads it to another beatmapset. -/
theorem isolated_iff (hkeys : db.Keys) :
    Isolated combineChecksums api db ↔ Apart combineChecksums api db := by
  cases hfind : db.beatmapsetSnapshot? (combineChecksums api.beatmapset.checksums) with
  | none => exact isolated_iff_of_new hkeys hfind
  | some found => exact isolated_iff_of_known hkeys hfind

/-- An isolated call leaves the snapshots of the other beatmapsets as they are. -/
theorem frame_of_isolated (hkeys : db.Keys) (h : Isolated combineChecksums api db) :
    Frame api.beatmapset.id db (outcome combineChecksums api db).db := by
  have hpopulates := start_populates api db
  have hkeys' := hpopulates.keys hkeys
  by_cases hok : ∃ s, archive combineChecksums api db = .ok s
  · obtain ⟨s, hs⟩ := hok
    rw [outcome_ok hs]
    obtain ⟨hwrites, -⟩ := (isolated_iff_of_ok hs).mp h
    apply (Frame.of_populates hpopulates).trans
    unfold archive at hs
    dsimp only at hs
    split at hs
    · obtain ⟨next, rows, hrows, -, rfl⟩ := snapshotBeatmapset_ok.mp hs
      obtain ⟨hinserts, -, -⟩ := snapshotBeatmaps_inserts api.beatmapset.beatmapset_ids hrows
      apply hinserts.frame.trans
      constructor <;> intro row hrow <;>
        simp only [Session.write, Write.apply, moveRequests, relist_beatmapSnapshots,
          relist_beatmapsetSnapshots, takeSnapshotId]
      exact Frame.mem_append_iff (fun row : BeatmapsetSnapshot => row.owner) rfl hrow
    · rename_i found hfound
      have hfound' := (hpopulates.beatmapsetSnapshot? _).trans hfound
      obtain ⟨next, hnext, rfl⟩ := (updateBeatmapset_ok hkeys' hfound').mp hs
      obtain ⟨hsets, added, hadded, hiff⟩ := updateBeatmaps_writes api.beatmapset.id hkeys' hnext
      have hadded' : ∀ w ∈ added, w.BelongsTo api.beatmapset.id := by
        intro w hw
        apply hwrites w
        split
        · rw [hadded]
          exact List.mem_append_right _ hw
        · rw [Session.write, hadded]
          exact List.mem_append_left _ (List.mem_append_right _ hw)
      apply (updateBeatmaps_frame hkeys' (hiff.mp hadded') hnext).trans
      split
      · exact Frame.refl _
      · rename_i hdelta
        rw [if_neg hdelta] at hwrites
        have howner : found.owner = api.beatmapset.id :=
          hwrites _ (List.mem_append_right _ (List.mem_singleton_self _))
        refine ⟨fun _ _ => Iff.rfl, ?_⟩
        intro row hrow
        have hmem : found ∈ next.db.beatmapsetSnapshots := by
          rw [hsets]
          exact List.mem_of_find?_eq_some hfound'
        exact Frame.mem_replace_iff (fun row : BeatmapsetSnapshot => row.owner)
          (api.beatmapset.update found)
          (updateBeatmaps_keys hkeys' hnext).beatmapsetIds hmem howner howner hrow
  · rw [outcome_error hok]
    exact Frame.refl db

end Call

theorem keys_empty : Database.empty.Keys where
  beatmapIds := List.nodup_nil
  beatmapsetIds := List.nodup_nil
  profileIds := List.nodup_nil
  userIds := List.nodup_nil
  tagIds := List.nodup_nil
  beatmapFresh _ h := (List.not_mem_nil h).elim
  beatmapsetFresh _ h := (List.not_mem_nil h).elim
  profileFresh _ h := (List.not_mem_nil h).elim

/-! The conditions can be evaluated. -/

instance decidableForallFound {α : Type} (found : Option α) (P : α → Prop) [DecidablePred P] :
    Decidable (∀ a, found = some a → P a) :=
  decidable_of_iff (∀ a ∈ found.toList, P a) (by simp)

instance (db : Database) : Decidable db.Keys :=
  decidable_of_iff ((db.beatmapSnapshots.map (·.id)).Nodup ∧
    (db.beatmapsetSnapshots.map (·.id)).Nodup ∧
      (db.profiles.map Profile.id).Nodup ∧ (db.profiles.map Profile.userId).Nodup ∧
      db.beatmapTags.Nodup ∧
      (∀ row ∈ db.beatmapSnapshots, row.id < db.sequences.snapshot .beatmap) ∧
      (∀ row ∈ db.beatmapsetSnapshots, row.id < db.sequences.snapshot .beatmapset) ∧
      ∀ profile ∈ db.profiles, profile.id < db.nextProfile)
    ⟨fun ⟨h₁, h₂, h₃, h₄, h₅, h₆, h₇, h₈⟩ => ⟨h₁, h₂, h₃, h₄, h₅, h₆, h₇, h₈⟩,
      fun h => ⟨h.beatmapIds, h.beatmapsetIds, h.profileIds, h.userIds, h.tagIds, h.beatmapFresh,
        h.beatmapsetFresh, h.profileFresh⟩⟩

instance (beatmapsetId : Int) (db : Database) : Decidable (db.Archived beatmapsetId) :=
  inferInstanceAs (Decidable (∃ row ∈ db.beatmapsetSnapshots, row.owner = beatmapsetId))

instance (api : OsuApi) (beatmaps : List BeatmapDict) (db : Database) :
    Decidable (Insertable api beatmaps db) :=
  inferInstanceAs (Decidable (∀ b ∈ beatmaps, db.beatmapSnapshot? b.checksum = none →
    (b.topTagIds.filter (fun tag => tag ∈ db.beatmapTags ∨ tag ∈ api.tags)).Nodup ∧
    b.ownerIds.Nodup))

instance (beatmapsetId : Int) (beatmaps : List BeatmapDict) (db : Database) :
    Decidable (Settled beatmapsetId beatmaps db) :=
  inferInstanceAs (Decidable (∀ b ∈ beatmaps, ∀ row, db.beatmapSnapshot? b.checksum = some row →
    row.beatmapsetId = beatmapsetId ∨ b.delta row = []))

instance (combineChecksums : List String → String) (api : OsuApi) (db : Database) :
    Decidable (Apart combineChecksums api db) :=
  match h : db.beatmapsetSnapshot? (combineChecksums api.beatmapset.checksums) with
  | none =>
      decidable_of_iff
        ((api.beatmapset.checksums.Nodup ∧ Insertable api api.beatmapset.beatmaps db ∧
          ∀ b ∈ api.beatmapset.beatmaps, ∀ row, db.beatmapSnapshot? b.checksum = some row →
            row.beatmapsetId = api.beatmapset.id) ∨
        (¬ (api.beatmapset.checksums.Nodup ∧ Insertable api api.beatmapset.beatmaps db) ∧
          db.Archived api.beatmapset.id)) (by simp [Apart, h])
  | some found =>
      decidable_of_iff (db.Archived api.beatmapset.id ∧
        ((∀ b ∈ api.beatmapset.beatmaps, (db.beatmapSnapshot? b.checksum).isSome) →
          Settled api.beatmapset.id api.beatmapset.beatmaps db ∧
            (found.owner = api.beatmapset.id ∨ api.beatmapset.delta found = [])))
            (by simp [Apart, h])

/-! Two beatmapsets with beatmaps of the same content, or without any. -/

/-- `combine_checksums` at the lists below. -/
def combined : List String → String
  | [] => "d41d8cd98f00b204e9800998ecf8427e"
  | ["0cc175b9c0f1b6a831c399e269772661"] => "d7afde3e7059cd0a0fe09eec4b0008cd"
  | ["92eb5ffee6ae2fec3ad71c777531578f"] => "dc0ae7e1387be9b795f5d6299e383759"
  | ["92eb5ffee6ae2fec3ad71c777531578f", "4a8a08f09d37b73795649038408b5f33"] =>
      "3f8b97583bd2713435a6946f9c8784fa"
  | _ => "3bc22fb7aaebe9c8c5d7de312b876bb8"

def sampleColumns : (c : BeatmapColumn) → c.Value
  | .userId => (7 : Int)
  | .failtimes | .isScoreable | .lastUpdated | .passcount | .playcount | .ranked | .status =>
      Json.null

/-- A beatmapset, with the ids and checksums of its beatmaps. -/
def sample (id : Int) (beatmaps : List (Int × String)) (hids : (beatmaps.map Prod.fst).Nodup) :
    OsuApi where
  beatmapset :=
    { id := id
      userId := 7
      tags := ""
      columns := fun _ => .null
      beatmaps := beatmaps.map fun b => ⟨b.1, id, b.2, sampleColumns, [], []⟩
      beatmapset_ids := by
        intro b hb
        obtain ⟨entry, -, rfl⟩ := List.mem_map.mp hb
        rfl
      beatmap_ids := by simpa [Function.comp_def] using hids }
  username _ := "peppy"
  tags := []

/-- A beatmapset with one beatmap, and another one that gets a second beatmap. -/
def firstSet : OsuApi := sample 1 [(10, "0cc175b9c0f1b6a831c399e269772661")] (by decide)

def secondSet : OsuApi := sample 2 [(20, "92eb5ffee6ae2fec3ad71c777531578f")] (by decide)

def secondSetExtended : OsuApi :=
  sample 2 [(20, "92eb5ffee6ae2fec3ad71c777531578f"), (21, "4a8a08f09d37b73795649038408b5f33")]
    (by decide)

/-- Both are archived. -/
def bothArchived : Database := (outcome combined secondSet (outcome combined firstSet .empty).db).db

/-- A call that updates the second, and one that takes a new snapshot of it. -/
theorem isolated_iff_second :
    Isolated combined secondSet bothArchived ∧
    Isolated combined secondSetExtended bothArchived := by
  have hkeys : bothArchived.Keys := by decide +kernel
  constructor
  · apply (isolated_iff hkeys).mpr
    decide +kernel
  · apply (isolated_iff hkeys).mpr
    decide +kernel

/-- Without beatmaps, the second beatmapset is taken for the first and gets no
snapshot. With a beatmap of the same content, its snapshot is linked to the
snapshot of the first's. -/
theorem second_not_isolated :
    ¬ Isolated combined (sample 2 [] (by decide))
    (outcome combined (sample 1 [] (by decide)) .empty).db ∧
      ¬ Isolated combined
        (sample 2
          [(20, "0cc175b9c0f1b6a831c399e269772661"), (21, "92eb5ffee6ae2fec3ad71c777531578f")]
          (by decide))
        (outcome combined (sample 1 [(10, "0cc175b9c0f1b6a831c399e269772661")] (by decide))
          .empty).db := by
  constructor
  · rintro ⟨-, row, hrow, howner⟩
    have howners : (outcome combined (sample 2 [] (by decide))
        (outcome combined (sample 1 [] (by decide)) .empty).db).db.beatmapsetSnapshots.map
          (fun row => row.owner) = [1] := by decide +kernel
    have hmem := List.mem_map_of_mem (f := fun row => row.owner) hrow
    rw [howners, howner] at hmem
    exact absurd hmem (by decide)
  · rintro ⟨hwrites, -⟩
    revert hwrites
    decide +kernel

end Graveboards.Archive.Manager
