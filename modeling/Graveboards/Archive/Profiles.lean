import Graveboards.Archive.Population
import Graveboards.Archive.Rows

/-!
The users that `BeatmapManager` populates are modelled twice: `Manager` keeps the
rows of their profiles, for the snapshots that are linked with them, where all
calls of `get_user` succeed; `Population` has every way in which a call can end.
Both leave profiles of the same users, in the same order.
-/

namespace Graveboards.Archive.Profiles

open Manager (OsuApi populateLinks)
open Population (HttpError UserDict World Standing newcomers)

/-! The payload of the one model as the other reads it. -/

def beatmapDict (b : Manager.BeatmapDict) : Population.BeatmapDict where
  id := b.id
  beatmapsetId := b.beatmapsetId
  userId := b.userId
  owners := b.owners.map fun owner => ⟨owner.id, ⟨some owner.username, none⟩⟩

def beatmapsetDict (p : Manager.BeatmapsetDict) (user : UserDict) : Population.BeatmapsetDict where
  id := p.id
  userId := p.userId
  user := user
  beatmaps := p.beatmaps.map beatmapDict

theorem ownerIds_eq (b : Manager.BeatmapDict) :
    (beatmapDict b).ownerDicts.map Population.OwnerDict.id = b.ownerIds := by
  rw [Population.BeatmapDict.ownerDicts, Manager.BeatmapDict.ownerIds, beatmapDict]
  by_cases hnone : b.owners = []
  · rw [if_pos hnone, if_pos (List.map_eq_nil_iff.mpr hnone)]
    rfl
  · rw [if_neg hnone, if_neg (List.map_eq_nil_iff.not.mpr hnone), List.map_map]
    rfl

/-! Who has a profile. -/

/-- The users with a profile, in the order of the rows. -/
def owners (db : Manager.Database) : List Int := db.profiles.map Manager.Profile.userId

theorem owners_populateUser (username : Int → String) (userId : Int) (db : Manager.Database) :
    owners (Manager.populateUser username userId db).1 =
      if userId ∈ owners db then owners db else owners db ++ [userId] := by
  unfold Manager.populateUser
  cases hfind : db.profiles.find? (·.userId = userId) with
  | some profile =>
      have hmem : userId ∈ owners db := by
        have hid : profile.userId = userId := by simpa using List.find?_some hfind
        exact List.mem_map.mpr ⟨profile, List.mem_of_find?_eq_some hfind, hid⟩
      rw [if_pos hmem]
  | none =>
      have hnew : userId ∉ owners db := by
        intro hmem
        obtain ⟨profile, hprofile, hid⟩ := List.mem_map.mp hmem
        exact absurd (decide_eq_true hid) (List.find?_eq_none.mp hfind profile hprofile)
      rw [if_neg hnew, owners, List.map_append]
      rfl

/-- Those who come anew get one, each when they first come. -/
theorem owners_populateOwnerProfiles (username : Int → String) (ids : List Int)
    (db : Manager.Database) :
    owners (Manager.populateOwnerProfiles username ids db).1 = owners db ++
    newcomers (owners db) ids := by
  induction ids generalizing db with
  | nil => exact (List.append_nil _).symm
  | cons userId rest ih =>
      have huser := owners_populateUser username userId db
      rw [Manager.populateOwnerProfiles, ih, huser]
      by_cases hknown : userId ∈ owners db
      · rw [if_pos hknown, Population.newcomers_cons_of_mem hknown]
      · rw [if_neg hknown, Population.newcomers_cons_of_notMem hknown, List.append_assoc]
        rfl

theorem known_ask (outcomes : Nat → Except HttpError UserDict) (σ : Standing) (userId : Int) :
    (σ.ask outcomes userId).known = if userId ∈ σ.known then σ.known else σ.known ++ [userId] := by
  rw [Standing.ask]
  by_cases hknown : userId ∈ σ.known
  · rw [if_pos hknown, if_pos hknown]
  · rw [if_neg hknown, if_neg hknown, Standing.known, List.map_append]
    rfl

theorem known_foldl_ask (outcomes : Nat → Except HttpError UserDict) (ids : List Int)
    (σ : Standing) :
    (ids.foldl (Standing.ask outcomes) σ).known = σ.known ++ newcomers σ.known ids := by
  induction ids generalizing σ with
  | nil => exact (List.append_nil _).symm
  | cons userId rest ih =>
      rw [List.foldl_cons, ih, known_ask]
      by_cases hknown : userId ∈ σ.known
      · rw [if_pos hknown, Population.newcomers_cons_of_mem hknown]
      · rw [if_neg hknown, Population.newcomers_cons_of_notMem hknown, List.append_assoc]
        rfl

/-! Agreement. -/

/-- The same users have a profile in both. -/
def Agree (db : Manager.Database) (w : World) : Prop := owners db = w.standing.known

section

variable (outcomes : Nat → Except HttpError UserDict) (now : Nat)
  {db : Manager.Database} {w : World}

theorem populateOwnerProfiles_agree (h : Agree db w) (username : Int → String)
    (b : Manager.BeatmapDict) :
    Agree (Manager.populateOwnerProfiles username b.ownerIds db).1
      (Population.populateOwnerProfiles outcomes now (beatmapDict b).ownerDicts w).2 := by
  obtain ⟨profiles, w', hrun, hstanding⟩ :=
    Population.populateOwnerProfiles_eq outcomes now (beatmapDict b).ownerDicts w
  rw [Agree, owners_populateOwnerProfiles, hrun, hstanding, known_foldl_ask, ownerIds_eq, h]

theorem populateBeatmapset_agree (h : Agree db w) (api : OsuApi) (user : UserDict) :
    Agree (Manager.populateBeatmapset api db)
      (Population.populateBeatmapset outcomes now (beatmapsetDict api.beatmapset user) w).2 := by
  obtain ⟨w', hrun, hstanding⟩ :=
    Population.populateBeatmapset_eq outcomes now (beatmapsetDict api.beatmapset user) w
  have husers : (beatmapsetDict api.beatmapset user).beatmaps.map Population.BeatmapDict.userId =
      api.beatmapset.beatmaps.map Manager.BeatmapDict.userId := List.map_map
  rw [Agree, Manager.populateBeatmapset, owners_populateOwnerProfiles, hrun, hstanding,
    known_foldl_ask, husers, h]
  rfl

/-- Tags leave the profiles alone. -/
theorem profiles_populateBeatmapTags (osuTags ids : List Nat) (db : Manager.Database) :
    (Manager.populateBeatmapTags osuTags ids db).1.profiles = db.profiles := by
  induction ids generalizing db with
  | nil => rfl
  | cons tag rest ih =>
      have hfetch : (Manager.fetchBeatmapTag osuTags tag db).1.profiles = db.profiles := by
        unfold Manager.fetchBeatmapTag
        split <;> rfl
      exact (ih _).trans hfetch

theorem populateLinks_agree (h : Agree db w) (api : OsuApi) (b : Manager.BeatmapDict) :
    Agree (populateLinks api b db).db
      (Population.populateOwnerProfiles outcomes now (beatmapDict b).ownerDicts w).2 := by
  apply populateOwnerProfiles_agree outcomes now _ api.username b
  rw [Agree, owners, profiles_populateBeatmapTags]
  exact h

theorem populateOwners_agree (h : Agree db w) (api : OsuApi) (changed : List Manager.BeatmapDict) :
    Agree (changed.foldl (fun db b => (populateLinks api b db).db) db)
      (Population.populateOwners outcomes now (changed.map beatmapDict) w).2 := by
  induction changed generalizing db w with
  | nil => exact h
  | cons b rest ih =>
      have hfirst := populateLinks_agree outcomes now h api b
      obtain ⟨profiles, w', hrun, -⟩ :=
        Population.populateOwnerProfiles_eq outcomes now (beatmapDict b).ownerDicts w
      rw [hrun] at hfirst
      rw [List.foldl_cons, List.map_cons, Population.populateOwners, hrun]
      exact ih hfirst

/-- The whole call: the users of the payload, and then the owners of the beatmaps
that are new or different. -/
theorem populate_agree {rows : Population.Database} (h : Agree db ⟨rows, []⟩) (api : OsuApi)
    (user : UserDict) (changed : List Manager.BeatmapDict) :
    Agree (changed.foldl (fun db b => (populateLinks api b db).db)
      (Manager.populateBeatmapset api db))
      (Population.populate outcomes now (beatmapsetDict api.beatmapset user)
        (changed.map beatmapDict)
        rows).2 := by
  have hfirst := populateBeatmapset_agree outcomes now h api user
  obtain ⟨w, hrun, -⟩ :=
    Population.populateBeatmapset_eq outcomes now (beatmapsetDict api.beatmapset user) ⟨rows, []⟩
  rw [hrun] at hfirst
  rw [Population.populate, hrun]
  exact populateOwners_agree outcomes now hfirst api changed

end

end Graveboards.Archive.Profiles
