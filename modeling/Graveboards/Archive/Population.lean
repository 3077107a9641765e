import Mathlib.Tactic

/-!
Users and profiles as `BeatmapManager` populates them: the host, the user of
each beatmap and the owners, with every way in which a call of `get_user` can
end. A user without a profile is asked for once, and whatever the error is, the
profile is then stored as a restricted one; so no error gets out.
-/

namespace Graveboards.Archive.Population

/-- The exceptions of httpx: `HTTPStatusError`, and the transport errors. -/
inductive HttpError where
  | status (code : Nat)
  | connectTimeout
  | readTimeout
  | transport
  deriving DecidableEq

/-- Is it a `TransportError`? -/
def HttpError.isTransport : HttpError → Bool
  | .status _ => false
  | .connectTimeout | .readTimeout | .transport => true

inductive Exception where
  | http (e : HttpError)
  | restrictedUser (userId : Int)
  deriving DecidableEq

/-- The entries of a user that `ProfileSchema` looks at itself. One that is
missing is one of the blank slate. -/
structure UserDict where
  username : Option String
  isDeleted : Option Bool
  deriving DecidableEq

/-- `ProfileSchema.get_blank_slate` -/
def UserDict.blankSlate : UserDict := ⟨none, none⟩

/-- `ProfileSchema.from_osu_api_format` -/
def UserDict.fromOsuApiFormat (userId : Int) (user : UserDict) : UserDict :=
  let isDeleted :=
    if user.username = some "[deleted user]" ∨
      user.username = some ("DeletedUser_" ++ toString userId) then some true
    else user.isDeleted
  ⟨if isDeleted = some true then none else user.username, isDeleted⟩

structure Profile where
  userId : Int
  user : UserDict
  isRestricted : Bool
  deriving DecidableEq

/-- `ProfileFetcherTask` -/
structure Task where
  userId : Int
  lastFetch : Option Nat
  deriving DecidableEq

structure OwnerDict where
  id : Int
  user : UserDict
  deriving DecidableEq

structure BeatmapDict where
  id : Int
  beatmapsetId : Int
  userId : Int
  owners : List OwnerDict

structure BeatmapsetDict where
  id : Int
  userId : Int
  user : UserDict
  beatmaps : List BeatmapDict

structure Database where
  users : List Int
  profiles : List Profile
  tasks : List Task
  beatmapsets : List (Int × Int)
  beatmaps : List (Int × Int)

namespace Database

variable (db : Database)

/-- `db.get(Profile, user_id=user_id)` -/
def profile? (userId : Int) : Option Profile := db.profiles.find? (·.userId = userId)

/-- A new user comes with a task of the profile fetcher (`user_after_insert`). -/
def addUser (userId : Int) : Database :=
  if userId ∈ db.users then db
  else { db with users := db.users ++ [userId], tasks := db.tasks ++ [⟨userId, none⟩] }

def addBeatmapset (b : BeatmapsetDict) : Database :=
  if b.id ∈ db.beatmapsets.map Prod.fst then db
  else { db with beatmapsets := db.beatmapsets ++ [(b.id, b.userId)] }

def addBeatmap (b : BeatmapDict) : Database :=
  if b.id ∈ db.beatmaps.map Prod.fst then db
  else { db with beatmaps := db.beatmaps ++ [(b.id, b.beatmapsetId)] }

/-- `db.add(Profile, **profile_dict)`. The ID of the user is unique, and a row that
is there is resolved and left as it is. `isRestricted` is `none` where the
dictionary leaves the column out. -/
def addProfile (userId : Int) (user : UserDict) (isRestricted : Option Bool) : Database × Profile :=
  match db.profile? userId with
  | none =>
      let profile := ⟨userId, user, isRestricted.getD false⟩
      ({ db with profiles := db.profiles ++ [profile] }, profile)
  | some profile => (db, profile)

def updateTask (now : Nat) (userId : Int) : Database :=
  { db with
    tasks := db.tasks.map fun task =>
        if task.userId = userId then { task with lastFetch := some now } else task }

end Database

/-- The rows that the session sees, and the calls of `get_user` with their outcomes. -/
structure World where
  db : Database
  calls : List (Int × Except HttpError UserDict)

section

variable (outcomes : Nat → Except HttpError UserDict) (now : Nat)

/-- `OsuAPIClient.get_user` -/
def getUser (userId : Int) (w : World) : Except HttpError UserDict × World :=
  let outcome := outcomes w.calls.length
  (outcome, { w with calls := w.calls ++ [(userId, outcome)] })

/-- What `_populate_profile` does with a validated dictionary. -/
def storeProfile (userId : Int) (user : UserDict) (isRestricted : Option Bool) (w : World) :
    Profile × World :=
  let added := w.db.addProfile userId (user.fromOsuApiFormat userId) isRestricted
  (added.2, { w with db := added.1.updateTask now userId })

/-- `_populate_profile` -/
def populateProfile (userId : Int) (restrictedUserDict : UserDict)
    (isRestricted : Bool) (w : World) :
    Except Exception Profile × World :=
  match w.db.profile? userId, isRestricted with
  | some profile, false => (.ok profile, w)
  | none, false =>
      match getUser outcomes userId w with
      | (.error e, w) => (.error (.http e), w)
      | (.ok user, w) =>
          let stored := storeProfile now userId user none w
          (.ok stored.1, stored.2)
  | _, true =>
      let stored := storeProfile now userId restrictedUserDict (some true) w
      (.ok stored.1, stored.2)

/-- `_populate_user`: the profile of the user. `HTTPError` is the base class of
all exceptions of httpx. -/
def populateUser (userId : Int) (w : World) : Except Exception Profile × World :=
  match populateProfile outcomes now userId .blankSlate false
    { w with db := w.db.addUser userId } with
  | (.error (.http _), w) => (.error (.restrictedUser userId), w)
  | result => result

/-- `try: … except RestrictedUserError: …` around `_populate_user` -/
def populateUserOrRestricted (userId : Int) (restrictedUserDict : UserDict) (w : World) :
    Except Exception Profile × World :=
  match populateUser outcomes now userId w with
  | (.error (.restrictedUser _), w) => populateProfile outcomes now userId restrictedUserDict true w
  | result => result

/-- `_populate_beatmap` -/
def populateBeatmap (b : BeatmapDict) (w : World) : Except Exception Unit × World :=
  match populateUserOrRestricted outcomes now b.userId .blankSlate w with
  | (.error e, w) => (.error e, w)
  | (.ok _, w) => (.ok (), { w with db := w.db.addBeatmap b })

def populateBeatmaps : List BeatmapDict → World → Except Exception Unit × World
  | [], w => (.ok (), w)
  | b :: rest, w =>
      match populateBeatmap outcomes now b w with
      | (.error e, w) => (.error e, w)
      | (.ok (), w) => populateBeatmaps rest w

/-- `_populate_beatmapset` -/
def populateBeatmapset (b : BeatmapsetDict) (w : World) : Except Exception Unit × World :=
  match populateUserOrRestricted outcomes now b.userId b.user w with
  | (.error e, w) => (.error e, w)
  | (.ok _, w) => populateBeatmaps outcomes now b.beatmaps { w with db := w.db.addBeatmapset b }

/-- `_populate_owner_profiles` -/
def populateOwnerProfiles : List OwnerDict → World → Except Exception (List Profile) × World
  | [], w => (.ok [], w)
  | owner :: rest, w =>
      match populateUserOrRestricted outcomes now owner.id owner.user w with
      | (.error e, w) => (.error e, w)
      | (.ok profile, w) =>
          match populateOwnerProfiles rest w with
          | (.error e, w) => (.error e, w)
          | (.ok profiles, w) => (.ok (profile :: profiles), w)

/-- `beatmap_dict["owners"] or [{"id": beatmap_dict["user_id"]}]` -/
def BeatmapDict.ownerDicts (b : BeatmapDict) : List OwnerDict :=
  if b.owners = [] then [⟨b.userId, .blankSlate⟩] else b.owners

/-- The owners of the beatmaps that get a snapshot or an update. -/
def populateOwners : List BeatmapDict → World → Except Exception Unit × World
  | [], w => (.ok (), w)
  | b :: rest, w =>
      match populateOwnerProfiles outcomes now b.ownerDicts w with
      | (.error e, w) => (.error e, w)
      | (.ok _, w) => populateOwners rest w

/-- What `archive` populates: the beatmapset, and then the owners of the
beatmaps `changed`. -/
def populate (b : BeatmapsetDict) (changed : List BeatmapDict) (db : Database) :
    Except Exception Unit × World :=
  match populateBeatmapset outcomes now b ⟨db, []⟩ with
  | (.error e, w) => (.error e, w)
  | (.ok (), w) => populateOwners outcomes now changed w

end

/-! What it comes down to. -/

/-- Who has a profile, and whether it is a restricted one, with the calls. -/
structure Standing where
  profiles : List (Int × Bool)
  calls : List (Int × Except HttpError UserDict)

def isError : Except HttpError UserDict → Bool
  | .ok _ => false
  | .error _ => true

def Standing.known (σ : Standing) : List Int := σ.profiles.map Prod.fst

/-- A user without a profile is asked for, and gets one. -/
def Standing.ask (outcomes : Nat → Except HttpError UserDict) (σ : Standing) (userId : Int) :
    Standing :=
  if userId ∈ σ.known then σ
  else
    let outcome := outcomes σ.calls.length
    ⟨σ.profiles ++ [(userId, isError outcome)], σ.calls ++ [(userId, outcome)]⟩

def World.standing (w : World) : Standing :=
  ⟨w.db.profiles.map fun p => (p.userId, p.isRestricted), w.calls⟩

section

variable {outcomes : Nat → Except HttpError UserDict} {now : Nat}

@[simp] theorem Database.profiles_addUser (db : Database) (userId : Int) :
    (db.addUser userId).profiles = db.profiles := by
  unfold addUser
  split <;> rfl

@[simp] theorem Database.profiles_addBeatmapset (db : Database) (b : BeatmapsetDict) :
    (db.addBeatmapset b).profiles = db.profiles := by
  unfold addBeatmapset
  split <;> rfl

@[simp] theorem Database.profiles_addBeatmap (db : Database) (b : BeatmapDict) :
    (db.addBeatmap b).profiles = db.profiles := by
  unfold addBeatmap
  split <;> rfl

theorem World.mem_standing_of_profile? {w : World} {userId : Int} {profile : Profile}
    (h : w.db.profile? userId = some profile) : userId ∈ w.standing.known := by
  have hid : profile.userId = userId := by simpa using List.find?_some h
  simp only [standing, Standing.known, List.map_map, List.mem_map]
  exact ⟨profile, List.mem_of_find?_eq_some h, hid⟩

theorem World.notMem_standing_of_profile? {w : World} {userId : Int}
    (h : w.db.profile? userId = none) :
    userId ∉ w.standing.known := by
  simp only [standing, Standing.known, List.map_map, List.mem_map]
  rintro ⟨profile, hmem, hid⟩
  exact absurd (decide_eq_true hid) (List.find?_eq_none.mp h profile hmem)

/-- A user without a profile gets one in a new row. -/
theorem standing_storeProfile {w : World} {userId : Int} {user : UserDict}
    {isRestricted : Option Bool} (h : w.db.profile? userId = none) :
    (storeProfile now userId user isRestricted w).2.standing =
      ⟨w.standing.profiles ++ [(userId, isRestricted.getD false)], w.calls⟩ := by
  simp [storeProfile, Database.addProfile, h, Database.updateTask, World.standing]

theorem profile?_addUser (db : Database) (userId : Int) :
    (db.addUser userId).profile? userId = db.profile? userId := by
  rw [Database.profile?, Database.profile?, Database.profiles_addUser]

variable (outcomes now)

/-- On all three paths a user is asked for if there is no profile, and comes out with one. -/
theorem populateUserOrRestricted_eq (userId : Int) (restrictedUserDict : UserDict) (w : World) :
    ∃ profile w', populateUserOrRestricted outcomes now userId restrictedUserDict w =
      (.ok profile, w') ∧
      w'.standing = w.standing.ask outcomes userId := by
  have hadded : ({ w with db := w.db.addUser userId } : World).standing = w.standing := by
    rw [World.standing, Database.profiles_addUser, World.standing]
  unfold populateUserOrRestricted populateUser populateProfile
  rw [profile?_addUser]
  cases hprofile : w.db.profile? userId with
  | some profile =>
      refine ⟨profile, { w with db := w.db.addUser userId }, rfl, ?_⟩
      rw [hadded, Standing.ask, if_pos (World.mem_standing_of_profile? hprofile)]
  | none =>
      rw [Standing.ask, if_neg (World.notMem_standing_of_profile? hprofile)]
      have hnone : (w.db.addUser userId).profile? userId = none :=
        (profile?_addUser _ _).trans hprofile
      let called : World :=
        ⟨w.db.addUser userId, w.calls ++ [(userId, outcomes w.calls.length)]⟩
      cases houtcome : outcomes w.calls.length with
      | ok user =>
          let stored := storeProfile now userId user none called
          refine ⟨stored.1, stored.2, by simp only [getUser, houtcome, stored, called], ?_⟩
          rw [standing_storeProfile hnone]
          simp [World.standing, called, houtcome, isError]
      | error e =>
          let stored := storeProfile now userId restrictedUserDict (some true) called
          refine ⟨stored.1, stored.2, by simp only [getUser, houtcome, stored, called], ?_⟩
          rw [standing_storeProfile hnone]
          simp [World.standing, called, houtcome, isError]

theorem populateBeatmap_eq (b : BeatmapDict) (w : World) :
    ∃ w', populateBeatmap outcomes now b w = (.ok (), w') ∧
    w'.standing = w.standing.ask outcomes b.userId := by
  obtain ⟨profile, w', hpopulate, hstanding⟩ :=
    populateUserOrRestricted_eq outcomes now b.userId .blankSlate w
  refine ⟨{ w' with db := w'.db.addBeatmap b }, by rw [populateBeatmap, hpopulate], ?_⟩
  rw [← hstanding, World.standing, Database.profiles_addBeatmap, World.standing]

theorem populateBeatmaps_eq (beatmaps : List BeatmapDict) (w : World) :
    ∃ w', populateBeatmaps outcomes now beatmaps w = (.ok (), w') ∧
      w'.standing = (beatmaps.map BeatmapDict.userId).foldl (Standing.ask outcomes) w.standing := by
  induction beatmaps generalizing w with
  | nil => exact ⟨w, rfl, rfl⟩
  | cons b rest ih =>
      obtain ⟨w₁, hbeatmap, hfirst⟩ := populateBeatmap_eq outcomes now b w
      obtain ⟨w₂, hbeatmaps, hrest⟩ := ih w₁
      refine ⟨w₂, by rw [populateBeatmaps, hbeatmap, ← hbeatmaps], ?_⟩
      rw [hrest, hfirst, List.map_cons, List.foldl_cons]

theorem populateBeatmapset_eq (b : BeatmapsetDict) (w : World) :
    ∃ w', populateBeatmapset outcomes now b w = (.ok (), w') ∧
      w'.standing = (b.userId :: b.beatmaps.map BeatmapDict.userId).foldl (Standing.ask outcomes)
      w.standing := by
  obtain ⟨profile, w₁, hhost, hfirst⟩ := populateUserOrRestricted_eq outcomes now b.userId b.user w
  obtain ⟨w₂, hbeatmaps, hrest⟩ := populateBeatmaps_eq outcomes now b.beatmaps
    { w₁ with db := w₁.db.addBeatmapset b }
  have hadded : ({ w₁ with db := w₁.db.addBeatmapset b } : World).standing = w₁.standing := by
    rw [World.standing, Database.profiles_addBeatmapset, World.standing]
  refine ⟨w₂, by rw [populateBeatmapset, hhost, ← hbeatmaps], ?_⟩
  rw [hrest, hadded, hfirst, List.foldl_cons]

theorem populateOwnerProfiles_eq (owners : List OwnerDict) (w : World) :
    ∃ profiles w', populateOwnerProfiles outcomes now owners w = (.ok profiles, w') ∧
      w'.standing = (owners.map OwnerDict.id).foldl (Standing.ask outcomes) w.standing := by
  induction owners generalizing w with
  | nil => exact ⟨[], w, rfl, rfl⟩
  | cons owner rest ih =>
      obtain ⟨profile, w₁, howner, hfirst⟩ :=
        populateUserOrRestricted_eq outcomes now owner.id owner.user w
      obtain ⟨profiles, w₂, howners, hrest⟩ := ih w₁
      refine ⟨profile :: profiles, w₂, by simp only [populateOwnerProfiles, howner, howners], ?_⟩
      rw [hrest, hfirst, List.map_cons, List.foldl_cons]

theorem populateOwners_eq (changed : List BeatmapDict) (w : World) :
    ∃ w', populateOwners outcomes now changed w = (.ok (), w') ∧
      w'.standing = (changed.flatMap fun b => b.ownerDicts.map OwnerDict.id).foldl
      (Standing.ask outcomes)
        w.standing := by
  induction changed generalizing w with
  | nil => exact ⟨w, rfl, rfl⟩
  | cons b rest ih =>
      obtain ⟨profiles, w₁, howners, hfirst⟩ := populateOwnerProfiles_eq outcomes now b.ownerDicts w
      obtain ⟨w₂, hrest, hlast⟩ := ih w₁
      refine ⟨w₂, by rw [populateOwners, howners, ← hrest], ?_⟩
      rw [hlast, hfirst, List.flatMap_cons, List.foldl_append]

/-- The users of a payload, in the order in which they are populated. -/
def userIds (b : BeatmapsetDict) (changed : List BeatmapDict) : List Int :=
  b.userId :: b.beatmaps.map BeatmapDict.userId ++ changed.flatMap fun b =>
    b.ownerDicts.map OwnerDict.id

/-- No error gets out, whatever the outcomes are. -/
theorem populate_eq (b : BeatmapsetDict) (changed : List BeatmapDict) (db : Database) :
    ∃ w, populate outcomes now b changed db = (.ok (), w) ∧
      w.standing = (userIds b changed).foldl (Standing.ask outcomes) (World.standing ⟨db, []⟩) := by
  obtain ⟨w₁, hbeatmapset, hfirst⟩ := populateBeatmapset_eq outcomes now b ⟨db, []⟩
  obtain ⟨w₂, howners, hlast⟩ := populateOwners_eq outcomes now changed w₁
  refine ⟨w₂, by rw [populate, hbeatmapset, ← howners], ?_⟩
  rw [hlast, hfirst, userIds, List.foldl_append]

/-- Those who come and are not known yet, each the first time. -/
def newcomers (known ids : List Int) : List Int :=
  (ids.filter fun userId => userId ∉ known).eraseDups

theorem newcomers_cons_of_mem {known : List Int} {userId : Int} (h : userId ∈ known)
    (rest : List Int) :
    newcomers known (userId :: rest) = newcomers known rest := by
  rw [newcomers, List.filter_cons_of_neg (by simpa using h), newcomers]

theorem newcomers_cons_of_notMem {known : List Int} {userId : Int} (h : userId ∉ known)
    (rest : List Int) :
    newcomers known (userId :: rest) = userId :: newcomers (known ++ [userId]) rest := by
  rw [newcomers, List.filter_cons_of_pos (by simpa using h), List.eraseDups_cons,
    List.filter_filter, newcomers]
  congr 2
  apply List.filter_congr
  intro other _
  by_cases heq : other = userId <;> simp [heq]

theorem mem_newcomers {known ids : List Int} {userId : Int} :
    userId ∈ newcomers known ids ↔ userId ∈ ids ∧ userId ∉ known := by
  simp [newcomers, List.mem_eraseDups]

theorem nodup_newcomers (known ids : List Int) : (newcomers known ids).Nodup := by
  induction ids generalizing known with
  | nil => exact List.nodup_nil
  | cons userId rest ih =>
      by_cases hknown : userId ∈ known
      · rw [newcomers_cons_of_mem hknown]
        exact ih known
      · rw [newcomers_cons_of_notMem hknown, List.nodup_cons, mem_newcomers]
        exact ⟨fun h => h.2 (by simp), ih _⟩

/-- The outcomes go to the newcomers, in their order. -/
theorem Standing.foldl_ask (ids : List Int) (σ : Standing) :
    ids.foldl (Standing.ask outcomes) σ =
      ⟨σ.profiles ++ (newcomers σ.known ids).mapIdx fun i userId =>
          (userId, isError (outcomes (σ.calls.length + i))),
        σ.calls ++ (newcomers σ.known ids).mapIdx fun i userId =>
          (userId, outcomes (σ.calls.length + i))⟩ := by
  induction ids generalizing σ with
  | nil => simp [newcomers]
  | cons userId rest ih =>
      rw [List.foldl_cons, ih]
      by_cases hknown : userId ∈ σ.known
      · rw [newcomers_cons_of_mem hknown, ask, if_pos hknown]
      · have hask : (σ.ask outcomes userId).known = σ.known ++ [userId] := by
          rw [ask, if_neg hknown, known, List.map_append]
          rfl
        have hshift (i : Nat) : σ.calls.length + 1 + i = σ.calls.length + (i + 1) := by omega
        rw [newcomers_cons_of_notMem hknown, hask]
        simp [ask, hknown, List.mapIdx_cons, hshift]

/-- The users of a payload that have no profile. -/
def newUsers (b : BeatmapsetDict) (changed : List BeatmapDict) (db : Database) : List Int :=
  newcomers (db.profiles.map Profile.userId) (userIds b changed)

theorem standing_populate (b : BeatmapsetDict) (changed : List BeatmapDict) (db : Database) :
    (populate outcomes now b changed db).2.standing =
      ⟨db.profiles.map (fun p => (p.userId, p.isRestricted)) ++
          (newUsers b changed db).mapIdx fun i userId => (userId, isError (outcomes i)),
        (newUsers b changed db).mapIdx fun i userId => (userId, outcomes i)⟩ := by
  obtain ⟨w, hrun, hstanding⟩ := populate_eq outcomes now b changed db
  have hknown : (World.standing ⟨db, []⟩).known = db.profiles.map Profile.userId := by
    rw [Standing.known, World.standing, List.map_map]
    rfl
  rw [hrun, hstanding, Standing.foldl_ask, hknown, ← newUsers]
  simp [World.standing]

variable {outcomes now}

theorem mem_calls_iff {b : BeatmapsetDict} {changed : List BeatmapDict}
    {db : Database} {userId : Int} {outcome : Except HttpError UserDict} :
    (userId, outcome) ∈ (populate outcomes now b changed db).2.calls ↔
      ∃ i, (newUsers b changed db)[i]? = some userId ∧ outcomes i = outcome := by
  have hcalls := congrArg Standing.calls (standing_populate outcomes now b changed db)
  change (populate outcomes now b changed db).2.calls = _ at hcalls
  rw [hcalls, List.mem_iff_getElem?]
  simp [List.getElem?_mapIdx]

/-- Who has a restricted profile after the run: who had one, and who was asked for in vain. -/
theorem mem_restricted_iff {b : BeatmapsetDict} {changed : List BeatmapDict} {db : Database}
    {userId : Int} :
    (∃ profile ∈ (populate outcomes now b changed db).2.db.profiles,
        profile.userId = userId ∧ profile.isRestricted = true) ↔
      (∃ profile ∈ db.profiles, profile.userId = userId ∧ profile.isRestricted = true) ∨
        ∃ i e, (newUsers b changed db)[i]? = some userId ∧ outcomes i = .error e := by
  have hstanding (db : Database) :
      (∃ profile ∈ db.profiles, profile.userId = userId ∧ profile.isRestricted = true) ↔
        (userId, true) ∈ db.profiles.map fun p => (p.userId, p.isRestricted) := by
    simp
  have herror (outcome : Except HttpError UserDict) :
      isError outcome = true ↔ ∃ e, outcome = .error e := by
    cases outcome <;> simp [isError]
  have hprofiles := congrArg Standing.profiles (standing_populate outcomes now b changed db)
  change (populate outcomes now b changed db).2.db.profiles.map _ = _ at hprofiles
  rw [hstanding, hstanding, hprofiles, List.mem_append,
    List.mem_iff_getElem? (l := List.mapIdx _ _)]
  simp [List.getElem?_mapIdx, herror]

/-- A restricted profile of the user is stored by the run. -/
def NewlyRestricted (db db' : Database) (userId : Int) : Prop :=
  (∃ profile ∈ db'.profiles, profile.userId = userId ∧ profile.isRestricted = true) ∧
    ∀ profile ∈ db.profiles, profile.userId = userId → profile.isRestricted = false

/-- A user is branded as restricted only on an answer of osu!, and a connect timeout gets out. -/
def Harmless (db : Database) (result : Except Exception Unit × World) : Prop :=
  (∀ userId, NewlyRestricted db result.2.db userId →
    ∃ code, (userId, .error (.status code)) ∈ result.2.calls) ∧
  ∀ userId, (userId, .error .connectTimeout) ∈ result.2.calls →
  result.1 = .error (.http .connectTimeout)

/-- The run is harmless if and only if no call for a user without a profile ends in a transport
error. -/
theorem populate_harmless_iff (outcomes : Nat → Except HttpError UserDict) (now : Nat)
    (b : BeatmapsetDict) (changed : List BeatmapDict) (db : Database) :
    Harmless db (populate outcomes now b changed db) ↔
      ∀ i < (newUsers b changed db).length, ∀ e, outcomes i = .error e → e.isTransport = false := by
  constructor
  · rintro ⟨hbranded, -⟩ i hi e he
    have huser : (newUsers b changed db)[i]? = some (newUsers b changed db)[i] :=
      List.getElem?_eq_getElem hi
    have hnew : (newUsers b changed db)[i] ∉ db.profiles.map Profile.userId :=
      (mem_newcomers.mp (List.getElem_mem hi)).2
    obtain ⟨code, hcall⟩ := hbranded _ ⟨mem_restricted_iff.mpr (.inr ⟨i, e, huser, he⟩),
      fun profile hmem hid => absurd (hid ▸ List.mem_map_of_mem hmem) hnew⟩
    obtain ⟨j, hj, houtcome⟩ := mem_calls_iff.mp hcall
    -- No user comes twice among those that are asked for.
    have hsame : i = j := (List.getElem?_inj hi (nodup_newcomers _ _)).mp (huser.trans hj.symm)
    rw [← hsame, he] at houtcome
    obtain rfl := Except.error.inj houtcome
    rfl
  · intro h
    have houtcome {i : Nat} {userId : Int} {e : HttpError}
        (hi : (newUsers b changed db)[i]? = some userId)
        (he : outcomes i = .error e) : e.isTransport = false :=
      h i (List.getElem?_eq_some_iff.mp hi).1 e he
    constructor
    · rintro userId ⟨hrestricted, hbefore⟩
      obtain ⟨profile, hmem, hid, htrue⟩ | ⟨i, e, hi, he⟩ := mem_restricted_iff.mp hrestricted
      · exact absurd htrue (by simp [hbefore profile hmem hid])
      · cases e with
        | status code => exact ⟨code, mem_calls_iff.mpr ⟨i, hi, he⟩⟩
        | connectTimeout => cases houtcome hi he
        | readTimeout => cases houtcome hi he
        | transport => cases houtcome hi he
    · intro userId hcall
      obtain ⟨i, hi, he⟩ := mem_calls_iff.mp hcall
      cases houtcome hi he

/-- A new host, and a call of `get_user` that ends in a connect timeout. -/
theorem populate_not_harmless :
    ¬ ∀ (outcomes : Nat → Except HttpError UserDict) (now : Nat) (b : BeatmapsetDict)
    (changed : List BeatmapDict)
      (db : Database), Harmless db (populate outcomes now b changed db) := by
  intro h
  have hcall := (h (fun _ => .error .connectTimeout) 0 ⟨1, 2, ⟨some "host", some false⟩, []⟩ []
    ⟨[], [], [], [], []⟩).2 2 (by decide)
  cases hcall

end

end Graveboards.Archive.Population
