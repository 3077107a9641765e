import Mathlib.Tactic

/-!
What can be searched: scopes, categories and the fields of the models, with the
numbers that stand for them in a serialized search.
-/

namespace Graveboards.Search

inductive Scope where
  | beatmaps
  | beatmapsets
  | scores
  | queues
  | requests
  deriving DecidableEq

/-- `ScopeId`; there is none for scores. -/
def Scope.id : Scope → Option Nat
  | .beatmaps => some 1
  | .beatmapsets => some 2
  | .scores => none
  | .requests => some 4
  | .queues => some 5

def Scope.ofId : Nat → Option Scope
  | 1 => some .beatmaps
  | 2 => some .beatmapsets
  | 4 => some .requests
  | 5 => some .queues
  | _ => none

theorem Scope.ofId_id {scope : Scope} {n : Nat} (h : scope.id = some n) :
    Scope.ofId n = some scope ∧ n < 256 := by
  cases scope <;> cases h <;> decide

inductive SearchableFieldCategory where
  | profile
  | beatmap
  | beatmapset
  | queue
  | request
  deriving DecidableEq

/-- `SCOPE_CATEGORIES_MAPPING`, which has an ellipsis for scores. -/
def Scope.categories : Scope → Option (List SearchableFieldCategory)
  | .beatmaps | .beatmapsets => some [.beatmap, .beatmapset]
  | .scores => none
  | .queues => some [.beatmap, .beatmapset, .queue, .request]
  | .requests => some [.beatmap, .beatmapset, .request]

/-- The relationships of a category's model. -/
def SearchableFieldCategory.relationshipNames : SearchableFieldCategory → List String
  | .profile => ["user"]
  | .beatmap => ["beatmapset_snapshots", "beatmap_tags", "leaderboard", "owner_profiles"]
  | .beatmapset => ["beatmap_snapshots", "beatmapset_tags", "user_profile", "beatmapset_listing"]
  | .queue => ["requests", "managers", "user_profile", "manager_profiles", "rules"]
  | .request => ["beatmapset_snapshot", "user_profile", "queue"]

/-- The Python type a column is annotated with, without `Optional`. -/
inductive ColumnType where
  | int
  | float
  | str
  | bool
  | datetime
  deriving DecidableEq

/-- A member of `ModelField`: the category whose model it belongs to, its name, the
type of its column (of the alias, if it has one) and its alias. -/
structure FieldRow where
  category : SearchableFieldCategory
  fieldName : String
  columnType : ColumnType
  aliasName : Option String
  deriving DecidableEq

/-- The members of `ModelField`, in order. -/
def modelFields : List FieldRow :=
  [⟨.profile, "avatar_url", .str, none⟩,
  ⟨.profile, "username", .str, none⟩,
  ⟨.profile, "country_code", .str, none⟩,
  ⟨.profile, "graveyard_beatmapset_count", .int, none⟩,
  ⟨.profile, "loved_beatmapset_count", .int, none⟩,
  ⟨.profile, "pending_beatmapset_count", .int, none⟩,
  ⟨.profile, "ranked_beatmapset_count", .int, none⟩,
  ⟨.profile, "is_restricted", .bool, none⟩,
  ⟨.profile, "total_maps", .int, none⟩,
  ⟨.profile, "total_kudosu", .int, none⟩,
  ⟨.beatmap, "beatmap_id", .int, none⟩,
  ⟨.beatmap, "user_id", .int, none⟩,
  ⟨.beatmap, "accuracy", .float, none⟩,
  ⟨.beatmap, "ar", .float, none⟩,
  ⟨.beatmap, "bpm", .float, none⟩,
  ⟨.beatmap, "checksum", .str, none⟩,
  ⟨.beatmap, "count_circles", .int, none⟩,
  ⟨.beatmap, "count_sliders", .int, none⟩,
  ⟨.beatmap, "count_spinners", .int, none⟩,
  ⟨.beatmap, "cs", .float, none⟩,
  ⟨.beatmap, "deleted_at", .datetime, none⟩,
  ⟨.beatmap, "difficulty_rating", .float, none⟩,
  ⟨.beatmap, "drain", .float, none⟩,
  ⟨.beatmap, "hit_length", .int, none⟩,
  ⟨.beatmap, "is_scoreable", .bool, none⟩,
  ⟨.beatmap, "last_updated", .datetime, none⟩,
  ⟨.beatmap, "max_combo", .int, none⟩,
  ⟨.beatmap, "mode", .str, none⟩,
  ⟨.beatmap, "mode_int", .int, none⟩,
  ⟨.beatmap, "passcount", .int, none⟩,
  ⟨.beatmap, "playcount", .int, none⟩,
  ⟨.beatmap, "ranked", .int, none⟩,
  ⟨.beatmap, "status", .str, none⟩,
  ⟨.beatmap, "total_length", .int, none⟩,
  ⟨.beatmap, "url", .str, none⟩,
  ⟨.beatmap, "version", .str, none⟩,
  ⟨.beatmapset, "beatmapset_id", .int, none⟩,
  ⟨.beatmapset, "user_id", .int, none⟩,
  ⟨.beatmapset, "artist", .str, none⟩,
  ⟨.beatmapset, "artist_unicode", .str, none⟩,
  ⟨.beatmapset, "bpm", .float, none⟩,
  ⟨.beatmapset, "can_be_hyped", .bool, none⟩,
  ⟨.beatmapset, "creator", .str, none⟩,
  ⟨.beatmapset, "deleted_at", .datetime, none⟩,
  ⟨.beatmapset, "discussion_enabled", .bool, none⟩,
  ⟨.beatmapset, "discussion_locked", .bool, none⟩,
  ⟨.beatmapset, "favourite_count", .int, none⟩,
  ⟨.beatmapset, "is_scoreable", .bool, none⟩,
  ⟨.beatmapset, "last_updated", .datetime, none⟩,
  ⟨.beatmapset, "legacy_thread_url", .str, none⟩,
  ⟨.beatmapset, "nsfw", .bool, none⟩,
  ⟨.beatmapset, "offset", .int, none⟩,
  ⟨.beatmapset, "play_count", .int, none⟩,
  ⟨.beatmapset, "preview_url", .str, none⟩,
  ⟨.beatmapset, "ranked", .int, none⟩,
  ⟨.beatmapset, "rating", .float, none⟩,
  ⟨.beatmapset, "source", .str, none⟩,
  ⟨.beatmapset, "spotlight", .bool, none⟩,
  ⟨.beatmapset, "status", .str, none⟩,
  ⟨.beatmapset, "submitted_date", .datetime, none⟩,
  ⟨.beatmapset, "tags", .str, none⟩,
  ⟨.beatmapset, "title", .str, none⟩,
  ⟨.beatmapset, "title_unicode", .str, none⟩,
  ⟨.beatmapset, "track_id", .int, none⟩,
  ⟨.beatmapset, "video", .bool, none⟩,
  ⟨.beatmapset, "availability_download_disabled", .bool, none⟩,
  ⟨.beatmapset, "availability_more_information", .str, none⟩,
  ⟨.beatmapset, "description_description", .str, some "description"⟩,
  ⟨.beatmapset, "genre_id", .int, none⟩,
  ⟨.beatmapset, "genre_name", .str, none⟩,
  ⟨.beatmapset, "hype_current", .int, none⟩,
  ⟨.beatmapset, "hype_required", .int, none⟩,
  ⟨.beatmapset, "language_id", .int, none⟩,
  ⟨.beatmapset, "language_name", .str, none⟩,
  ⟨.beatmapset, "nominations_summary_current", .int, none⟩,
  ⟨.beatmapset, "nominations_summary_required_meta_main_ruleset", .int, none⟩,
  ⟨.beatmapset, "nominations_summary_required_meta_non_main_ruleset", .int, none⟩,
  ⟨.beatmapset, "num_difficulties", .int, none⟩,
  ⟨.beatmapset, "sr_gaps_min", .float, none⟩,
  ⟨.beatmapset, "sr_gaps_max", .float, none⟩,
  ⟨.beatmapset, "sr_gaps_avg", .float, none⟩,
  ⟨.beatmapset, "hit_lengths_min", .int, none⟩,
  ⟨.beatmapset, "hit_lengths_max", .int, none⟩,
  ⟨.beatmapset, "hit_lengths_avg", .int, none⟩,
  ⟨.queue, "user_id", .int, none⟩,
  ⟨.queue, "name", .str, none⟩,
  ⟨.queue, "description", .str, none⟩,
  ⟨.queue, "created_at", .datetime, none⟩,
  ⟨.queue, "updated_at", .datetime, none⟩,
  ⟨.queue, "is_open", .bool, none⟩,
  ⟨.queue, "visibility", .int, none⟩,
  ⟨.request, "user_id", .int, none⟩,
  ⟨.request, "beatmapset_id", .int, none⟩,
  ⟨.request, "queue_id", .int, none⟩,
  ⟨.request, "comment", .str, none⟩,
  ⟨.request, "mv_checked", .bool, none⟩,
  ⟨.request, "created_at", .datetime, none⟩,
  ⟨.request, "updated_at", .datetime, none⟩,
  ⟨.request, "status", .int, none⟩]

abbrev ModelField := Fin modelFields.length

namespace ModelField

def row (field : ModelField) : FieldRow := modelFields.get field

/-- `ModelFieldId`: the members are numbered from one. -/
def id (field : ModelField) : Nat := field.val + 1

def ofId (n : Nat) : Option ModelField :=
  if h : n - 1 < modelFields.length then (if n = 0 then none else some ⟨n - 1, h⟩) else none

/-- What is passed as a model class: a member of `ModelClass`, here by its category, or
the text that is the value of a category. -/
inductive ModelArgument where
  | modelClass (category : SearchableFieldCategory)
  | text (value : String)
  deriving DecidableEq

def matchesName (argument : ModelArgument) (name : String) (field : ModelField) : Bool :=
  argument = .modelClass field.row.category &&
    (name = field.row.fieldName || field.row.aliasName = some name)

/-- `ModelField.from_model_field_name`, which compares the model classes by identity. -/
def fromModelFieldName (argument : ModelArgument) (name : String) : Option ModelField :=
  (List.finRange modelFields.length).find? (matchesName argument name)

theorem length_modelFields : modelFields.length = 99 := rfl

theorem ofId_id (field : ModelField) : ofId field.id = some field ∧ field.id < 256 := by
  have hlt := field.isLt
  have hlength := length_modelFields
  refine ⟨?_, by unfold id; omega⟩
  rw [ofId, dif_pos (by simp [id]), if_neg (by simp [id])]
  rfl

/-- No text is a model class. -/
theorem fromModelFieldName_text (value name : String) :
    fromModelFieldName (.text value) name = none := by
  apply List.find?_eq_none.mpr
  intro field _
  simp [matchesName]

end ModelField

end Graveboards.Search
