import Graveboards.Library.Dictionary
import Graveboards.Library.Json
import Graveboards.Library.Numeral
import Graveboards.Library.Zoned

/-!
The schemas of a beatmapset from the osu! API: the Python values of their instances, how
pydantic validates a value against a type, and what `model_dump(mode="json")` writes.
-/

namespace Graveboards.Cache

open Graveboards.Library

/-- A Python value. A model holds the fields of an instance under their names. -/
inductive Value where
  | null
  | bool (b : Bool)
  | int (n : Int)
  | float (x : Double)
  | str (s : String)
  | datetime (d : Zoned)
  | list (items : List Value)
  | dict (entries : List (String × Value))
  | model (fields : List (String × Value))

inductive Scalar where
  | str
  | int
  | float
  | bool
  | datetime
  | intOrStr
  | strLiteral (allowed : List String)
  | intLiteral (allowed : List Int)

/-- A field of a model: its name, the name under which it is read and written outside, and whether
it has the default `None`. -/
structure Key where
  name : String
  alias' : String
  default : Bool
  deriving DecidableEq

/-- The type of a field. `keeping`: a list of dictionaries with one key, to which each is cut down
beforehand. -/
inductive Ty where
  | scalar (s : Scalar)
  | optional (t : Ty)
  | list (t : Ty)
  | dict (keys : Option (List String)) (value : Ty)
  | any
  | keeping (key : String) (t : Ty)
  | model (fields : List (Key × Ty))

abbrev Fields := List (Key × Ty)

/-- A number that Python reads and writes: at most as many digits as `int` takes. -/
def isReadable (n : Int) : Bool := (toString n.natAbs).length ≤ Numeral.maxDigits

/-- The value is an instance of the scalar type. -/
def Scalar.holds : Scalar → Value → Bool
  | .str, .str _ => true
  | .int, .int n => isReadable n
  | .float, .float _ => true
  | .bool, .bool _ => true
  | .datetime, .datetime _ => true
  | .intOrStr, .int n => isReadable n
  | .intOrStr, .str _ => true
  | .strLiteral allowed, .str s => allowed.contains s
  | .intLiteral allowed, .int n => allowed.contains n && isReadable n
  | _, _ => false

/-- What pydantic makes of values that are not instances already, and how it writes a datetime. -/
structure Pydantic where
  lax : Scalar → Value → Option Value
  isoformat : Zoned → String

/-- Pydantic as documented, as far as it matters: validation gives instances of the type, an integer
is read from its numeral, a datetime from what was written for it. -/
structure Pydantic.Documented (p : Pydantic) : Prop where
  typed : ∀ s v w, p.lax s v = some w → s.holds w = true
  numeral : ∀ n : Int, isReadable n = true → p.lax .int (.str (toString n)) = some (.int n)
  time : ∀ d, p.lax .datetime (.str (p.isoformat d)) = some (.datetime d)

section Validation

variable (p : Pydantic)

/-- `item[key]`. -/
def getItem (key : String) : Value → Option Value
  | .dict entries => entries.lookup key
  | _ => none

/-- What `for item in value` goes through, as far as an item may be a dictionary:
the items of a list, and nothing of an empty dictionary or text. -/
def elements : Value → Option (List Value)
  | .list items => some items
  | .dict entries => if entries.isEmpty then some [] else none
  | .str s => if s = "" then some [] else none
  | _ => none

mutual

/-- Validation against a type; `none`: ValidationError. -/
def validate : Ty → Value → Option Value
  | .scalar s, value => if s.holds value then some value else p.lax s value
  | .optional t, value =>
      match value with
      | .null => some .null
      | value => validate t value
  | .list t, value =>
      match value with
      | .list items => (items.mapM (validate t)).map .list
      | _ => none
  | .dict keys t, value =>
      match value with
      | .dict entries =>
          (entries.mapM fun entry =>
            if keys.all (fun keys => keys.contains entry.1) then
              (validate t entry.2).map (Prod.mk entry.1)
            else none).map .dict
      | _ => none
  | .any, value => some value
  | .keeping key t, value =>
      (elements value).bind fun items =>
        (items.mapM fun item =>
          (getItem key item).bind fun value => (validate t value).map fun value =>
            .dict [(key, value)]).map .list
  | .model fields, value =>
      match value with
      | .dict entries => (validateFields fields entries).map .model
      | .model values => some (.model values)
      | _ => none

def validateFields : Fields → List (String × Value) → Option (List (String × Value))
  | [], _ => some []
  | (key, t) :: rest, entries =>
      let given := (entries.lookup key.alias').or (entries.lookup key.name)
      let value :=
        match given with
        | some value => validate t value
        | none => if key.default then some .null else none
      value.bind fun value => (validateFields rest entries).map fun values =>
        (key.name, value) :: values

end

mutual

/-- `model_dump(mode="json")` of a value of the type. -/
def dump : Ty → Value → Value
  | .scalar _, value =>
      match value with
      | .datetime d => .str (p.isoformat d)
      | value => value
  | .optional t, value =>
      match value with
      | .null => .null
      | value => dump t value
  | .list t, value =>
      match value with
      | .list items => .list (items.map (dump t))
      | value => value
  | .dict _ t, value =>
      match value with
      | .dict entries => .dict (entries.map fun entry => (entry.1, dump t entry.2))
      | value => value
  | .any, value => value
  | .keeping _ t, value =>
      match value with
      | .list items =>
          .list (items.map fun item =>
            match item with
            | .dict entries => .dict (entries.map fun entry => (entry.1, dump t entry.2))
            | item => item)
      | value => value
  | .model fields, value =>
      match value with
      | .model values => .dict (dumpFields fields values)
      | value => value

def dumpFields : Fields → List (String × Value) → List (String × Value)
  | (key, t) :: rest, (_, value) :: values => (key.alias', dump t value) :: dumpFields rest values
  | _, _ => []

end

end Validation

section Schemas

/-- A field without a default. -/
def required (name : String) (t : Ty) : Key × Ty := (⟨name, name, false⟩, t)

/-- A field with the default `None`. -/
def defaulted (name : String) (t : Ty) : Key × Ty := (⟨name, name, true⟩, t)

def aliased (name alias' : String) (t : Ty) : Key × Ty := (⟨name, alias', false⟩, t)

def str : Ty := .scalar .str
def int : Ty := .scalar .int
def float : Ty := .scalar .float
def bool : Ty := .scalar .bool
def datetime : Ty := .scalar .datetime

def rulesetLiteral : Ty := .scalar (.strLiteral ["fruits", "mania", "osu", "taiko"])
def rulesetIntLiteral : Ty := .scalar (.intLiteral [0, 1, 2, 3])
def rankedIntLiteral : Ty := .scalar (.intLiteral [-2, -1, 0, 1, 2, 3, 4])

def rankedStatusLiteral : Ty :=
  .scalar (.strLiteral ["graveyard", "wip", "pending", "ranked", "approved", "qualified", "loved"])

def genreIdLiteral : Ty := .scalar (.intLiteral [0, 1, 2, 3, 4, 5, 6, 7, 9, 10, 11, 12, 13, 14])

def genreNameLiteral : Ty :=
  .scalar (.strLiteral ["Any", "Unspecified", "Video Game", "Anime", "Rock", "Pop",
    "Other", "Novelty", "Hip Hop", "Electronic", "Metal", "Classical", "Folk", "Jazz"])

def languageIdLiteral : Ty :=
  .scalar (.intLiteral [0, 1, 2, 3, 4, 5, 6, 7, 8, 9, 10, 11, 12, 13, 14])

def languageNameLiteral : Ty :=
  .scalar (.strLiteral ["Any", "Unspecified", "English", "Japanese", "Chinese",
    "Instrumental", "Korean", "French", "German", "Swedish", "Spanish", "Italian", "Russian",
    "Polish", "Other"])

def availabilitySchema : Ty :=
  .model [required "download_disabled" bool, required "more_information" (.optional str)]

def coversSchema : Ty :=
  .model [required "cover" str, aliased "cover_2x" "cover@2x" str, required "card" str,
    aliased "card_2x" "card@2x" str, required "list" str, aliased "list_2x" "list@2x" str,
    required "slimcover" str, aliased "slimcover_2x" "slimcover@2x" str]

def currentNominationSchema : Ty :=
  .model [required "beatmapset_id" int, required "rulesets" (.optional (.list str)),
    required "reset" bool, required "user_id" int]

def beatmapsetDescriptionSchema : Ty := .model [required "description" str]

def genreSchema : Ty := .model [required "id" genreIdLiteral, required "name" genreNameLiteral]

def hypeSchema : Ty := .model [required "current" int, required "required" int]

def languageSchema : Ty :=
  .model [required "id" languageIdLiteral, required "name" languageNameLiteral]

def requiredMetaSchema : Ty := .model [required "main_ruleset" int, required "non_main_ruleset" int]

def nominationsSummarySchema : Ty :=
  .model [required "current" int,
    required "eligible_main_rulesets" (.optional (.list rulesetLiteral)),
    required "required_meta" requiredMetaSchema]

def failtimesSchema : Ty :=
  .model [required "exit" (.optional (.list int)), required "fail" (.optional (.list int))]

/-- The fields of `BeatmapOsuApiSchema`, and of `Beatmap`. -/
def beatmapFields : Fields :=
  [required "accuracy" float, required "ar" float, required "beatmapset_id" int,
    required "bpm" float, required "checksum" str, required "count_circles" int,
    required "count_sliders" int,
    required "count_spinners" int, required "cs" float, required "deleted_at" (.optional datetime),
    required "difficulty_rating" float, required "drain" float,
    required "failtimes" failtimesSchema,
    required "hit_length" int, required "id" int, required "is_scoreable" bool,
    required "last_updated" datetime,
    required "max_combo" int, required "mode" rulesetLiteral, required "mode_int" rulesetIntLiteral,
    defaulted "owners" (.list (.dict (some ["id", "username"]) (.scalar .intOrStr))),
    required "passcount" int, required "playcount" int, required "ranked" rankedIntLiteral,
    required "status" rankedStatusLiteral,
    defaulted "top_tag_ids" (.keeping "tag_id" int),
    required "total_length" int, required "url" str, required "user_id" int, required "version" str]

def beatmap : Ty := .model beatmapFields

/-- The fields of `BeatmapsetOsuApiSchema`, given that of the beatmaps. -/
def beatmapsetFields (beatmaps : Key × Ty) : Fields :=
  [required "artist" str, required "artist_unicode" str,
    required "availability" availabilitySchema, beatmaps, required "bpm" float,
    required "can_be_hyped" bool, required "covers" coversSchema, required "creator" str,
    required "current_nominations" (.list currentNominationSchema),
    required "deleted_at" (.optional datetime),
    required "description" beatmapsetDescriptionSchema, required "discussion_enabled" bool,
    required "discussion_locked" bool, required "favourite_count" int,
    required "genre" (.optional genreSchema),
    required "hype" (.optional hypeSchema), required "id" int, required "is_scoreable" bool,
    required "language" (.optional languageSchema), required "last_updated" datetime,
    required "legacy_thread_url" (.optional str),
    required "nominations_summary" nominationsSummarySchema,
    required "nsfw" bool, required "offset" int, required "pack_tags" (.list str),
    required "play_count" int,
    required "preview_url" str, required "ranked" rankedIntLiteral,
    required "ranked_date" (.optional datetime),
    required "rating" float, required "ratings" (.list int), required "source" str,
    required "spotlight" bool,
    required "status" rankedStatusLiteral, required "storyboard" bool,
    required "submitted_date" datetime,
    required "tags" str, required "title" str, required "title_unicode" str,
    required "track_id" (.optional int), defaulted "user" (.optional (.dict none .any)),
    required "user_id" int, required "video" bool]

/-- `Beatmapset` overrides the beatmaps. -/
def beatmapset : Ty := .model (beatmapsetFields (required "beatmaps" (.list beatmap)))

def beatmapsetOsuApiSchema : Ty :=
  .model (beatmapsetFields (defaulted "beatmaps" (.optional (.list beatmap))))

end Schemas

end Graveboards.Cache
