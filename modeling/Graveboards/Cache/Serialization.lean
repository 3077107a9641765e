import Graveboards.Cache.Models

/-!
How a beatmapset is written to Redis as a dictionary of texts, how it is read back, and what
`get_beatmapset` returns on a hit and on a miss.
-/

namespace Graveboards.Cache

open Graveboards.Library

/-- What the interpreter provides: `repr`, `ast.literal_eval` and `float`. -/
structure Python where
  repr : Value → String
  literalEval : String → Option Value
  float : String → Option Double

/-- What `serialize` does to the value of a field before its text is taken. -/
inductive Encoding where
  | isoformat
  | modelDump
  | beatmaps
  | asIs
  deriving DecidableEq

/-- How `deserialize` reads the text of a field. -/
inductive Decoding where
  | int
  | float
  | literalEval
  | fromisoformat
  | beatmaps
  | asIs
  deriving DecidableEq

def isoformat : Value → Value
  | .datetime d => .str d.isoformat
  | _ => .str ""

namespace Python

variable (py : Python)

/-- `str(value)`. -/
def str : Value → String
  | .str s => s
  | .int n => toString n
  | value => py.repr value

/-- `str(value) if value is not None else ""`. -/
def text : Value → String
  | .null => ""
  | value => py.str value

/-- `read(value) if value != "" else None`. -/
def unlessEmpty (read : String → Option Value) (text : String) : Option Value :=
  if text = "" then some .null else read text

def readInt (text : String) : Option Value := (Numeral.int text.toList).map .int

def readFloat (text : String) : Option Value := (py.float text).map .float

end Python

variable (py : Python) (p : Pydantic)

/-- The loop of `serialize`. -/
def serializeFields (encode : String → Ty → Value → Value) :
    Fields → List (String × Value) → List (String × String)
  | (_, t) :: rest, (name, value) :: values =>
      (name, py.text (encode name t value)) :: serializeFields encode rest values
  | _, _ => []

/-- The loop of `deserialize`. -/
def deserializeEntries (decode : String → String → Option Value)
    (entries : List (String × String)) :
    Option (List (String × Value)) :=
  entries.mapM fun entry => (decode entry.1 entry.2).map (Prod.mk entry.1)

namespace Beatmap

def encoding (key : String) : Encoding :=
  if key ∈ ["deleted_at", "last_updated"] then .isoformat
  else if key = "failtimes" then .modelDump
  else .asIs

def encode (key : String) (t : Ty) (value : Value) : Value :=
  match encoding key with
  | .isoformat => isoformat value
  | .modelDump => dump p t value
  | _ => value

/-- `Beatmap.serialize`. -/
def serialize (values : List (String × Value)) : List (String × String) :=
  serializeFields py (encode p) beatmapFields values

def decoding (key : String) : Decoding :=
  if key ∈
    ["id", "user_id", "count_circles", "count_sliders", "count_spinners", "hit_length", "max_combo",
      "mode_int", "passcount", "playcount", "ranked", "total_length"] then .int
  else if key ∈ ["accuracy", "ar", "bpm", "cs", "difficulty_rating", "drain"] then .float
  else if key ∈ ["is_scoreable", "failtimes", "owners", "top_tag_ids"] then .literalEval
  else if key ∈ ["deleted_at", "last_updated"] then .fromisoformat
  else .asIs

def decode (key text : String) : Option Value :=
  match decoding key with
  | .int => Python.unlessEmpty Python.readInt text
  | .float => Python.unlessEmpty py.readFloat text
  | .literalEval => Python.unlessEmpty py.literalEval text
  | .fromisoformat => Python.unlessEmpty (fun text => (Zoned.fromisoformat text).map .datetime) text
  | _ => some (.str text)

/-- `Beatmap.deserialize`. -/
def deserialize (entries : List (String × String)) : Option Value := do
  let values ← deserializeEntries (decode py) entries
  validate p beatmap (.dict values)

end Beatmap

/-- A dictionary of texts as a value, and back. -/
def texts (entries : List (String × String)) : Value :=
  .dict (entries.map fun entry => (entry.1, .str entry.2))

def ofTexts : Value → Option (List (String × String))
  | .dict entries => entries.mapM fun entry =>
      match entry.2 with
      | .str s => some (entry.1, s)
      | _ => none
  | _ => none

namespace Beatmapset

def encoding (key : String) : Encoding :=
  if key ∈ ["deleted_at", "last_updated", "submitted_date", "ranked_date"] then .isoformat
  else if key = "beatmaps" then .beatmaps
  else if key ∈
    ["availability", "covers", "current_nominations", "description", "genre", "hype", "language",
      "nominations_summary"] then .modelDump
  else .asIs

/-- `[beatmap.serialize() for beatmap in value]`. -/
def serializeBeatmaps : Value → Value
  | .list items => .list (items.map fun item =>
      match item with
      | .model values => texts (Beatmap.serialize py p values)
      | value => value)
  | value => value

def encode (key : String) (t : Ty) (value : Value) : Value :=
  match encoding key with
  | .isoformat => isoformat value
  | .modelDump => dump p t value
  | .beatmaps => serializeBeatmaps py p value
  | .asIs => value

def fields : Fields := beatmapsetFields (required "beatmaps" (.list beatmap))

/-- `Beatmapset.serialize`. -/
def serialize : Value → List (String × String)
  | .model values => serializeFields py (encode py p) fields values
  | _ => []

def decoding (key : String) : Decoding :=
  if key ∈ ["id", "user_id", "favourite_count", "offset", "play_count", "ranked", "track_id"] then
    .int
  else if key ∈ ["bpm", "rating"] then .float
  else if key ∈ ["verified", "nsfw", "video", "is_scoreable", "spotlight", "discussion_enabled",
      "discussion_locked", "can_be_hyped", "storyboard", "availability", "description",
      "nominations_summary",
      "user", "covers", "genre", "hype", "language", "pack_tags", "current_nominations",
      "ratings"] then
    .literalEval
  else if key ∈ ["deleted_at", "last_updated", "submitted_date", "ranked_date"] then .fromisoformat
  else if key = "beatmaps" then .beatmaps
  else .asIs

/-- `[Beatmap.deserialize(beatmap) for beatmap in literal_eval(value)]`. -/
def deserializeBeatmaps (text : String) : Option Value :=
  match py.literalEval text with
  | some (.list items) =>
      (items.mapM fun item => (ofTexts item).bind (Beatmap.deserialize py p)).map .list
  | _ => none

def decode (key text : String) : Option Value :=
  match decoding key with
  | .int => Python.unlessEmpty Python.readInt text
  | .float => Python.unlessEmpty py.readFloat text
  | .literalEval => Python.unlessEmpty py.literalEval text
  | .fromisoformat => Python.unlessEmpty (fun text => (Zoned.fromisoformat text).map .datetime) text
  | .beatmaps => deserializeBeatmaps py p text
  | .asIs => some (.str text)

/-- `Beatmapset.deserialize`. -/
def deserialize (entries : List (String × String)) : Option Value := do
  let values ← deserializeEntries (decode py p) entries
  validate p beatmapset (.dict values)

end Beatmapset

/-- The dictionary that `get_beatmapset` returns, given what Redis holds and what osu! would answer.
A cached entry that cannot be read is fetched again. -/
def getBeatmapset (cached : Option (List (String × String))) (response : Value) : Value :=
  match cached.bind (Beatmapset.deserialize py p) with
  | some beatmapset' => dump p beatmapset beatmapset'
  | none => response

end Graveboards.Cache
