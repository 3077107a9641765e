import Graveboards.Rules.Evaluator

/-!
The leaf validators of `rules/validators`, as functions of the configuration
they read from the context. They read raw JSON: whatever spelling of a number
is stored reaches a Python comparison, which raises on text.

Rate limit and cooldown are never run through `check` by either runner and are
left to a parameter, and so are the osu! search, the rows of the queue and the
text normalisation of song identities. Python's set order is not modelled: a
set prints in the order of first occurrence.
-/

namespace Graveboards.Rules

open Library

/-! What the context holds besides the configuration. -/

structure Beatmap where
  version : String
  mode : String
  totalLength : Int
  hitLength : Int
  difficultyRating : Double
  ar : Double
  accuracy : Double
  drain : Double
  cs : Double
  bpm : Double
  /-- `top_tag_ids`: for each tag its `tag_id`, if it has one. -/
  topTagIds : Option (List (Option Int))

structure Beatmapset where
  id : Nat
  artist : String
  artistUnicode : String
  title : String
  titleUnicode : String
  genre : Option Int
  language : Option Int
  storyboard : Bool
  video : Bool

/-- Artist, title and their Unicode forms, as a search result or a row of the
queue gives them. -/
structure Song where
  artist : String
  title : String
  artistUnicode : String
  titleUnicode : String

structure Env where
  queueId : Nat
  userId : Nat
  beatmapset : Option Beatmapset
  beatmaps : List Beatmap
  /-- `db.get(Queue, ...)`: the queue's name, if the row is there. -/
  queueName : Except Raise (Option String)
  /-- `osu_client.search_beatmapsets` by mode, query and page. -/
  search : Option (Nat → Option String → Nat → Except Raise (List Song))
  /-- The requests of the queue with the beatmapset each is for. -/
  requests : Option (Except Raise (List (Song × Nat)))
  /-- `_normalize_text`, with the `strip_version_markers` flag. -/
  normalizeText : Bool → String → String
  /-- `check` of the stateful rule types. -/
  statefulCheck : String → Json → Check

/-- A check that does not suspend. -/
def immediately (result : Except Raise Unit) : Check := ⟨0, result⟩

def violate {α : Type} (ruleType detail : String) : Except Raise α :=
  .error (.violation ⟨ruleType, detail⟩)

def typeError {α : Type} : Except Raise α := .error (.unexpected "TypeError")

/-- `config.get(key)`. -/
def lookup (config : Json) (key : String) : Json := (config.get? key).getD .null

/-- `value < bound`, which raises for a bound that is not a number. -/
def lessThan (value : Rat) (bound : Json) : Except Raise Bool :=
  match bound.num? with
  | some b => .ok (value < b)
  | none => typeError

def greaterThan (value : Rat) (bound : Json) : Except Raise Bool :=
  match bound.num? with
  | some b => .ok (b < value)
  | none => typeError

/-- `bound is not None and value < bound`. -/
def below (value : Rat) (bound : Json) : Except Raise Bool :=
  if bound = .null then .ok false else lessThan value bound

/-- `bound is not None and value > bound`. -/
def above (value : Rat) (bound : Json) : Except Raise Bool :=
  if bound = .null then .ok false else greaterThan value bound

/-! Ranges: one value, every beatmap, some beatmap. -/

/-- The wording of a range rule: how it calls a measured value, what it adds
to "allowed", how it prints values and bounds, and what no beatmap has. -/
structure RangeTexts where
  subject : String → String
  allowed : String
  value : Rat → String
  bound : Json → String
  nothing : String

namespace RangeTexts

variable (texts : RangeTexts)

def tooLow (version : String) (value : Rat) (low : Json) : String :=
  texts.subject version ++ " (" ++ texts.value value ++ ") is below minimum allowed" ++
    texts.allowed ++ " (" ++ texts.bound low ++ ")"

def tooHigh (version : String) (value : Rat) (high : Json) : String :=
  texts.subject version ++ " (" ++ texts.value value ++ ") exceeds maximum allowed" ++
    texts.allowed ++ " (" ++ texts.bound high ++ ")"

def noneWithin (values : List String) (low high : Json) : String :=
  "No beatmap has " ++ texts.nothing ++ " within the allowed range (min=" ++ Text.display low ++
    ", max=" ++ Text.display high ++ "). Values: " ++ Text.reprList values

end RangeTexts

/-- `format(value, ".2f")`. -/
def fixed2 (value : Rat) : String :=
  if Double.isFinite value then Text.fixed 2 value else if value < 0 then "-inf" else "inf"

def boundFixed2 (bound : Json) : String := fixed2 (Double.round (bound.num?.getD 0))

def seconds (value : Rat) : String := toString value.floor ++ "s"

def boundSeconds (bound : Json) : String := Text.display bound ++ "s"

/-- The wording of a quantity printed with two digits. -/
def quantityTexts (name allowed nothing : String) : RangeTexts :=
  ⟨fun version => "Beatmap '" ++ version ++ "' " ++ name, allowed, fixed2, boundFixed2, nothing⟩

/-- The wording of a time printed in whole seconds. -/
def timeTexts (name allowed nothing : String) : RangeTexts :=
  ⟨fun version => "Beatmap '" ++ version ++ "' " ++ name, allowed, seconds, boundSeconds, nothing⟩

/-- The same wording about one aggregated value. -/
def RangeTexts.about (texts : RangeTexts) (name : String) : RangeTexts :=
  { texts with subject := fun _ => name }

section Ranges

variable (ruleType : String) (texts : RangeTexts) (low high : Json)

/-- The two comparisons made for one value. -/
def checkValue (version : String) (value : Rat) : Except Raise Unit := do
  if ← below value low then violate ruleType (texts.tooLow version value low)
  if ← above value high then violate ruleType (texts.tooHigh version value high)

/-- `logic == "all"`. -/
def checkAll : List (String × Rat) → Except Raise Unit
  | [] => .ok ()
  | (version, value) :: rest => do
      checkValue ruleType texts low high version value
      checkAll rest

/-- `(low is None or value >= low) and (high is None or value <= high)`. -/
def within (value : Rat) : Except Raise Bool := do
  if ← below value low then return false
  return !(← above value high)

/-- `any(...)` over the values: it stops at the first that is within. -/
def anyWithin : List Rat → Except Raise Bool
  | [] => .ok false
  | value :: rest => do
      if ← within low high value then return true
      anyWithin rest

/-- `logic == "any"`. -/
def checkAny (print : Rat → String) (values : List Rat) : Except Raise Unit := do
  if !(← anyWithin low high values) then
    violate ruleType (texts.noneWithin (values.map print) low high)

end Ranges

/-! The base classes. -/

/-- `RestrictionBase.check`. -/
def restriction (ruleType : String) (body : Json → Check) (config : Json) : Check :=
  if !config.truthy then
    immediately (violate ruleType ("Missing configuration for rule type '" ++ ruleType ++ "'"))
  else match config with
    | .dict _ => body config
    | _ => immediately (.error (.unexpected "AttributeError"))

section Checks

variable (env : Env)

/-- `BeatmapRestrictionBase._check`. -/
def beatmapRestriction (ruleType : String) (body : Beatmapset → Json → Except Raise Unit) :
    Json → Check :=
  restriction ruleType fun config => immediately <|
    match env.beatmapset with
    | none => violate ruleType "Beatmapset metadata not available"
    | some beatmapset => body beatmapset config

/-- The rules that need at least one beatmap. -/
def beatmapsRestriction (ruleType : String) (body : Json → Except Raise Unit) : Json → Check :=
  beatmapRestriction env ruleType fun _ config =>
    if env.beatmaps.isEmpty then violate ruleType "No beatmaps available in beatmapset"
    else body config

/-- `config.get("logic", default)`. -/
def logicOf (config : Json) (default : String) : Json :=
  (config.get? "logic").getD (.str default)

def measured (valueOf : Beatmap → Rat) : List (String × Rat) :=
  env.beatmaps.map (fun beatmap => (beatmap.version, valueOf beatmap))

def largest (values : List Rat) : Rat := values.tail.foldl max (values.headD 0)

def smallest (values : List Rat) : Rat := values.tail.foldl min (values.headD 0)

def durationRestriction : Json → Check :=
  beatmapsRestriction env "beatmap_duration" fun config =>
    let texts := timeTexts "duration" " duration" ""
    let lengths := env.beatmaps.map (fun beatmap => (beatmap.totalLength : Rat))
    let minSeconds := lookup config "min_seconds"
    let maxSeconds := lookup config "max_seconds"
    match logicOf config "max" with
    | .str "max" =>
        checkValue "beatmap_duration" (texts.about "Longest beatmap duration") minSeconds maxSeconds
          "" (largest lengths)
    | .str "min" =>
        checkValue "beatmap_duration" (texts.about "Shortest beatmap duration") minSeconds
          maxSeconds "" (smallest lengths)
    | .str "all" =>
        -- here an explicit null is compared, and raises
        checkAllFrom texts ((config.get? "min_seconds").getD (.int 0)) maxSeconds
          (measured env (fun beatmap => beatmap.totalLength))
    | _ => .ok ()
where
  checkAllFrom (texts : RangeTexts) (minSeconds maxSeconds : Json) :
      List (String × Rat) → Except Raise Unit
    | [] => .ok ()
    | (version, value) :: rest => do
        if ← lessThan value minSeconds then
          violate "beatmap_duration" (texts.tooLow version value minSeconds)
        if ← above value maxSeconds then
          violate "beatmap_duration" (texts.tooHigh version value maxSeconds)
        checkAllFrom texts minSeconds maxSeconds rest

def starRatingRestriction : Json → Check :=
  beatmapsRestriction env "beatmap_star_rating" fun config =>
    let texts := quantityTexts "star rating" " star rating" "a star rating"
    let ratings := env.beatmaps.map (fun beatmap => beatmap.difficultyRating.value)
    let minSr := lookup config "min"
    let maxSr := lookup config "max"
    match logicOf config "any" with
    | .str "max" =>
        checkValue "beatmap_star_rating" (texts.about "Highest star rating") minSr maxSr ""
          (largest ratings)
    | .str "min" =>
        checkValue "beatmap_star_rating" (texts.about "Lowest star rating") minSr maxSr ""
          (smallest ratings)
    | .str "all" =>
        checkAll "beatmap_star_rating" texts minSr maxSr
          (measured env (fun beatmap => beatmap.difficultyRating.value))
    | .str "any" => checkAny "beatmap_star_rating" texts minSr maxSr Text.reprRounded ratings
    | _ => .ok ()

/-- The five rules over `RangeConfig`. -/
def rangeRestriction (ruleType : String) (texts : RangeTexts) (print : Rat → String)
    (valueOf : Beatmap → Rat) : Json → Check :=
  beatmapsRestriction env ruleType fun config =>
    let low := lookup config "min"
    let high := lookup config "max"
    if logicOf config "any" = .str "all" then
      checkAll ruleType texts low high (measured env valueOf)
    else checkAny ruleType texts low high print (env.beatmaps.map valueOf)

def arRangeRestriction : Json → Check :=
  rangeRestriction env "beatmap_ar_range" (quantityTexts "AR" " AR" "AR") Text.reprRounded
    (·.ar.value)

def odRangeRestriction : Json → Check :=
  rangeRestriction env "beatmap_od_range" (quantityTexts "OD" " OD" "OD") Text.reprRounded
    (·.accuracy.value)

def hpRangeRestriction : Json → Check :=
  rangeRestriction env "beatmap_hp_range" (quantityTexts "HP" " HP" "HP") Text.reprRounded
    (·.drain.value)

def csRangeRestriction : Json → Check :=
  rangeRestriction env "beatmap_cs_range" (quantityTexts "CS" " CS" "CS") Text.reprRounded
    (·.cs.value)

def drainRangeRestriction : Json → Check :=
  rangeRestriction env "beatmap_drain_range" (timeTexts "drain time" "" "drain time")
    (fun value => toString value.floor) (fun beatmap => beatmap.hitLength)

def bpmRestriction : Json → Check :=
  beatmapsRestriction env "beatmap_bpm" fun config =>
    let texts := quantityTexts "BPM" "" "BPM"
    let bpms := env.beatmaps.map (fun beatmap => beatmap.bpm.value)
    let minBpm := lookup config "min_bpm"
    let maxBpm := lookup config "max_bpm"
    match logicOf config "any" with
    | .str "avg" =>
        checkValue "beatmap_bpm" (texts.about "Average BPM") minBpm maxBpm ""
          (Double.mean bpms)
    | .str "all" =>
        checkAll "beatmap_bpm" texts minBpm maxBpm (measured env (fun beatmap => beatmap.bpm.value))
    | _ => checkAny "beatmap_bpm" texts minBpm maxBpm Text.reprRounded bpms

/-! Sets of identifiers. -/

def hashable : Json → Bool
  | .list _ | .dict _ => false
  | _ => true

/-- `set(value)` as the list of its members: only hashable members, only
iterable values. -/
def asSet (value : Json) : Except Raise (List Json) :=
  match value with
  | .list items => if items.all hashable then .ok items else typeError
  | .dict entries => .ok (entries.map (fun entry => .str entry.1))
  | .str s => .ok (s.toList.map (fun c => .str c.toString))
  | .null | .bool _ | .int _ | .float _ => typeError

/-- `n in items`, by Python's equality of numbers. -/
def contains (items : List Json) (n : Int) : Bool :=
  items.any (fun item => item.num? = some (n : Rat))

def sameElement (a b : Json) : Bool :=
  match a.num?, b.num? with
  | some x, some y => x = y
  | _, _ => a = b

def distinct (items : List Json) : List Json :=
  items.foldl (fun seen item => if seen.any (sameElement item) then seen else seen ++ [item]) []

/-- `str(sorted(items))`. Text and numbers cannot be ordered together. -/
def sortedRepr (items : List Json) : Except Raise String :=
  if items.all Json.isStr then
    .ok (Text.reprList (((distinct items).mergeSort
      (fun a b => Text.display a ≤ Text.display b)).map Text.repr))
  else if items.all (fun item => item.num?.isSome) then
    .ok (Text.reprList (((distinct items).mergeSort
      (fun a b => a.num?.getD 0 ≤ b.num?.getD 0)).map Text.repr))
  else typeError

/-- The identifier of the beatmapset is among the configured ones. -/
def identifierRestriction (ruleType key noun plural : String) (actual : Beatmapset → Option Int) :
    Json → Check :=
  beatmapRestriction env ruleType fun beatmapset config =>
    match actual beatmapset with
    | none => violate ruleType ("Beatmapset " ++ noun ++ " is not available")
    | some actualId => do
        let allowedIds ← asSet ((config.get? key).getD (.list []))
        if !contains allowedIds actualId then
          violate ruleType ("Beatmapset " ++ noun ++ " (" ++ toString actualId ++
            ") is not in the allowed " ++ plural ++ ": " ++ (← sortedRepr allowedIds))

def genreRestriction : Json → Check :=
  identifierRestriction env "beatmap_genre" "genre_ids" "genre" "genres" (·.genre)

def languageRestriction : Json → Check :=
  identifierRestriction env "beatmap_language" "language_ids" "language" "languages" (·.language)

def setRepr (items : List String) : String :=
  if items.isEmpty then "set()" else "\x7b" ++ String.intercalate ", " items ++ "\x7d"

def modeRestriction : Json → Check :=
  beatmapRestriction env "beatmap_mode" fun _ config => do
    let allowedModes ← asSet ((config.get? "allowed_modes").getD (.list []))
    if env.beatmaps.isEmpty then violate "beatmap_mode" "No beatmaps available in beatmapset"
    let unsupported := (env.beatmaps.map (fun beatmap => beatmap.mode)).dedup.filter
      (fun mode => Json.str mode ∉ allowedModes)
    if !unsupported.isEmpty then
      violate "beatmap_mode" ("Beatmapset contains unsupported game modes: " ++
        setRepr (unsupported.map (fun mode => Text.repr (.str mode))) ++ ". Allowed modes: " ++
        setRepr ((distinct allowedModes).map Text.repr))

def difficultyCountRestriction : Json → Check :=
  beatmapRestriction env "beatmap_difficulty_count" fun _ config => do
    let count := env.beatmaps.length
    let minCount := lookup config "min"
    let maxCount := lookup config "max"
    if ← below count minCount then
      violate "beatmap_difficulty_count" ("Beatmapset has " ++ toString count ++
        " difficulty/difficulties, minimum required is " ++ Text.display minCount)
    if ← above count maxCount then
      violate "beatmap_difficulty_count" ("Beatmapset has " ++ toString count ++
        " difficulty/difficulties, maximum allowed is " ++ Text.display maxCount)

/-- Storyboard and video: present, and not allowed. -/
def featureRestriction (ruleType detail : String) (present : Beatmapset → Bool) : Json → Check :=
  beatmapRestriction env ruleType fun beatmapset config =>
    let allowed := (config.get? "allowed").getD (.bool true)
    if !allowed.truthy && present beatmapset then violate ruleType detail else .ok ()

def storyboardRestriction : Json → Check :=
  featureRestriction env "beatmap_storyboard"
    "Beatmapset has a storyboard but storyboards are not allowed" (·.storyboard)

def videoRestriction : Json → Check :=
  featureRestriction env "beatmap_video"
    "Beatmapset has a video but videos are not allowed" (·.video)

/-- The tags of all beatmaps. -/
def beatmapTagIds : List Int :=
  env.beatmaps.flatMap (fun beatmap => (beatmap.topTagIds.getD []).filterMap id)

/-- `logic == "all"`: every required tag is available. -/
def tagsAll (required : List Json) : Except Raise Unit := do
  let missing := required.filter
    (fun tag => !(beatmapTagIds env).any (fun n => tag.num? = some (n : Rat)))
  if !missing.isEmpty then
    violate "beatmap_tags" ("Beatmapset is missing required tags: " ++ (← sortedRepr missing) ++
      ". Available tags: " ++ (← sortedRepr ((beatmapTagIds env).map Json.int)))

/-- Any other logic: some required tag is available. -/
def tagsAny (required : List Json) : Except Raise Unit := do
  if !(beatmapTagIds env).any (contains required) then
    violate "beatmap_tags" ("Beatmapset does not have any of the required tags: " ++
      (← sortedRepr required) ++ ". Available tags: " ++
      (← sortedRepr ((beatmapTagIds env).map Json.int)))

def tagsRestriction : Json → Check :=
  beatmapRestriction env "beatmap_tags" fun _ config => do
    let requiredTagIds ← asSet ((config.get? "tag_ids").getD (.list []))
    if requiredTagIds.isEmpty then .ok ()
    else if env.beatmaps.all (fun beatmap => (beatmap.topTagIds.getD []).isEmpty) then
      violate "beatmap_tags" ("Tag metadata (top_tag_ids) is unavailable for this beatmapset, " ++
        "so the required-tags rule cannot be evaluated")
    else if logicOf config "any" = .str "all" then tagsAll env requiredTagIds
    else tagsAny env requiredTagIds

/-! Length: four bounds on two times. -/

/-- One comparison of the rule: a key of the configuration, what it bounds,
and whether from below. -/
structure LengthBound where
  key : String
  name : String
  value : Rat
  low : Bool

/-- The bounds in the order the rule compares them. -/
def lengthBounds (beatmap : Beatmap) : List LengthBound :=
  [ ⟨"min_hit_length", "hit length", beatmap.hitLength, true⟩,
    ⟨"max_hit_length", "hit length", beatmap.hitLength, false⟩,
    ⟨"min_total_length", "total length", beatmap.totalLength, true⟩,
    ⟨"max_total_length", "total length", beatmap.totalLength, false⟩ ]

/-- The first bound a beatmap misses. -/
def firstMissed (config : Json) : List LengthBound → Except Raise (Option LengthBound)
  | [] => .ok none
  | bound :: rest => do
      let configured := lookup config bound.key
      if ← (if bound.low then below bound.value configured else above bound.value configured) then
        return some bound
      firstMissed config rest

def lengthAll (config : Json) : List Beatmap → Except Raise Unit
  | [] => .ok ()
  | beatmap :: rest => do
      match ← firstMissed config (lengthBounds beatmap) with
      | some bound =>
          violate "beatmap_length" ("Beatmap '" ++ beatmap.version ++ "' " ++ bound.name ++ " (" ++
            seconds bound.value ++ ") " ++
            (if bound.low then "is below minimum" else "exceeds maximum") ++
            " (" ++ boundSeconds (lookup config bound.key) ++ ")")
      | none => lengthAll config rest

def lengthAny (config : Json) : List Beatmap → Except Raise Bool
  | [] => .ok false
  | beatmap :: rest => do
      match ← firstMissed config (lengthBounds beatmap) with
      | none => return true
      | some _ => lengthAny config rest

def lengthRestriction : Json → Check :=
  beatmapsRestriction env "beatmap_length" fun config =>
    let shown (key : String) := Text.display (lookup config key)
    if logicOf config "any" = .str "all" then lengthAll config env.beatmaps
    else do
      if !(← lengthAny config env.beatmaps) then
        violate "beatmap_length" ("No beatmap satisfies the configured length range (hit_length " ++
          shown "min_hit_length" ++ "-" ++ shown "max_hit_length" ++ "s, total_length " ++
          shown "min_total_length" ++ "-" ++ shown "max_total_length" ++ "s)")

/-- The only template is `any`. -/
def combinationRestriction : Json → Check :=
  beatmapRestriction env "beatmap_combination" fun _ config =>
    let name := lookup config "combination"
    if !name.truthy then violate "beatmap_combination" "Combination name is required"
    else match name with
      | .str "any" => .ok ()
      | .list _ | .dict _ => typeError
      | other => violate "beatmap_combination"
          ("Unknown combination '" ++ Text.display other ++ "'. Available: any")

/-- `user_id in target`. -/
def memberOf (userId : Nat) (target : Json) : Except Raise Bool :=
  match target with
  | .list items => .ok (contains items userId)
  | .dict _ => .ok false
  | .str _ | .null | .bool _ | .int _ | .float _ => typeError

def blacklistRestriction : Json → Check :=
  restriction "blacklist" fun config =>
    let target := (config.get? "target").getD (.list [])
    let refused := fun (name : Option String) =>
      Raise.forbidden ("You are not allowed to submit requests to '" ++
        name.getD ("Queue " ++ toString env.queueId) ++ "' (queue " ++ toString env.queueId ++ ").")
    if !target.truthy then immediately (.ok ())
    else if (config.get? "scope").getD (.str "user") ≠ .str "user" then immediately (.ok ())
    else match memberOf env.userId target with
      | .error e => immediately (.error e)
      | .ok false => immediately (.ok ())
      | .ok true => ⟨1, env.queueName.bind (fun name => .error (refused name))⟩

/-! The rules over osu! and the queue. -/

/-- `DatabaseRestrictionBase._check`. -/
def databaseRestriction (ruleType : String)
    (body : (Nat → Option String → Nat → Except Raise (List Song)) → Json → Check) : Json → Check :=
  restriction ruleType fun config =>
    match env.search with
    | none => immediately (violate ruleType "This rule requires osu! API access (Phase 2 only)")
    | some search => body search config

/-- `SongIdentityProvider.resolve`, the fields the rules read. -/
def songIdentity : Song :=
  match env.beatmapset with
  | none => ⟨"", "", "", ""⟩
  | some set => ⟨set.artist, set.title, set.artistUnicode, set.titleUnicode⟩

/-- The one form `add` contributes to `normalized_identity_forms`. -/
def identityForm (strip : Bool) (artist title : String) : List (String × String) :=
  let normalizedArtist := env.normalizeText strip artist
  let normalizedTitle := env.normalizeText strip title
  if normalizedArtist = "" ∨ normalizedTitle = "" then [] else [(normalizedArtist, normalizedTitle)]

def orElse (first second : String) : String := if first = "" then second else first

def normalizedIdentityForms (strip : Bool) (song : Song) : List (String × String) :=
  identityForm env strip song.artist song.title ++
    identityForm env strip (orElse song.artistUnicode song.artist)
      (orElse song.titleUnicode song.title)

def formsMeet (xs ys : List (String × String)) : Bool := xs.any (fun form => form ∈ ys)

/-- The `NeverRankedConfig` and `UniqueArtistTitleConfig` of the validators
themselves: other keys are ignored. -/
def readNormalizeVersions (text : TextReaders) (config : Json) : Except Raise Bool :=
  match config.get? "normalize_versions" with
  | none => .ok true
  | some v =>
      match Coercion.bool text v with
      | .ok (.bool b) => .ok b
      | _ => .error (.unexpected "ValidationError")

def readRuleset (config : Json) : Except Raise String :=
  match config.get? "ruleset" with
  | none => .ok "osu"
  | some (.str s) =>
      if s ∈ ["osu", "taiko", "fruits", "mania"] then .ok s
      else .error (.unexpected "ValidationError")
  | some _ => .error (.unexpected "ValidationError")

/-- `Ruleset.to_mode_int`. -/
def modeInt (ruleset : String) : Nat :=
  ["osu", "taiko", "fruits", "mania"].idxOf ruleset

def textQuery (song : Song) : Option String :=
  let query :=
    (String.intercalate " " ([song.artist, song.title].filter (· ≠ ""))).trimAscii.toString
  if query = "" then none else some query

/-- The pages of the search, `left` of them still to come. -/
def searchPages (search : Nat → Option String → Nat → Except Raise (List Song)) (ruleset : String)
    (strip : Bool) (page : Nat) : Nat → Check
  | 0 => ⟨0, .ok ()⟩
  | left + 1 =>
      match search (modeInt ruleset) (textQuery (songIdentity env)) page with
      | .error e => ⟨1, .error e⟩
      | .ok [] => ⟨1, .ok ()⟩
      | .ok songs =>
          if songs.any (fun song => formsMeet
              (normalizedIdentityForms env strip (songIdentity env))
              (normalizedIdentityForms env strip song)) then
            ⟨1, violate "never_ranked" ("Song '" ++ (songIdentity env).artist ++ " - " ++
              (songIdentity env).title ++ "' is already ranked on osu! " ++ ruleset)⟩
          else
            let rest := searchPages search ruleset strip (page + 1) left
            ⟨rest.awaits + 1, rest.result⟩

/-- The check of `never_ranked` on a parsed configuration. -/
def neverRankedCheck (search : Nat → Option String → Nat → Except Raise (List Song))
    (ruleset : String) (strip : Bool) : Check :=
  if (normalizedIdentityForms env strip (songIdentity env)).isEmpty then
    immediately (violate "never_ranked" "Could not resolve song identity for ranking check")
  else searchPages env search ruleset strip 1 5

def neverRankedRestriction (text : TextReaders) : Json → Check :=
  databaseRestriction env "never_ranked" fun search config =>
    match readRuleset config, readNormalizeVersions text config with
    | .ok ruleset, .ok strip => neverRankedCheck env search ruleset strip
    | .error e, _ | _, .error e => immediately (.error e)

def uniqueArtistTitleCheck (strip : Bool) : Check :=
  let forms := normalizedIdentityForms env strip (songIdentity env)
  if forms.isEmpty then
    immediately
      (violate "unique_artist_title" "Could not resolve song identity for uniqueness check")
  else match env.requests with
    | none => immediately
        (violate "unique_artist_title" "Database session unavailable for queue uniqueness check")
    | some (.error e) => ⟨1, .error e⟩
    | some (.ok rows) =>
        -- the submitted beatmapset itself is left to the uniqueness constraint
        match rows.find? (fun row => some row.2 ≠ env.beatmapset.map (·.id) &&
            formsMeet forms (normalizedIdentityForms env strip row.1)) with
        | none => ⟨1, .ok ()⟩
        | some row => ⟨1, violate "unique_artist_title" ("Song '" ++ (songIdentity env).artist ++
            " - " ++ (songIdentity env).title ++
            "' already has a request in this queue (beatmapset_id=" ++ toString row.2 ++ ")")⟩

def uniqueArtistTitleRestriction (text : TextReaders) : Json → Check :=
  databaseRestriction env "unique_artist_title" fun _ config =>
    match readNormalizeVersions text config with
    | .ok strip => uniqueArtistTitleCheck env strip
    | .error e => immediately (.error e)

/-- `RULE_REGISTRY`: the `check` of each validator class. -/
def getValidator (text : TextReaders) (ruleType : String) : Option (Json → Check) :=
  match ruleType with
  | "rate_limit" | "cooldown" => some (env.statefulCheck ruleType)
  | "blacklist" => some (blacklistRestriction env)
  | "beatmap_duration" => some (durationRestriction env)
  | "beatmap_star_rating" => some (starRatingRestriction env)
  | "beatmap_ar_range" => some (arRangeRestriction env)
  | "beatmap_od_range" => some (odRangeRestriction env)
  | "beatmap_hp_range" => some (hpRangeRestriction env)
  | "beatmap_cs_range" => some (csRangeRestriction env)
  | "beatmap_drain_range" => some (drainRangeRestriction env)
  | "beatmap_bpm" => some (bpmRestriction env)
  | "beatmap_genre" => some (genreRestriction env)
  | "beatmap_language" => some (languageRestriction env)
  | "beatmap_mode" => some (modeRestriction env)
  | "beatmap_difficulty_count" => some (difficultyCountRestriction env)
  | "beatmap_storyboard" => some (storyboardRestriction env)
  | "beatmap_video" => some (videoRestriction env)
  | "beatmap_tags" => some (tagsRestriction env)
  | "beatmap_length" => some (lengthRestriction env)
  | "beatmap_combination" => some (combinationRestriction env)
  | "never_ranked" => some (neverRankedRestriction env text)
  | "unique_artist_title" => some (uniqueArtistTitleRestriction env text)
  | _ => none

end Checks

end Graveboards.Rules
