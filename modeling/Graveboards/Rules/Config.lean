import Graveboards.Library.Schema
import Graveboards.Library.Text

/-!
The rule configuration schemas of `schemas/rule.py` and `validate_rule_config`.
A composite's child configurations are validated against their own schemas but
stored as they were sent, which is why the tree walk below reads raw JSON.

Proved here: every schema is stable, so a stored configuration is a fixed
point of `validate_rule_config`, for the twenty-one atomic types and for
composites of any shape.
-/

namespace Graveboards.Rules

open Library

/-- The rule types a client may store (`RuleType`). -/
inductive RuleType where
  | rateLimit | cooldown | blacklist
  | beatmapDuration | beatmapStarRating | beatmapArRange | beatmapOdRange | beatmapHpRange
  | beatmapCsRange | beatmapDrainRange | beatmapBpm | beatmapGenre | beatmapLanguage
  | beatmapMode | beatmapDifficultyCount | beatmapStoryboard | beatmapVideo | beatmapTags
  | beatmapLength | composite
  | neverRanked | uniqueArtistTitle
  deriving DecidableEq

namespace RuleType

def name : RuleType → String
  | rateLimit => "rate_limit"
  | cooldown => "cooldown"
  | blacklist => "blacklist"
  | beatmapDuration => "beatmap_duration"
  | beatmapStarRating => "beatmap_star_rating"
  | beatmapArRange => "beatmap_ar_range"
  | beatmapOdRange => "beatmap_od_range"
  | beatmapHpRange => "beatmap_hp_range"
  | beatmapCsRange => "beatmap_cs_range"
  | beatmapDrainRange => "beatmap_drain_range"
  | beatmapBpm => "beatmap_bpm"
  | beatmapGenre => "beatmap_genre"
  | beatmapLanguage => "beatmap_language"
  | beatmapMode => "beatmap_mode"
  | beatmapDifficultyCount => "beatmap_difficulty_count"
  | beatmapStoryboard => "beatmap_storyboard"
  | beatmapVideo => "beatmap_video"
  | beatmapTags => "beatmap_tags"
  | beatmapLength => "beatmap_length"
  | composite => "composite"
  | neverRanked => "never_ranked"
  | uniqueArtistTitle => "unique_artist_title"

end RuleType

/-! Field validators. A null value passes every one of them. -/

/-- `if v is not None and v < bound: raise ValueError(message)`. -/
def atLeast (bound : Rat) (message : String) (v : Json) : Except String Unit :=
  match v.num? with
  | some q => if q < bound then .error message else .ok ()
  | none => .ok ()

def notEmpty (message : String) (v : Json) : Except String Unit :=
  if v.truthy then .ok () else .error message

def itemsOf : Json → List Json
  | .list items => items
  | _ => []

def validateTargetIds (v : Json) : Except String Unit :=
  if (itemsOf v).any (fun item => item.num?.any (· < 1)) then
    .error "target IDs must be positive"
  else if (itemsOf v).Nodup then .ok ()
  else .error "target IDs must be unique"

def validatePeriod (v : Json) : Except String Unit :=
  match v with
  | .str s =>
      if Text.isDigits s then
        if Text.digitsValue s < 1 then
          .error "numeric period (seconds) must be at least 1"
        else .ok ()
      else if s ∈ ["day", "week", "month", "year"] then .ok ()
      else .error
        "period must be one of ['day', 'month', 'week', 'year'] or a positive integer (seconds)"
  | _ => .ok ()

def validateBlacklistTarget (v : Json) : Except String Unit :=
  match notEmpty "blacklist target must contain at least one user ID" v with
  | .ok () => validateTargetIds v
  | .error message => .error message

def validateTagIds (v : Json) : Except String Unit :=
  match notEmpty "tag_ids must contain at least one tag" v with
  | .ok () =>
      if (itemsOf v).any (fun item => item.num?.any (· < 1)) then
        .error "tag IDs must be positive"
      else .ok ()
  | .error message => .error message

/-! Model validators. -/

def bound (record : List (String × Json)) (field : String) : Option Rat :=
  (Json.find field record).bind Json.num?

/-- `low` and `high` are ordered when both are given. -/
def ordered (low high : String) (record : List (String × Json)) : Except Raised Unit :=
  match bound record low, bound record high with
  | some l, some h =>
      if h < l then .error (.valueError (low ++ " must be <= " ++ high)) else .ok ()
  | _, _ => .ok ()

def validateBounds (low high : String) (record : List (String × Json)) : Except Raised Unit :=
  if bound record low = none ∧ bound record high = none then
    .error (.valueError ("at least one of " ++ low ++ "/" ++ high ++ " is required"))
  else ordered low high record

def validateLengthBounds (record : List (String × Json)) : Except Raised Unit :=
  if ["min_hit_length", "max_hit_length", "min_total_length", "max_total_length"].all
      (fun field => bound record field = none) then
    .error (.valueError "at least one length bound is required")
  else do
    ordered "min_hit_length" "max_hit_length" record
    ordered "min_total_length" "max_total_length" record

def unchecked : List (String × Json) → Except Raised Unit := fun _ => .ok ()

section

variable (text : TextReaders)

/-! Field kinds shared by several configurations. -/

def requiredField (name : String) (coerce : Coercion) : Field := ⟨name, coerce, none⟩

def optionalInt (name : String) (low : Rat) (message : String) : Field :=
  ⟨name, (Coercion.optional (Coercion.int text)).check (atLeast low message), some .null⟩

def optionalFloat (name : String) (message : String) : Field :=
  ⟨name, (Coercion.optional (Coercion.float text)).check (atLeast 0 message), some .null⟩

def literalField (name : String) (allowed : List String) (default : String) : Field :=
  ⟨name, Coercion.literalStr allowed, some (.str default)⟩

def boolField (name : String) (default : Bool) : Field :=
  ⟨name, Coercion.bool text, some (.bool default)⟩

def optionalTarget : Field :=
  ⟨"target", (Coercion.optional (Coercion.list (Coercion.int text))).check validateTargetIds,
    some .null⟩

def scopeField : Field := literalField "scope" ["user"] "user"

/-! Tier 1. -/

def rateLimitConfig : Schema where
  fields :=
    [ requiredField "max_requests"
        ((Coercion.int text).check (atLeast 1 "max_requests must be at least 1")),
      requiredField "period" (Coercion.str.check validatePeriod),
      scopeField, optionalTarget text ]
  check := unchecked

def cooldownConfig : Schema where
  fields :=
    [ requiredField "cooldown_seconds"
        ((Coercion.int text).check (atLeast 1 "cooldown_seconds must be at least 1")),
      scopeField, optionalTarget text ]
  check := unchecked

def blacklistConfig : Schema where
  fields :=
    [ scopeField,
      requiredField "target"
        ((Coercion.list (Coercion.int text)).check validateBlacklistTarget) ]
  check := unchecked

/-! Tier 2. -/

def durationConfig : Schema where
  fields :=
    [ optionalInt text "min_seconds" 0 "duration bounds must be non-negative",
      optionalInt text "max_seconds" 0 "duration bounds must be non-negative",
      literalField "logic" ["max", "min", "all"] "max" ]
  check := validateBounds "min_seconds" "max_seconds"

def starRatingConfig : Schema where
  fields :=
    [ optionalFloat text "min" "star rating bounds must be non-negative",
      optionalFloat text "max" "star rating bounds must be non-negative",
      literalField "logic" ["max", "min", "all", "any"] "any" ]
  check := validateBounds "min" "max"

/-- The five `RangeConfig` subclasses declare the same `logic` field. -/
def rangeConfig : Schema where
  fields :=
    [ optionalFloat text "min" "min must be non-negative",
      optionalFloat text "max" "max must be non-negative",
      literalField "logic" ["any", "all"] "any" ]
  check := validateBounds "min" "max"

def arRangeConfig : Schema := rangeConfig text
def odRangeConfig : Schema := rangeConfig text
def hpRangeConfig : Schema := rangeConfig text
def csRangeConfig : Schema := rangeConfig text
def drainRangeConfig : Schema := rangeConfig text

def bpmConfig : Schema where
  fields :=
    [ optionalFloat text "min_bpm" "BPM bounds must be non-negative",
      optionalFloat text "max_bpm" "BPM bounds must be non-negative",
      literalField "logic" ["any", "all", "avg"] "any" ]
  check := validateBounds "min_bpm" "max_bpm"

def genreConfig : Schema where
  fields :=
    [ requiredField "genre_ids"
        ((Coercion.list (Coercion.literalInt [0, 1, 2, 3, 4, 5, 6, 7, 9, 10, 11, 12, 13, 14])).check
          (notEmpty "genre_ids must contain at least one genre")) ]
  check := unchecked

def languageConfig : Schema where
  fields :=
    [ requiredField "language_ids"
        ((Coercion.list
            (Coercion.literalInt [0, 1, 2, 3, 4, 5, 6, 7, 8, 9, 10, 11, 12, 13, 14])).check
          (notEmpty "language_ids must contain at least one language")) ]
  check := unchecked

def modeConfig : Schema where
  fields :=
    [ requiredField "allowed_modes"
        ((Coercion.list (Coercion.literalStr ["fruits", "mania", "osu", "taiko"])).check
          (notEmpty "allowed_modes must contain at least one mode")) ]
  check := unchecked

def difficultyCountConfig : Schema where
  fields :=
    [ optionalInt text "min" 1 "min must be at least 1",
      optionalInt text "max" 1 "max must be at least 1" ]
  check := validateBounds "min" "max"

def storyboardConfig : Schema where
  fields := [ requiredField "allowed" (Coercion.bool text) ]
  check := unchecked

def videoConfig : Schema where
  fields := [ requiredField "allowed" (Coercion.bool text) ]
  check := unchecked

def tagsConfig : Schema where
  fields :=
    [ requiredField "tag_ids" ((Coercion.list (Coercion.int text)).check validateTagIds),
      literalField "logic" ["any", "all"] "any" ]
  check := unchecked

def lengthConfig : Schema where
  fields :=
    [ optionalInt text "min_hit_length" 0 "length bounds must be non-negative",
      optionalInt text "max_hit_length" 0 "length bounds must be non-negative",
      optionalInt text "min_total_length" 0 "length bounds must be non-negative",
      optionalInt text "max_total_length" 0 "length bounds must be non-negative",
      literalField "logic" ["any", "all"] "any" ]
  check := validateLengthBounds

/-! Tier 3. -/

def neverRankedConfig : Schema where
  fields :=
    [ literalField "ruleset" ["osu", "taiko", "fruits", "mania"] "osu",
      boolField text "normalize_versions" true ]
  check := unchecked

def uniqueArtistTitleConfig : Schema where
  fields := [ boolField text "normalize_versions" true ]
  check := unchecked

/-- `RULE_CONFIG_SCHEMA_MAP` without its composite entry. -/
def atomicSchema (ruleType : String) : Option Schema :=
  match ruleType with
  | "rate_limit" => some (rateLimitConfig text)
  | "cooldown" => some (cooldownConfig text)
  | "blacklist" => some (blacklistConfig text)
  | "beatmap_duration" => some (durationConfig text)
  | "beatmap_star_rating" => some (starRatingConfig text)
  | "beatmap_ar_range" => some (arRangeConfig text)
  | "beatmap_od_range" => some (odRangeConfig text)
  | "beatmap_hp_range" => some (hpRangeConfig text)
  | "beatmap_cs_range" => some (csRangeConfig text)
  | "beatmap_drain_range" => some (drainRangeConfig text)
  | "beatmap_bpm" => some (bpmConfig text)
  | "beatmap_genre" => some genreConfig
  | "beatmap_language" => some languageConfig
  | "beatmap_mode" => some modeConfig
  | "beatmap_difficulty_count" => some (difficultyCountConfig text)
  | "beatmap_storyboard" => some (storyboardConfig text)
  | "beatmap_video" => some (videoConfig text)
  | "beatmap_tags" => some (tagsConfig text)
  | "beatmap_length" => some (lengthConfig text)
  | "never_ranked" => some (neverRankedConfig text)
  | "unique_artist_title" => some (uniqueArtistTitleConfig text)
  | _ => none

/-- `schema_cls(**config).model_dump(exclude_none=True)`. Unpacking anything
but a mapping is a `TypeError`. -/
def construct (schema : Schema) (config : Json) : Except Failure Json :=
  match config with
  | .dict entries => (schema.validate entries).map .dict
  | _ => .error (.escaped "TypeError")

def compositeDisallowedChildTypes : List String := ["rate_limit", "cooldown", "blacklist"]

/-- `_MAX_COMPOSITE_DEPTH` of the schema module. -/
def schemaMaxCompositeDepth : Nat := 10

def asRaised : Except Failure Json → Except Raised Unit
  | .ok _ => .ok ()
  | .error (.invalid errors) => .error (.nested errors)
  | .error (.escaped exception) => .error (.other exception)

/-- One child of a composite. `descend` is the walk of the child's own rules,
one level further down. -/
def validateCompositeChild (descend : String → Json → Except Raised Unit) (index : Nat)
    (child : Json) : Except Raised Unit :=
  match child with
  | .dict entries =>
      let childType := (Json.find "type" entries).getD .null
      let childConfig := (Json.find "config" entries).getD (.dict [])
      if !childType.truthy then
        .error (.valueError ("Rule at index " ++ toString index ++ " missing 'type' field"))
      else match childType with
        | .str t =>
            if t ∈ compositeDisallowedChildTypes then
              .error (.valueError ("Rule type '" ++ t ++ "' cannot be used inside a composite"))
            else if t = "composite" then
              match childConfig with
              | .dict config =>
                  let operator := (Json.find "operator" config).getD .null
                  let rules := (Json.find "rules" config).getD (.list [])
                  match operator with
                  | .str op =>
                      if op ∈ ["and", "or", "not"] then descend op rules
                      else .error (.valueError ("Unknown composite operator: " ++ op))
                  | other =>
                      .error (.valueError ("Unknown composite operator: " ++ Text.repr other))
              -- `.get` on anything but a dictionary
              | _ => .error (.other "AttributeError")
            else match atomicSchema text t with
              | some schema => asRaised (construct schema childConfig)
              | none =>
                  .error (.valueError ("Unknown rule type in composite: '" ++ t ++ "'"))
        -- membership in a frozenset hashes the value first
        | .list _ | .dict _ => .error (.other "TypeError")
        | other =>
            .error (.valueError ("Unknown rule type in composite: '" ++ Text.repr other ++ "'"))
  | _ => .error (.other "AttributeError")

def validateCompositeChildren (descend : String → Json → Except Raised Unit) :
    Nat → List Json → Except Raised Unit
  | _, [] => .ok ()
  | index, child :: rest => do
      validateCompositeChild text descend index child
      validateCompositeChildren descend (index + 1) rest

/-- The `len(rules) != 1` test of a NOT node; a number has no length. -/
def hasLengthOne : Json → Except Raised Bool
  | .list items => .ok (items.length = 1)
  | .dict entries => .ok (entries.length = 1)
  | .str s => .ok (s.length = 1)
  | .null | .bool _ | .int _ | .float _ => .error (.other "TypeError")

/-- `_validate_composite_tree`. The source counts `depth` up from one and
refuses above ten; `levels` is what is left of the ten. -/
def validateCompositeTree : Nat → String → Json → Except Raised Unit
  | 0, _, _ =>
      .error (.valueError ("composite nesting depth exceeds maximum (" ++
        toString schemaMaxCompositeDepth ++ ")"))
  | levels + 1, operator, rules => do
      if !rules.truthy then
        throw (.valueError "composite rules must contain at least one rule")
      if operator = "not" then
        if !(← hasLengthOne rules) then
          throw (.valueError "NOT operator requires exactly one child rule")
      match rules with
      | .list children =>
          validateCompositeChildren text (validateCompositeTree levels) 0 children
      -- iterating a text or a dictionary yields texts, which have no `.get`
      | .str _ | .dict _ => throw (.other "AttributeError")
      | .null | .bool _ | .int _ | .float _ => throw (.other "TypeError")

def validateComposite (record : List (String × Json)) : Except Raised Unit :=
  match Json.find "operator" record, Json.find "rules" record with
  | some (.str operator), some rules =>
      validateCompositeTree text schemaMaxCompositeDepth operator rules
  | _, _ => .ok ()

def compositeConfig : Schema where
  fields :=
    [ requiredField "operator" (Coercion.literalStr ["and", "or", "not"]),
      requiredField "rules" (Coercion.list Coercion.anyDict) ]
  check := validateComposite text

/-- `RULE_CONFIG_SCHEMA_MAP`. -/
def ruleConfigSchemaMap (ruleType : String) : Option Schema :=
  if ruleType = "composite" then some (compositeConfig text) else atomicSchema text ruleType

def validateRuleConfig (ruleType : String) (config : Json) : Except Failure Json :=
  match ruleConfigSchemaMap text ruleType with
  | some schema => construct schema config
  | none => .ok config

/-! Stability of the schemas, field kind by field kind. -/

open Coercion Schema

theorem optionalInt_stable {name : String} {low : Rat} {message : String} :
    FieldStable (optionalInt text name low message) :=
  .optional (stable_check (stable_optional (stable_int text)))

theorem optionalFloat_stable {name message : String} :
    FieldStable (optionalFloat text name message) :=
  .optional (stable_check (stable_optional (stable_float text)))

theorem literalField_stable {name default : String} {allowed : List String}
    (hdefault : default ∈ allowed) : FieldStable (literalField name allowed default) :=
  .defaulted (stable_literalStr allowed) (nonNull_literalStr allowed)
    (by simp [literalStr, hdefault])

theorem boolField_stable {name : String} {default : Bool} :
    FieldStable (boolField text name default) :=
  .defaulted (stable_bool text) (nonNull_bool text) rfl

theorem optionalTarget_stable : FieldStable (optionalTarget text) :=
  .optional (stable_check (stable_optional (stable_list (stable_int text))))

theorem checkedInt_stable {name : String} {validator : Json → Except String Unit} :
    FieldStable (requiredField name ((Coercion.int text).check validator)) :=
  .required (stable_check (stable_int text)) (nonNull_check (nonNull_int text))

theorem checkedList_stable {name : String} {element : Coercion}
    {validator : Json → Except String Unit} (helement : element.Stable) :
    FieldStable (requiredField name ((Coercion.list element).check validator)) :=
  .required (stable_check (stable_list helement)) (nonNull_check (nonNull_list element))

/-- A schema given by its field list is stable when its names are distinct and
each field is stable. -/
theorem stable_of_fields {schema : Schema} (hnames : (schema.fields.map Field.name).Nodup)
    (hfields : List.Forall FieldStable schema.fields) : schema.Stable :=
  ⟨hnames, List.forall_iff_forall_mem.mp hfields⟩

theorem rateLimitConfig_stable : Schema.Stable (rateLimitConfig text) :=
  stable_of_fields
    (show ["max_requests", "period", "scope", "target"].Nodup by decide)
    ⟨checkedInt_stable text, .required (stable_check stable_str) (nonNull_check nonNull_str),
      literalField_stable (by decide), optionalTarget_stable text⟩

theorem cooldownConfig_stable : Schema.Stable (cooldownConfig text) :=
  stable_of_fields
    (show ["cooldown_seconds", "scope", "target"].Nodup by decide)
    ⟨checkedInt_stable text, literalField_stable (by decide), optionalTarget_stable text⟩

theorem blacklistConfig_stable : Schema.Stable (blacklistConfig text) :=
  stable_of_fields
    (show ["scope", "target"].Nodup by decide)
    ⟨literalField_stable (by decide), checkedList_stable (stable_int text)⟩

theorem durationConfig_stable : Schema.Stable (durationConfig text) :=
  stable_of_fields
    (show ["min_seconds", "max_seconds", "logic"].Nodup by decide)
    ⟨optionalInt_stable text, optionalInt_stable text, literalField_stable (by decide)⟩

theorem starRatingConfig_stable : Schema.Stable (starRatingConfig text) :=
  stable_of_fields
    (show ["min", "max", "logic"].Nodup by decide)
    ⟨optionalFloat_stable text, optionalFloat_stable text, literalField_stable (by decide)⟩

theorem rangeConfig_stable : Schema.Stable (rangeConfig text) :=
  stable_of_fields
    (show ["min", "max", "logic"].Nodup by decide)
    ⟨optionalFloat_stable text, optionalFloat_stable text, literalField_stable (by decide)⟩

theorem bpmConfig_stable : Schema.Stable (bpmConfig text) :=
  stable_of_fields
    (show ["min_bpm", "max_bpm", "logic"].Nodup by decide)
    ⟨optionalFloat_stable text, optionalFloat_stable text, literalField_stable (by decide)⟩

theorem genreConfig_stable : Schema.Stable genreConfig :=
  @stable_of_fields genreConfig
    (show ["genre_ids"].Nodup by decide)
    (checkedList_stable (stable_literalInt _))

theorem languageConfig_stable : Schema.Stable languageConfig :=
  @stable_of_fields languageConfig
    (show ["language_ids"].Nodup by decide)
    (checkedList_stable (stable_literalInt _))

theorem modeConfig_stable : Schema.Stable modeConfig :=
  @stable_of_fields modeConfig
    (show ["allowed_modes"].Nodup by decide)
    (checkedList_stable (stable_literalStr _))

theorem difficultyCountConfig_stable : Schema.Stable (difficultyCountConfig text) :=
  stable_of_fields
    (show ["min", "max"].Nodup by decide)
    ⟨optionalInt_stable text, optionalInt_stable text⟩

theorem storyboardConfig_stable : Schema.Stable (storyboardConfig text) :=
  @stable_of_fields (storyboardConfig text)
    (show ["allowed"].Nodup by decide)
    (FieldStable.required (stable_bool text) (nonNull_bool text))

theorem videoConfig_stable : Schema.Stable (videoConfig text) :=
  @stable_of_fields (videoConfig text)
    (show ["allowed"].Nodup by decide)
    (FieldStable.required (stable_bool text) (nonNull_bool text))

theorem tagsConfig_stable : Schema.Stable (tagsConfig text) :=
  stable_of_fields
    (show ["tag_ids", "logic"].Nodup by decide)
    ⟨checkedList_stable (stable_int text), literalField_stable (by decide)⟩

theorem lengthConfig_stable : Schema.Stable (lengthConfig text) :=
  stable_of_fields
    (show ["min_hit_length", "max_hit_length", "min_total_length", "max_total_length",
      "logic"].Nodup by decide)
    ⟨optionalInt_stable text, optionalInt_stable text, optionalInt_stable text,
      optionalInt_stable text, literalField_stable (by decide)⟩

theorem neverRankedConfig_stable : Schema.Stable (neverRankedConfig text) :=
  stable_of_fields
    (show ["ruleset", "normalize_versions"].Nodup by decide)
    ⟨literalField_stable (by decide), boolField_stable text⟩

theorem uniqueArtistTitleConfig_stable : Schema.Stable (uniqueArtistTitleConfig text) :=
  @stable_of_fields (uniqueArtistTitleConfig text)
    (show ["normalize_versions"].Nodup by decide)
    (boolField_stable text)

theorem compositeConfig_stable : Schema.Stable (compositeConfig text) :=
  stable_of_fields
    (show ["operator", "rules"].Nodup by decide)
    ⟨.required (stable_literalStr _) (nonNull_literalStr _),
      .required (stable_list stable_anyDict) (nonNull_list _)⟩

theorem atomicSchema_stable {ruleType : String} {schema : Schema}
    (h : atomicSchema text ruleType = some schema) : schema.Stable := by
  unfold atomicSchema at h
  split at h
  all_goals cases h
  · exact rateLimitConfig_stable text
  · exact cooldownConfig_stable text
  · exact blacklistConfig_stable text
  · exact durationConfig_stable text
  · exact starRatingConfig_stable text
  · exact rangeConfig_stable text
  · exact rangeConfig_stable text
  · exact rangeConfig_stable text
  · exact rangeConfig_stable text
  · exact rangeConfig_stable text
  · exact bpmConfig_stable text
  · exact genreConfig_stable
  · exact languageConfig_stable
  · exact modeConfig_stable
  · exact difficultyCountConfig_stable text
  · exact storyboardConfig_stable text
  · exact videoConfig_stable text
  · exact tagsConfig_stable text
  · exact lengthConfig_stable text
  · exact neverRankedConfig_stable text
  · exact uniqueArtistTitleConfig_stable text

theorem ruleConfigSchemaMap_stable {ruleType : String} {schema : Schema}
    (h : ruleConfigSchemaMap text ruleType = some schema) : schema.Stable := by
  unfold ruleConfigSchemaMap at h
  split at h
  · cases h
    exact compositeConfig_stable text
  · exact atomicSchema_stable text h

theorem construct_eq_ok {schema : Schema} {config stored : Json}
    (h : construct schema config = .ok stored) :
    ∃ entries dumped, config = .dict entries ∧ stored = .dict dumped ∧
      schema.validate entries = .ok dumped := by
  unfold construct at h
  split at h
  · next entries =>
      cases hv : schema.validate entries with
      | error failure => simp [hv, Except.map] at h
      | ok dumped =>
          refine ⟨entries, dumped, rfl, ?_, hv⟩
          simpa [hv, Except.map, eq_comm] using h
  · cases h

/-- A configuration that came out of `validate_rule_config` is a fixed point
of it, whatever the type and however the input was spelled. -/
theorem validateRuleConfig_idempotent {ruleType : String} {config stored : Json}
    (h : validateRuleConfig text ruleType config = .ok stored) :
    validateRuleConfig text ruleType stored = .ok stored := by
  unfold validateRuleConfig at h ⊢
  split at h
  · next schema hschema =>
      obtain ⟨entries, dumped, -, rfl, hvalid⟩ := construct_eq_ok h
      have hfix := validate_dump (ruleConfigSchemaMap_stable text hschema) hvalid
      simp [construct, hfix, Except.map]
  · rfl

end

end Graveboards.Rules
