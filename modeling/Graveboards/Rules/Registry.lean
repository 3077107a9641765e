import Graveboards.Rules.Config

/-!
The validator registry of `rules/registry.py`: which types have a validator,
which versions it supports, and the tier a rule executes in. The tier of a
composite is a walk over its raw configuration. `none` stands for the
exception the walk raises when it calls `.get` on something else than a
dictionary; for a configuration the schema accepts it always has a value.
-/

namespace Graveboards.Rules

open Library

/-- `RULE_REGISTRY` with each validator's `supported_versions`. -/
def ruleRegistry : List (String × List String) :=
  [ ("rate_limit", ["1.0", "1.1"]), ("cooldown", ["1.0"]), ("blacklist", ["1.0"]),
    ("beatmap_duration", ["1.0"]), ("beatmap_star_rating", ["1.0"]),
    ("beatmap_ar_range", ["1.0"]), ("beatmap_od_range", ["1.0"]),
    ("beatmap_hp_range", ["1.0"]), ("beatmap_cs_range", ["1.0"]),
    ("beatmap_drain_range", ["1.0"]), ("beatmap_bpm", ["1.0"]), ("beatmap_genre", ["1.0"]),
    ("beatmap_language", ["1.0"]), ("beatmap_mode", ["1.0"]),
    ("beatmap_difficulty_count", ["1.0"]), ("beatmap_storyboard", ["1.0"]),
    ("beatmap_video", ["1.0"]), ("beatmap_tags", ["1.0"]), ("beatmap_length", ["1.0"]),
    ("beatmap_combination", ["1.0"]),
    ("never_ranked", ["1.0"]), ("unique_artist_title", ["1.0"]) ]

/-- `RULE_TIERS`. -/
def ruleTiers : List (String × Nat) :=
  [ ("rate_limit", 1), ("cooldown", 1), ("blacklist", 1),
    ("beatmap_duration", 2), ("beatmap_star_rating", 2), ("beatmap_ar_range", 2),
    ("beatmap_od_range", 2), ("beatmap_hp_range", 2), ("beatmap_cs_range", 2),
    ("beatmap_drain_range", 2), ("beatmap_bpm", 2), ("beatmap_genre", 2),
    ("beatmap_language", 2), ("beatmap_mode", 2), ("beatmap_difficulty_count", 2),
    ("beatmap_storyboard", 2), ("beatmap_video", 2), ("beatmap_tags", 2),
    ("beatmap_length", 2), ("beatmap_combination", 2),
    ("never_ranked", 3), ("unique_artist_title", 3) ]

def getSupportedVersions (ruleType : String) : Option (List String) :=
  ruleRegistry.lookup ruleType

def getValidatorTier (ruleType : String) : Option Nat := ruleTiers.lookup ruleType

/-- `STATEFUL_RULE_TYPES`. -/
def statefulRuleTypes : List String := ["rate_limit", "cooldown"]

/-- `value or {}`. -/
def orEmptyDict (j : Json) : Json := if j.truthy then j else .dict []

/-- `(config or {}).get("rules", []) or []` as something to iterate over. -/
def childrenOf (config : Json) : Option (List Json) :=
  match orEmptyDict config with
  | .dict entries =>
      match (Json.find "rules" entries).getD (.list []) with
      | .list children => some children
      | other => if other.truthy then none else some []
  | _ => none

/-- A child's type and its `child.get("config", {}) or {}`. -/
def childData (child : Json) : Option (Json × Json) :=
  match child with
  | .dict entries =>
      some ((Json.find "type" entries).getD (.str ""),
        orEmptyDict ((Json.find "config" entries).getD (.dict [])))
  | _ => none

theorem sizeOf_childrenOf_le {config : Json} {children : List Json}
    (h : childrenOf config = some children) : sizeOf children ≤ sizeOf config := by
  have hnil : children = [] → sizeOf children ≤ sizeOf config := by
    rintro rfl
    cases config <;> simp
  unfold childrenOf at h
  split at h
  · next entries hdict =>
      cases hfind : Json.find "rules" entries with
      | none =>
          simp only [hfind, Option.getD_none, Option.some.injEq] at h
          exact hnil h.symm
      | some rules =>
          have hconfig : config = .dict entries := by
            unfold orEmptyDict at hdict
            split at hdict
            · exact hdict
            · obtain rfl := Json.dict.inj hdict
              simp at hfind
          subst hconfig
          have hlt := Json.sizeOf_get?_lt (j := .dict entries) hfind
          simp only [hfind, Option.getD_some] at h
          cases rules with
          | list items =>
              obtain rfl := Option.some.inj h
              simp only [Json.list.sizeOf_spec] at hlt
              omega
          | _ =>
              dsimp only at h
              split at h
              · cases h
              · exact hnil (Option.some.inj h).symm
  · cases h

theorem sizeOf_childData_le {child t config : Json} (h : childData child = some (t, config)) :
    sizeOf config ≤ sizeOf child := by
  unfold childData at h
  split at h
  · next entries =>
      simp only [Option.some.injEq, Prod.mk.injEq] at h
      obtain ⟨-, rfl⟩ := h
      have hempty : sizeOf (Json.dict []) ≤ sizeOf (Json.dict entries) := by
        cases entries
        · exact Nat.le_refl _
        · simp only [Json.dict.sizeOf_spec, List.nil.sizeOf_spec, List.cons.sizeOf_spec]
          omega
      unfold orEmptyDict
      split
      · cases hfind : Json.find "config" entries with
        | none => simpa [hfind] using hempty
        | some c =>
            have hlt := Json.sizeOf_get?_lt (j := .dict entries) hfind
            simpa [hfind] using hlt.le
      · exact hempty
  · cases h

mutual

def effectiveRuleTier (ruleType : String) (config : Json) : Option Nat :=
  if ruleType = "composite" then
    match _h : childrenOf config with
    -- at least tier 2, and as high as the highest descendant
    | some children => (childTiers children).map (fun tiers => tiers.foldl max 2)
    | none => none
  else some ((getValidatorTier ruleType).getD 2)
termination_by 2 * sizeOf config + 1
decreasing_by
  have hle := sizeOf_childrenOf_le _h
  omega

def childTiers (children : List Json) : Option (List Nat) :=
  match children with
  | [] => some []
  | child :: rest =>
      match _h : childData child with
      | some (.str t, config) =>
          match effectiveRuleTier t config, childTiers rest with
          | some tier, some tiers => some (tier :: tiers)
          | _, _ => none
      -- a table lookup hashes its key first
      | some (.list _, _) | some (.dict _, _) => none
      | some (_, _) => (childTiers rest).map (2 :: ·)
      | none => none
termination_by 2 * sizeOf children
decreasing_by
  · have hle := sizeOf_childData_le _h
    simp only [List.cons.sizeOf_spec]
    omega
  all_goals
    simp only [List.cons.sizeOf_spec]
    omega

end

theorem effectiveRuleTier_atomic {ruleType : String} (h : ruleType ≠ "composite")
    (config : Json) :
    effectiveRuleTier ruleType config = some ((getValidatorTier ruleType).getD 2) := by
  rw [effectiveRuleTier, if_neg h]

theorem effectiveRuleTier_composite {config : Json} {children : List Json}
    (h : childrenOf config = some children) :
    effectiveRuleTier "composite" config =
      (childTiers children).map (fun tiers => tiers.foldl max 2) := by
  rw [effectiveRuleTier, if_pos rfl]
  split
  · next other hother =>
      obtain rfl := Option.some.inj (hother.symm.trans h)
      rfl
  · next hnone => rw [h] at hnone; cases hnone

theorem childTiers_nil : childTiers [] = some [] := by rw [childTiers]

theorem childTiers_cons {child config : Json} {t : String} (rest : List Json)
    (h : childData child = some (.str t, config)) :
    childTiers (child :: rest) = match effectiveRuleTier t config, childTiers rest with
      | some tier, some tiers => some (tier :: tiers)
      | _, _ => none := by
  rw [childTiers]
  split
  · next t' config' h' =>
      rw [h] at h'
      cases h'
      rfl
  all_goals simp_all

/-- The attributes of a rule that the runners read: those of a `QueueRule` row
or of its stand-in rebuilt from a snapshot. -/
structure EngineRule where
  id : Nat
  type : String
  version : String
  config : Json
  isActive : Bool
  deriving DecidableEq

/-- `_check_version` of both runners. -/
def EngineRule.checkVersion (rule : EngineRule) : Bool :=
  match getSupportedVersions rule.type with
  | none => true
  | some supported => rule.version ∈ supported

/-- `_get_tier` of both runners. -/
def EngineRule.getTier (rule : EngineRule) : Option Nat :=
  effectiveRuleTier rule.type (orEmptyDict rule.config)

example : effectiveRuleTier "composite" (.dict [("operator", .str "and"), ("rules", .list
    [.dict [("type", .str "never_ranked"), ("config", .dict [("ruleset", .str "osu")])]])]) =
    some 3 := by decide +kernel

end Graveboards.Rules
