import Graveboards.Rules.Phase2

/-!
The coroutines `Phase2Runner.run` starts with `asyncio.gather`, under every
interleaving at their awaits. They share one context. Each leaf reads its
configuration in the stretch in which it wrote it, so only `last_violation`
can carry something from one rule to another.

Proved here: exactly for which lists of rules every schedule gives every rule
the outcome it has alone. Starting order is left open: a schedule names the
coroutine that runs next.
-/

namespace Graveboards.Rules

open Library Library.Coro

/-- What one rule leaves in `last_violation`, stretch by stretch. -/
def ruleEffects : Except Raise RuleNode → List (Option (Option RuleViolation))
  | .error _ => [some none]
  | .ok node => sequence [some none] (footprint (reached node))

/-- What one rule reports, given what it finds in `last_violation` at its end. -/
def ruleReport (built : Except Raise RuleNode) (violation : Option RuleViolation) : Tier3Outcome :=
  match built with
  | .error e => raisedOutcome e
  | .ok node => report (evaluation 0 node).2 violation.isSome

theorem validateOne_follows_built (ruleType : String) (built : Except Raise RuleNode) :
    Follows Context.lastViolation (ruleEffects built)
      (fun violation => (ruleType, ruleReport built violation)) (validateOne ruleType built) := by
  cases built with
  | error e => exact fun s => ⟨_, rfl, rfl⟩
  | ok node => exact validateOne_follows ruleType node

section Gather

variable (getValidator : String → Option (Json → Check)) (rules : List EngineRule)

/-- The tree of the rule at a position. -/
def built (i : Fin rules.length) : Except Raise RuleNode :=
  (rules.get i).buildNode getValidator

/-- `self._validate_one(rule, context)` for the rule at a position. -/
def task (i : Fin rules.length) : Coro Context (String × Tier3Outcome) :=
  validateOne (rules.get i).type (built getValidator rules i)

/-- `asyncio.gather(*tasks)` as far as a schedule takes it. -/
def gather (schedule : List (Fin rules.length)) (context : Context) :
    (Fin rules.length → Status Context (String × Tier3Outcome)) × Context :=
  interleave schedule (fun i => .waiting (task getValidator rules i)) context

/-- Nothing the other rules do changes what rule `i` reports: its evaluation
does not come out false, or it writes `last_violation` itself after its last
await, or whatever the others leave there tells the same as what it left. -/
def Sheltered (i : Fin rules.length) : Prop :=
  match built getValidator rules i with
  | .error _ => True
  | .ok node =>
      (evaluation 0 node).2 ≠ .ok false ∨
      (∃ w, (ruleEffects (.ok node)).getLast? = some (some w)) ∨
      ∀ j, j ≠ i → ∀ w, some w ∈ ruleEffects (built getValidator rules j) →
        w.isSome = violated node

end Gather

variable {getValidator : String → Option (Json → Check)} {rules : List EngineRule}

theorem report_eq_iff (outcome : Except Raise Bool) (a b : Bool) :
    report outcome a = report outcome b ↔ outcome ≠ .ok false ∨ a = b := by
  rcases outcome with e | (- | -)
  · simp [report]
  · cases a <;> cases b <;> simp [report]
  · simp [report]

theorem isolated_iff_sheltered (i : Fin rules.length) (start : Option RuleViolation) :
    Isolated (fun j => ruleEffects (built getValidator rules j))
      (fun j violation => ((rules.get j).type, ruleReport (built getValidator rules j) violation))
      start i ↔
    Sheltered getValidator rules i := by
  unfold Isolated Sheltered
  cases hbuilt : built getValidator rules i with
  | error e => simp [ruleReport, hbuilt]
  | ok node =>
      have hleft : (final (ruleEffects (.ok node)) start).isSome = violated node := by
        rw [ruleEffects, final_sequence, final_cons, final_nil, Option.getD_some,
          final_footprint_violated]
      simp only [hbuilt, ruleReport, Prod.mk.injEq, true_and, report_eq_iff, hleft]
      by_cases hfalse : (evaluation 0 node).2 = .ok false
      · simp [hfalse]
      · simp [hfalse]

/-- Under every schedule every rule that has finished returned its outcome
alone on a fresh copy of the context, exactly when every rule is sheltered. -/
theorem gather_interference_free_iff (getValidator : String → Option (Json → Check))
    (rules : List EngineRule) (context : Context) :
    (∀ i schedule result, (gather getValidator rules schedule context).1 i = .done result →
      result = ((task getValidator rules i).run context).1) ↔
    ∀ i, Sheltered getValidator rules i := by
  have hiff (i : Fin rules.length) :=
    (interleave_result_iff (i := i) (task getValidator rules) context
      (fun j => validateOne_follows_built (rules.get j).type
        (built getValidator rules j))).trans
      (isolated_iff_sheltered i context.lastViolation)
  exact forall_congr' hiff

/-- A Tier-3 rule with the configuration both types accept. -/
def tier3Rule (id : Nat) (ruleType : String) : EngineRule :=
  ⟨id, ruleType, "1.0", .dict [("normalize_versions", .bool true)], true⟩

/-- The osu! search behind `never_ranked` fails on its second page, and the
queue already holds a request for the song. -/
def searchFailsSongKnown : String → Option (Json → Check)
  | "never_ranked" => some (fun _ => ⟨2, .error (.unexpected "HTTPStatusError")⟩)
  | "unique_artist_title" => some (fun _ => ⟨1, .error (.violation
      ⟨"unique_artist_title",
        "Song 'a - b' already has a request in this queue (beatmapset_id=9)"⟩)⟩)
  | _ => none

def clashingRules : List EngineRule :=
  [tier3Rule 1 "never_ranked", tier3Rule 2 "unique_artist_title"]

def searching : Fin clashingRules.length := ⟨0, by decide⟩

def comparing : Fin clashingRules.length := ⟨1, by decide⟩

theorem built_clashingRules :
    built searchFailsSongKnown clashingRules = fun i => .ok (.atom
      ⟨(clashingRules.get i).type, .dict [("normalize_versions", .bool true)],
        searchFailsSongKnown (clashingRules.get i).type⟩) := by
  funext i
  have hatomic : (clashingRules.get i).type ≠ "composite" := by
    revert i
    decide
  have hconfig : orEmptyDict (clashingRules.get i).config =
      .dict [("normalize_versions", .bool true)] := by
    revert i
    decide
  rw [built, EngineRule.buildNode, hconfig]
  exact buildRuleNode_atomic rfl hatomic

/-- With the coroutines taking turns in the order they were started, the rule
whose search failed is reported as violated; alone it is left for a retry. -/
theorem gather_interferes :
    (gather searchFailsSongKnown clashingRules
      [searching, comparing, searching, comparing, searching] ⟨.dict [], none⟩).1 searching =
        .done ("never_ranked", .violation) ∧
    ((task searchFailsSongKnown clashingRules searching).run ⟨.dict [], none⟩).1 =
      ("never_ranked", .retryable) := by
  unfold gather task
  rw [built_clashingRules]
  exact ⟨rfl, rfl⟩

end Graveboards.Rules
