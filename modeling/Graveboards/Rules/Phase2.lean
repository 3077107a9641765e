import Graveboards.Rules.Evaluator

/-!
`Phase2Runner._validate_one`: one Tier-3 rule, run to one of three outcomes.
The outcome is rebuilt from the Boolean the evaluator returns and from
`last_violation`, which the last violating leaf has left in the context.

Proved here: the outcome as a function of the leaves reached, and exactly for
which trees and leaf outcomes it is the right classification. It is wrong when
a formula is false only through a NOT over passing leaves, and when a leaf
that failed unexpectedly decides the formula while NOT turns its failure into
a pass or another leaf has left a violation behind. Time is not modelled: the
timeout is an exception a leaf may end with.
-/

namespace Graveboards.Rules

open Library Library.Coro

/-- `Tier3Outcome`. -/
inductive Tier3Outcome where
  | pass | violation | retryable
  deriving DecidableEq

/-- The `except` clauses of `_validate_one`. -/
def raisedOutcome : Raise → Tier3Outcome
  | .violation _ => .violation
  | .timeout => .retryable
  | .forbidden _ => .violation
  | .unexpected _ => .retryable

/-- `_validate_one`, with the node `_build_node` returned or raised. -/
def validateOne (ruleType : String) (built : Except Raise RuleNode) :
    Coro Context (String × Tier3Outcome) := do
  modify (fun context => { context with lastViolation := none })
  match built with
  | .error e => return (ruleType, raisedOutcome e)
  | .ok node =>
      match ← evaluate 0 node with
      | .error e => return (ruleType, raisedOutcome e)
      | .ok true => return (ruleType, .pass)
      | .ok false =>
          let context ← read
          return (ruleType, if context.lastViolation.isSome then .violation else .retryable)

/-- The leaves evaluated when a node runs from depth zero. -/
def reached (node : RuleNode) : List AtomicRuleNode := (evaluation 0 node).1

/-- What is reported for a walk that ended in `outcome`, when `last_violation`
is set at that moment or not. -/
def report (outcome : Except Raise Bool) (violated : Bool) : Tier3Outcome :=
  match outcome with
  | .error e => raisedOutcome e
  | .ok true => .pass
  | .ok false => if violated then .violation else .retryable

theorem validateOne_follows (ruleType : String) (node : RuleNode) :
    Follows Context.lastViolation (sequence [some none] (footprint (reached node)))
      (fun violation => (ruleType, report (evaluation 0 node).2 violation.isSome))
      (validateOne ruleType (.ok node)) := by
  refine Follows.bind (follows_modify none (fun _ => rfl)) ?_
  have hwalk := evaluate_follows node 0
  unfold FollowsWalk at hwalk
  rw [← sequence_none_right (footprint_ne_nil (reached node))]
  refine Follows.bind hwalk ?_
  rcases (evaluation 0 node).2 with e | (- | -)
  · exact follows_ret _
  · exact follows_read_end _
  · exact follows_ret _

/-- Some evaluated leaf has recorded a violation. -/
def violated (node : RuleNode) : Bool :=
  (reached node).any (fun leaf => (recorded leaf.result).isSome)

theorem final_footprint_violated (node : RuleNode) :
    (final (footprint (reached node)) (none : Option RuleViolation)).isSome = violated node := by
  rw [Bool.eq_iff_iff, final_footprint_isSome, violated]
  simp

/-- The outcome of a rule run alone, whatever the context held before. -/
theorem validateOne_run (ruleType : String) (node : RuleNode) (context : Context) :
    ((validateOne ruleType (.ok node)).run context).1 =
      (ruleType, report (evaluation 0 node).2 (violated node)) := by
  rw [((validateOne_follows ruleType node).run context).1, final_sequence, final_cons, final_nil,
    Option.getD_some, final_footprint_violated]

/-! Classification. -/

/-- What the end of a leaf's check says about its truth. A check that failed
unexpectedly or ran out of time says nothing. -/
def truth : Except Raise Unit → Option Bool
  | .ok () => some true
  | .error (.violation _) | .error (.forbidden _) => some false
  | .error .timeout | .error (.unexpected _) => none

/-- The truth of a tree as far as its leaves settle it. -/
def settled (node : RuleNode) : Option Bool := node.kleene (fun leaf => truth leaf.result)

/-- No evaluated leaf failed unexpectedly. -/
def Undisturbed (node : RuleNode) : Prop := ∀ leaf ∈ reached node, truth leaf.result ≠ none

/-- The outcome says what the formula says: when no evaluated leaf failed, it
passes a true formula and rejects a false one; when the value depends on how
the failed leaves are read, it is left for a retry. -/
structure Classified (node : RuleNode) (outcome : Tier3Outcome) : Prop where
  pass : Undisturbed node → settled node = some true → outcome = .pass
  reject : Undisturbed node → settled node = some false → outcome = .violation
  retry : ¬ Undisturbed node → node.Undetermined (fun leaf => truth leaf.result) →
    outcome = .retryable

/-- The walk ends with a rejection of its own: the nesting limit, or a leaf
that raises `Forbidden`. -/
def CutShort (node : RuleNode) : Prop :=
  ∃ e, (evaluation 0 node).2 = .error e ∧ e ≠ .timeout

def TimedOut (node : RuleNode) : Prop := (evaluation 0 node).2 = .error .timeout

/-- The value of the formula when every failed leaf is read as false. -/
def readFalse (node : RuleNode) : Bool :=
  node.value (fun leaf => truth leaf.result = some true)

/-- The trees and leaf outcomes that are classified correctly. -/
structure Classifiable (node : RuleNode) : Prop where
  pass : Undisturbed node → settled node = some true → ¬ CutShort node
  reject : Undisturbed node → settled node = some false → violated node = true ∨ CutShort node
  retry : ¬ Undisturbed node → settled node = none →
    TimedOut node ∨ (readFalse node = false ∧ violated node = false ∧ ¬ CutShort node)

/-- A leaf the walk decides is decided the same way by its truth, if its truth
is known, and by reading an unknown truth as false. -/
theorem truth_of_caught {result : Except Raise Unit} {b : Bool} (h : caught result = .ok b) :
    (truth result ≠ none → truth result = some b) ∧ decide (truth result = some true) = b := by
  rcases result with (e | detail | - | name) | ⟨⟩
  all_goals simp_all [caught, truth]

theorem caught_error {result : Except Raise Unit} {e : Raise} (h : caught result = .error e) :
    (∃ detail, e = .forbidden detail) ∨ (e = .timeout ∧ truth result = none) := by
  rcases result with (e' | detail | - | name) | ⟨⟩
  · cases h
  · exact Or.inl ⟨detail, (Except.error.inj h).symm⟩
  · exact Or.inr ⟨(Except.error.inj h).symm, rfl⟩
  · cases h
  · cases h

theorem settled_of_undisturbed {node : RuleNode} {v : Bool}
    (hvalue : (evaluation 0 node).2 = .ok v) (hundisturbed : Undisturbed node) :
    settled node = some v :=
  Formula.walk_kleene node 0 v
    (fun leaf hleaf _ hb => (truth_of_caught hb).1 (hundisturbed leaf hleaf)) hvalue

theorem readFalse_of_walk {node : RuleNode} {v : Bool}
    (hvalue : (evaluation 0 node).2 = .ok v) : readFalse node = v :=
  Formula.walk_value node 0 v (fun _ _ _ hb => congrArg some (truth_of_caught hb).2) hvalue

/-- An exception that leaves the evaluator is the nesting limit, a `Forbidden`
or the timeout of a reached leaf. -/
theorem evaluation_error {node : RuleNode} {e : Raise} (h : (evaluation 0 node).2 = .error e) :
    (raisedOutcome e = .violation ∧ e ≠ .timeout) ∨ (e = .timeout ∧ ¬ Undisturbed node) := by
  obtain ⟨rfl, -⟩ | ⟨leaf, hleaf, hcaught⟩ := Formula.walk_error node 0 e h
  · exact Or.inl ⟨rfl, by simp [depthError]⟩
  · rcases caught_error hcaught with ⟨detail, rfl⟩ | ⟨rfl, htruth⟩
    · exact Or.inl ⟨rfl, by simp⟩
    · exact Or.inr ⟨rfl, fun hundisturbed => hundisturbed leaf hleaf htruth⟩

/-- A rule run alone is classified correctly exactly when its tree and the
outcomes of its leaves are classifiable. -/
theorem validateOne_classified_iff (ruleType : String) (node : RuleNode) (context : Context) :
    Classified node ((validateOne ruleType (.ok node)).run context).1.2 ↔ Classifiable node := by
  rw [validateOne_run]
  have hretry : node.Undetermined (fun leaf => truth leaf.result) ↔ settled node = none :=
    Formula.undetermined_iff _ _
  cases hwalk : (evaluation 0 node).2 with
  | error e =>
      rcases evaluation_error hwalk with ⟨hrejects, hne⟩ | ⟨rfl, hdisturbed⟩
      · have hcut : CutShort node := ⟨e, hwalk, hne⟩
        have htime : ¬ TimedOut node := by
          intro h
          rw [TimedOut, hwalk] at h
          exact hne (Except.error.inj h)
        simp only [report, hrejects]
        constructor
        · rintro ⟨hpass, -, hopen⟩
          refine ⟨fun hu hs => absurd (hpass hu hs) (by simp), fun _ _ => Or.inr hcut, ?_⟩
          intro hu hs
          exact absurd (hopen hu (hretry.mpr hs)) (by simp)
        · rintro ⟨hpass, -, hopen⟩
          refine ⟨fun hu hs => absurd hcut (hpass hu hs), fun _ _ => rfl, fun hu hs => ?_⟩
          rcases hopen hu (hretry.mp hs) with h | ⟨-, -, h⟩
          · exact absurd h htime
          · exact absurd hcut h
      · constructor
        · intro _
          exact ⟨fun hu => absurd hu hdisturbed, fun hu => absurd hu hdisturbed,
            fun _ _ => Or.inl hwalk⟩
        · intro _
          exact ⟨fun hu => absurd hu hdisturbed, fun hu => absurd hu hdisturbed, fun _ _ => rfl⟩
  | ok v =>
      have hcut : ¬ CutShort node := by
        rintro ⟨e, he, -⟩
        rw [hwalk] at he
        cases he
      have htime : ¬ TimedOut node := by
        intro h
        rw [TimedOut, hwalk] at h
        cases h
      have hsettled := settled_of_undisturbed hwalk
      have hread := readFalse_of_walk hwalk
      cases v with
      | true =>
          simp only [report]
          constructor
          · rintro ⟨-, -, hopen⟩
            refine ⟨fun _ _ => hcut, fun hu hs => ?_, fun hu hs => ?_⟩
            · rw [hsettled hu] at hs
              cases hs
            · exact absurd (hopen hu (hretry.mpr hs)) (by simp)
          · rintro ⟨-, -, hopen⟩
            refine ⟨fun _ _ => rfl, fun hu hs => ?_, fun hu hs => ?_⟩
            · rw [hsettled hu] at hs
              cases hs
            · rcases hopen hu (hretry.mp hs) with h | ⟨h, -, -⟩
              · exact absurd h htime
              · rw [hread] at h
                cases h
      | false =>
          have hpass (hu : Undisturbed node) (hs : settled node = some true) : False := by
            rw [hsettled hu] at hs
            cases hs
          cases hviolated : violated node with
          | true =>
              simp only [report, if_true]
              constructor
              · rintro ⟨-, -, hopen⟩
                refine ⟨fun hu hs => (hpass hu hs).elim, fun _ _ => Or.inl hviolated,
                  fun hu hs => ?_⟩
                exact absurd (hopen hu (hretry.mpr hs)) (by simp)
              · rintro ⟨-, -, hopen⟩
                refine ⟨fun hu hs => (hpass hu hs).elim, fun _ _ => rfl, fun hu hs => ?_⟩
                rcases hopen hu (hretry.mp hs) with h | ⟨-, h, -⟩
                · exact absurd h htime
                · rw [hviolated] at h
                  cases h
          | false =>
              simp only [report, Bool.false_eq_true, if_false]
              constructor
              · rintro ⟨-, hreject, -⟩
                refine ⟨fun hu hs => (hpass hu hs).elim, fun hu hs => ?_,
                  fun _ _ => Or.inr ⟨hread, hviolated, hcut⟩⟩
                exact absurd (hreject hu hs) (by simp)
              · rintro ⟨-, hreject, -⟩
                refine ⟨fun hu hs => (hpass hu hs).elim, fun hu hs => ?_, fun _ _ => rfl⟩
                rcases hreject hu hs with h | h
                · rw [hviolated] at h
                  cases h
                · exact absurd h hcut

/-- The stored rule `not [never_ranked]`. -/
def negatedNeverRanked : EngineRule where
  id := 1
  type := "composite"
  version := "1.0"
  config := .dict [("operator", .str "not"), ("rules", .list
    [.dict [("type", .str "never_ranked"), ("config", .dict [("ruleset", .str "osu")])]])]
  isActive := true

/-- A registry in which every validator ends with `result` after one await. -/
def uniformRegistry (result : Except Raise Unit) : String → Option (Json → Check) :=
  fun _ => some (fun _ => ⟨1, result⟩)

theorem negatedNeverRanked_built (result : Except Raise Unit) :
    negatedNeverRanked.buildNode (uniformRegistry result) =
      .ok (.not (.atom ⟨"never_ranked", .dict [("ruleset", .str "osu")],
        some (fun _ => ⟨1, result⟩)⟩)) := by
  rw [EngineRule.buildNode, buildRuleNode_composite rfl rfl,
    buildRuleNodes_cons (buildRuleNode_atomic rfl (by decide)) buildRuleNodes_nil]
  rfl

/-- A NOT over a song that was never ranked is false without a violation and is
retried; a NOT over a check that failed is passed. Neither is right. -/
theorem negatedNeverRanked_misclassified :
    (∃ node, negatedNeverRanked.buildNode (uniformRegistry (.ok ())) = .ok node ∧
      ((validateOne "composite" (.ok node)).run ⟨.dict [], none⟩).1.2 = .retryable ∧
      ¬ Classified node ((validateOne "composite" (.ok node)).run ⟨.dict [], none⟩).1.2) ∧
    ∃ node, negatedNeverRanked.buildNode
        (uniformRegistry (.error (.unexpected "HTTPStatusError"))) = .ok node ∧
      ((validateOne "composite" (.ok node)).run ⟨.dict [], none⟩).1.2 = .pass ∧
      ¬ Classified node ((validateOne "composite" (.ok node)).run ⟨.dict [], none⟩).1.2 := by
  refine ⟨⟨_, negatedNeverRanked_built _, rfl, ?_⟩, ⟨_, negatedNeverRanked_built _, rfl, ?_⟩⟩
  · intro h
    have hreject := h.reject (by simp [Undisturbed, reached, evaluation, Formula.walk,
      maxCompositeDepth, AtomicRuleNode.result, truth]) rfl
    cases hreject
  · intro h
    have hretry := h.retry (fun hu => hu _ List.mem_cons_self rfl)
      ((Formula.undetermined_iff _ _).mpr rfl)
    cases hretry

end Graveboards.Rules
