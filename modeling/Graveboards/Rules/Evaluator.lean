import Graveboards.Library.Coroutine
import Graveboards.Library.Formula
import Graveboards.Rules.Registry

/-!
The composite evaluator of `rules/engine/evaluator.py`: `build_rule_node` and
the `evaluate` methods of the four node classes, run as coroutines over the
execution context they share with other rules.

Proved here: `evaluate` returns what the short-circuit walk of the formula
returns and writes `last_violation` once for every reached leaf that violates,
in the order and between the awaits the walk visits them.
-/

namespace Graveboards.Rules

open Library Library.Coro

/-- `RuleViolationError`. -/
structure RuleViolation where
  type : String
  detail : String
  deriving DecidableEq

/-- What a validator or a node may raise. `timeout` is the cancellation by
`asyncio.timeout`, which no `except Exception` clause catches. -/
inductive Raise where
  | violation (e : RuleViolation)
  | forbidden (detail : String)
  | timeout
  | unexpected (exception : String)
  deriving DecidableEq

/-- The fields of `ExecutionContext` that the evaluator writes. -/
structure Context where
  config : Json
  lastViolation : Option RuleViolation

/-- One call of `validator.check`: it reads its configuration before it first
suspends, suspends a number of times, and returns or raises. -/
structure Check where
  awaits : Nat
  result : Except Raise Unit

/-- `validator` is the class `get_validator` found, as what its `check` does
with the configuration it reads from the context. -/
structure AtomicRuleNode where
  ruleType : String
  config : Json
  validator : Option (Json → Check)

/-- `AndNode`, `OrNode` and `NotNode` over atomic nodes. The constructor of
`NotNode` takes exactly one rule. -/
abbrev RuleNode := Formula AtomicRuleNode

def maxCompositeDepth : Nat := 10

def depthError : Raise := .violation ⟨"composite", "Rule nesting depth exceeds maximum (10)"⟩

def notArityError : Raise := .violation ⟨"composite", "NOT operator requires exactly one rule"⟩

def unknownRuleType (ruleType : String) : RuleViolation :=
  ⟨ruleType, "Unknown rule type '" ++ ruleType ++ "'"⟩

/-- The `except` clauses of `AtomicRuleNode.evaluate` and its `finally`. -/
def AtomicRuleNode.conclude (original : Json) (result : Except Raise Unit) :
    Coro Context (Except Raise Bool) := do
  let outcome ← match result with
    | .ok () => pure (.ok true)
    | .error (.violation e) => do
        modify (fun context => { context with lastViolation := some e })
        pure (.ok false)
    | .error (.forbidden detail) => pure (.error (.forbidden detail))
    | .error .timeout => pure (.error .timeout)
    | .error (.unexpected _) => pure (.ok false)
  modify (fun context => { context with config := original })
  return outcome

def AtomicRuleNode.evaluate (node : AtomicRuleNode) : Coro Context (Except Raise Bool) :=
  match node.validator with
  | none => do
      modify (fun context => { context with lastViolation := some (unknownRuleType node.ruleType) })
      return .ok false
  | some check => do
      let original ← read
      modify (fun context => { context with config := node.config })
      let context ← read
      let call := check context.config
      awaits call.awaits
      conclude original.config call.result

mutual

/-- `RuleNode.evaluate`. -/
def evaluate (depth : Nat) : RuleNode → Coro Context (Except Raise Bool)
  | .atom node => node.evaluate
  | .and rules =>
      if depth > maxCompositeDepth then return .error depthError
      else evaluateRules (depth + 1) true rules
  | .or rules =>
      if depth > maxCompositeDepth then return .error depthError
      else evaluateRules (depth + 1) false rules
  | .not rule =>
      if depth > maxCompositeDepth then return .error depthError
      else if [rule].length ≠ 1 then return .error notArityError
      else do
        let outcome ← evaluate (depth + 1) rule
        return outcome.map (!·)

/-- The loop of `AndNode`, which goes on while its rules are true, and of
`OrNode`, which goes on while they are false. -/
def evaluateRules (depth : Nat) (unit : Bool) :
    List RuleNode → Coro Context (Except Raise Bool)
  | [] => return .ok unit
  | rule :: rest => do
      match ← evaluate depth rule with
      | .ok b => if b = unit then evaluateRules depth unit rest else return .ok b
      | .error e => return .error e

end

/-! What a node decides and what it writes to `last_violation`. -/

/-- A validator that returns is true, one that violates or fails unexpectedly
is false, and the other exceptions leave the node. -/
def caught : Except Raise Unit → Except Raise Bool
  | .ok () => .ok true
  | .error (.violation _) | .error (.unexpected _) => .ok false
  | .error (.forbidden detail) => .error (.forbidden detail)
  | .error .timeout => .error .timeout

def recorded : Except Raise Unit → Option RuleViolation
  | .error (.violation e) => some e
  | _ => none

namespace AtomicRuleNode

/-- How the leaf's check ends on the leaf's own configuration. An unknown type
counts as a violation. -/
def result (node : AtomicRuleNode) : Except Raise Unit :=
  match node.validator with
  | none => .error (.violation (unknownRuleType node.ruleType))
  | some check => (check node.config).result

def suspensions (node : AtomicRuleNode) : Nat :=
  match node.validator with
  | none => 0
  | some check => (check node.config).awaits

/-- The footprint of a leaf on `last_violation`: silent while it awaits, and
in its last stretch the violation, if it records one. -/
def effects (node : AtomicRuleNode) : List (Option (Option RuleViolation)) :=
  List.replicate node.suspensions none ++ [(recorded node.result).map some]

theorem conclude_follows (original : Json) (result : Except Raise Unit) :
    Follows Context.lastViolation [(recorded result).map some] (fun _ => caught result)
      (conclude original result) := by
  rcases result with (e | detail | - | name) | -
  all_goals exact fun s => ⟨_, rfl, rfl⟩

theorem evaluate_follows (node : AtomicRuleNode) :
    Follows Context.lastViolation node.effects (fun _ => caught node.result) node.evaluate := by
  unfold effects suspensions result AtomicRuleNode.evaluate
  cases node.validator with
  | none => exact fun s => ⟨_, rfl, rfl⟩
  | some check =>
      have htail (original : Json) := conclude_follows original (check node.config).result
      dsimp only
      -- the check reads its own configuration: the write is in the same stretch
      cases hawaits : (check node.config).awaits with
      | zero =>
          intro s
          obtain ⟨s', hresume, hobs⟩ := htail s.config { s with config := node.config }
          refine ⟨s', Eq.trans ?_ hresume, hobs⟩
          change resume ((awaits (check node.config).awaits).bind _) _ = _
          rw [hawaits]
          rfl
      | succ n =>
          rw [List.replicate_succ, List.cons_append]
          refine follows_first (by simp) (fun s => ?_)
          refine ⟨{ s with config := node.config },
            (awaits n).bind (fun _ => conclude s.config (check node.config).result), ?_, rfl,
            follows_awaits_bind n (htail s.config)⟩
          change resume ((awaits (check node.config).awaits).bind _) _ = _
          rw [hawaits]
          rfl

end AtomicRuleNode

/-- The footprint of the leaves evaluated one after the other. -/
def footprint (reached : List AtomicRuleNode) : List (Option (Option RuleViolation)) :=
  reached.foldr (fun node rest => sequence node.effects rest) [none]

theorem footprint_ne_nil (reached : List AtomicRuleNode) : footprint reached ≠ [] := by
  induction reached with
  | nil => simp [footprint]
  | cons node rest ih => exact sequence_ne_nil ih

theorem footprint_append (xs ys : List AtomicRuleNode) :
    footprint (xs ++ ys) = sequence (footprint xs) (footprint ys) := by
  induction xs with
  | nil => exact (sequence_none_left (footprint_ne_nil ys)).symm
  | cons node rest ih =>
      change sequence node.effects (footprint (rest ++ ys)) = _
      rw [ih, ← sequence_assoc]
      rfl

/-- The short-circuit walk of a tree, with the leaves' own results. -/
def evaluation (depth : Nat) (node : RuleNode) : List AtomicRuleNode × Except Raise Bool :=
  node.walk (fun leaf => caught leaf.result) maxCompositeDepth depthError depth

theorem evaluation_atom (depth : Nat) (leaf : AtomicRuleNode) :
    evaluation depth (.atom leaf) = ([leaf], caught leaf.result) := by
  simp [evaluation, Formula.walk]

/-- `evaluate` follows the walk: it returns the walk's outcome and leaves the
footprint of the reached leaves, whatever else runs at its awaits. -/
def FollowsWalk (walked : List AtomicRuleNode × Except Raise Bool)
    (c : Coro Context (Except Raise Bool)) : Prop :=
  Follows Context.lastViolation (footprint walked.1) (fun _ => walked.2) c

theorem evaluateRules_follows {depth : Nat} (unit : Bool) {rules : List RuleNode}
    (hrules : ∀ rule ∈ rules, FollowsWalk (evaluation depth rule) (evaluate depth rule)) :
    FollowsWalk (Formula.walkOf (fun leaf : AtomicRuleNode => caught leaf.result)
      maxCompositeDepth depthError depth unit rules) (evaluateRules depth unit rules) := by
  induction rules with
  | nil =>
      rw [evaluateRules, Formula.walkOf]
      exact follows_ret _
  | cons rule rest ih =>
      have hhead := hrules rule List.mem_cons_self
      have htail := ih (fun r hr => hrules r (List.mem_cons_of_mem _ hr))
      rw [evaluateRules]
      rcases Formula.walkOf_cons _ _ _ depth unit rule rest with ⟨hunit, hcons⟩ | ⟨hunit, hcons⟩ <;>
        rw [hcons]
      · rw [FollowsWalk, footprint_append]
        refine Follows.bind (a := .ok unit) ?_ ?_
        · rw [← hunit]
          exact hhead
        · simp only [if_true]
          exact htail
      · refine hhead.bind_ret ?_
        change (evaluation depth rule).2 ≠ .ok unit at hunit
        cases houtcome : (evaluation depth rule).2 with
        | error e => exact congrArg Coro.ret houtcome.symm
        | ok b =>
            have hb : b ≠ unit := by
              rintro rfl
              exact hunit houtcome
            simp only [if_neg hb]
            exact congrArg Coro.ret houtcome.symm

theorem evaluate_follows (node : RuleNode) (depth : Nat) :
    FollowsWalk (evaluation depth node) (evaluate depth node) := by
  induction node using Formula.partsInduction generalizing depth with
  | atom leaf =>
      rw [evaluation_atom, evaluate, FollowsWalk]
      change Follows _ (sequence leaf.effects [none]) _ _
      rw [sequence_none_right leaf.evaluate_follows.ne_nil]
      exact leaf.evaluate_follows
  | and rules ih | or rules ih =>
      rw [evaluation, evaluate, Formula.walk]
      split
      · exact follows_ret _
      · exact evaluateRules_follows _ (fun rule hrule => ih rule hrule (depth + 1))
  | not rule ih =>
      rw [evaluation, evaluate, Formula.walk]
      split
      · exact follows_ret _
      · rw [if_neg (by simp)]
        exact Follows.bind_ret (ih (depth + 1)) rfl

/-- The violation left behind, seen through the leaves that were reached. -/
theorem final_footprint_isSome (reached : List AtomicRuleNode) (v : Option RuleViolation) :
    (final (footprint reached) v).isSome ↔
      v.isSome ∨ ∃ leaf ∈ reached, (recorded leaf.result).isSome := by
  induction reached generalizing v with
  | nil => simp [footprint]
  | cons leaf rest ih =>
      have hleaf : final leaf.effects v = (recorded leaf.result).or v := by
        unfold AtomicRuleNode.effects
        induction leaf.suspensions generalizing v with
        | zero => cases recorded leaf.result <;> rfl
        | succ n ihn => exact ihn v
      change (final (sequence leaf.effects (footprint rest)) v).isSome ↔ _
      rw [final_sequence, hleaf, ih]
      cases hrecorded : recorded leaf.result <;> simp [hrecorded]

/-! Building the nodes from a stored rule. -/

inductive Operator where
  | and | or | not
  deriving DecidableEq

def childArityError : Raise :=
  .violation ⟨"composite", "NOT operator requires exactly one child rule"⟩

/-- `rule_data.get("type", "")` and `rule_data.get("config", {})`. -/
def readRuleData (ruleData : Json) : Except Raise (Json × Json) :=
  match ruleData with
  | .dict entries =>
      .ok ((Json.find "type" entries).getD (.str ""),
        (Json.find "config" entries).getD (.dict []))
  | _ => .error (.unexpected "AttributeError")

/-- The child rules, once the operator is known to be `not`. -/
def readNegated (childRules : Json) : Except Raise (List Json) :=
  match childRules with
  | .list items => if items.length = 1 then .ok items else .error childArityError
  | .dict entries =>
      if entries.length = 1 then .error (.unexpected "KeyError") else .error childArityError
  | .str s =>
      if s.length = 1 then .error (.unexpected "AttributeError") else .error childArityError
  | .null | .bool _ | .int _ | .float _ => .error (.unexpected "TypeError")

/-- The values `for r in child_rules` visits. The first key of a dictionary
and the first character of a text have no `.get`. -/
def iterateRules (childRules : Json) : Except Raise (List Json) :=
  match childRules with
  | .list items => .ok items
  | .dict entries => if entries.isEmpty then .ok [] else .error (.unexpected "AttributeError")
  | .str s => if s = "" then .ok [] else .error (.unexpected "AttributeError")
  | .null | .bool _ | .int _ | .float _ => .error (.unexpected "TypeError")

/-- The operator and the child rules of a composite, with the checks made
before a child is built. -/
def readComposite (config : Json) : Except Raise (Operator × List Json) :=
  match config with
  | .dict entries =>
      let childRules := (Json.find "rules" entries).getD (.list [])
      match (Json.find "operator" entries).getD (.str "and") with
      | .str "not" => (readNegated childRules).map (Operator.not, ·)
      | .str "and" => (iterateRules childRules).map (Operator.and, ·)
      | .str "or" => (iterateRules childRules).map (Operator.or, ·)
      -- a table lookup hashes its key first
      | .list _ | .dict _ => .error (.unexpected "TypeError")
      | other =>
          .error (.violation ⟨"composite", "Unknown composite operator: " ++ Text.display other⟩)
  | _ => .error (.unexpected "AttributeError")

theorem readNegated_eq_ok {childRules : Json} {children : List Json}
    (h : readNegated childRules = .ok children) :
    childRules = .list children ∧ children.length = 1 := by
  unfold readNegated at h
  split at h
  · split at h
    · next hlength => cases h; exact ⟨rfl, hlength⟩
    · cases h
  all_goals (try split at h) <;> cases h

theorem iterateRules_eq_ok {childRules : Json} {children : List Json}
    (h : iterateRules childRules = .ok children) :
    childRules = .list children ∨ children = [] := by
  unfold iterateRules at h
  split at h
  · exact Or.inl (congrArg _ (Except.ok.inj h))
  all_goals (try split at h) <;> cases h
  all_goals exact Or.inr rfl

theorem sizeOf_readComposite_le {config : Json} {operator : Operator} {children : List Json}
    (h : readComposite config = .ok (operator, children)) : sizeOf children ≤ sizeOf config := by
  have hnil : children = [] → sizeOf children ≤ sizeOf config := by
    rintro rfl
    cases config <;> simp
  unfold readComposite at h
  split at h
  · next entries =>
      have hlist :
          (Json.find "rules" entries).getD (.list []) = .list children ∨ children = [] := by
        split at h
        · cases hread : readNegated ((Json.find "rules" entries).getD (.list [])) with
          | error e => simp [hread, Except.map] at h
          | ok items =>
              simp only [hread, Except.map, Except.ok.injEq, Prod.mk.injEq] at h
              exact Or.inl (h.2 ▸ (readNegated_eq_ok hread).1)
        iterate 2
          · cases hread : iterateRules ((Json.find "rules" entries).getD (.list [])) with
            | error e => simp [hread, Except.map] at h
            | ok items =>
                simp only [hread, Except.map, Except.ok.injEq, Prod.mk.injEq] at h
                exact h.2 ▸ iterateRules_eq_ok hread
        all_goals cases h
      rcases hlist with hlist | hlist
      · cases hfind : Json.find "rules" entries with
        | none =>
            simp only [hfind, Option.getD_none, Json.list.injEq] at hlist
            exact hnil hlist.symm
        | some rules =>
            simp only [hfind, Option.getD_some] at hlist
            subst hlist
            have hlt := Json.sizeOf_get?_lt (j := .dict entries) hfind
            simp only [Json.list.sizeOf_spec] at hlt
            omega
      · exact hnil hlist
  · cases h

theorem sizeOf_readRuleData_le {ruleData t config : Json}
    (h : readRuleData ruleData = .ok (t, config)) : sizeOf config ≤ sizeOf ruleData := by
  unfold readRuleData at h
  split at h
  · next entries =>
      simp only [Except.ok.injEq, Prod.mk.injEq] at h
      obtain ⟨-, rfl⟩ := h
      cases hfind : Json.find "config" entries with
      | none =>
          cases entries with
          | nil => simp
          | cons entry rest =>
              simp only [Option.getD_none, Json.dict.sizeOf_spec, List.nil.sizeOf_spec,
                List.cons.sizeOf_spec]
              omega
      | some c =>
          have hlt := Json.sizeOf_get?_lt (j := .dict entries) hfind
          simpa [hfind] using hlt.le
  · cases h

/-- The node class of an operator applied to the built children. -/
def assemble : Operator → List RuleNode → Except Raise RuleNode
  | .and, nodes => .ok (.and nodes)
  | .or, nodes => .ok (.or nodes)
  | .not, [node] => .ok (.not node)
  | .not, _ => .error childArityError

section Build

variable (getValidator : String → Option (Json → Check))

mutual

def buildRuleNode (ruleData : Json) : Except Raise RuleNode :=
  match _h : readRuleData ruleData with
  | .error e => .error e
  | .ok (.str ruleType, config) =>
      if ruleType = "composite" then
        match _h' : readComposite config with
        | .error e => .error e
        | .ok (operator, children) =>
            match buildRuleNodes children with
            | .error e => .error e
            | .ok nodes => assemble operator nodes
      else .ok (.atom ⟨ruleType, config, getValidator ruleType⟩)
  -- a table lookup hashes its key first
  | .ok (.list _, _) | .ok (.dict _, _) => .error (.unexpected "TypeError")
  | .ok (other, config) => .ok (.atom ⟨Text.display other, config, none⟩)
termination_by 2 * sizeOf ruleData + 1
decreasing_by
  have hchildren := sizeOf_readComposite_le _h'
  have hconfig := sizeOf_readRuleData_le _h
  omega

def buildRuleNodes (rules : List Json) : Except Raise (List RuleNode) :=
  match rules with
  | [] => .ok []
  | rule :: rest =>
      match buildRuleNode rule with
      | .error e => .error e
      | .ok node =>
          match buildRuleNodes rest with
          | .error e => .error e
          | .ok nodes => .ok (node :: nodes)
termination_by 2 * sizeOf rules
decreasing_by
  all_goals
    simp only [List.cons.sizeOf_spec]
    omega

end

variable {getValidator}

theorem buildRuleNode_atomic {ruleData config : Json} {t : String}
    (h : readRuleData ruleData = .ok (.str t, config)) (ht : t ≠ "composite") :
    buildRuleNode getValidator ruleData = .ok (.atom ⟨t, config, getValidator t⟩) := by
  rw [buildRuleNode]
  split
  · next h' => rw [h] at h'; cases h'
  · next t' config' h' =>
      rw [h] at h'
      cases h'
      rw [if_neg ht]
  all_goals simp_all

theorem buildRuleNode_composite {ruleData config : Json} {operator : Operator}
    {children : List Json} (h : readRuleData ruleData = .ok (.str "composite", config))
    (hread : readComposite config = .ok (operator, children)) :
    buildRuleNode getValidator ruleData = match buildRuleNodes getValidator children with
      | .error e => .error e
      | .ok nodes => assemble operator nodes := by
  rw [buildRuleNode]
  split
  · next h' => rw [h] at h'; cases h'
  · next t' config' h' =>
      rw [h] at h'
      cases h'
      rw [if_pos rfl]
      split
      · next hread' => rw [hread] at hread'; cases hread'
      · next operator' children' hread' =>
          rw [hread] at hread'
          cases hread'
          rfl
  all_goals simp_all

theorem buildRuleNodes_nil : buildRuleNodes getValidator [] = .ok [] := by rw [buildRuleNodes]

theorem buildRuleNodes_cons {rule : Json} {rest : List Json} {node : RuleNode}
    {nodes : List RuleNode} (hrule : buildRuleNode getValidator rule = .ok node)
    (hrest : buildRuleNodes getValidator rest = .ok nodes) :
    buildRuleNodes getValidator (rule :: rest) = .ok (node :: nodes) := by
  simp only [buildRuleNodes, hrule, hrest]

variable (getValidator) in
/-- `_build_node` of both runners. -/
def EngineRule.buildNode (rule : EngineRule) : Except Raise RuleNode :=
  buildRuleNode getValidator
    (.dict [("type", .str rule.type), ("config", orEmptyDict rule.config)])

end Build

end Graveboards.Rules
