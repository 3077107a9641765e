import Graveboards.Rules.Faithful

/-!
A composite means the Boolean formula over its leaves. The formula is read off
the stored JSON directly; what the schema accepted is built into the same
formula, which never nests too deep, and evaluation returns its value. Each
leaf decides as the same rule stored on its own exactly when its spelling is
faithful, because a child keeps the spelling it was sent with.
-/

namespace Graveboards.Rules

open Library

/-! The formula of a rule. -/

def typeOf (rule : Json) : String :=
  match rule.get? "type" with
  | some (.str t) => t
  | _ => ""

def configOf (rule : Json) : Json := (rule.get? "config").getD (.dict [])

def operatorOf (rule : Json) : String :=
  match (configOf rule).get? "operator" with
  | some (.str op) => op
  | _ => ""

def childRulesOf (rule : Json) : List Json :=
  match (rule.get? "config").bind (·.get? "rules") with
  | some (.list children) => children
  | _ => []

theorem sizeOf_lt_of_mem_childRulesOf {rule child : Json} (h : child ∈ childRulesOf rule) :
    sizeOf child < sizeOf rule := by
  unfold childRulesOf at h
  split at h
  · next children hrules =>
      obtain ⟨config, hconfig, hrules⟩ := Option.bind_eq_some_iff.mp hrules
      have hchild := List.sizeOf_lt_of_mem h
      have hlist := Json.sizeOf_get?_lt hrules
      have houter := Json.sizeOf_get?_lt hconfig
      simp only [Json.list.sizeOf_spec] at hlist
      omega
  · cases h

def connective (op : String) (parts : List (Formula (String × Json))) : Formula (String × Json) :=
  match op, parts with
  | "or", parts => .or parts
  | "not", [part] => .not part
  | _, parts => .and parts

theorem leaves_connective (op : String) (parts : List (Formula (String × Json))) :
    (connective op parts).leaves = Formula.leavesOf parts := by
  unfold connective
  split
  · rfl
  · simp [Formula.leaves, Formula.leavesOf]
  · rfl

theorem height_connective (op : String) (parts : List (Formula (String × Json))) :
    (connective op parts).height = Formula.heightOf parts + 1 := by
  unfold connective
  split
  · rfl
  · simp [Formula.height, Formula.heightOf]
  · rfl

/-- The formula a stored rule stands for. A leaf is a type with the child's
configuration as it was sent. -/
def ruleFormula (rule : Json) : Formula (String × Json) :=
  if typeOf rule = "composite" then
    connective (operatorOf rule) ((childRulesOf rule).attach.map (fun child => ruleFormula child.1))
  else .atom (typeOf rule, configOf rule)
termination_by sizeOf rule
decreasing_by exact sizeOf_lt_of_mem_childRulesOf child.2

theorem ruleFormula_atomic {rule : Json} (h : typeOf rule ≠ "composite") :
    ruleFormula rule = .atom (typeOf rule, configOf rule) := by
  rw [ruleFormula, if_neg h]

theorem ruleFormula_composite {rule : Json} (h : typeOf rule = "composite") :
    ruleFormula rule = connective (operatorOf rule) ((childRulesOf rule).map ruleFormula) := by
  rw [ruleFormula, if_pos h, List.attach_map_val]

/-! What the schema accepts is built into its formula. -/

def leafNode (env : Env) (text : TextReaders) (leaf : String × Json) : AtomicRuleNode :=
  ⟨leaf.1, leaf.2, getValidator env text leaf.1⟩

/-- How the check of a rule type ends on a configuration. -/
def leafResult (env : Env) (text : TextReaders) (leaf : String × Json) : Except Raise Unit :=
  (leafNode env text leaf).result

section Accepted

variable {text : TextReaders}

theorem buildRuleNodes_accepted (env : Env) {children : List Json}
    (h : ∀ child ∈ children, buildRuleNode (getValidator env text) child =
      .ok ((ruleFormula child).map (leafNode env text))) :
    buildRuleNodes (getValidator env text) children =
      .ok (children.map (fun child => (ruleFormula child).map (leafNode env text))) := by
  induction children with
  | nil => exact buildRuleNodes_nil
  | cons child rest ih =>
      exact buildRuleNodes_cons (h child List.mem_cons_self)
        (ih (fun c hc => h c (List.mem_cons_of_mem _ hc)))

/-- A composite seen through the readers of both walks. -/
theorem read_composite {entries config : List (String × Json)} {op : String} {children : List Json}
    (htype : Json.find "type" entries = some (.str "composite"))
    (hconfig : Json.find "config" entries = some (.dict config))
    (hop : Json.find "operator" config = some (.str op))
    (hrules : Json.find "rules" config = some (.list children)) :
    typeOf (.dict entries) = "composite" ∧ operatorOf (.dict entries) = op ∧
      childRulesOf (.dict entries) = children ∧
      readRuleData (.dict entries) = .ok (.str "composite", .dict config) := by
  refine ⟨?_, ?_, ?_, ?_⟩
  · simp [typeOf, htype]
  · simp [operatorOf, configOf, hconfig, hop]
  · simp [childRulesOf, hconfig, hrules]
  · simp [readRuleData, htype, hconfig]

theorem AcceptedChild.build {levels : Nat} {child : Json} (h : AcceptedChild text levels child)
    (env : Env) : buildRuleNode (getValidator env text) child =
      .ok ((ruleFormula child).map (leafNode env text)) := by
  induction h with
  | @atomic levels entries t schema stored htype hallowed hatomic hschema hconfig =>
      have hread : typeOf (.dict entries) = t := by simp [typeOf, htype]
      rw [ruleFormula_atomic (hread ▸ hatomic), hread]
      refine buildRuleNode_atomic ?_ hatomic
      simp [readRuleData, htype, configOf]
  | @composite levels entries config op children htype hconfig hop hmem hrules hne hnot
      hchildren ih =>
      obtain ⟨htypeOf, hoperatorOf, hchildrenOf, hdata⟩ := read_composite htype hconfig hop hrules
      have hnodes := buildRuleNodes_accepted env ih
      rw [ruleFormula_composite htypeOf, hoperatorOf, hchildrenOf]
      simp only [List.mem_cons, List.not_mem_nil, or_false] at hmem
      rcases hmem with rfl | rfl | rfl
      · have hread : readComposite (.dict config) = .ok (.and, children) := by
          simp [readComposite, hop, hrules, iterateRules, Except.map]
        rw [buildRuleNode_composite hdata hread, hnodes]
        simp [assemble, connective, Formula.map, Formula.mapParts_eq]
      · have hread : readComposite (.dict config) = .ok (.or, children) := by
          simp [readComposite, hop, hrules, iterateRules, Except.map]
        rw [buildRuleNode_composite hdata hread, hnodes]
        simp [assemble, connective, Formula.map, Formula.mapParts_eq]
      · have hread : readComposite (.dict config) = .ok (.not, children) := by
          simp [readComposite, hop, hrules, readNegated, hnot rfl, Except.map]
        rw [buildRuleNode_composite hdata hread, hnodes]
        obtain ⟨child, rfl⟩ := List.length_eq_one_iff.mp (hnot rfl)
        simp [assemble, connective, Formula.map]

/-- The nesting the schema allows bounds the height of the formula. -/
theorem AcceptedChild.height {levels : Nat} {child : Json} (h : AcceptedChild text levels child) :
    (ruleFormula child).height ≤ levels := by
  induction h with
  | @atomic levels entries t schema stored htype hallowed hatomic hschema hconfig =>
      have hread : typeOf (.dict entries) = t := by simp [typeOf, htype]
      rw [ruleFormula_atomic (hread ▸ hatomic)]
      exact Nat.zero_le _
  | @composite levels entries config op children htype hconfig hop hmem hrules hne hnot
      hchildren ih =>
      obtain ⟨htypeOf, hoperatorOf, hchildrenOf, -⟩ := read_composite htype hconfig hop hrules
      rw [ruleFormula_composite htypeOf, hchildrenOf, height_connective]
      refine Nat.succ_le_succ (Formula.heightOf_le fun f hf => ?_)
      obtain ⟨child, hchild, rfl⟩ := List.mem_map.mp hf
      exact ih child hchild

/-- Every leaf was accepted on its own. -/
theorem AcceptedChild.leaves {levels : Nat} {child : Json} (h : AcceptedChild text levels child) :
    ∀ leaf ∈ (ruleFormula child).leaves, ∃ stored, AcceptedLeaf text leaf.1 leaf.2 stored := by
  induction h with
  | @atomic levels entries t schema stored htype hallowed hatomic hschema hconfig =>
      have hread : typeOf (.dict entries) = t := by simp [typeOf, htype]
      rw [ruleFormula_atomic (hread ▸ hatomic), hread]
      intro leaf hleaf
      obtain rfl := List.mem_singleton.mp hleaf
      exact ⟨stored, hallowed, schema, hschema, by simpa [configOf] using hconfig⟩
  | @composite levels entries config op children htype hconfig hop hmem hrules hne hnot
      hchildren ih =>
      obtain ⟨htypeOf, -, hchildrenOf, -⟩ := read_composite htype hconfig hop hrules
      rw [ruleFormula_composite htypeOf, hchildrenOf, leaves_connective]
      intro leaf hleaf
      obtain ⟨f, hf, hmem⟩ := Formula.mem_leavesOf.mp hleaf
      obtain ⟨child, hchild, rfl⟩ := List.mem_map.mp hf
      exact ih child hchild leaf hmem

theorem AcceptedLeaf.validateRuleConfig {ruleType : String} {config stored : Json}
    (h : AcceptedLeaf text ruleType config stored) :
    Rules.validateRuleConfig text ruleType config = .ok stored := by
  obtain ⟨schema, hschema, hconstruct⟩ := h.constructed
  have hatomic : ruleType ≠ "composite" := by
    rintro rfl
    cases hschema
  rw [Rules.validateRuleConfig, ruleConfigSchemaMap, if_neg hatomic, hschema]
  exact hconstruct

/-- `{"type": "composite", "config": stored}`. -/
def compositeRule (stored : Json) : Json := .dict [("type", .str "composite"), ("config", stored)]

theorem compositeRule_accepted {config stored : Json}
    (h : Rules.validateRuleConfig text "composite" config = .ok stored) :
    AcceptedChild text 10 (compositeRule stored) := by
  obtain ⟨op, children, rfl, hmem, haccepted⟩ := validateRuleConfig_composite h
  exact @AcceptedChild.composite text 9 _ (compositeEntries op children) op children rfl rfl rfl
    hmem rfl haccepted.ne_nil haccepted.negated haccepted.accepted

end Accepted

/-! Meaning. -/

def passes (result : Except Raise Unit) : Bool :=
  match result with
  | .ok () => true
  | .error _ => false

/-- The leaf with its configuration as it would be stored on its own. -/
def storedLeaf (text : TextReaders) (leaf : String × Json) : String × Json :=
  (leaf.1, match validateRuleConfig text leaf.1 leaf.2 with
    | .ok stored => stored
    | .error _ => leaf.2)

/-- A built composite stands for a formula: its evaluation ends in neither
structural error, it returns the value of the formula over the stored leaves
unless a leaf it evaluates fails to decide, and each leaf decides as its
stored form. -/
structure MeansFormula (env : Env) (text : TextReaders) (formula : Formula (String × Json))
    (node : RuleNode) : Prop where
  depth : ∀ context, ((evaluate 0 node).run context).1 ≠ .error depthError
  arity : ∀ context, ((evaluate 0 node).run context).1 ≠ .error notArityError
  value : ∀ context, (∀ leaf ∈ (evaluation 0 node).1, Decided leaf.result) →
    ((evaluate 0 node).run context).1 =
      .ok (formula.value (fun leaf => passes (leafResult env text (storedLeaf text leaf))))
  leaf : ∀ leaf ∈ formula.leaves, Decided (leafResult env text leaf) →
    passes (leafResult env text leaf) = passes (leafResult env text (storedLeaf text leaf))

theorem evaluate_run (node : RuleNode) (context : Context) :
    ((evaluate 0 node).run context).1 = (evaluation 0 node).2 :=
  ((evaluate_follows node 0).run context).1

theorem caught_ne_violation (result : Except Raise Unit) (e : RuleViolation) :
    caught result ≠ .error (.violation e) := by
  rcases result with (e | detail | - | name) | - <;> simp [caught]

theorem caught_of_decided {result : Except Raise Unit} (h : Decided result) :
    caught result = .ok (passes result) := by
  obtain rfl | ⟨e, rfl⟩ := h <;> rfl

/-- A tree of at most ten connectives never ends in a structural error. -/
theorem evaluation_ne_violation {node : RuleNode} (hheight : node.height ≤ 10) (e : RuleViolation) :
    (evaluation 0 node).2 ≠ .error (.violation e) := by
  intro herror
  obtain ⟨-, hdeep⟩ | ⟨leaf, -, hleaf⟩ := Formula.walk_error node 0 _ herror
  · unfold maxCompositeDepth at hdeep
    omega
  · exact caught_ne_violation _ _ hleaf

/-- With decided leaves the walk returns a value. -/
theorem evaluation_decided {node : RuleNode} (hheight : node.height ≤ 10)
    (hdecided : ∀ leaf ∈ (evaluation 0 node).1, Decided leaf.result) :
    ∃ b, (evaluation 0 node).2 = .ok b := by
  cases houtcome : (evaluation 0 node).2 with
  | ok b => exact ⟨b, rfl⟩
  | error e =>
      obtain ⟨-, hdeep⟩ | ⟨leaf, hreached, hleaf⟩ := Formula.walk_error node 0 _ houtcome
      · unfold maxCompositeDepth at hdeep
        omega
      · cases (caught_of_decided (hdecided leaf hreached)).symm.trans hleaf

/-- The value of the formula over any verdicts the evaluated leaves agree with. -/
theorem evaluation_eq_value {node : RuleNode} (hheight : node.height ≤ 10)
    {τ : AtomicRuleNode → Bool} (hdecided : ∀ leaf ∈ (evaluation 0 node).1, Decided leaf.result)
    (hagree : ∀ leaf ∈ (evaluation 0 node).1, passes leaf.result = τ leaf) :
    (evaluation 0 node).2 = .ok (node.value τ) := by
  obtain ⟨b, hb⟩ := evaluation_decided hheight hdecided
  have hvalue : node.value τ = b := by
    refine Formula.walk_value node 0 b (fun leaf hreached v hv => ?_) hb
    have hpasses := Except.ok.inj ((caught_of_decided (hdecided leaf hreached)).symm.trans hv)
    exact congrArg some ((hagree leaf hreached).symm.trans hpasses)
  rw [hb, hvalue]

theorem storedLeaf_accepted {text : TextReaders} {leaf : String × Json} {stored : Json}
    (h : AcceptedLeaf text leaf.1 leaf.2 stored) : storedLeaf text leaf = (leaf.1, stored) := by
  rw [storedLeaf, h.validateRuleConfig]

theorem passes_eq_iff {result other : Except Raise Unit} :
    passes result = passes other ↔ (result = .ok () ↔ other = .ok ()) := by
  rcases result with _ | ⟨⟩ <;> rcases other with _ | ⟨⟩ <;> simp [passes]

/-- The leaf clause, in terms of disagreement. -/
theorem leaf_passes_iff {text : TextReaders} {leaf : String × Json} {stored : Json}
    (h : AcceptedLeaf text leaf.1 leaf.2 stored) (env : Env) :
    (Decided (leafResult env text leaf) →
      passes (leafResult env text leaf) = passes (leafResult env text (storedLeaf text leaf))) ↔
    ¬ Disagree text leaf.1 leaf.2 stored env := by
  rw [storedLeaf_accepted h, passes_eq_iff, Disagree]
  unfold leafResult leafNode AtomicRuleNode.result
  cases getValidator env text leaf.1 with
  | none => simp
  | some check => simp [not_and]

theorem meansFormula_of_faithful {text : TextReaders} {rule : Json}
    (haccepted : AcceptedChild text 10 rule)
    (hfaithful : ∀ leaf ∈ (ruleFormula rule).leaves, Faithful text leaf.1 leaf.2) (env : Env) :
    MeansFormula env text (ruleFormula rule) ((ruleFormula rule).map (leafNode env text)) := by
  have hheight : ((ruleFormula rule).map (leafNode env text)).height ≤ 10 := by
    rw [Formula.height_map]
    exact haccepted.height
  have hleaf : ∀ leaf ∈ (ruleFormula rule).leaves, Decided (leafResult env text leaf) →
      passes (leafResult env text leaf) = passes (leafResult env text (storedLeaf text leaf)) := by
    intro leaf hmem
    obtain ⟨stored, hstored⟩ := haccepted.leaves leaf hmem
    exact (leaf_passes_iff hstored env).mpr
      ((leaf_agrees_iff_faithful hstored).mpr (hfaithful leaf hmem) env)
  refine ⟨fun context => ?_, fun context => ?_, fun context hdecided => ?_, hleaf⟩
  · rw [evaluate_run]
    exact evaluation_ne_violation hheight _
  · rw [evaluate_run]
    exact evaluation_ne_violation hheight _
  · -- the verdict of a built leaf is that of the leaf it was built from
    let τ (node : AtomicRuleNode) : Bool :=
      passes (leafResult env text (storedLeaf text (node.ruleType, node.config)))
    have hagree : ∀ leaf ∈ (evaluation 0 ((ruleFormula rule).map (leafNode env text))).1,
        passes leaf.result = τ leaf := by
      intro node hreached
      have hmem := Formula.walk_subset _ _ hreached
      rw [Formula.leaves_map] at hmem
      obtain ⟨leaf, hleafmem, rfl⟩ := List.mem_map.mp hmem
      exact hleaf leaf hleafmem (hdecided _ hreached)
    rw [evaluate_run, evaluation_eq_value hheight hdecided hagree, Formula.value_map]
    rfl

/-- Every accepted composite is built, and it means the formula over its stored
leaves on every submission exactly when all its leaves are spelled faithfully:
none is an empty object, none gives a truth value as text that Python takes
for the other one, none gives tags as text where the text alone decides, and
none an integer bound that is rounded to a double which lets more or fewer
measures pass. -/
theorem composite_means_formula_iff {text : TextReaders} {config stored : Json}
    (h : validateRuleConfig text "composite" config = .ok stored) :
    (∀ env, ∃ node, buildRuleNode (getValidator env text) (compositeRule stored) = .ok node ∧
      MeansFormula env text (ruleFormula (compositeRule stored)) node) ↔
    ∀ leaf ∈ (ruleFormula (compositeRule stored)).leaves, Faithful text leaf.1 leaf.2 := by
  have haccepted := compositeRule_accepted h
  constructor
  · intro hmeans leaf hmem
    obtain ⟨leafStored, hstored⟩ := haccepted.leaves leaf hmem
    refine (leaf_agrees_iff_faithful hstored).mp fun env => ?_
    obtain ⟨node, -, hnode⟩ := hmeans env
    exact (leaf_passes_iff hstored env).mp (hnode.leaf leaf hmem)
  · intro hfaithful env
    exact ⟨_, haccepted.build env, meansFormula_of_faithful haccepted hfaithful env⟩

/-- `and` over leaves. -/
def conjunctionOf (leaves : List (String × Json)) : Json :=
  .dict (compositeEntries "and" (leaves.map fun leaf =>
    .dict [("type", .str leaf.1), ("config", leaf.2)]))

theorem ruleFormula_conjunctionOf {leaves : List (String × Json)}
    (h : ∀ leaf ∈ leaves, leaf.1 ≠ "composite") :
    ruleFormula (compositeRule (conjunctionOf leaves)) = .and (leaves.map Formula.atom) := by
  have hchildren : (leaves.map fun leaf =>
      ruleFormula (.dict [("type", .str leaf.1), ("config", leaf.2)])) = leaves.map Formula.atom :=
    List.map_congr_left fun leaf hmem => ruleFormula_atomic (h leaf hmem)
  rw [← hchildren, ruleFormula_composite rfl]
  exact congrArg Formula.and List.map_map

/-- Standard mode, and no beatmap slower than 120 or faster than 200. -/
def steadyOsu : Json :=
  conjunctionOf
    [ ("beatmap_mode", .dict [("allowed_modes", .list [.str "osu"])]),
      ("beatmap_bpm",
        .dict [("min_bpm", .int 120), ("max_bpm", .int 200), ("logic", .str "all")]) ]

theorem steadyOsu_means_formula :
    validateRuleConfig noText "composite" steadyOsu = .ok steadyOsu ∧
    ∀ env, ∃ node, buildRuleNode (getValidator env noText) (compositeRule steadyOsu) = .ok node ∧
      MeansFormula env noText (ruleFormula (compositeRule steadyOsu)) node := by
  have hvalid : validateRuleConfig noText "composite" steadyOsu = .ok steadyOsu := by decide +kernel
  refine ⟨hvalid, (composite_means_formula_iff hvalid).mpr ?_⟩
  have hformula : (ruleFormula (compositeRule steadyOsu)).leaves =
      [ ("beatmap_mode", .dict [("allowed_modes", .list [.str "osu"])]),
        ("beatmap_bpm",
          .dict [("min_bpm", .int 120), ("max_bpm", .int 200), ("logic", .str "all")]) ] := by
    rw [steadyOsu, ruleFormula_conjunctionOf (by decide)]
    rfl
  rw [hformula, List.forall_mem_cons, List.forall_mem_singleton]
  constructor
  · exact ⟨by simp, by simp, by simp, by simp [doubleBounds], by simp⟩
  · refine ⟨by simp, by simp, by simp, ?_, by simp⟩
    intro low high hkeys
    cases hkeys
    apply faithfulBounds_of_abs_le
    · intro n hn
      cases hn
      decide
    · intro n hn
      cases hn
      decide

/-- `and [never_ranked]` with the child's configuration left to its defaults,
on a song nobody has ranked: every leaf decides, the rule stored on its own
passes, and the composite does not. -/
theorem neverRankedByDefault_misjudged :
    validateRuleConfig noText "composite" (conjunctionOf [("never_ranked", .dict [])]) =
      .ok (conjunctionOf [("never_ranked", .dict [])]) ∧
    ∃ node, buildRuleNode (getValidator (taggedSubmission []) noText)
        (compositeRule (conjunctionOf [("never_ranked", .dict [])])) = .ok node ∧
      (∀ leaf ∈ (evaluation 0 node).1, Decided leaf.result) ∧
      (∀ context, ((evaluate 0 node).run context).1 = .ok false) ∧
      (ruleFormula (compositeRule (conjunctionOf [("never_ranked", .dict [])]))).value
        (fun leaf => passes (leafResult (taggedSubmission []) noText (storedLeaf noText leaf))) =
          true := by
  have hvalid : validateRuleConfig noText "composite" (conjunctionOf [("never_ranked", .dict [])]) =
      .ok (conjunctionOf [("never_ranked", .dict [])]) := rfl
  refine ⟨hvalid, _, (compositeRule_accepted hvalid).build _, ?_⟩
  rw [ruleFormula_conjunctionOf (by decide)]
  refine ⟨?_, fun context => ?_, rfl⟩
  · intro leaf hreached
    obtain rfl := List.mem_singleton.mp hreached
    exact Or.inr ⟨_, rfl⟩
  · rw [evaluate_run]
    rfl

end Graveboards.Rules
