import Graveboards.Rules.Accepted
import Graveboards.Rules.Stateful

/-!
The three stages that enforce a queue's rules on one submission: the Phase-1
runner and the stateful reservations while the request is posted, and the
Phase-2 runner of the validation daemon, on the rules it rebuilds from the
snapshot or reads live.

Proved here: for a submission that no stage refuses, every active rule is
evaluated exactly once exactly when no active composite executes in tier 3.
The daemon keeps rules by their registered tier, and a composite has none.
-/

namespace Graveboards.Rules

open Library Library.Coro

/-- `Phase1Runner.run` for one rule it keeps: build, evaluate, and turn
everything but a pass into an exception. -/
def phase1Check (getValidator : String → Option (Json → Check)) (rule : EngineRule)
    (context : Context) : Except Raise Unit × Context :=
  match rule.buildNode getValidator with
  | .error e => (.error e, context)
  | .ok node =>
      match (evaluate 0 node).run { context with lastViolation := none } with
      | (.ok true, after) => (.ok (), after)
      | (.ok false, after) =>
          (.error (.violation (after.lastViolation.getD
            ⟨rule.type, "Rule '" ++ rule.type ++ "' rejected the request"⟩)), after)
      | (.error (.unexpected exception), after) =>
          (.error (.violation ⟨rule.type, "Validation error: " ++ exception⟩), after)
      | (.error e, after) => (.error e, after)

/-- `Phase1Runner.run`. Computing the tier raises on a malformed composite. -/
def phase1Run {σ : Type} (check : EngineRule → σ → Except Raise Unit × σ) :
    List EngineRule → σ → Except Raise Unit × σ
  | [], s => (.ok (), s)
  | rule :: rest, s =>
      if !rule.isActive then phase1Run check rest s
      else if rule.type ∈ statefulRuleTypes then phase1Run check rest s
      else if !rule.checkVersion then phase1Run check rest s
      else match rule.getTier with
        | none => (.error (.unexpected "AttributeError"), s)
        | some tier =>
            if tier ∉ [1, 2] then phase1Run check rest s
            else match check rule s with
              | (.ok (), s') => phase1Run check rest s'
              | (.error e, s') => (.error e, s')

/-- The rules `Phase2Runner.run` starts a coroutine for. -/
def phase2Tasks : List EngineRule → Except Raise (List EngineRule)
  | [] => .ok []
  | rule :: rest =>
      if !rule.isActive then phase2Tasks rest
      else if !rule.checkVersion then phase2Tasks rest
      else match rule.getTier with
        | none => .error (.unexpected "AttributeError")
        | some tier =>
            if tier ≠ 3 then phase2Tasks rest
            else (phase2Tasks rest).map (rule :: ·)

/-- One item of `_snapshot_active_rules`. -/
def snapshotItem (rule : EngineRule) : Json :=
  .dict [("id", .int rule.id), ("type", .str rule.type), ("version", .str rule.version),
    ("config", orEmptyDict rule.config), ("is_active", .bool rule.isActive)]

/-- One stand-in of `_rules_from_snapshot`. Attributes are read at the types
the handler wrote them with. -/
def ruleFromSnapshot (item : Json) : Except Raise EngineRule :=
  match item.get? "type" with
  | some (.str ruleType) => .ok
      { id := match item.get? "id" with
          | some (.int n) => n.toNat
          | _ => 0
        type := ruleType
        version := match item.getD "version" (.str "1.0") with
          | .str version => version
          | _ => ""
        config := orEmptyDict (item.getD "config" .null)
        isActive := (item.getD "is_active" (.bool true)).truthy }
  | _ => .error (.unexpected "KeyError")

def rulesFromSnapshot : List Json → Except Raise (List EngineRule)
  | [] => .ok []
  | item :: rest => do
      let rule ← ruleFromSnapshot item
      let rules ← rulesFromSnapshot rest
      return rule :: rules

/-- The submission-time rules, or the live ones of a legacy task that has no
snapshot. -/
def rulesToValidate (snapshot : Option (List Json)) (live : List EngineRule) :
    Except Raise (List EngineRule) :=
  match snapshot with
  | some items => rulesFromSnapshot items
  | none => .ok live

/-- `_run_validation` up to the Phase-2 call: the rules it has evaluated.
`found` says whether the request row still exists and `fetched` whether osu!
returned the beatmapset. -/
def runValidation (snapshot : Option (List Json)) (live : List EngineRule) (found fetched : Bool) :
    Except Raise (List EngineRule) := do
  let rules ← rulesToValidate snapshot live
  if !found then return []
  let phase2Rules := rules.filter (fun rule => getValidatorTier rule.type = some 3)
  if phase2Rules.isEmpty then return []
  if !fetched then return []
  phase2Tasks phase2Rules

/-! Which rules a stage evaluates. -/

/-- A stage with a record of the rules it was called for. -/
def logged {σ α : Type} (stage : EngineRule → σ → α × σ) (rule : EngineRule)
    (s : List EngineRule × σ) : α × (List EngineRule × σ) :=
  ((stage rule s.2).1, (s.1 ++ [rule], (stage rule s.2).2))

def EngineRule.inPhase1 (rule : EngineRule) : Bool :=
  rule.isActive && rule.type ∉ statefulRuleTypes && rule.checkVersion &&
    (rule.getTier = some 1 || rule.getTier = some 2)

def EngineRule.inPhase2 (rule : EngineRule) : Bool :=
  rule.isActive && rule.checkVersion && rule.getTier = some 3

/-- The Phase-1 loop checks a rule, skips it, or raises on its tier. -/
theorem phase1Run_cons {σ : Type} (check : EngineRule → σ → Except Raise Unit × σ)
    (rule : EngineRule) (rest : List EngineRule) (s : σ) :
    (rule.inPhase1 = true ∧ phase1Run check (rule :: rest) s = match check rule s with
      | (.ok (), s') => phase1Run check rest s'
      | (.error e, s') => (.error e, s')) ∨
    (rule.inPhase1 = false ∧ phase1Run check (rule :: rest) s = phase1Run check rest s) ∨
    ∃ e, (phase1Run check (rule :: rest) s).1 = .error e := by
  unfold EngineRule.inPhase1
  rw [phase1Run]
  by_cases hactive : rule.isActive
  · by_cases hstateful : rule.type ∈ statefulRuleTypes
    · exact Or.inr (Or.inl ⟨by simp [hstateful], by simp [hactive, hstateful]⟩)
    · by_cases hversion : rule.checkVersion
      · cases htier : rule.getTier with
        | none => exact Or.inr (Or.inr ⟨_, by simp [hactive, hstateful, hversion]; rfl⟩)
        | some tier =>
            by_cases hphase : tier ∈ [1, 2]
            · refine Or.inl ⟨?_, by simp [hactive, hstateful, hversion, hphase]⟩
              simpa [hactive, hstateful, hversion] using hphase
            · refine Or.inr (Or.inl ⟨?_, by simp [hactive, hstateful, hversion, hphase]⟩)
              simpa [hactive, hstateful, hversion] using hphase
      · exact Or.inr (Or.inl ⟨by simp [hversion], by simp [hactive, hstateful, hversion]⟩)
  · exact Or.inr (Or.inl ⟨by simp [hactive], by simp [hactive]⟩)

theorem phase1Run_log {σ : Type} {check : EngineRule → σ → Except Raise Unit × σ}
    {rules : List EngineRule} {s : List EngineRule × σ}
    (h : (phase1Run (logged check) rules s).1 = .ok ()) :
    (phase1Run (logged check) rules s).2.1 = s.1 ++ rules.filter EngineRule.inPhase1 := by
  induction rules generalizing s with
  | nil => simp [phase1Run]
  | cons rule rest ih =>
      rcases phase1Run_cons (logged check) rule rest s with
        ⟨hin, hcons⟩ | ⟨hout, hcons⟩ | ⟨e, herror⟩
      · rw [hcons] at h ⊢
        rw [List.filter_cons_of_pos hin]
        rcases hcheck : check rule s.2 with ⟨e | u, s'⟩ <;> simp only [logged, hcheck] at h ⊢
        · cases h
        · rw [ih h]
          simp
      · rw [hcons] at h ⊢
        rw [ih h, List.filter_cons_of_neg (by simp [hout])]
      · rw [herror] at h
        cases h

theorem reserveLoop_log {σ : Type}
    {reserve : EngineRule → σ → Except Raise (Option String) × σ} {rules : List EngineRule}
    {before reservations : List Reservation} {s : List EngineRule × σ}
    (h : (reserveLoop (logged reserve) rules before s).1 = .ok reservations) :
    (reserveLoop (logged reserve) rules before s).2.1 =
      s.1 ++ rules.filter EngineRule.reserves := by
  induction rules generalizing s before with
  | nil => simp [reserveLoop]
  | cons rule rest ih =>
      rw [reserveLoop] at h ⊢
      by_cases hin : rule.reserves
      · rw [if_pos hin] at h ⊢
        rw [List.filter_cons_of_pos hin]
        rcases hreserve : reserve rule s.2 with ⟨e | (- | token), s'⟩ <;>
          simp only [logged, hreserve] at h ⊢
        · cases h
        · rw [ih h]
          simp
        · rw [ih h]
          simp
      · rw [if_neg hin] at h ⊢
        rw [ih h, List.filter_cons_of_neg hin]

theorem reserveStatefulRules_log {σ : Type}
    {reserve : EngineRule → σ → Except Raise (Option String) × σ}
    {rollback : Reservation → List EngineRule × σ → List EngineRule × σ}
    {rules : List EngineRule} {reservations : List Reservation} {s : List EngineRule × σ}
    (h : (reserveStatefulRules (logged reserve) rollback rules s).1 = .ok reservations) :
    (reserveStatefulRules (logged reserve) rollback rules s).2.1 =
      s.1 ++ rules.filter EngineRule.reserves := by
  unfold reserveStatefulRules at h ⊢
  rcases hloop : reserveLoop (logged reserve) rules [] s with ⟨⟨e, made⟩ | made, s'⟩ <;>
    simp only [hloop] at h ⊢
  · cases h
  · have hlog := reserveLoop_log (congrArg Prod.fst hloop)
    rwa [hloop] at hlog

theorem phase2Tasks_eq {rules : List EngineRule} (h : ∀ rule ∈ rules, rule.getTier ≠ none) :
    phase2Tasks rules = .ok (rules.filter EngineRule.inPhase2) := by
  induction rules with
  | nil => rfl
  | cons rule rest ih =>
      have hrest := ih (fun r hr => h r (List.mem_cons_of_mem _ hr))
      rw [phase2Tasks]
      by_cases hactive : rule.isActive
      · by_cases hversion : rule.checkVersion
        · cases htier : rule.getTier with
          | none => exact absurd htier (h rule List.mem_cons_self)
          | some tier =>
              by_cases hthree : tier = 3
              · simp [EngineRule.inPhase2, hactive, hversion, htier, hthree, hrest, Except.map]
              · simp [EngineRule.inPhase2, hactive, hversion, htier, hthree, hrest]
        · simp [EngineRule.inPhase2, hactive, hversion, hrest]
      · simp [EngineRule.inPhase2, hactive, hrest]

/-- When the runner comes through its loop, it has started the same rules. -/
theorem eq_of_phase2Tasks {rules evaluated : List EngineRule}
    (h : phase2Tasks rules = .ok evaluated) : evaluated = rules.filter EngineRule.inPhase2 := by
  induction rules generalizing evaluated with
  | nil => exact (Except.ok.inj h).symm
  | cons rule rest ih =>
      rw [phase2Tasks] at h
      by_cases hactive : rule.isActive
      · by_cases hversion : rule.checkVersion
        · cases htier : rule.getTier with
          | none => simp [hactive, hversion, htier] at h
          | some tier =>
              by_cases hthree : tier = 3
              · simp only [hactive, hversion, htier, hthree, Bool.not_true, Bool.false_eq_true,
                  if_false, ne_eq, not_true_eq_false] at h
                cases hrest : phase2Tasks rest with
                | error e => simp [hrest, Except.map] at h
                | ok tasks =>
                    rw [hrest] at h
                    obtain rfl := Except.ok.inj h
                    simp [EngineRule.inPhase2, hactive, hversion, htier, hthree, ← ih hrest]
              · simp only [hactive, hversion, htier, hthree, Bool.not_true, Bool.false_eq_true,
                  if_false, ne_eq, not_false_eq_true, if_true] at h
                simp [EngineRule.inPhase2, hactive, hversion, htier, hthree, ih h]
        · simp only [hactive, hversion, Bool.not_true, Bool.not_false, Bool.false_eq_true, if_false,
            if_true] at h
          simp [EngineRule.inPhase2, hactive, hversion, ih h]
      · simp only [hactive, Bool.not_false, if_true] at h
        simp [EngineRule.inPhase2, hactive, ih h]

/-! Stored rules. -/

/-- A rule as the CRUD layer stores it: a type of `RuleCreateSchema`, a
configuration returned by `validate_rule_config`, a supported version. -/
structure Stored (text : TextReaders) (rule : EngineRule) : Prop where
  type : ∃ t : RuleType, rule.type = t.name
  config : ∃ sent, validateRuleConfig text rule.type sent = .ok rule.config
  version : ∀ supported, getSupportedVersions rule.type = some supported →
    rule.version ∈ supported

/-- What the registry says about the types that can be stored. -/
theorem registry_of_stored_type (t : RuleType) :
    (t.name ∈ statefulRuleTypes → t.name ≠ "composite" ∧ getValidatorTier t.name = some 1 ∧
      getSupportedVersions t.name ≠ none) ∧
    (t.name ≠ "composite" → getValidatorTier t.name = some 1 ∨ getValidatorTier t.name = some 2 ∨
      getValidatorTier t.name = some 3) ∧
    (t.name = "composite" → getValidatorTier t.name = none) := by
  cases t <;> decide

section

variable {text : TextReaders} {rule : EngineRule}

theorem Stored.checkVersion (h : Stored text rule) : rule.checkVersion = true := by
  unfold EngineRule.checkVersion
  split
  · rfl
  · next supported hsupported => exact decide_eq_true (h.version supported hsupported)

theorem Stored.orEmptyDict_config (h : Stored text rule) :
    orEmptyDict rule.config = rule.config := by
  obtain ⟨sent, hsent⟩ := h.config
  obtain ⟨t, ht⟩ := h.type
  unfold validateRuleConfig at hsent
  split at hsent
  · obtain ⟨-, dumped, -, hdumped, -⟩ := construct_eq_ok hsent
    rw [hdumped, orEmptyDict]
    cases dumped <;> rfl
  · next hnone =>
      rw [ht] at hnone
      cases t <;> cases hnone

theorem Stored.getTier_atomic (h : Stored text rule) (hatomic : rule.type ≠ "composite") :
    rule.getTier = getValidatorTier rule.type := by
  obtain ⟨t, ht⟩ := h.type
  rw [EngineRule.getTier, effectiveRuleTier_atomic hatomic]
  rw [ht] at hatomic ⊢
  rcases (registry_of_stored_type t).2.1 hatomic with htier | htier | htier <;> rw [htier] <;> rfl

theorem Stored.getTier_composite (h : Stored text rule) (hcomposite : rule.type = "composite") :
    rule.getTier = some 2 ∨ rule.getTier = some 3 := by
  obtain ⟨sent, hsent⟩ := h.config
  rw [EngineRule.getTier, h.orEmptyDict_config]
  rw [hcomposite] at hsent ⊢
  obtain ⟨tier, htier, rfl | rfl⟩ := effectiveRuleTier_stored hsent
  · exact Or.inl htier
  · exact Or.inr htier

theorem Stored.getTier_ne_none (h : Stored text rule) : rule.getTier ≠ none := by
  obtain ⟨t, ht⟩ := h.type
  by_cases hatomic : rule.type = "composite"
  · rcases h.getTier_composite hatomic with htier | htier <;> simp [htier]
  · rw [h.getTier_atomic hatomic]
    rw [ht] at hatomic ⊢
    rcases (registry_of_stored_type t).2.1 hatomic with htier | htier | htier <;> simp [htier]

/-- The daemon keeps a rule by its registered tier and then runs it. -/
def EngineRule.keptByDaemon (rule : EngineRule) : Bool :=
  getValidatorTier rule.type = some 3 && rule.inPhase2

/-- The stage of an active stored rule: none, if it is a composite of tier 3,
and otherwise exactly one. -/
theorem Stored.stage (h : Stored text rule) (hactive : rule.isActive = true) :
    (rule.type = "composite" ∧ rule.getTier = some 3 ∧
      rule.inPhase1 = false ∧ rule.reserves = false ∧ rule.keptByDaemon = false) ∨
    (getValidatorTier rule.type = some 3 ∧
      rule.inPhase1 = false ∧ rule.reserves = false ∧ rule.keptByDaemon = true) ∨
    (¬ (rule.type = "composite" ∧ rule.getTier = some 3) ∧ getValidatorTier rule.type ≠ some 3 ∧
      rule.inPhase1 = !rule.reserves ∧ rule.keptByDaemon = false) := by
  obtain ⟨t, ht⟩ := h.type
  have hregistry := registry_of_stored_type t
  rw [← ht] at hregistry
  obtain ⟨hstateful, hatomic, hcomposite⟩ := hregistry
  have hversion := h.checkVersion
  by_cases hc : rule.type = "composite"
  · have hreserves : rule.reserves = false := by
      simp [EngineRule.reserves, hc, statefulRuleTypes]
    have hflat : getValidatorTier rule.type ≠ some 3 := by simp [hcomposite hc]
    have hkept : rule.keptByDaemon = false := by simp [EngineRule.keptByDaemon, hflat]
    have hnot : rule.type ∉ statefulRuleTypes := by simp [hc, statefulRuleTypes]
    rcases h.getTier_composite hc with htier | htier
    · refine Or.inr (Or.inr ⟨by simp [htier], hflat, ?_, hkept⟩)
      simp [EngineRule.inPhase1, hactive, hnot, hversion, htier, hreserves]
    · refine Or.inl ⟨hc, htier, ?_, hreserves, hkept⟩
      simp [EngineRule.inPhase1, htier]
  · have htier := h.getTier_atomic hc
    by_cases hs : rule.type ∈ statefulRuleTypes
    · obtain ⟨-, hone, hsupported⟩ := hstateful hs
      obtain ⟨supported, hsome⟩ := Option.ne_none_iff_exists'.mp hsupported
      refine Or.inr (Or.inr ⟨fun hboth => hc hboth.1, by simp [hone], ?_, ?_⟩)
      · simp [EngineRule.inPhase1, EngineRule.reserves, hs, hactive, hsome,
          h.version supported hsome]
      · simp [EngineRule.keptByDaemon, hone]
    · have hreserves : rule.reserves = false := by simp [EngineRule.reserves, hs]
      rcases hatomic hc with htwo | htwo | htwo
      · refine Or.inr (Or.inr ⟨fun hboth => hc hboth.1, by simp [htwo], ?_, ?_⟩)
        · simp [EngineRule.inPhase1, hactive, hs, hversion, htier, htwo, hreserves]
        · simp [EngineRule.keptByDaemon, htwo]
      · refine Or.inr (Or.inr ⟨fun hboth => hc hboth.1, by simp [htwo], ?_, ?_⟩)
        · simp [EngineRule.inPhase1, hactive, hs, hversion, htier, htwo, hreserves]
        · simp [EngineRule.keptByDaemon, htwo]
      · refine Or.inr (Or.inl ⟨htwo, ?_, hreserves, ?_⟩)
        · simp [EngineRule.inPhase1, htier, htwo]
        · simp [EngineRule.keptByDaemon, EngineRule.inPhase2, hactive, hversion, htier, htwo]

/-- A snapshot of stored rules is read back as the same rules. -/
theorem rulesFromSnapshot_snapshot {rules : List EngineRule}
    (h : ∀ rule ∈ rules, Stored text rule) :
    rulesFromSnapshot (rules.map snapshotItem) = .ok rules := by
  induction rules with
  | nil => rfl
  | cons rule rest ih =>
      have hconfig := (h rule List.mem_cons_self).orEmptyDict_config
      have hitem : ruleFromSnapshot (snapshotItem rule) = .ok rule := by
        simp [ruleFromSnapshot, snapshotItem, hconfig, Json.getD, Json.truthy]
      rw [List.map_cons, rulesFromSnapshot, hitem, ih (fun r hr => h r (List.mem_cons_of_mem _ hr))]
      rfl

/-- The rules the daemon evaluates, from a snapshot or live. -/
theorem runValidation_eq {rules : List EngineRule} (h : ∀ rule ∈ rules, Stored text rule)
    (legacy found fetched : Bool) :
    runValidation (if legacy then none else some (rules.map snapshotItem)) rules found fetched =
      .ok (rules.filter (fun rule => found && fetched && rule.keptByDaemon)) := by
  have hsource : rulesToValidate (if legacy then none else some (rules.map snapshotItem)) rules =
      .ok rules := by
    cases legacy
    · exact rulesFromSnapshot_snapshot h
    · rfl
  have htasks : phase2Tasks (rules.filter (fun rule => getValidatorTier rule.type = some 3)) =
      .ok (rules.filter EngineRule.keptByDaemon) := by
    rw [phase2Tasks_eq (fun rule hrule => (h rule (List.mem_filter.mp hrule).1).getTier_ne_none),
      List.filter_filter]
    unfold EngineRule.keptByDaemon
    simp only [Bool.and_comm]
  unfold runValidation
  rw [hsource]
  cases found
  · simp [bind, Except.bind, pure, Except.pure]
  · cases fetched
    · simp [bind, Except.bind, pure, Except.pure]
    · simp only [bind, Except.bind, pure, Except.pure, Bool.not_true, Bool.false_eq_true, if_false,
        Bool.and_self, Bool.true_and]
      split
      · next hempty =>
          rw [List.isEmpty_iff.mp hempty, phase2Tasks] at htasks
          exact htasks
      · exact htasks

end

/-- Three filters that overlap nowhere cover a list exactly when they cover
each of its elements. -/
private theorem perm_filters_iff {α : Type} {p q r : α → Bool} {l : List α}
    (h : ∀ x ∈ l, (p x).toNat + (q x).toNat + (r x).toNat ≤ 1) :
    (l.filter p ++ l.filter q ++ l.filter r).Perm l ↔ ∀ x ∈ l, p x ∨ q x ∨ r x := by
  constructor
  · intro hperm x hx
    have hmem := hperm.mem_iff.mpr hx
    simp only [List.mem_append, List.mem_filter] at hmem
    tauto
  · intro hcover
    induction l with
    | nil => simp
    | cons x l ih =>
        have hx := h x List.mem_cons_self
        have hl := ih (fun y hy => h y (List.mem_cons_of_mem _ hy))
          (fun y hy => hcover y (List.mem_cons_of_mem _ hy))
        rcases hp : p x with - | -
        · rcases hq : q x with - | -
          · have hr : r x = true := by simpa [hp, hq] using hcover x List.mem_cons_self
            simp only [List.filter_cons, hp, hq, hr, Bool.false_eq_true, if_false, if_true]
            exact List.perm_middle.trans (hl.cons x)
          · have hr : r x = false := by
              revert hx
              rw [hp, hq]
              cases r x <;> simp
            simp only [List.filter_cons, hp, hq, hr, Bool.false_eq_true, if_false, if_true]
            rw [List.append_assoc, List.cons_append]
            refine List.perm_middle.trans ?_
            rw [← List.append_assoc]
            exact hl.cons x
        · obtain ⟨hq, hr⟩ : q x = false ∧ r x = false := by
            revert hx
            rw [hp]
            cases q x <;> cases r x <;> simp
          simp only [List.filter_cons, hp, hq, hr, Bool.false_eq_true, if_false, if_true]
          exact hl.cons x

/-- `RuleCRUD.get_rules` with `only_active=True`. -/
def activeRules (rules : List EngineRule) : List EngineRule :=
  rules.filter (fun rule => rule.isActive)

/-- For a submission that Phase 1 and the reservations let through, the three
stages together evaluate every active rule exactly once if and only if no
active composite executes in tier 3 and the daemon, where it has a Tier-3 rule
to run, finds the request and gets its beatmapset. -/
theorem pipeline_evaluates_once_iff {σ : Type} (text : TextReaders)
    (getValidator : String → Option (Json → Check))
    (reserve : EngineRule → σ → Except Raise (Option String) × σ)
    (rollback : Reservation → List EngineRule × σ → List EngineRule × σ)
    (rules : List EngineRule) (context : Context) (s : σ) (legacy found fetched : Bool)
    (hstored : ∀ rule ∈ rules, Stored text rule)
    (hphase1 : (phase1Run (logged (phase1Check getValidator)) (activeRules rules)
      ([], context)).1 = .ok ())
    (hreserve : ∃ reservations, (reserveStatefulRules (logged reserve) rollback
      (activeRules rules) ([], s)).1 = .ok reservations) :
    ∃ validated, runValidation
        (if legacy then none else some ((activeRules rules).map snapshotItem))
        (activeRules rules) found fetched = .ok validated ∧
      (((phase1Run (logged (phase1Check getValidator)) (activeRules rules) ([], context)).2.1 ++
        (reserveStatefulRules (logged reserve) rollback (activeRules rules) ([], s)).2.1 ++
        validated).Perm (activeRules rules) ↔
      (∀ rule ∈ activeRules rules, ¬ (rule.type = "composite" ∧ rule.getTier = some 3)) ∧
        ∀ rule ∈ activeRules rules, getValidatorTier rule.type = some 3 →
          found = true ∧ fetched = true) := by
  have hactive (rule : EngineRule) (hrule : rule ∈ activeRules rules) :
      Stored text rule ∧ rule.isActive = true :=
    ⟨hstored rule (List.mem_filter.mp hrule).1, (List.mem_filter.mp hrule).2⟩
  obtain ⟨reservations, hreserve⟩ := hreserve
  refine ⟨_, runValidation_eq (fun rule hrule => (hactive rule hrule).1) legacy found fetched, ?_⟩
  rw [phase1Run_log hphase1, reserveStatefulRules_log hreserve, List.nil_append, List.nil_append,
    perm_filters_iff]
  · constructor
    · intro hcover
      refine ⟨fun rule hrule => ?_, fun rule hrule hthree => ?_⟩
      · obtain ⟨hs, ha⟩ := hactive rule hrule
        rcases hs.stage ha with ⟨-, -, h1, h2, h3⟩ | ⟨hthree, -⟩ | ⟨hnot, -⟩
        · have := hcover rule hrule
          simp [h1, h2, h3] at this
        · rintro ⟨hc, -⟩
          rw [hc] at hthree
          cases hthree
        · exact hnot
      · obtain ⟨hs, ha⟩ := hactive rule hrule
        have hone := hcover rule hrule
        rcases hs.stage ha with ⟨hc, -⟩ | ⟨-, h1, h2, h3⟩ | ⟨-, hnot, -⟩
        · rw [hc] at hthree
          cases hthree
        · simpa [h1, h2, h3] using hone
        · exact absurd hthree hnot
    · rintro ⟨hcomposite, hdaemon⟩ rule hrule
      obtain ⟨hs, ha⟩ := hactive rule hrule
      rcases hs.stage ha with ⟨hc, ht, -⟩ | ⟨hthree, -, -, h3⟩ | ⟨-, -, h1, -⟩
      · exact absurd ⟨hc, ht⟩ (hcomposite rule hrule)
      · obtain ⟨rfl, rfl⟩ := hdaemon rule hrule hthree
        simp [h3]
      · cases hreserves : rule.reserves <;> simp [h1, hreserves]
  · intro rule hrule
    obtain ⟨hs, ha⟩ := hactive rule hrule
    rcases hs.stage ha with ⟨-, -, h1, h2, h3⟩ | ⟨-, h1, h2, h3⟩ | ⟨-, -, h1, h3⟩
    · simp [h1, h2, h3]
    · simp [h1, h2, h3]
      cases found <;> cases fetched <;> simp
    · cases hreserves : rule.reserves <;> simp [h1, h3, hreserves]

/-- The active rule `and [never_ranked]`. -/
def tier3Composite : EngineRule where
  id := 1
  type := "composite"
  version := "1.0"
  config := .dict (compositeEntries "and"
    [.dict [("type", .str "never_ranked"), ("config", .dict [("ruleset", .str "osu")])]])
  isActive := true

theorem tier3Composite_stored : Stored noText tier3Composite where
  type := ⟨.composite, rfl⟩
  config := ⟨tier3Composite.config, rfl⟩
  version := by
    intro supported hsupported
    cases hsupported

theorem tier3Composite_tier : tier3Composite.getTier = some 3 := by decide +kernel

theorem tier3Composite_skipped (getValidator : String → Option (Json → Check))
    (context : Context) :
    phase1Run (logged (phase1Check getValidator)) [tier3Composite] ([], context) =
      (.ok (), ([], context)) := by
  rw [phase1Run, tier3Composite_tier]
  rfl

/-- The rule is stored and active, and no stage evaluates it. -/
theorem tier3Composite_never_evaluated :
    Stored noText tier3Composite ∧ tier3Composite.isActive = true ∧
    phase1Run (logged (phase1Check (fun _ => none))) [tier3Composite] ([], ⟨.dict [], none⟩) =
      (.ok (), ([], ⟨.dict [], none⟩)) ∧
    reserveStatefulRules (logged (fun _ s => (.ok none, s))) (fun _ s => s) [tier3Composite]
      ([], ()) = (.ok [], ([], ())) ∧
    runValidation (some [snapshotItem tier3Composite]) [tier3Composite] true true = .ok [] :=
  ⟨tier3Composite_stored, rfl, tier3Composite_skipped _ _, rfl, rfl⟩

/-- A rule of each stage, and the composite switched off. -/
def stagedRules : List EngineRule :=
  [ { id := 2, type := "beatmap_mode", version := "1.0", isActive := true
      config := .dict [("allowed_modes", .list [.str "osu"])] },
    { id := 3, type := "rate_limit", version := "1.1", isActive := true
      config := .dict [("max_requests", .int 5), ("period", .str "week"), ("scope", .str "user")] },
    { id := 4, type := "never_ranked", version := "1.0", isActive := true
      config := .dict [("ruleset", .str "osu"), ("normalize_versions", .bool true)] },
    { tier3Composite with isActive := false } ]

theorem stagedRules_stored : ∀ rule ∈ stagedRules, Stored noText rule := by
  simp only [stagedRules, List.forall_mem_cons]
  refine ⟨⟨⟨.beatmapMode, rfl⟩, ⟨.dict [("allowed_modes", .list [.str "osu"])], rfl⟩, ?_⟩,
    ⟨⟨.rateLimit, rfl⟩, ⟨.dict [("max_requests", .int 5), ("period", .str "week")], rfl⟩, ?_⟩,
    ⟨⟨.neverRanked, rfl⟩, ⟨.dict [], rfl⟩, ?_⟩,
    ⟨tier3Composite_stored.type, tier3Composite_stored.config,
      tier3Composite_stored.version⟩, by simp⟩
  all_goals
    intro supported hsupported
    cases hsupported
    decide

/-- Every check passes, and the rate limit gives a token. -/
theorem stagedRules_evaluated_once :
    ∃ validated, runValidation (some ((activeRules stagedRules).map snapshotItem))
        (activeRules stagedRules) true true = .ok validated ∧
      ((phase1Run (logged (phase1Check fun _ => some fun _ => ⟨0, .ok ()⟩))
        (activeRules stagedRules)
          ([], ⟨.dict [], none⟩)).2.1 ++
        (reserveStatefulRules (logged fun _ s => (.ok (some "token"), s)) (fun _ s => s)
          (activeRules stagedRules) ([], ())).2.1 ++ validated).Perm (activeRules stagedRules) := by
  obtain ⟨validated, hrun, honce⟩ := pipeline_evaluates_once_iff noText
    (fun _ => some fun _ => ⟨0, .ok ()⟩) (fun _ s => (.ok (some "token"), s)) (fun _ s => s)
    stagedRules ⟨.dict [], none⟩ () false true true stagedRules_stored (by decide +kernel)
    ⟨_, rfl⟩
  refine ⟨validated, hrun, honce.mpr ⟨by decide +kernel, fun _ _ _ => ⟨rfl, rfl⟩⟩⟩

end Graveboards.Rules
