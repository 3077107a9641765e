import Graveboards.Rules.Crud
import Graveboards.Rules.Reserve

/-!
Which stateful rules share their Redis state. The key of a rule's state is
made of its configuration, while the duplicate checks look at the version too,
and `rate_limit` has two of them.
-/

namespace Graveboards.Rules

open Library

/-- Two rules that keep their state under one key. -/
def SharesState (a b : Written) : Prop :=
  a.1 = b.1 ∧ a.1 ∈ statefulRuleTypes ∧ a.2.2.sortKeys = b.2.2.sortKeys

theorem SharesState.symm {a b : Written} (h : SharesState a b) : SharesState b a :=
  ⟨h.1.symm, h.1 ▸ h.2.1, h.2.2.symm⟩

/-- Rules that share their state clash in the duplicate checks once their
versions agree. -/
theorem SharesState.sameKey {a b : Written} (h : SharesState a b) (hversion : a.2.1 = b.2.1) :
    ruleKey a = ruleKey b := by
  rw [ruleKey, ruleKey, normalizeConfig, normalizeConfig, h.1, hversion,
    Json.sortAll_eq_of_sortKeys_eq h.2.2]

variable {text : TextReaders}

/-- The configuration supplied for a stateful rule is not the configuration of
another rule of that type and queue with another version. -/
def Unshared : Operation text → RuleTable → Prop
  | .create queueId data, t => ∀ rule ∈ t.rules, rule.queueId = queueId →
      SharesState rule.written data.written → rule.version = data.version
  | .update ruleId queueId updates, t => ∀ rule config, t.getRule queueId ruleId = some rule →
      revalidated text rule updates.config = .ok (some config) →
      ∀ other ∈ t.rules, other.queueId = queueId → other.id ≠ ruleId →
        SharesState other.written (rule.type, rule.version, config) →
        other.version = finalVersion rule updates.version
  | .upsert _ _, _ | .delete _ _, _ => True

theorem separated_update {ruleId queueId : Nat} {updates : RuleUpdates} {t t' : RuleTable}
    {rule : QueueRule} {config : Option Json} (h : Separated SharesState t)
    (hunshared : Unshared (.update ruleId queueId updates : Operation text) t)
    (hupdated : Updated text ruleId queueId updates t t' rule config) :
    Separated SharesState t' := by
  obtain ⟨hmem, hid, hqueue⟩ := getRule_eq_some hupdated.found
  rw [hupdated.result]
  refine h.replace (fun _ _ => SharesState.symm) ?_
  intro other hother hsame hne hclash
  cases hsent : config with
  | none =>
      rw [hsent] at hclash
      exact hne ((h other hother rule hmem hsame hclash).trans hid)
  | some stored =>
      rw [hsent] at hclash
      have hversion :=
        hunshared rule stored hupdated.found (hsent ▸ hupdated.validated) other hother
        (hsame.trans hqueue) hne hclash
      refine hupdated.fresh other hother (hsame.trans hqueue) hne ?_
      rw [hsent]
      exact SharesState.sameKey hclash hversion

theorem separated_perform {op : Operation text} {t t' : RuleTable} (h : Separated SharesState t)
    (hunshared : Unshared op t) (hop : op.perform t = .ok t') : Separated SharesState t' := by
  cases op with
  | create queueId data =>
      obtain ⟨-, hfresh, hadd⟩ := createRule_ok hop
      refine h.addRules (fun _ _ => SharesState.symm) ?_ (List.pairwise_singleton _ _) hadd
      intro new hnew rule hrule hqueue hclash
      obtain rfl := List.mem_singleton.mp hnew
      exact hfresh rule hrule hqueue (hclash.sameKey (hunshared rule hrule hqueue hclash))
  | update ruleId queueId updates =>
      rcases updateRule_ok hop with rfl | ⟨rule, config, hupdated⟩
      · exact h
      · exact separated_update h hunshared hupdated
  | upsert queueId rulesData =>
      refine separated_upsert (fun _ _ => SharesState.symm) (fun a b hclash => ?_) h hop
      rw [hclash.1, normalizeConfig, normalizeConfig, Json.sortAll_eq_of_sortKeys_eq hclash.2.2]
  | delete ruleId queueId =>
      obtain rfl := Except.ok.inj hop
      exact h.filter _

theorem separated_step {op : Operation text} {t t' : RuleTable} (h : Separated SharesState t)
    (hunshared : Unshared op t) (hstep : op.step t = some t') : Separated SharesState t' := by
  obtain rfl := Option.some.inj hstep
  rcases call_ok_or_raised op t with ⟨hop, -⟩ | hraised
  · exact separated_perform h hunshared hop
  · rwa [hraised]

/-! The keys. -/

section Keys

variable (fingerprint : Json → String)

/-- The key under which a rule keeps its state for a user. -/
def stateKey (rule : QueueRule) (userId : Nat) (bucket : Int) : String :=
  if rule.type = "rate_limit" then
    rateLimitKey fingerprint ⟨rule.queueId, userId, rule.config⟩ bucket
  else cooldownKey fingerprint ⟨rule.queueId, userId, rule.config⟩

/-- The rules that reserve state for a submission to the queue. -/
def statefulRules (t : RuleTable) (queueId : Nat) : List QueueRule :=
  (t.getRules queueId).filter (fun rule => rule.isActive && rule.type ∈ statefulRuleTypes)

variable {fingerprint} (hlength : ∀ config, (fingerprint config).length = 12)
  {queueId userId : Nat} {config config' : Json} {bucket bucket' : Int}

include hlength in
theorem fingerprint_of_rateLimitKey
    (h : rateLimitKey fingerprint ⟨queueId, userId, config⟩ bucket =
      rateLimitKey fingerprint ⟨queueId, userId, config'⟩ bucket') :
    fingerprint config = fingerprint config' := by
  unfold rateLimitKey at h
  generalize "queue_rule_rate_limit:" ++ toString queueId ++ ":" ++ toString userId ++ ":" =
    front at h
  rw [String.append_assoc, String.append_assoc, String.append_assoc, String.append_assoc,
    String.append_right_inj] at h
  have hlist := congrArg String.toList h
  rw [String.toList_append, String.toList_append (s := fingerprint config')] at hlist
  refine String.toList_inj.mp (List.append_inj_left hlist ?_)
  rw [String.length_toList, String.length_toList, hlength, hlength]

theorem fingerprint_of_cooldownKey
    (h : cooldownKey fingerprint ⟨queueId, userId, config⟩ =
      cooldownKey fingerprint ⟨queueId, userId, config'⟩) :
    fingerprint config = fingerprint config' := by
  unfold cooldownKey at h
  exact (String.append_right_inj _).mp h

theorem rateLimitKey_ne_cooldownKey :
    rateLimitKey fingerprint ⟨queueId, userId, config⟩ bucket ≠
      cooldownKey fingerprint ⟨queueId, userId, config'⟩ := by
  intro h
  unfold rateLimitKey cooldownKey at h
  simp only [String.append_assoc] at h
  -- The two namespaces differ in their twelfth character.
  have htake := congrArg (fun key : String => key.toList.take 12) h
  simp only [String.toList_append] at htake
  rw [List.take_append_of_le_length (by decide), List.take_append_of_le_length (by decide)] at htake
  exact absurd htake (by decide)

include hlength in
theorem sharesState_of_stateKey {r s : QueueRule} (hqueue : r.queueId = s.queueId)
    (hr : r.type ∈ statefulRuleTypes) (hs : s.type ∈ statefulRuleTypes)
    (hinjective : fingerprint r.config = fingerprint s.config →
      r.config.sortKeys = s.config.sortKeys)
    (h : stateKey fingerprint r userId bucket = stateKey fingerprint s userId bucket') :
    SharesState r.written s.written := by
  have htypes (rule : QueueRule) (hrule : rule.type ∈ statefulRuleTypes) :
      rule.type = "rate_limit" ∨ rule.type = "cooldown" := by simpa [statefulRuleTypes] using hrule
  unfold stateKey at h
  rw [hqueue] at h
  rcases htypes r hr with hrate | hcool <;> rcases htypes s hs with hrate' | hcool'
  · rw [if_pos hrate, if_pos hrate'] at h
    exact ⟨hrate.trans hrate'.symm, hr, hinjective (fingerprint_of_rateLimitKey hlength h)⟩
  · rw [if_pos hrate, if_neg (by rw [hcool']; decide)] at h
    exact absurd h rateLimitKey_ne_cooldownKey
  · rw [if_neg (by rw [hcool]; decide), if_pos hrate'] at h
    exact absurd h.symm rateLimitKey_ne_cooldownKey
  · rw [if_neg (by rw [hcool]; decide), if_neg (by rw [hcool']; decide)] at h
    exact ⟨hcool.trans hcool'.symm, hr, hinjective (fingerprint_of_cooldownKey h)⟩

end Keys

/-- After any sequence of calls none of which gives a stateful rule the
configuration of a rule with another version, the active stateful rules of a
queue keep their state for a user under keys of their own, whatever the
buckets. -/
theorem stateful_rules_isolated (text : TextReaders) (fingerprint : Json → String)
    (hlength : ∀ config, (fingerprint config).length = 12) {calls : List (Operation text)}
    {t : RuleTable} (hrun : Runs.run Operation.step calls RuleTable.empty = some t)
    (hinjective : ∀ r ∈ t.rules, ∀ s ∈ t.rules,
      fingerprint r.config = fingerprint s.config → r.config.sortKeys = s.config.sortKeys)
    (hmeets : Runs.Meets Operation.step Unshared calls RuleTable.empty)
    (queueId userId : Nat) (bucket : QueueRule → Int) :
    ((statefulRules t queueId).map
      (fun rule => stateKey fingerprint rule userId (bucket rule))).Nodup := by
  have hseparated : Separated SharesState t :=
    Runs.invariant_of_run (Separated SharesState)
      (fun _ _ _ h hop hstep => separated_step h hop hstep)
      (separated_empty _) hmeets hrun
  have hformed : WellFormed text t :=
    Runs.invariant_of_steps (WellFormed text) (fun _ _ _ h hstep => h.step hstep)
      wellFormed_empty hrun
  have hsub : (statefulRules t queueId).Sublist t.rules :=
    List.filter_sublist.trans List.filter_sublist
  refine List.pairwise_map.mpr (((hseparated.pairwise hformed.nodup).sublist hsub).imp_of_mem ?_)
  intro r s hr hs hapart hkey
  have hof {rule : QueueRule} (hrule : rule ∈ statefulRules t queueId) :
      rule ∈ t.rules ∧ rule.queueId = queueId ∧ rule.type ∈ statefulRuleTypes := by
    simp only [statefulRules, RuleTable.getRules, List.mem_filter, Bool.and_eq_true,
      decide_eq_true_eq] at hrule
    exact ⟨hrule.1.1, hrule.1.2, hrule.2.2⟩
  obtain ⟨hr, hqueue, hstateful⟩ := hof hr
  obtain ⟨hs, hqueue', hstateful'⟩ := hof hs
  exact hapart (hqueue.trans hqueue'.symm) (sharesState_of_stateKey hlength
    (hqueue.trans hqueue'.symm) hstateful hstateful' (hinjective r hr s hs) hkey)

def dailyLimit : Json :=
  .dict [("max_requests", .int 1), ("period", .str "day"), ("scope", .str "user")]

def minuteCooldown : Json := .dict [("cooldown_seconds", .int 60), ("scope", .str "user")]

def dailyLimitData (version : String) : RuleData noText where
  type := .rateLimit
  config := dailyLimit
  isActive := true
  isPublic := true
  version := version
  valid := ⟨dailyLimit, rfl⟩

def minuteCooldownData : RuleData noText where
  type := .cooldown
  config := minuteCooldown
  isActive := true
  isPublic := true
  version := "1.0"
  valid := ⟨minuteCooldown, rfl⟩

/-- The fingerprints of the two configurations. -/
def shortDigest (config : Json) : String :=
  if config = dailyLimit then "443899144c0b" else "d876aaf9c061"

theorem limitAndCooldown_isolated :
    ∃ t, Runs.run Operation.step
        [.create 7 (dailyLimitData "1.0"), .create 7 minuteCooldownData] RuleTable.empty = some t ∧
      (statefulRules t 7).length = 2 ∧
      ((statefulRules t 7).map (fun rule => stateKey shortDigest rule 3 0)).Nodup := by
  refine ⟨_, rfl, by decide +kernel, @stateful_rules_isolated noText shortDigest ?_
    [.create 7 (dailyLimitData "1.0"), .create 7 minuteCooldownData] _ rfl ?_ ?_ 7 3 _⟩
  · intro config
    unfold shortDigest
    split <;> decide
  · decide +kernel
  · refine ⟨fun rule hrule => absurd hrule List.not_mem_nil, fun t ht => ⟨?_, fun _ _ => trivial⟩⟩
    obtain rfl := Option.some.inj ht
    intro rule hrule hqueue hclash
    obtain rfl := List.mem_singleton.mp hrule
    exact absurd hclash.1 (by decide)

/-- The two versions of `rate_limit` with one configuration count on one
counter. -/
theorem twoVersions_shareCounter :
    ∃ t, Runs.run Operation.step
        [.create 7 (dailyLimitData "1.0"), .create 7 (dailyLimitData "1.1")] RuleTable.empty =
          some t ∧
      ∀ (fingerprint : Json → String) (userId : Nat) (bucket : Int),
        ¬ ((statefulRules t 7).map
          (fun rule => stateKey fingerprint rule userId bucket)).Nodup := by
  refine ⟨_, rfl, fun fingerprint userId bucket hnodup => ?_⟩
  have hboth :
      statefulRules ⟨[(dailyLimitData "1.0").row 7 1, (dailyLimitData "1.1").row 7 2], 3⟩ 7 =
      [(dailyLimitData "1.0").row 7 1, (dailyLimitData "1.1").row 7 2] := by decide +kernel
  have hkeys := hboth ▸ hnodup
  exact (List.nodup_cons.mp hkeys).1 (List.mem_singleton.mpr rfl)

end Graveboards.Rules
