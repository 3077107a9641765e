import Graveboards.Library.Canonical
import Graveboards.Library.Runs
import Graveboards.Rules.Pipeline

/-!
The rules of the queues as `crud/rules.py` keeps them. Every operation runs in
one transaction: what it raises leaves the table as it was. The duplicate
checks of the four operations use different keys; this module finds what they
guarantee together, over any sequence of calls.
-/

namespace Graveboards.Rules

open Library

/-- A row of `queue_rules`. -/
structure QueueRule extends EngineRule where
  queueId : Nat
  isPublic : Bool
  deriving DecidableEq

/-- The table, in the order of the ids, and the next id of its sequence. -/
structure RuleTable where
  rules : List QueueRule
  nextId : Nat
  deriving DecidableEq

namespace RuleTable

def empty : RuleTable := ⟨[], 1⟩

def getRules (t : RuleTable) (queueId : Nat) : List QueueRule :=
  t.rules.filter (fun rule => rule.queueId = queueId)

/-- `get_rule`. -/
def getRule (t : RuleTable) (queueId ruleId : Nat) : Option QueueRule :=
  t.rules.find? (fun rule => rule.id = ruleId && rule.queueId = queueId)

end RuleTable

inductive CrudError where
  | badRequest (message : String)
  | invalidConfig (message : String) (failure : Failure)
  | conflict (message : String)
  | dataError
  deriving DecidableEq

/-- `_normalize_config`, as the document whose text is compared. -/
def normalizeConfig (config : Json) : Json := config.sortAll

/-- `_validate_rule_version`. -/
def validateRuleVersion (ruleType version : String) : Except CrudError Unit :=
  match getSupportedVersions ruleType with
  | none => .ok ()
  | some supported =>
      if version ∈ supported then .ok ()
      else .error (.badRequest ("Unsupported version '" ++ version ++ "' for rule type '" ++
        ruleType ++ "'. Supported: " ++ String.intercalate ", " supported))

section Operations

variable (text : TextReaders)

/-- A rule as `RuleCreateSchema` or `RuleReplaceSchema` lets it through. -/
structure RuleData where
  type : RuleType
  config : Json
  isActive : Bool
  isPublic : Bool
  version : String
  valid : ∃ sent, validateRuleConfig text type.name sent = .ok config

/-- The argument of `update_rule`. A field that is absent and one that is null
are treated alike; `others` are the fields that may not be updated. -/
structure RuleUpdates where
  others : List String
  isActive : Option Bool
  isPublic : Option Bool
  config : Option Json
  version : Option String
  deriving DecidableEq

variable {text}

/-- Type, version and configuration, which decide whether two rules are the
same. -/
abbrev Written := String × String × Json

def QueueRule.written (rule : QueueRule) : Written := (rule.type, rule.version, rule.config)

def RuleData.written (data : RuleData text) : Written := (data.type.name, data.version, data.config)

/-- The key of the duplicate checks of `create_rule` and `update_rule`. -/
def ruleKey (written : Written) : Written := (written.1, written.2.1, normalizeConfig written.2.2)

def RuleData.row (data : RuleData text) (queueId id : Nat) : QueueRule where
  id := id
  type := data.type.name
  version := data.version
  config := data.config
  isActive := data.isActive
  queueId := queueId
  isPublic := data.isPublic

/-- The column `version` holds ten characters. -/
def fitsColumn (version : String) : Bool := version.length ≤ 10

/-- Append rows; the flush fails on a version that is too long. -/
def addRules (queueId : Nat) (t : RuleTable) : List (RuleData text) → Except CrudError RuleTable
  | [] => .ok t
  | data :: rest =>
      if fitsColumn data.version then
        addRules queueId ⟨t.rules ++ [data.row queueId t.nextId], t.nextId + 1⟩ rest
      else .error .dataError

def createRule (queueId : Nat) (data : RuleData text) (t : RuleTable) :
    Except CrudError RuleTable := do
  validateRuleVersion data.type.name data.version
  if (t.getRules queueId).any (fun rule => ruleKey rule.written = ruleKey data.written) then
    .error (.conflict ("Duplicate rule: " ++ data.type.name ++ " v" ++ data.version ++
      " with the same configuration has already been added."))
  else addRules queueId t [data]

/-- The loop over the input of `upsert_rules`, with the keys it has seen. -/
def checkReplacement : List (RuleData text) → List (String × Json) → Except CrudError Unit
  | [], _ => .ok ()
  | data :: rest, seen => do
      validateRuleVersion data.type.name data.version
      let key := (data.type.name, normalizeConfig data.config)
      if key ∈ seen then
        .error (.conflict ("Duplicate rule: " ++ data.type.name ++ " with the " ++
          "same configuration has already been added."))
      else checkReplacement rest (key :: seen)

def deleteAll (queueId : Nat) (t : RuleTable) : RuleTable :=
  { t with rules := t.rules.filter (fun rule => rule.queueId ≠ queueId) }

def upsertRules (queueId : Nat) (rulesData : List (RuleData text)) (t : RuleTable) :
    Except CrudError RuleTable := do
  if rulesData.isEmpty then return deleteAll queueId t
  checkReplacement rulesData []
  addRules queueId (deleteAll queueId t) rulesData

/-- The configuration `update_rule` goes on with, revalidated against the
type of the rule. -/
def revalidated (text : TextReaders) (rule : QueueRule) (config : Option Json) :
    Except CrudError (Option Json) :=
  match config with
  | none => .ok none
  | some sent =>
      match validateRuleConfig text rule.type sent with
      | .ok config => .ok (some config)
      | .error failure =>
          .error (.invalidConfig ("Invalid config for rule type '" ++ rule.type ++ "': ") failure)

def checkUpdatedVersion (rule : QueueRule) : Option String → Except CrudError Unit
  | none => .ok ()
  | some version => validateRuleVersion rule.type version

/-- `updates.get("version") or rule.version`: an empty version counts as
none. -/
def finalVersion (rule : QueueRule) (version : Option String) : String :=
  match version with
  | some version => if version = "" then rule.version else version
  | none => rule.version

/-- The `setattr` loop. -/
def patched (rule : QueueRule) (updates : RuleUpdates) (config : Option Json) : QueueRule :=
  { rule with
    isActive := updates.isActive.getD rule.isActive
    isPublic := updates.isPublic.getD rule.isPublic
    config := config.getD rule.config
    version := updates.version.getD rule.version }

def replaceRule (t : RuleTable) (ruleId : Nat) (rule : QueueRule) : RuleTable :=
  { t with rules := t.rules.map (fun other => if other.id = ruleId then rule else other) }

def updateRule (text : TextReaders) (ruleId queueId : Nat) (updates : RuleUpdates) (t : RuleTable) :
    Except CrudError RuleTable := do
  if !updates.others.isEmpty then
    .error (.badRequest ("These rule fields cannot be updated: " ++
      String.intercalate ", " (updates.others.insertionSort (· ≤ ·))))
  else
    match t.getRule queueId ruleId with
    | none => return t
    | some rule =>
        let config ← revalidated text rule updates.config
        checkUpdatedVersion rule updates.version
        let newKey := ruleKey (rule.type, finalVersion rule updates.version,
          config.getD rule.config)
        if (t.getRules queueId).any
            (fun other => other.id ≠ ruleId && ruleKey other.written = newKey) then
          .error (.conflict ("This update would duplicate an existing " ++ rule.type ++
            " rule with the same configuration in this queue."))
        else if fitsColumn (updates.version.getD rule.version) then
          return replaceRule t ruleId (patched rule updates config)
        else .error .dataError

def deleteRule (ruleId queueId : Nat) (t : RuleTable) : RuleTable :=
  { t with rules := t.rules.filter (fun rule => !(rule.id = ruleId && rule.queueId = queueId)) }

variable (text) in
inductive Operation where
  | create (queueId : Nat) (data : RuleData text)
  | update (ruleId queueId : Nat) (updates : RuleUpdates)
  | upsert (queueId : Nat) (rulesData : List (RuleData text))
  | delete (ruleId queueId : Nat)

namespace Operation

def perform : Operation text → RuleTable → Except CrudError RuleTable
  | .create queueId data, t => createRule queueId data t
  | .update ruleId queueId updates, t => updateRule text ruleId queueId updates t
  | .upsert queueId rulesData, t => upsertRules queueId rulesData t
  | .delete ruleId queueId, t => .ok (deleteRule ruleId queueId t)

/-- The call in its transaction: committed, or rolled back and raised. -/
def call (op : Operation text) (t : RuleTable) : Option CrudError × RuleTable :=
  match op.perform t with
  | .ok t' => (none, t')
  | .error e => (some e, t)

def step (op : Operation text) (t : RuleTable) : Option RuleTable := some (op.call t).2

end Operation

/-! What the operations keep. -/

/-- No two rules of a queue clash. -/
def Separated (clash : Written → Written → Prop) (t : RuleTable) : Prop :=
  ∀ r ∈ t.rules, ∀ s ∈ t.rules, r.queueId = s.queueId → clash r.written s.written → r.id = s.id

variable (text) in
/-- The table row by row. -/
structure WellFormed (t : RuleTable) : Prop where
  ids_lt : ∀ rule ∈ t.rules, rule.id < t.nextId
  nodup : (t.rules.map (fun rule => rule.id)).Nodup
  configs : ∀ rule ∈ t.rules, validateRuleConfig text rule.type rule.config = .ok rule.config
  versions : ∀ rule ∈ t.rules, ∀ supported, getSupportedVersions rule.type = some supported →
    rule.version ∈ supported

/-- Every rule of the later table that is not new has the type and the queue
it had in the earlier one. -/
structure Kept (t t' : RuleTable) : Prop where
  nextId : t.nextId ≤ t'.nextId
  identity : ∀ rule' ∈ t'.rules, rule'.id < t.nextId →
    ∃ rule ∈ t.rules, rule.id = rule'.id ∧ rule.type = rule'.type ∧ rule.queueId = rule'.queueId

theorem Kept.refl (t : RuleTable) : Kept t t :=
  ⟨le_rfl, fun rule hrule _ => ⟨rule, hrule, rfl, rfl, rfl⟩⟩

theorem Kept.trans {t t' t'' : RuleTable} (h : Kept t t') (h' : Kept t' t'') : Kept t t'' where
  nextId := h.nextId.trans h'.nextId
  identity := by
    intro rule'' hrule'' hid
    obtain ⟨rule', hrule', hid', htype', hqueue'⟩ :=
      h'.identity rule'' hrule'' (hid.trans_le h.nextId)
    obtain ⟨rule, hrule, hid₀, htype, hqueue⟩ := h.identity rule' hrule' (hid' ▸ hid)
    exact ⟨rule, hrule, hid₀.trans hid', htype.trans htype', hqueue.trans hqueue'⟩

theorem version_supported {ruleType version : String}
    (h : validateRuleVersion ruleType version = .ok ()) :
    ∀ supported, getSupportedVersions ruleType = some supported → version ∈ supported := by
  intro supported hsupported
  by_contra hversion
  simp [validateRuleVersion, hsupported, hversion] at h

theorem RuleData.config_fixed (data : RuleData text) :
    validateRuleConfig text data.type.name data.config = .ok data.config := by
  obtain ⟨sent, hsent⟩ := data.valid
  exact validateRuleConfig_idempotent text hsent

/-! Rows that go. -/

section Filter

variable (keep : QueueRule → Bool) {t : RuleTable}

theorem Separated.filter {clash : Written → Written → Prop} (h : Separated clash t) :
    Separated clash { t with rules := t.rules.filter keep } :=
  fun r hr s hs => h r (List.mem_of_mem_filter hr) s (List.mem_of_mem_filter hs)

theorem WellFormed.filter (h : WellFormed text t) :
    WellFormed text { t with rules := t.rules.filter keep } where
  ids_lt := fun rule hrule => h.ids_lt rule (List.mem_of_mem_filter hrule)
  nodup := h.nodup.sublist (List.filter_sublist.map _)
  configs := fun rule hrule => h.configs rule (List.mem_of_mem_filter hrule)
  versions := fun rule hrule => h.versions rule (List.mem_of_mem_filter hrule)

theorem kept_filter : Kept t { t with rules := t.rules.filter keep } :=
  ⟨le_rfl, fun rule hrule _ => ⟨rule, List.mem_of_mem_filter hrule, rfl, rfl, rfl⟩⟩

end Filter

/-! Rows that come. -/

section Append

variable {queueId : Nat} {t : RuleTable}

def appended (queueId : Nat) (t : RuleTable) (data : RuleData text) : RuleTable :=
  ⟨t.rules ++ [data.row queueId t.nextId], t.nextId + 1⟩

theorem mem_appended {data : RuleData text} {rule : QueueRule} :
    rule ∈ (appended queueId t data).rules ↔
      rule ∈ t.rules ∨ rule = data.row queueId t.nextId := by
  simp [appended]

theorem addRules_cons {data : RuleData text} {rest : List (RuleData text)} {t' : RuleTable}
    (h : addRules queueId t (data :: rest) = .ok t') :
    addRules queueId (appended queueId t data) rest = .ok t' := by
  rw [addRules] at h
  split at h
  · exact h
  · cases h

theorem WellFormed.append (h : WellFormed text t) {data : RuleData text}
    (hversion : validateRuleVersion data.type.name data.version = .ok ()) :
    WellFormed text (appended queueId t data) where
  ids_lt := by
    intro rule hrule
    rcases mem_appended.mp hrule with hold | rfl
    · exact Nat.lt_succ_of_lt (h.ids_lt rule hold)
    · exact Nat.lt_succ_self _
  nodup := by
    refine (List.map_append ▸ List.nodup_append).mpr ⟨h.nodup, List.nodup_singleton _, ?_⟩
    intro id hid id' hid' heq
    obtain ⟨rule, hrule, rfl⟩ := List.mem_map.mp hid
    obtain rfl := List.mem_singleton.mp hid'
    exact absurd heq (h.ids_lt rule hrule).ne
  configs := by
    intro rule hrule
    rcases mem_appended.mp hrule with hold | rfl
    · exact h.configs rule hold
    · exact data.config_fixed
  versions := by
    intro rule hrule
    rcases mem_appended.mp hrule with hold | rfl
    · exact h.versions rule hold
    · exact version_supported hversion

theorem WellFormed.addRules {rulesData : List (RuleData text)} {t' : RuleTable}
    (h : WellFormed text t)
    (hversions : ∀ data ∈ rulesData, validateRuleVersion data.type.name data.version = .ok ())
    (hadd : addRules queueId t rulesData = .ok t') : WellFormed text t' := by
  induction rulesData generalizing t with
  | nil =>
      obtain rfl := Except.ok.inj hadd
      exact h
  | cons data rest ih =>
      exact ih (h.append (hversions data List.mem_cons_self))
        (fun later hlater => hversions later (List.mem_cons_of_mem _ hlater)) (addRules_cons hadd)

theorem kept_addRules {rulesData : List (RuleData text)} {t' : RuleTable}
    (hadd : addRules queueId t rulesData = .ok t') : Kept t t' := by
  induction rulesData generalizing t with
  | nil =>
      obtain rfl := Except.ok.inj hadd
      exact Kept.refl t
  | cons data rest ih =>
      refine Kept.trans ⟨Nat.le_succ _, ?_⟩ (ih (addRules_cons hadd))
      intro rule hrule hid
      rcases mem_appended.mp hrule with hold | rfl
      · exact ⟨rule, hold, rfl, rfl, rfl⟩
      · exact absurd hid (lt_irrefl _)

variable {clash : Written → Written → Prop}

/-- New rows keep the queue separated if they clash neither with its rows nor
with each other. -/
theorem Separated.addRules (hsymm : ∀ a b, clash a b → clash b a)
    {rulesData : List (RuleData text)} {t' : RuleTable} (h : Separated clash t)
    (hold : ∀ data ∈ rulesData, ∀ rule ∈ t.rules, rule.queueId = queueId →
      ¬ clash rule.written data.written)
    (hnew : rulesData.Pairwise (fun a b => ¬ clash a.written b.written))
    (hadd : addRules queueId t rulesData = .ok t') : Separated clash t' := by
  induction rulesData generalizing t with
  | nil =>
      obtain rfl := Except.ok.inj hadd
      exact h
  | cons data rest ih =>
      obtain ⟨hlater, hrest⟩ := List.pairwise_cons.mp hnew
      refine ih ?_ ?_ hrest (addRules_cons hadd)
      · intro r hr s hs hqueue hclash
        rcases mem_appended.mp hr with hr | rfl <;> rcases mem_appended.mp hs with hs | rfl
        · exact h r hr s hs hqueue hclash
        · exact absurd hclash (hold data List.mem_cons_self r hr hqueue)
        · exact absurd (hsymm _ _ hclash) (hold data List.mem_cons_self s hs hqueue.symm)
        · rfl
      · intro later hmem rule hrule hqueue
        rcases mem_appended.mp hrule with hrule | rfl
        · exact hold later (List.mem_cons_of_mem _ hmem) rule hrule hqueue
        · exact hlater later hmem

end Append

/-! A row that changes. -/

section Replace

variable {ruleId queueId : Nat} {t : RuleTable} {rule : QueueRule}

theorem getRule_eq_some (h : t.getRule queueId ruleId = some rule) :
    rule ∈ t.rules ∧ rule.id = ruleId ∧ rule.queueId = queueId := by
  have hfound := List.find?_some h
  simp only [Bool.and_eq_true, decide_eq_true_eq] at hfound
  exact ⟨List.mem_of_find?_eq_some h, hfound⟩

theorem mem_replaceRule {other : QueueRule} (h : other ∈ (replaceRule t ruleId rule).rules) :
    (other ∈ t.rules ∧ other.id ≠ ruleId) ∨
      (other = rule ∧ ∃ old ∈ t.rules, old.id = ruleId) := by
  obtain ⟨old, hold, rfl⟩ := List.mem_map.mp h
  split
  · next hid => exact Or.inr ⟨rfl, old, hold, hid⟩
  · next hid => exact Or.inl ⟨hold, hid⟩

theorem map_id_replaceRule (hid : rule.id = ruleId) :
    (replaceRule t ruleId rule).rules.map (fun r => r.id) = t.rules.map (fun r => r.id) := by
  rw [replaceRule, List.map_map]
  refine List.map_congr_left (fun old _ => ?_)
  by_cases h : old.id = ruleId <;> simp [h, hid]

theorem WellFormed.replace (h : WellFormed text t) (hid : rule.id = ruleId)
    (hconfig : validateRuleConfig text rule.type rule.config = .ok rule.config)
    (hversion : ∀ supported, getSupportedVersions rule.type = some supported →
      rule.version ∈ supported) : WellFormed text (replaceRule t ruleId rule) where
  ids_lt := by
    intro other hother
    rcases mem_replaceRule hother with ⟨hold, -⟩ | ⟨rfl, old, hold, hsame⟩
    · exact h.ids_lt other hold
    · exact hid.trans hsame.symm ▸ h.ids_lt old hold
  nodup := by rw [map_id_replaceRule hid]; exact h.nodup
  configs := by
    intro other hother
    rcases mem_replaceRule hother with ⟨hold, -⟩ | ⟨rfl, -⟩
    · exact h.configs other hold
    · exact hconfig
  versions := by
    intro other hother
    rcases mem_replaceRule hother with ⟨hold, -⟩ | ⟨rfl, -⟩
    · exact h.versions other hold
    · exact hversion

theorem kept_replaceRule {old : QueueRule} (hold : old ∈ t.rules) (hid : old.id = rule.id)
    (htype : old.type = rule.type) (hqueue : old.queueId = rule.queueId) :
    Kept t (replaceRule t ruleId rule) := by
  refine ⟨le_rfl, fun other hother _ => ?_⟩
  rcases mem_replaceRule hother with ⟨hmem, -⟩ | ⟨rfl, -⟩
  · exact ⟨other, hmem, rfl, rfl, rfl⟩
  · exact ⟨old, hold, hid, htype, hqueue⟩

theorem Separated.replace {clash : Written → Written → Prop} (hsymm : ∀ a b, clash a b → clash b a)
    (h : Separated clash t)
    (hothers : ∀ other ∈ t.rules, other.queueId = rule.queueId → other.id ≠ ruleId →
      ¬ clash other.written rule.written) : Separated clash (replaceRule t ruleId rule) := by
  intro r hr s hs hqueue hclash
  rcases mem_replaceRule hr with ⟨hold, hrid⟩ | ⟨hnew, -⟩ <;>
    rcases mem_replaceRule hs with ⟨hold', hsid⟩ | ⟨hnew', -⟩
  · exact h r hold s hold' hqueue hclash
  · subst hnew'
    exact absurd hclash (hothers r hold hqueue hrid)
  · subst hnew
    exact absurd (hsymm _ _ hclash) (hothers s hold' hqueue.symm hsid)
  · rw [hnew, hnew']

end Replace

/-! What a call that went through has checked. -/

section Checked

variable {ruleId queueId : Nat} {t t' : RuleTable}

theorem createRule_ok {data : RuleData text} (h : createRule queueId data t = .ok t') :
    validateRuleVersion data.type.name data.version = .ok () ∧
      (∀ rule ∈ t.rules, rule.queueId = queueId →
        ruleKey rule.written ≠ ruleKey data.written) ∧
      addRules queueId t [data] = .ok t' := by
  obtain ⟨⟨⟩, hversion, hrest⟩ := bind_eq_ok h
  split at hrest
  · cases hrest
  · next hfresh =>
      refine ⟨hversion, fun rule hrule hqueue hkey => hfresh ?_, hrest⟩
      exact List.any_eq_true.mpr
        ⟨rule, List.mem_filter.mpr ⟨hrule, decide_eq_true hqueue⟩, decide_eq_true hkey⟩

theorem checkReplacement_ok {rulesData : List (RuleData text)} {seen : List (String × Json)}
    (h : checkReplacement rulesData seen = .ok ()) :
    (∀ data ∈ rulesData, validateRuleVersion data.type.name data.version = .ok () ∧
      (data.type.name, normalizeConfig data.config) ∉ seen) ∧
    rulesData.Pairwise (fun a b => (a.type.name, normalizeConfig a.config) ≠
      (b.type.name, normalizeConfig b.config)) := by
  induction rulesData generalizing seen with
  | nil => simp
  | cons data rest ih =>
      obtain ⟨⟨⟩, hversion, hrest⟩ := bind_eq_ok h
      dsimp only at hrest
      split at hrest
      · cases hrest
      · next hnew =>
          obtain ⟨hlater, hpairs⟩ := ih hrest
          refine ⟨?_, List.pairwise_cons.mpr ⟨?_, hpairs⟩⟩
          · intro other hother
            rcases List.mem_cons.mp hother with rfl | hother
            · exact ⟨hversion, hnew⟩
            · exact ⟨(hlater other hother).1, fun hseen =>
                (hlater other hother).2 (List.mem_cons_of_mem _ hseen)⟩
          · intro other hother hsame
            exact (hlater other hother).2 (hsame ▸ List.mem_cons_self)

theorem upsertRules_ok {rulesData : List (RuleData text)}
    (h : upsertRules queueId rulesData t = .ok t') :
    t' = deleteAll queueId t ∨
      (checkReplacement rulesData [] = .ok () ∧
        addRules queueId (deleteAll queueId t) rulesData = .ok t') := by
  unfold upsertRules at h
  split at h
  · exact Or.inl (Except.ok.inj h).symm
  · obtain ⟨⟨⟩, hcheck, hadd⟩ := bind_eq_ok h
    exact Or.inr ⟨hcheck, hadd⟩

/-- An update that changed a row. -/
structure Updated (text : TextReaders) (ruleId queueId : Nat) (updates : RuleUpdates)
    (t t' : RuleTable) (rule : QueueRule) (config : Option Json) : Prop where
  found : t.getRule queueId ruleId = some rule
  validated : revalidated text rule updates.config = .ok config
  supported : checkUpdatedVersion rule updates.version = .ok ()
  fresh : ∀ other ∈ t.rules, other.queueId = queueId → other.id ≠ ruleId →
    ruleKey other.written ≠
      ruleKey (rule.type, finalVersion rule updates.version, config.getD rule.config)
  result : t' = replaceRule t ruleId (patched rule updates config)

theorem updateRule_ok {updates : RuleUpdates}
    (h : updateRule text ruleId queueId updates t = .ok t') :
    t' = t ∨ ∃ rule config, Updated text ruleId queueId updates t t' rule config := by
  unfold updateRule at h
  split at h
  · cases h
  · split at h
    · exact Or.inl (Except.ok.inj h).symm
    · next rule hfound =>
        obtain ⟨config, hconfig, h⟩ := bind_eq_ok h
        obtain ⟨⟨⟩, hversion, h⟩ := bind_eq_ok h
        dsimp only at h
        split at h
        · cases h
        · next hfresh =>
            split at h
            · refine Or.inr ⟨rule, config, hfound, hconfig, hversion, ?_, (Except.ok.inj h).symm⟩
              intro other hother hqueue hid hkey
              refine hfresh (List.any_eq_true.mpr ⟨other, ?_, ?_⟩)
              · exact List.mem_filter.mpr ⟨hother, decide_eq_true hqueue⟩
              · exact Bool.and_eq_true_iff.mpr ⟨decide_eq_true hid, decide_eq_true hkey⟩
            · cases h

end Checked

/-! The table over a sequence of calls. -/

/-- The clash that `create_rule` and `update_rule` refuse. -/
def SameKey (a b : Written) : Prop := ruleKey a = ruleKey b

variable (text) in
/-- No two rules of a queue have the same type, version and configuration, and
every row is well formed. -/
structure RuleSet (t : RuleTable) : Prop where
  wellFormed : WellFormed text t
  separated : Separated SameKey t

/-- The update does not supply an empty version. -/
def NonEmptyVersion : Operation text → RuleTable → Prop
  | .update _ _ updates, _ => updates.version ≠ some ""
  | _, _ => True

instance : (op : Operation text) → (t : RuleTable) → Decidable (NonEmptyVersion op t)
  | .update _ _ updates, _ => inferInstanceAs (Decidable (updates.version ≠ some ""))
  | .create _ _, _ | .upsert _ _, _ | .delete _ _, _ => isTrue trivial

theorem revalidated_fixed {rule : QueueRule} {sent config : Option Json}
    (hrule : validateRuleConfig text rule.type rule.config = .ok rule.config)
    (h : revalidated text rule sent = .ok config) :
    validateRuleConfig text rule.type (config.getD rule.config) =
      .ok (config.getD rule.config) := by
  cases sent with
  | none =>
      obtain rfl := Except.ok.inj h
      exact hrule
  | some sent =>
      rw [revalidated] at h
      split at h
      · next stored hstored =>
          obtain rfl := Except.ok.inj h
          exact validateRuleConfig_idempotent text hstored
      · cases h

section Updated

variable {ruleId queueId : Nat} {t t' : RuleTable} {updates : RuleUpdates} {rule : QueueRule}
  {config : Option Json}

theorem Updated.wellFormed (h : Updated text ruleId queueId updates t t' rule config)
    (ht : WellFormed text t) : WellFormed text t' := by
  obtain ⟨hmem, hid, -⟩ := getRule_eq_some h.found
  rw [h.result]
  refine ht.replace hid (revalidated_fixed (ht.configs rule hmem) h.validated) ?_
  cases hversion : updates.version with
  | none => simpa [patched, hversion] using ht.versions rule hmem
  | some version =>
      have hsupported := h.supported
      rw [hversion] at hsupported
      simpa [patched, hversion] using version_supported hsupported

theorem Updated.kept (h : Updated text ruleId queueId updates t t' rule config) : Kept t t' := by
  rw [h.result]
  exact kept_replaceRule (getRule_eq_some h.found).1 rfl rfl rfl

/-- The key that was checked is the key that is stored, unless the version
supplied is empty. -/
theorem written_patched (hversion : updates.version ≠ some "") :
    (patched rule updates config).written =
      (rule.type, finalVersion rule updates.version, config.getD rule.config) := by
  cases hsent : updates.version with
  | none => simp [patched, QueueRule.written, finalVersion, hsent]
  | some version =>
      have hne : version ≠ "" := fun hempty => hversion (hempty ▸ hsent)
      simp [patched, QueueRule.written, finalVersion, hsent, hne]

theorem Updated.separated (h : Updated text ruleId queueId updates t t' rule config)
    (hversion : updates.version ≠ some "") (ht : Separated SameKey t) : Separated SameKey t' := by
  obtain ⟨-, -, hqueue⟩ := getRule_eq_some h.found
  rw [h.result]
  refine ht.replace (fun _ _ => Eq.symm) (fun other hother hsame hid hclash => ?_)
  rw [SameKey, written_patched hversion] at hclash
  exact h.fresh other hother (hsame.trans hqueue) hid hclash

end Updated

section Step

variable {op : Operation text} {t t' : RuleTable}

theorem WellFormed.perform (h : WellFormed text t) (hop : op.perform t = .ok t') :
    WellFormed text t' := by
  cases op with
  | create queueId data =>
      obtain ⟨hversion, -, hadd⟩ := createRule_ok hop
      exact h.addRules (by simpa using hversion) hadd
  | update ruleId queueId updates =>
      rcases updateRule_ok hop with rfl | ⟨rule, config, hupdated⟩
      · exact h
      · exact hupdated.wellFormed h
  | upsert queueId rulesData =>
      rcases upsertRules_ok hop with rfl | ⟨hcheck, hadd⟩
      · exact h.filter _
      · exact (h.filter _).addRules
          (fun data hdata => ((checkReplacement_ok hcheck).1 data hdata).1)
          hadd
  | delete ruleId queueId =>
      obtain rfl := Except.ok.inj hop
      exact h.filter _

theorem kept_perform (hop : op.perform t = .ok t') : Kept t t' := by
  cases op with
  | create queueId data => exact kept_addRules (createRule_ok hop).2.2
  | update ruleId queueId updates =>
      rcases updateRule_ok hop with rfl | ⟨rule, config, hupdated⟩
      · exact Kept.refl _
      · exact hupdated.kept
  | upsert queueId rulesData =>
      rcases upsertRules_ok hop with rfl | ⟨-, hadd⟩
      · exact kept_filter _
      · exact (kept_filter _).trans (kept_addRules hadd)
  | delete ruleId queueId =>
      obtain rfl := Except.ok.inj hop
      exact kept_filter _

/-- A replacement separates its queue in any way that follows from type and
configuration alone. -/
theorem separated_upsert {queueId : Nat} {rulesData : List (RuleData text)}
    {clash : Written → Written → Prop} (hsymm : ∀ a b, clash a b → clash b a)
    (hconfig : ∀ a b, clash a b → (a.1, normalizeConfig a.2.2) = (b.1, normalizeConfig b.2.2))
    (h : Separated clash t) (hop : upsertRules queueId rulesData t = .ok t') :
    Separated clash t' := by
  rcases upsertRules_ok hop with rfl | ⟨hcheck, hadd⟩
  · exact h.filter _
  · refine (h.filter _).addRules hsymm ?_ ?_ hadd
    · intro data _ rule hrule hqueue
      exact absurd hqueue (by simpa using (List.mem_filter.mp hrule).2)
    · exact (checkReplacement_ok hcheck).2.imp (fun hne hclash => hne (hconfig _ _ hclash))

theorem RuleSet.perform (h : RuleSet text t) (hmeets : NonEmptyVersion op t)
    (hop : op.perform t = .ok t') : RuleSet text t' := by
  refine ⟨h.wellFormed.perform hop, ?_⟩
  cases op with
  | create queueId data =>
      obtain ⟨-, hfresh, hadd⟩ := createRule_ok hop
      exact h.separated.addRules (fun _ _ => Eq.symm) (by simpa [SameKey] using hfresh)
        (List.pairwise_singleton _ _) hadd
  | update ruleId queueId updates =>
      rcases updateRule_ok hop with rfl | ⟨rule, config, hupdated⟩
      · exact h.separated
      · exact hupdated.separated hmeets h.separated
  | upsert queueId rulesData =>
      refine separated_upsert (fun _ _ => Eq.symm) (fun a b hsame => ?_) h.separated hop
      simp only [SameKey, ruleKey, Prod.mk.injEq] at hsame
      rw [hsame.1, hsame.2.2]
  | delete ruleId queueId =>
      obtain rfl := Except.ok.inj hop
      exact h.separated.filter _

theorem call_ok_or_raised (op : Operation text) (t : RuleTable) :
    (op.perform t = .ok (op.call t).2 ∧ (op.call t).1 = none) ∨ (op.call t).2 = t := by
  unfold Operation.call
  split
  · next t' hop => exact Or.inl ⟨hop, rfl⟩
  · exact Or.inr rfl

theorem RuleSet.step (h : RuleSet text t) (hmeets : NonEmptyVersion op t)
    (hstep : op.step t = some t') : RuleSet text t' := by
  obtain rfl := Option.some.inj hstep
  rcases call_ok_or_raised op t with ⟨hop, -⟩ | hraised
  · exact h.perform hmeets hop
  · rwa [hraised]

theorem WellFormed.step (h : WellFormed text t) (hstep : op.step t = some t') :
    WellFormed text t' := by
  obtain rfl := Option.some.inj hstep
  rcases call_ok_or_raised op t with ⟨hop, -⟩ | hraised
  · exact h.perform hop
  · rwa [hraised]

theorem kept_step (hstep : op.step t = some t') : Kept t t' := by
  obtain rfl := Option.some.inj hstep
  rcases call_ok_or_raised op t with ⟨hop, -⟩ | hraised
  · exact kept_perform hop
  · rw [hraised]
    exact Kept.refl t

end Step

theorem wellFormed_empty : WellFormed text RuleTable.empty :=
  ⟨by simp [RuleTable.empty], by simp [RuleTable.empty], by simp [RuleTable.empty],
    by simp [RuleTable.empty]⟩

theorem separated_empty (clash : Written → Written → Prop) : Separated clash RuleTable.empty := by
  simp [Separated, RuleTable.empty]

theorem Separated.pairwise {clash : Written → Written → Prop} {t : RuleTable}
    (h : Separated clash t) (hnodup : (t.rules.map (fun rule => rule.id)).Nodup) :
    t.rules.Pairwise (fun r s => r.queueId = s.queueId → ¬ clash r.written s.written) :=
  (List.pairwise_map.mp hnodup).imp_of_mem
    (fun hr hs hne hqueue hclash => hne (h _ hr _ hs hqueue hclash))

theorem Kept.same {t t' : RuleTable} (h : Kept t t') (ht : WellFormed text t)
    {rule rule' : QueueRule} (hrule : rule ∈ t.rules) (hrule' : rule' ∈ t'.rules)
    (hid : rule.id = rule'.id) :
    rule.type = rule'.type ∧ rule.queueId = rule'.queueId := by
  obtain ⟨old, hold, hsame, htype, hqueue⟩ :=
    h.identity rule' hrule' (hid ▸ ht.ids_lt rule hrule)
  obtain rfl : old = rule :=
    List.inj_on_of_nodup_map ht.nodup hold hrule (hsame.trans hid.symm)
  exact ⟨htype, hqueue⟩

end Operations

/-- What holds after any sequence of calls none of which supplies an empty
version: no two rules of a queue share type, version and normalised
configuration, every row passes its own validation, a rule keeps its type and
its queue, and a call that raises changes nothing. -/
theorem rules_consistent_after_calls (text : TextReaders) {earlier later : List (Operation text)}
    {t t' : RuleTable} (hearlier : Runs.run Operation.step earlier RuleTable.empty = some t)
    (hlater : Runs.run Operation.step later t = some t')
    (hmeets : Runs.Meets Operation.step NonEmptyVersion (earlier ++ later) RuleTable.empty) :
    t'.rules.Pairwise
      (fun r s => r.queueId = s.queueId → ruleKey r.written ≠ ruleKey s.written) ∧
    (∀ rule ∈ t'.rules, validateRuleConfig text rule.type rule.config = .ok rule.config ∧
      ∀ supported, getSupportedVersions rule.type = some supported → rule.version ∈ supported) ∧
    (∀ rule ∈ t.rules, ∀ rule' ∈ t'.rules, rule.id = rule'.id →
      rule.type = rule'.type ∧ rule.queueId = rule'.queueId) ∧
    ∀ (op : Operation text) (e : CrudError) (after : RuleTable),
      op.call t' = (some e, after) → after = t' := by
  have hset : RuleSet text t' :=
    Runs.invariant_of_run (RuleSet text) (fun _ _ _ h hop hstep => h.step hop hstep)
      ⟨wellFormed_empty, separated_empty _⟩ hmeets
      (by rw [Runs.run_append, hearlier]; exact hlater)
  have hformed : WellFormed text t :=
    Runs.invariant_of_steps (WellFormed text) (fun _ _ _ h hstep => h.step hstep)
      wellFormed_empty hearlier
  have hkept : Kept t t' :=
    Runs.invariant_of_steps (Kept t) (fun _ _ _ h hstep => h.trans (kept_step hstep))
      (Kept.refl t) hlater
  refine ⟨hset.separated.pairwise hset.wellFormed.nodup,
    fun rule hrule => ⟨hset.wellFormed.configs rule hrule, hset.wellFormed.versions rule hrule⟩,
    fun rule hrule rule' hrule' hid => hkept.same hformed hrule hrule' hid, ?_⟩
  intro op e after hcall
  rcases call_ok_or_raised op t' with ⟨-, hnone⟩ | hraised
  · rw [hcall] at hnone
    cases hnone
  · rw [hcall] at hraised
    exact hraised

def compositeData (version : String) : RuleData noText where
  type := .composite
  config := tier3Composite.config
  isActive := true
  isPublic := true
  version := version
  valid := tier3Composite_stored.config

def onlyVersion (version : String) : RuleUpdates := ⟨[], none, none, none, some version⟩

/-- The same composite in two versions, and in another queue. -/
def threeComposites : List (Operation noText) :=
  [.create 1 (compositeData "1.0"), .create 1 (compositeData "2.0"),
    .create 2 (compositeData "1.0")]

/-- The first rule gets a third version and is switched off, the second one is
refused the version that the first now has, and a replacement with two versions
of one configuration is refused. -/
def revisions : List (Operation noText) :=
  [.update 1 1 { onlyVersion "3.0" with isActive := some false }, .update 2 1 (onlyVersion "3.0"),
    .upsert 2 [compositeData "1.0", compositeData "2.0"], .delete 2 2,
    .update 2 1 (onlyVersion "1.0"),
    .upsert 2 [compositeData "2.0"]]

theorem revisions_consistent :
    ∃ t t', Runs.run Operation.step threeComposites RuleTable.empty = some t ∧
      Runs.run Operation.step revisions t = some t' ∧
      t'.rules.map (fun rule => (rule.id, rule.queueId, rule.version, rule.isActive)) =
        [(1, 1, "3.0", false), (2, 1, "1.0", true), (4, 2, "2.0", true)] ∧
      t'.rules.Pairwise
        (fun r s => r.queueId = s.queueId → ruleKey r.written ≠ ruleKey s.written) ∧
      (∀ rule ∈ t'.rules, validateRuleConfig noText rule.type rule.config = .ok rule.config ∧
        ∀ supported, getSupportedVersions rule.type = some supported → rule.version ∈ supported) ∧
      (∀ rule ∈ t.rules, ∀ rule' ∈ t'.rules, rule.id = rule'.id →
        rule.type = rule'.type ∧ rule.queueId = rule'.queueId) ∧
      ∀ (op : Operation noText) (e : CrudError) (after : RuleTable),
        op.call t' = (some e, after) → after = t' := by
  have hmeets : Runs.Meets Operation.step NonEmptyVersion (threeComposites ++ revisions)
      RuleTable.empty := by decide +kernel
  have hrows :
      (Runs.run Operation.step (threeComposites ++ revisions) RuleTable.empty).map (fun t =>
      t.rules.map (fun rule => (rule.id, rule.queueId, rule.version, rule.isActive))) =
        some [(1, 1, "3.0", false), (2, 1, "1.0", true), (4, 2, "2.0", true)] := by decide +kernel
  obtain ⟨t', hrun, hrows⟩ := Option.map_eq_some_iff.mp hrows
  rw [Runs.run_append] at hrun
  obtain ⟨t, ht, ht'⟩ := Option.bind_eq_some_iff.mp hrun
  exact ⟨t, t', ht, ht', hrows, rules_consistent_after_calls noText ht ht' hmeets⟩

/-- Two composites that differ in their version only are both given the empty
version: the duplicate check still looks at the version the rule had. -/
theorem emptyVersion_duplicates :
    ∃ t', Runs.run Operation.step
        [.create 1 (compositeData "1.0"), .create 1 (compositeData "2.0"),
          .update 1 1 (onlyVersion ""), .update 2 1 (onlyVersion "")] RuleTable.empty = some t' ∧
      t'.rules.map (fun rule => (rule.id, rule.queueId)) = [(1, 1), (2, 1)] ∧
      ¬ t'.rules.Pairwise
        (fun r s => r.queueId = s.queueId → ruleKey r.written ≠ ruleKey s.written) := by
  refine ⟨_, rfl, ?_, ?_⟩ <;> decide +kernel

end Graveboards.Rules
