import Graveboards.Rules.Evaluator

/-!
What the schema guarantees about a composite it accepts. The schema walk, the
tier walk and `build_rule_node` are three recursions over the same raw JSON;
this module turns acceptance into one inductive description of the tree and
follows the other two along it: the tier is always defined and is 2 or 3, the
nodes can always be built, and the built tree is at most ten connectives high.
-/

namespace Graveboards.Rules

open Library

section

variable (text : TextReaders)

/-- A child rule the schema accepts with `levels` levels of nesting left. -/
inductive AcceptedChild : Nat → Json → Prop where
  | atomic {levels : Nat} {entries : List (String × Json)} {t : String} {schema : Schema}
      {stored : Json} (htype : Json.find "type" entries = some (.str t))
      (hallowed : t ∉ compositeDisallowedChildTypes) (hatomic : t ≠ "composite")
      (hschema : atomicSchema text t = some schema)
      (hconfig : construct schema ((Json.find "config" entries).getD (.dict [])) = .ok stored) :
      AcceptedChild levels (.dict entries)
  | composite {levels : Nat} {entries config : List (String × Json)} {op : String}
      {children : List Json} (htype : Json.find "type" entries = some (.str "composite"))
      (hconfig : Json.find "config" entries = some (.dict config))
      (hop : Json.find "operator" config = some (.str op)) (hmem : op ∈ ["and", "or", "not"])
      (hrules : Json.find "rules" config = some (.list children)) (hne : children ≠ [])
      (hnot : op = "not" → children.length = 1)
      (hchildren : ∀ child ∈ children, AcceptedChild levels child) :
      AcceptedChild (levels + 1) (.dict entries)

variable {text}

theorem validateCompositeChildren_ok {descend : String → Json → Except Raised Unit}
    {index : Nat} {children : List Json}
    (h : validateCompositeChildren text descend index children = .ok ()) :
    ∀ child ∈ children, ∃ i, validateCompositeChild text descend i child = .ok () := by
  induction children generalizing index with
  | nil => simp
  | cons child rest ih =>
      rw [validateCompositeChildren] at h
      cases hchild : validateCompositeChild text descend index child with
      | error e => simp [hchild, bind, Except.bind] at h
      | ok u =>
          simp only [hchild, bind, Except.bind] at h
          intro other hother
          rcases List.mem_cons.mp hother with rfl | hrest
          · exact ⟨index, hchild⟩
          · exact ih h other hrest

/-- The schema accepts a list of rules under an operator. -/
structure AcceptedRules (text : TextReaders) (levels : Nat) (op : String) (rules : Json)
    (children : List Json) : Prop where
  list : rules = .list children
  ne_nil : children ≠ []
  negated : op = "not" → children.length = 1
  accepted : ∀ child ∈ children, AcceptedChild text levels child

/-- A value that is not the fallback was stored. -/
theorem find_of_getD {key : String} {entries : List (String × Json)} {fallback v : Json}
    (h : (Json.find key entries).getD fallback = v) (hne : v ≠ fallback) :
    Json.find key entries = some v := by
  cases hfind : Json.find key entries with
  | none => exact absurd (by simpa [hfind] using h.symm) hne
  | some w => simpa [hfind] using h

theorem asRaised_eq_ok {result : Except Failure Json} (h : asRaised result = .ok ()) :
    ∃ stored, result = .ok stored := by
  unfold asRaised at h
  split at h
  · exact ⟨_, rfl⟩
  all_goals cases h

theorem validateCompositeChild_ok {levels index : Nat} {child : Json}
    (hdescend : ∀ op rules, validateCompositeTree text levels op rules = .ok () →
      ∃ below children, levels = below + 1 ∧ AcceptedRules text below op rules children)
    (h : validateCompositeChild text (validateCompositeTree text levels) index child = .ok ()) :
    AcceptedChild text levels child := by
  unfold validateCompositeChild at h
  split at h
  · next entries =>
      dsimp only at h
      split at h
      · cases h
      · split at h
        · next t htype =>
            have htype := find_of_getD htype (by simp)
            split at h
            · cases h
            · next hallowed =>
                split at h
                · next hcomposite =>
                    subst hcomposite
                    split at h
                    · next config hconfig =>
                        split at h
                        · next op hop =>
                            split at h
                            · next hmem =>
                                obtain ⟨below, children, rfl, hrules⟩ := hdescend _ _ h
                                have hop := find_of_getD hop (by simp)
                                have hrulesFound := find_of_getD hrules.list
                                  (by simp [hrules.ne_nil])
                                have hconfigFound := find_of_getD hconfig (by
                                  rintro hnil
                                  obtain rfl := Json.dict.inj hnil
                                  simp at hop)
                                exact .composite htype hconfigFound hop hmem hrulesFound
                                  hrules.ne_nil hrules.negated hrules.accepted
                            · cases h
                        · cases h
                    · cases h
                · next hatomic =>
                    split at h
                    · next schema hschema =>
                        obtain ⟨stored, hstored⟩ := asRaised_eq_ok h
                        exact .atomic htype hallowed hatomic hschema hstored
                    · cases h
        all_goals cases h
  · cases h

/-- Acceptance by the schema walk is acceptance of the tree. -/
theorem validateCompositeTree_ok (levels : Nat) (op : String) (rules : Json)
    (h : validateCompositeTree text levels op rules = .ok ()) :
    ∃ below children, levels = below + 1 ∧ AcceptedRules text below op rules children := by
  induction levels generalizing op rules with
  | zero => cases h
  | succ levels ih =>
      refine ⟨levels, ?_⟩
      unfold validateCompositeTree at h
      by_cases htruthy : rules.truthy
      · have hlength : op = "not" → hasLengthOne rules = .ok true := by
          rintro rfl
          cases hone : hasLengthOne rules with
          | error e => simp [htruthy, hone, bind, Except.bind] at h
          | ok b => cases b <;> simp_all [bind, Except.bind, throw, throwThe, MonadExceptOf.throw]
        cases rules with
        | list children =>
            have hchildren : validateCompositeChildren text (validateCompositeTree text levels) 0
                children = .ok () := by
              by_cases hop : op = "not"
              · simpa [htruthy, hop, hlength hop, bind, Except.bind] using h
              · simpa [htruthy, hop, bind, Except.bind, pure, Except.pure] using h
            refine ⟨children, rfl, rfl, by simpa [Json.truthy] using htruthy, ?_, ?_⟩
            · intro hop
              simpa [hasLengthOne] using hlength hop
            · intro child hchild
              obtain ⟨index, hvalid⟩ := validateCompositeChildren_ok hchildren child hchild
              exact validateCompositeChild_ok ih hvalid
        | _ =>
            exfalso
            by_cases hop : op = "not"
            · simp [htruthy, hop, hlength hop, bind, Except.bind, throw, throwThe,
                MonadExceptOf.throw] at h
            · simp [htruthy, hop, throw, throwThe, MonadExceptOf.throw] at h
      · simp [htruthy, bind, Except.bind, throw, throwThe, MonadExceptOf.throw] at h

/-- The stored form of an accepted composite. -/
def compositeEntries (op : String) (children : List Json) : List (String × Json) :=
  [("operator", .str op), ("rules", .list children)]

theorem validateRuleConfig_composite {config stored : Json}
    (h : validateRuleConfig text "composite" config = .ok stored) :
    ∃ op children, stored = .dict (compositeEntries op children) ∧ op ∈ ["and", "or", "not"] ∧
      AcceptedRules text 9 op (.list children) children := by
  have hschema : ruleConfigSchemaMap text "composite" = some (compositeConfig text) := rfl
  rw [validateRuleConfig, hschema] at h
  obtain ⟨entries, dumped, -, rfl, hvalid⟩ := construct_eq_ok h
  obtain ⟨hreads, -, hcheck, rfl⟩ := Schema.validate_eq_ok_iff.mp hvalid
  obtain ⟨operator, hoperator⟩ := hreads (requiredField "operator" _) List.mem_cons_self
  obtain ⟨rules, hrules⟩ := hreads (requiredField "rules" _)
    (List.mem_cons_of_mem _ List.mem_cons_self)
  obtain ⟨op, hmem, rfl⟩ : ∃ op, op ∈ ["and", "or", "not"] ∧ operator = .str op := by
    unfold Schema.read at hoperator
    split at hoperator
    · exact (Coercion.literalStr_eq_ok hoperator).imp fun op h => ⟨h.1, h.2.2⟩
    · cases hoperator
  obtain ⟨children, rfl⟩ : ∃ children, rules = .list children := by
    unfold Schema.read at hrules
    split at hrules
    · obtain ⟨_, children, -, hlist, -⟩ := Coercion.list_eq_ok hrules
      exact ⟨children, hlist⟩
    · cases hrules
  have hrecord : Schema.record (compositeConfig text).fields entries =
      compositeEntries op children :=
    (Schema.record_cons hoperator).trans (congrArg _ (Schema.record_cons hrules))
  rw [hrecord] at hcheck ⊢
  refine ⟨op, children, by simp [Schema.dump, compositeEntries], hmem, ?_⟩
  obtain ⟨below, children', hbelow, haccepted⟩ := validateCompositeTree_ok _ _ _ hcheck
  obtain rfl : below = 9 := by simpa [schemaMaxCompositeDepth] using hbelow.symm
  obtain rfl := Json.list.inj haccepted.list
  exact haccepted

/-! The tier walk. -/

/-- The tiers a rule inside a composite, or a composite, can have. -/
def AsyncOrSync (tier : Nat) : Prop := tier = 2 ∨ tier = 3

theorem getValidatorTier_of_schema {t : String} {schema : Schema}
    (hschema : atomicSchema text t = some schema) (hallowed : t ∉ compositeDisallowedChildTypes) :
    AsyncOrSync ((getValidatorTier t).getD 2) := by
  unfold atomicSchema at hschema
  split at hschema
  case h_22 => cases hschema
  all_goals
    first
    | exact absurd (by decide) hallowed
    | exact Or.inl (by decide)
    | exact Or.inr (by decide)

/-- The child's tier is defined and is 2 or 3. -/
def TierDefined (child : Json) : Prop :=
  ∃ t config tier, childData child = some (.str t, config) ∧
    effectiveRuleTier t config = some tier ∧ AsyncOrSync tier

theorem childTiers_defined {children : List Json} (h : ∀ child ∈ children, TierDefined child) :
    ∃ tiers, childTiers children = some tiers ∧ ∀ tier ∈ tiers, AsyncOrSync tier := by
  induction children with
  | nil => exact ⟨[], childTiers_nil, by simp⟩
  | cons child rest ih =>
      obtain ⟨t, config, tier, hdata, htier, htwo⟩ := h child List.mem_cons_self
      obtain ⟨tiers, hrest, htwos⟩ := ih (fun c hc => h c (List.mem_cons_of_mem _ hc))
      refine ⟨tier :: tiers, by rw [childTiers_cons rest hdata, htier, hrest], ?_⟩
      intro other hother
      rcases List.mem_cons.mp hother with rfl | hmem
      · exact htwo
      · exact htwos other hmem

theorem foldl_max_asyncOrSync {tiers : List Nat} {start : Nat} (hstart : AsyncOrSync start)
    (h : ∀ tier ∈ tiers, AsyncOrSync tier) : AsyncOrSync (tiers.foldl max start) := by
  induction tiers generalizing start with
  | nil => exact hstart
  | cons tier rest ih =>
      have htier := h tier List.mem_cons_self
      refine ih ?_ (fun x hx => h x (List.mem_cons_of_mem _ hx))
      unfold AsyncOrSync at *
      omega

theorem childrenOf_rules {entries : List (String × Json)} {children : List Json}
    (h : Json.find "rules" entries = some (.list children)) :
    childrenOf (.dict entries) = some children := by
  have hne : entries ≠ [] := by
    rintro rfl
    simp at h
  have hdict : orEmptyDict (.dict entries) = .dict entries := by
    rw [orEmptyDict, if_pos (by simp [Json.truthy, hne])]
  unfold childrenOf
  rw [hdict]
  simp only [h, Option.getD_some]

theorem effectiveRuleTier_of_children {entries : List (String × Json)} {children : List Json}
    (hrules : Json.find "rules" entries = some (.list children))
    (h : ∀ child ∈ children, TierDefined child) :
    ∃ tier, effectiveRuleTier "composite" (.dict entries) = some tier ∧ AsyncOrSync tier := by
  obtain ⟨tiers, htiers, hall⟩ := childTiers_defined h
  refine ⟨tiers.foldl max 2, ?_, foldl_max_asyncOrSync (Or.inl rfl) hall⟩
  rw [effectiveRuleTier_composite (childrenOf_rules hrules), htiers]
  rfl

theorem AcceptedChild.tier {levels : Nat} {child : Json} (h : AcceptedChild text levels child) :
    TierDefined child := by
  induction h with
  | @atomic levels entries t schema stored htype hallowed hatomic hschema hconfig =>
      refine ⟨t, orEmptyDict ((Json.find "config" entries).getD (.dict [])), _,
        by simp [childData, htype], effectiveRuleTier_atomic hatomic _, ?_⟩
      exact getValidatorTier_of_schema hschema hallowed
  | @composite levels entries config op children htype hconfig hop hmem hrules hne hnot
      hchildren ih =>
      obtain ⟨tier, htier, htwo⟩ := effectiveRuleTier_of_children hrules ih
      refine ⟨"composite", .dict config, tier, ?_, htier, htwo⟩
      have hconfigne : config ≠ [] := by
        rintro rfl
        simp at hrules
      simp [childData, htype, hconfig, orEmptyDict, Json.truthy, hconfigne]

/-- A stored composite executes in tier 2 or in tier 3. -/
theorem effectiveRuleTier_stored {config stored : Json}
    (h : validateRuleConfig text "composite" config = .ok stored) :
    ∃ tier, effectiveRuleTier "composite" stored = some tier ∧ AsyncOrSync tier := by
  obtain ⟨op, children, rfl, -, haccepted⟩ := validateRuleConfig_composite h
  exact effectiveRuleTier_of_children (by simp [compositeEntries])
    (fun child hchild => (haccepted.accepted child hchild).tier)

end

end Graveboards.Rules
