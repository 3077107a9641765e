import Graveboards.Rules.Accepted

/-!
Which configurations make `validate_rule_config` raise something other than a
validation error. The walk over a composite reads the children as raw JSON, so
a value of an unexpected kind below the first level reaches `.get`, a set or an
unpacking that it does not fit. This is the only way out: without one the
result is a fixed point or a validation error.
-/

namespace Graveboards.Rules

open Library

/-- An exception that pydantic does not collect. -/
def Escapes (result : Except Raised Unit) : Prop := ∃ exception, result = .error (.other exception)

@[simp] theorem escapes_other (exception : String) : Escapes (.error (.other exception)) :=
  ⟨exception, rfl⟩

@[simp] theorem not_escapes_ok : ¬ Escapes (.ok ()) := by
  rintro ⟨exception, h⟩
  cases h

@[simp] theorem not_escapes_valueError (message : String) :
    ¬ Escapes (.error (.valueError message)) := by
  rintro ⟨exception, h⟩
  cases h

@[simp] theorem not_escapes_nested (errors : List FieldError) :
    ¬ Escapes (.error (.nested errors)) := by
  rintro ⟨exception, h⟩
  cases h

/-- What follows a step that went through decides. -/
theorem escapes_bind {first : Except Raised Unit} {next : Unit → Except Raised Unit} :
    Escapes (first >>= next) ↔ Escapes first ∨ first = .ok () ∧ Escapes (next ()) := by
  cases first with
  | ok u =>
      change Escapes (next u) ↔ _
      simp [Escapes]
  | error e => simp [bind, Except.bind, Escapes]

section

variable (text : TextReaders)

/-- A list or a dictionary has no hash. -/
inductive Unhashable : Json → Prop where
  | list (items : List Json) : Unhashable (.list items)
  | dict (entries : List (String × Json)) : Unhashable (.dict entries)

/-- A child that holds something of the wrong kind where the walk reads it.
`below` says so of the rules of a nested composite. -/
inductive MalformedChild (below : String → Json → Prop) : Json → Prop where
  | notObject {child : Json} (h : ∀ entries, child ≠ .dict entries) : MalformedChild below child
  | unhashable {entries : List (String × Json)} {t : Json}
      (htype : Json.find "type" entries = some t) (htruthy : t.truthy = true)
      (hkind : Unhashable t) :
      MalformedChild below (.dict entries)
  | config {entries : List (String × Json)} {t : String}
      (htype : Json.find "type" entries = some (.str t))
      (hallowed : t ∉ compositeDisallowedChildTypes)
      (hknown : t = "composite" ∨ ∃ schema, atomicSchema text t = some schema)
      (hconfig : ∀ config, (Json.find "config" entries).getD (.dict []) ≠ .dict config) :
      MalformedChild below (.dict entries)
  | rules {entries config : List (String × Json)} {op : String}
      (htype : Json.find "type" entries = some (.str "composite"))
      (hconfig : Json.find "config" entries = some (.dict config))
      (hop : Json.find "operator" config = some (.str op)) (hmem : op ∈ ["and", "or", "not"])
      (hrules : below op ((Json.find "rules" config).getD (.list []))) :
      MalformedChild below (.dict entries)

/-- Rules on which the walk, with `levels` levels of nesting left, comes across
something of the wrong kind before anything that it refuses. -/
def MalformedRules : Nat → String → Json → Prop
  | 0, _, _ => False
  | levels + 1, op, .list children =>
      (op = "not" → children.length = 1) ∧
      ∃ before child after, children = before ++ child :: after ∧
        (∀ earlier ∈ before, AcceptedChild text levels earlier) ∧
        MalformedChild text (MalformedRules levels) child
  | _ + 1, op, rules =>
      rules.truthy = true ∧ (op = "not" → hasLengthOne rules ≠ .ok false)

/-- A configuration that is a composite as far as its fields go, with malformed
rules in it. -/
def MalformedComposite (entries : List (String × Json)) : Prop :=
  (∀ entry ∈ entries, entry.1 ∈ ["operator", "rules"]) ∧
  ∃ op children, op ∈ ["and", "or", "not"] ∧
    Json.find "operator" entries = some (.str op) ∧
    Json.find "rules" entries = some (.list children) ∧
    (∀ child ∈ children, ∃ fields, child = .dict fields) ∧
    MalformedRules text schemaMaxCompositeDepth op (.list children)

variable {text}

/-- The model checks of the atomic schemas raise nothing but `ValueError`. -/
theorem atomicSchema_check {t : String} {schema : Schema} (h : atomicSchema text t = some schema)
    (record : List (String × Json)) : ¬ Escapes (schema.check record) := by
  have hunchecked : ¬ Escapes (unchecked record) := not_escapes_ok
  have hordered (low high : String) : ¬ Escapes (ordered low high record) := by
    unfold ordered
    split
    · split <;> simp
    · simp
  have hbounds (low high : String) : ¬ Escapes (validateBounds low high record) := by
    unfold validateBounds
    split
    · simp
    · exact hordered low high
  have hlength : ¬ Escapes (validateLengthBounds record) := by
    unfold validateLengthBounds
    split
    · simp
    · rw [escapes_bind, not_or, not_and]
      exact ⟨hordered _ _, fun _ => hordered _ _⟩
  unfold atomicSchema at h
  split at h
  all_goals cases h
  all_goals first
    | exact hunchecked
    | exact hbounds _ _
    | exact hlength

/-- The configuration of an atomic child is refused with a `ValueError`, except
if it cannot be unpacked. -/
theorem escapes_construct_iff {t : String} {schema : Schema} (h : atomicSchema text t = some schema)
    (config : Json) :
    Escapes (asRaised (construct schema config)) ↔ ∀ entries, config ≠ .dict entries := by
  unfold construct
  split
  · next entries =>
      refine iff_of_false ?_ (fun hne => hne entries rfl)
      cases hvalid : schema.validate entries with
      | ok dumped => simp [Except.map, asRaised]
      | error failure =>
          cases failure with
          | invalid errors => simp [Except.map, asRaised]
          | escaped exception =>
              have hcheck := (Schema.validate_eq_escaped_iff.mp hvalid).2.2
              exact absurd ⟨exception, hcheck⟩ (atomicSchema_check h _)
  · next hne => exact iff_of_true (escapes_other _) hne

section Child

variable {descend : String → Json → Except Raised Unit} {below : String → Json → Prop} {index : Nat}

theorem malformedChild_of_escapes {child : Json}
    (hdescend : ∀ op rules, Escapes (descend op rules) → below op rules)
    (h : Escapes (validateCompositeChild text descend index child)) :
    MalformedChild text below child := by
  unfold validateCompositeChild at h
  split at h
  · next entries =>
      dsimp only at h
      split at h
      · simp at h
      · next htruthy =>
          have htruthy : ((Json.find "type" entries).getD .null).truthy = true := by
            simpa using htruthy
          have htype {t : Json} (ht : (Json.find "type" entries).getD .null = t) (hne : t ≠ .null) :
              Json.find "type" entries = some t := find_of_getD ht hne
          split at h
          · next t ht =>
              have ht := htype ht (by simp)
              split at h
              · simp at h
              · next hallowed =>
                  split at h
                  · next hcomposite =>
                      subst hcomposite
                      split at h
                      · next config hconfig =>
                          split at h
                          · next op hop =>
                              have hop := find_of_getD hop (by simp)
                              split at h
                              · next hmem =>
                                  have hconfig := find_of_getD hconfig (by
                                    rintro hnil
                                    obtain rfl := Json.dict.inj hnil
                                    simp at hop)
                                  exact .rules ht hconfig hop hmem (hdescend _ _ h)
                              · simp at h
                          · simp at h
                      · next hne => exact .config ht hallowed (.inl rfl) hne
                  · split at h
                    · next schema hschema =>
                        exact .config ht hallowed (.inr ⟨schema, hschema⟩)
                          ((escapes_construct_iff hschema _).mp h)
                    · simp at h
          · next items ht => exact .unhashable (htype ht (by simp)) (ht ▸ htruthy) (.list items)
          · next fields ht => exact .unhashable (htype ht (by simp)) (ht ▸ htruthy) (.dict fields)
          · simp at h
  · next hne => exact .notObject hne

theorem escapes_of_malformedChild {child : Json}
    (hdescend : ∀ op rules, below op rules → Escapes (descend op rules))
    (h : MalformedChild text below child) :
    Escapes (validateCompositeChild text descend index child) := by
  cases h with
  | notObject hne =>
      unfold validateCompositeChild
      split
      · next entries => exact absurd rfl (hne entries)
      · exact escapes_other _
  | unhashable htype htruthy hkind =>
      cases hkind <;> simp [validateCompositeChild, htype, htruthy]
  | @config entries t htype hallowed hknown hconfig =>
      have htruthy : (Json.str t).truthy = true := by
        rw [Json.truthy, bne_iff_ne]
        rintro rfl
        obtain h | ⟨schema, h⟩ := hknown
        · exact absurd h (by decide)
        · cases h
      simp only [validateCompositeChild, htype, Option.getD_some, htruthy, Bool.not_true,
        Bool.false_eq_true, if_false, if_neg hallowed]
      obtain rfl | ⟨schema, hschema⟩ := hknown
      · exact escapes_other _
      · have hatomic : t ≠ "composite" := by
          rintro rfl
          cases hschema
        rw [if_neg hatomic, hschema]
        exact (escapes_construct_iff hschema _).mpr hconfig
  | @rules entries config op htype hconfig hop hmem hrules =>
      have hescapes := hdescend _ _ hrules
      simpa [validateCompositeChild, htype, hconfig, hop, hmem, Json.truthy,
        compositeDisallowedChildTypes] using hescapes

end Child

/-- The children are walked in their order, up to the first one that is not accepted. -/
theorem escapes_children_iff {descend : String → Json → Except Raised Unit}
    {accepted malformed : Json → Prop}
    (haccepted : ∀ i child, validateCompositeChild text descend i child = .ok () ↔ accepted child)
    (hmalformed : ∀ i child, Escapes (validateCompositeChild text descend i child) ↔
      malformed child)
    (index : Nat) (children : List Json) :
    Escapes (validateCompositeChildren text descend index children) ↔
      ∃ before child after, children = before ++ child :: after ∧
        (∀ earlier ∈ before, accepted earlier) ∧ malformed child := by
  induction children generalizing index with
  | nil => simp [validateCompositeChildren]
  | cons head rest ih =>
      rw [validateCompositeChildren, escapes_bind, hmalformed, haccepted, ih]
      constructor
      · rintro (hhead | ⟨hhead, before, child, after, rfl, hbefore, hchild⟩)
        · exact ⟨[], head, rest, rfl, by simp, hhead⟩
        · refine ⟨head :: before, child, after, rfl, ?_, hchild⟩
          exact List.forall_mem_cons.mpr ⟨hhead, hbefore⟩
      · rintro ⟨before, child, after, hsplit, hbefore, hchild⟩
        cases before with
        | nil =>
            obtain ⟨rfl, rfl⟩ := List.cons.inj hsplit
            exact Or.inl hchild
        | cons first before =>
            obtain ⟨rfl, rfl⟩ := List.cons.inj hsplit
            obtain ⟨hfirst, hbefore⟩ := List.forall_mem_cons.mp hbefore
            exact Or.inr ⟨hfirst, before, child, after, rfl, hbefore, hchild⟩

theorem validateCompositeChildren_eq_ok {descend : String → Json → Except Raised Unit}
    {children : List Json}
    (h : ∀ child ∈ children, ∀ i, validateCompositeChild text descend i child = .ok ())
    (index : Nat) :
    validateCompositeChildren text descend index children = .ok () := by
  induction children generalizing index with
  | nil => rfl
  | cons child rest ih =>
      obtain ⟨hchild, hrest⟩ := List.forall_mem_cons.mp h
      rw [validateCompositeChildren, hchild index]
      exact ih hrest (index + 1)

/-- Past the tests of a node, the walk goes on to the children. -/
theorem validateCompositeTree_list {levels : Nat} {op : String} {children : List Json}
    (hne : children ≠ []) (hnot : op = "not" → children.length = 1) :
    validateCompositeTree text (levels + 1) op (.list children) =
      validateCompositeChildren text (validateCompositeTree text levels) 0 children := by
  have htruthy : (Json.list children).truthy = true := by simpa [Json.truthy] using hne
  by_cases hop : op = "not"
  · simp [validateCompositeTree, htruthy, hop, hasLengthOne, hnot hop, bind, Except.bind]
  · simp [validateCompositeTree, htruthy, hop]

/-- An accepted child passes the walk. -/
theorem AcceptedChild.validated {levels : Nat} {child : Json} (h : AcceptedChild text levels child)
    (index : Nat) :
    validateCompositeChild text (validateCompositeTree text levels) index child = .ok () := by
  induction h generalizing index with
  | @atomic levels entries t schema stored htype hallowed hatomic hschema hconfig =>
      have htruthy : (Json.str t).truthy = true := by
        rw [Json.truthy, bne_iff_ne]
        rintro rfl
        cases hschema
      simp [validateCompositeChild, htype, htruthy, hallowed, hatomic, hschema, hconfig, asRaised]
  | @composite levels entries config op children htype hconfig hop hmem hrules hne hnot
    hchildren ih =>
      have hwalk : validateCompositeTree text (levels + 1) op (.list children) = .ok () := by
        rw [validateCompositeTree_list hne hnot]
        exact validateCompositeChildren_eq_ok ih 0
      simpa [validateCompositeChild, htype, hconfig, hop, hmem, hrules, Json.truthy,
        compositeDisallowedChildTypes] using hwalk

theorem validateCompositeChild_ok_iff {levels index : Nat} {child : Json} :
    validateCompositeChild text (validateCompositeTree text levels) index child = .ok () ↔
      AcceptedChild text levels child :=
  ⟨validateCompositeChild_ok (validateCompositeTree_ok levels), fun h => h.validated index⟩

/-- Truthy rules that are no list get past the tests and cannot be walked, unless a NOT node finds
that their length is not one. -/
theorem escapes_validateCompositeTree_of_ne_list {levels : Nat} {op : String} {rules : Json}
    (hlist : ∀ children, rules ≠ .list children) :
    Escapes (validateCompositeTree text (levels + 1) op rules) ↔
      rules.truthy = true ∧ (op = "not" → hasLengthOne rules ≠ .ok false) := by
  cases htruthy : rules.truthy with
  | false =>
      simp [validateCompositeTree, htruthy, bind, Except.bind, throw, throwThe, MonadExceptOf.throw]
  | true =>
      by_cases hop : op = "not"
      · subst hop
        cases rules with
        | list children => exact absurd rfl (hlist children)
        | str s =>
            by_cases hone : s.length = 1 <;>
              simp [validateCompositeTree, htruthy, hasLengthOne, hone, bind, Except.bind,
                throw, throwThe, MonadExceptOf.throw]
        | dict entries =>
            by_cases hone : entries.length = 1 <;>
              simp [validateCompositeTree, htruthy, hasLengthOne, hone, bind, Except.bind,
                throw, throwThe, MonadExceptOf.throw]
        | _ => simp [validateCompositeTree, htruthy, hasLengthOne, bind, Except.bind]
      · cases rules with
        | list children => exact absurd rfl (hlist children)
        | _ => simp [validateCompositeTree, htruthy, hop, throw, throwThe, MonadExceptOf.throw]

/-- Something other than a `ValueError` gets out of the walk exactly if the rules are malformed. -/
theorem escapes_validateCompositeTree_iff (levels : Nat) (op : String) (rules : Json) :
    Escapes (validateCompositeTree text levels op rules) ↔ MalformedRules text levels op rules := by
  induction levels generalizing op rules with
  | zero => exact iff_of_false (not_escapes_valueError _) id
  | succ levels ih =>
      have hchild (i : Nat) (child : Json) :
          Escapes (validateCompositeChild text (validateCompositeTree text levels) i child) ↔
            MalformedChild text (MalformedRules text levels) child :=
        ⟨malformedChild_of_escapes fun op rules => (ih op rules).mp,
          escapes_of_malformedChild fun op rules => (ih op rules).mpr⟩
      cases rules with
      | list children =>
          rw [MalformedRules]
          by_cases hnot : op = "not" → children.length = 1
          · rw [and_iff_right hnot,
              ← escapes_children_iff (fun i child => validateCompositeChild_ok_iff)
              hchild 0 children]
            by_cases hne : children = []
            · subst hne
              exact iff_of_false (not_escapes_valueError _) not_escapes_ok
            · rw [validateCompositeTree_list hne hnot]
          · refine iff_of_false ?_ fun h => hnot h.1
            obtain ⟨rfl, hlength⟩ := Classical.not_imp.mp hnot
            cases children with
            | nil => exact not_escapes_valueError _
            | cons child rest =>
                have hrest : rest ≠ [] := by
                  rintro rfl
                  exact hlength rfl
                simp [validateCompositeTree, Json.truthy, hasLengthOne, hrest, bind, Except.bind,
                  throw, throwThe, MonadExceptOf.throw]
      | _ => exact escapes_validateCompositeTree_of_ne_list (by simp)

/-! The configuration of a composite. -/

theorem each_anyDict_iff {children stored : List Json} :
    Coercion.each Coercion.anyDict children = .ok stored ↔
      stored = children ∧ ∀ child ∈ children, ∃ fields, child = .dict fields := by
  rw [Coercion.each_eq_ok_iff]
  induction children generalizing stored with
  | nil => simp
  | cons child rest ih =>
      rw [List.forall₂_cons_left_iff, List.forall_mem_cons]
      constructor
      · rintro ⟨first, tail, hfirst, htail, rfl⟩
        obtain ⟨rfl, hdict⟩ := Coercion.anyDict_eq_ok hfirst
        obtain ⟨rfl, hrest⟩ := ih.mp htail
        exact ⟨rfl, hdict, hrest⟩
      · rintro ⟨rfl, ⟨fields, rfl⟩, hrest⟩
        exact ⟨_, rest, rfl, ih.mpr ⟨rfl, hrest⟩, rfl⟩

theorem read_operator_iff {entries : List (String × Json)} {v : Json} :
    Schema.read entries (requiredField "operator" (Coercion.literalStr ["and", "or", "not"])) =
      .ok v ↔
      ∃ op ∈ ["and", "or", "not"], Json.find "operator" entries = some (.str op) ∧ v = .str op := by
  unfold Schema.read requiredField
  cases hfind : Json.find "operator" entries with
  | none => simp
  | some given =>
      constructor
      · intro h
        obtain ⟨op, hmem, rfl, rfl⟩ := Coercion.literalStr_eq_ok h
        exact ⟨op, hmem, rfl, rfl⟩
      · rintro ⟨op, hmem, hgiven, rfl⟩
        obtain rfl := Option.some.inj hgiven
        exact if_pos hmem

theorem read_rules_iff {entries : List (String × Json)} {v : Json} :
    Schema.read entries (requiredField "rules" (Coercion.list Coercion.anyDict)) = .ok v ↔
      ∃ children, Json.find "rules" entries = some (.list children) ∧
        (∀ child ∈ children, ∃ fields, child = .dict fields) ∧ v = .list children := by
  unfold Schema.read requiredField
  cases hfind : Json.find "rules" entries with
  | none => simp
  | some given =>
      constructor
      · intro h
        obtain ⟨children, stored, rfl, rfl, hstored⟩ := Coercion.list_eq_ok h
        obtain ⟨rfl, hdicts⟩ := each_anyDict_iff.mp (Coercion.each_eq_ok_iff.mpr hstored)
        exact ⟨stored, rfl, hdicts, rfl⟩
      · rintro ⟨children, hgiven, hdicts, rfl⟩
        obtain rfl := Option.some.inj hgiven
        have heach := each_anyDict_iff.mpr ⟨rfl, hdicts⟩
        simp [Coercion.list, heach, Except.map]

theorem record_compositeConfig {entries : List (String × Json)} {operator rules : Json}
    (hoperator : Schema.read entries
      (requiredField "operator" (Coercion.literalStr ["and", "or", "not"])) =
      .ok operator)
    (hrules : Schema.read entries (requiredField "rules" (Coercion.list Coercion.anyDict)) =
      .ok rules) :
    Schema.record (compositeConfig text).fields entries =
      [("operator", operator), ("rules", rules)] :=
  (Schema.record_cons hoperator).trans (congrArg _ (Schema.record_cons hrules))

theorem validate_compositeConfig_escapes_iff {entries : List (String × Json)} :
    (∃ exception, (compositeConfig text).validate entries = .error (.escaped exception)) ↔
      MalformedComposite text entries := by
  simp only [Schema.validate_eq_escaped_iff]
  constructor
  · rintro ⟨exception, hreads, hkeys, hcheck⟩
    obtain ⟨operator, hoperator⟩ := hreads (requiredField "operator" _) List.mem_cons_self
    obtain ⟨rules, hrules⟩ :=
      hreads (requiredField "rules" _) (List.mem_cons_of_mem _ List.mem_cons_self)
    rw [record_compositeConfig hoperator hrules] at hcheck
    obtain ⟨op, hmem, hop, rfl⟩ := read_operator_iff.mp hoperator
    obtain ⟨children, hchildren, hdicts, rfl⟩ := read_rules_iff.mp hrules
    exact ⟨hkeys, op, children, hmem, hop, hchildren, hdicts,
      (escapes_validateCompositeTree_iff _ _ _).mp ⟨exception, hcheck⟩⟩
  · rintro ⟨hkeys, op, children, hmem, hop, hchildren, hdicts, hrules⟩
    have hoperatorRead := read_operator_iff.mpr ⟨op, hmem, hop, rfl⟩
    have hrulesRead := read_rules_iff.mpr ⟨children, hchildren, hdicts, rfl⟩
    obtain ⟨exception, hcheck⟩ := (escapes_validateCompositeTree_iff _ _ _).mpr hrules
    refine ⟨exception, ?_, hkeys, ?_⟩
    · exact List.forall_mem_cons.mpr
        ⟨⟨_, hoperatorRead⟩, List.forall_mem_singleton.mpr ⟨_, hrulesRead⟩⟩
    · rw [record_compositeConfig hoperatorRead hrulesRead]
      exact hcheck

/-- Something gets past the validation of a configuration exactly if its type is the composite and
its rules are malformed. -/
theorem validateRuleConfig_escapes_iff {ruleType : String} {entries : List (String × Json)} :
    (∃ exception, validateRuleConfig text ruleType (.dict entries) = .error (.escaped exception)) ↔
      ruleType = "composite" ∧ MalformedComposite text entries := by
  have hconstruct (schema : Schema) (exception : String) :
      construct schema (.dict entries) = .error (.escaped exception) ↔
        schema.validate entries = .error (.escaped exception) := by
    cases hvalid : schema.validate entries with
    | ok dumped => simp [construct, hvalid, Except.map]
    | error failure => simp [construct, hvalid, Except.map]
  unfold validateRuleConfig ruleConfigSchemaMap
  by_cases hcomposite : ruleType = "composite"
  · simp only [if_pos hcomposite, hconstruct]
    rw [validate_compositeConfig_escapes_iff, and_iff_right hcomposite]
  · rw [if_neg hcomposite]
    refine iff_of_false ?_ fun h => hcomposite h.1
    rintro ⟨exception, h⟩
    cases hschema : atomicSchema text ruleType with
    | none =>
        rw [hschema] at h
        cases h
    | some schema =>
        rw [hschema] at h
        have hcheck := (Schema.validate_eq_escaped_iff.mp ((hconstruct schema exception).mp h)).2.2
        exact atomicSchema_check hschema _ ⟨exception, hcheck⟩

variable (text)

/-- The validation of a configuration gives a fixed point or a validation error, unless it is a
composite with malformed rules. -/
theorem validateRuleConfig_total_iff (ruleType : String) (entries : List (String × Json)) :
    ((∃ stored, validateRuleConfig text ruleType (.dict entries) = .ok stored ∧
        validateRuleConfig text ruleType stored = .ok stored) ∨
      ∃ errors, validateRuleConfig text ruleType (.dict entries) = .error (.invalid errors)) ↔
    ¬ (ruleType = "composite" ∧ MalformedComposite text entries) := by
  rw [← validateRuleConfig_escapes_iff]
  cases hresult : validateRuleConfig text ruleType (.dict entries) with
  | ok stored => simp [validateRuleConfig_idempotent text hresult]
  | error failure => cases failure <;> simp

/-- A nested composite whose configuration is null. -/
theorem validateRuleConfig_not_total :
    ¬ ∀ (text : TextReaders) (ruleType : String) (entries : List (String × Json)),
      (∃ stored, validateRuleConfig text ruleType (.dict entries) = .ok stored ∧
        validateRuleConfig text ruleType stored = .ok stored) ∨
      ∃ errors, validateRuleConfig text ruleType (.dict entries) = .error (.invalid errors) := by
  intro h
  have hescaped : validateRuleConfig noText "composite"
      (.dict [("operator", .str "and"),
        ("rules", .list [.dict [("type", .str "composite"), ("config", .null)]])]) =
      .error (.escaped "AttributeError") := by
    rfl
  obtain ⟨stored, hstored, -⟩ | ⟨errors, herrors⟩ := h noText "composite"
    [("operator", .str "and"),
      ("rules", .list [.dict [("type", .str "composite"), ("config", .null)]])]
  · rw [hescaped] at hstored
    cases hstored
  · rw [hescaped] at herrors
    cases herrors

end

end Graveboards.Rules
