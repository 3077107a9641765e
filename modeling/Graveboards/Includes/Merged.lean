import Graveboards.Includes.Schema

/-!
What a request that the validator accepts is merged into: the merge goes through, and under
each property of an expanded schema stands what the request says there, or else the default.
-/

namespace Graveboards.Includes

open Graveboards.Library
open Graveboards.Parameters (Path)

namespace Schema

/-- A property that the include tree can hold: a column, or a relation with its branches. -/
def isNode : Schema → Bool
  | boolean _ => true
  | oneOf _ => true
  | _ => false

mutual

/-- What the expansion makes of a schema: nothing shallow is left, and a relation has no second
object branch. The properties of a dictionary have distinct names. -/
def expanded : Schema → Bool
  | oneOf branches =>
      decide ((branches.filterMap objectProperties).length ≤ 1) && expandedBranches branches
  | object title properties =>
      !isShallow title && decide (Dictionary.keys properties).Nodup && expandedProperties properties
  | _ => true

def expandedProperties : Properties → Bool
  | [] => true
  | (_, schema) :: rest => schema.expanded && expandedProperties rest

def expandedBranches : List Schema → Bool
  | [] => true
  | branch :: rest => branch.expanded && expandedBranches rest

end

end Schema

/-- The include schema of an endpoint. -/
structure IncludeSchema where
  title : String
  properties : Properties
  expanded : (Schema.object (some title) properties).expanded = true

/-- The node is switched on: named with true or a nested object, or left at a default of true. -/
def switchedOn (override : Option Override) (start : Bool) : Bool :=
  match override with
  | none => start
  | some (.flag b) => b
  | some _ => true

mutual

/-- What a property and the override on it come to. -/
def settle : Schema → Option Override → Option Meta
  | .boolean schema, override => some (.column (switchedOn override schema.start))
  | .oneOf branches, override =>
      some (.relation (switchedOn override (Schema.oneOf branches).start)
        (settleBranches branches (override.bind Override.tree)))
  | _, _ => none

def settleProperties : Properties → Option Request → List (String × Meta)
  | [], _ => []
  | (key, schema) :: rest, request =>
      ((settle schema (request.bind (List.lookup key))).map (Prod.mk key)).toList ++
        settleProperties rest request

def settleBranches : List Schema → Option Request → List (String × Meta)
  | [], _ => []
  | .object _ properties :: _, request => settleProperties properties request
  | _ :: rest, request => settleBranches rest request

end

theorem settleProperties_eq (properties : Properties) (request : Option Request) :
    settleProperties properties request =
      Dictionary.select (fun key schema => settle schema (request.bind (List.lookup key)))
      properties := by
  induction properties with
  | nil => rfl
  | cons entry rest ih => rw [settleProperties, Dictionary.select_cons, ih]

theorem settleBranches_eq (branches : List Schema) (request : Option Request) :
    settleBranches branches request =
      settleProperties (Schema.oneOf branches).children request := by
  induction branches with
  | nil => rfl
  | cons branch rest ih =>
      cases branch with
      | object title properties => rfl
      | _ =>
          rw [settleBranches]
          · exact ih
          · simp

theorem formatInclude_eq (obj : Value) (nodes : List (String × Meta)) :
    formatInclude obj nodes = Dictionary.select (formatField obj) nodes := by
  induction nodes with
  | nil => rw [formatInclude, Dictionary.select_nil]
  | cons node rest ih => rw [formatInclude, Dictionary.select_cons, ih]

namespace Schema

theorem keys_nodup {title : Option String} {properties : Properties}
    (h : (object title properties).expanded = true) : (Dictionary.keys properties).Nodup := by
  simp only [expanded, Bool.and_eq_true, decide_eq_true_eq] at h
  exact h.1.2

theorem expanded_of_mem {properties : Properties} (h : expandedProperties properties = true)
    {entry : String × Schema} (hmem : entry ∈ properties) : entry.2.expanded = true := by
  induction properties with
  | nil => cases hmem
  | cons head rest ih =>
      simp only [expandedProperties, Bool.and_eq_true] at h
      rcases List.mem_cons.mp hmem with rfl | hmem
      · exact h.1
      · exact ih h.2 hmem

theorem expandedBranches_children {branches : List Schema} (h : expandedBranches branches = true) :
    (Dictionary.keys (oneOf branches).children).Nodup ∧
      expandedProperties (oneOf branches).children = true := by
  induction branches with
  | nil => simp [children, expandedProperties]
  | cons branch rest ih =>
      simp only [expandedBranches, Bool.and_eq_true] at h
      cases branch with
      | object title properties =>
          have hobject := h.1
          simp only [expanded, Bool.and_eq_true, decide_eq_true_eq] at hobject
          exact ⟨hobject.1.2, hobject.2⟩
      | _ => exact ih h.2

/-- The properties under an expanded schema are those of an expanded object. -/
theorem expanded_children {schema : Schema} (h : schema.expanded = true) :
    (Dictionary.keys schema.children).Nodup ∧ expandedProperties schema.children = true := by
  cases schema with
  | oneOf branches =>
      simp only [expanded, Bool.and_eq_true] at h
      exact expandedBranches_children h.2
  | object title properties =>
      refine ⟨keys_nodup h, ?_⟩
      simp only [expanded, Bool.and_eq_true] at h
      exact h.2
  | _ => simp [children, expandedProperties]

/-- With one object branch at most it is the same whether the first or the last one counts. -/
theorem getLast_objectProperties {branches : List Schema} (h : (oneOf branches).expanded = true)
    {properties : Properties}
    (hlast : (branches.filterMap objectProperties).getLast? = some properties) :
    (oneOf branches).children = properties := by
  simp only [expanded, Bool.and_eq_true, decide_eq_true_eq] at h
  have hhead :
      branches.findSome? objectProperties = (branches.filterMap objectProperties).head? := by
    rw [List.head?_filterMap]
  cases hfound : branches.filterMap objectProperties with
  | nil => simp [hfound] at hlast
  | cons first rest =>
      have hrest : rest = [] := by
        have := h.1
        rw [hfound, List.length_cons] at this
        exact List.length_eq_zero_iff.mp (by omega)
      rw [hfound, hrest] at hlast
      simp only [children, hhead, hfound, List.head?_cons, Option.getD_some]
      simpa using hlast

end Schema

section Extraction

mutual

theorem extractProperties_eq :
    (properties : Properties) → Schema.expandedProperties properties = true →
    extractProperties properties = .ok (settleProperties properties none)
  | [], _ => rfl
  | (key, schema) :: rest, h => by
      simp only [Schema.expandedProperties, Bool.and_eq_true] at h
      rw [extractProperties, extractProperty_eq schema h.1, extractProperties_eq rest h.2]
      rfl

theorem extractProperty_eq : (schema : Schema) → schema.expanded = true →
    extractProperty schema = .ok (settle schema none)
  | .boolean _, _ => rfl
  | .oneOf branches, h => by
      simp only [Schema.expanded, Bool.and_eq_true] at h
      rw [extractProperty, extractBranches_eq branches h.2]
      rfl
  | .object _ _, _ => rfl
  | .other, _ => rfl

theorem extractBranches_eq : (branches : List Schema) → Schema.expandedBranches branches = true →
    extractBranches branches = .ok (settleBranches branches none)
  | [], _ => rfl
  | .object title properties :: rest, h => by
      simp only [Schema.expandedBranches, Schema.expanded, Bool.and_eq_true, Bool.not_eq_true'] at h
      rw [extractBranches, if_pos (by rfl), extractDefaultInclude, h.1.1.1, settleBranches]
      exact extractProperties_eq properties h.1.2
  | .boolean _ :: rest, h => by
      simp only [Schema.expandedBranches, Bool.and_eq_true] at h
      exact extractBranches_eq rest h.2
  | .oneOf _ :: rest, h => by
      simp only [Schema.expandedBranches, Bool.and_eq_true] at h
      exact extractBranches_eq rest h.2
  | .other :: rest, h => by
      simp only [Schema.expandedBranches, Bool.and_eq_true] at h
      exact extractBranches_eq rest h.2

end

end Extraction

section Acceptance

/-- The validator lets the override stand on the property. -/
def Allowed (override : Override) (schema : Schema) : Prop :=
  ∃ path, validateOverride override schema path = .ok ()

/-- An accepted dictionary names properties only, with overrides that are allowed there. -/
theorem allowed_of_validateInclude {properties : Properties} {request : Request} {path : Path}
    (h : validateInclude request properties path = .ok ()) {key : String} {override : Override}
    (hmem : (key, override) ∈ request) {schema : Schema}
    (hschema : properties.lookup key = some schema) :
    Allowed override schema := by
  induction request with
  | nil => cases hmem
  | cons entry rest ih =>
      obtain ⟨name, value⟩ := entry
      rw [validateInclude] at h
      cases hprop : properties.lookup name with
      | none =>
          rw [hprop] at h
          cases h
      | some prop =>
          rw [hprop] at h
          obtain ⟨_, hvalue, hrest⟩ := bind_eq_ok h
          rcases List.mem_cons.mp hmem with heq | hmem
          · cases heq
            rw [hprop] at hschema
            cases hschema
            exact ⟨_, hvalue⟩
          · exact ih hrest hmem

theorem not_allowed_other (schema : Schema) : ¬ Allowed .other schema := by
  rintro ⟨path, h⟩
  cases schema with
  | boolean schema =>
      simp only [validateOverride] at h
      split at h <;> cases h
  | _ => cases h

theorem not_allowed_nested_boolean (entries : Request) (schema : BooleanSchema) :
    ¬ Allowed (.nested entries) (.boolean schema) := by
  rintro ⟨path, h⟩
  simp only [validateOverride] at h
  split at h <;> cases h

theorem allowed_nested {entries : Request} {branches : List Schema}
    (hexpanded : (Schema.oneOf branches).expanded = true)
    (h : Allowed (.nested entries) (.oneOf branches)) :
    ∃ path, validateInclude entries (Schema.oneOf branches).children path = .ok () := by
  obtain ⟨path, h⟩ := h
  rw [validateOverride] at h
  cases hlast : (branches.filterMap Schema.objectProperties).getLast? with
  | none =>
      rw [hlast] at h
      cases h
  | some properties =>
      rw [hlast] at h
      rw [Schema.getLast_objectProperties hexpanded hlast]
      exact ⟨path, h⟩

/-- The overrides are allowed on the properties that they name. -/
def AllAllowed (overrides : Request) (properties : Properties) : Prop :=
  ∀ entry ∈ properties, ∀ override, overrides.lookup entry.1 = some override →
    Allowed override entry.2

theorem allAllowed_of_validateInclude {properties : Properties}
    (hkeys : (Dictionary.keys properties).Nodup) {request : Request} {path : Path}
    (h : validateInclude request properties path = .ok ()) :
    AllAllowed request properties := by
  intro entry hentry override hoverride
  exact allowed_of_validateInclude h (Dictionary.mem_of_lookup hoverride)
    (Dictionary.lookup_of_mem hkeys hentry)

end Acceptance

section Merge

mutual

theorem mergeOverrides_eq : (properties : Properties) → (overrides : Request) →
    Schema.expandedProperties properties = true → AllAllowed overrides properties →
    mergeOverrides (settleProperties properties none) overrides =
      .ok (settleProperties properties (some overrides))
  | [], _, _, _ => by
      rw [settleProperties, mergeOverrides, settleProperties]
  | (key, schema) :: rest, overrides, hexpanded, hallowed => by
      simp only [Schema.expandedProperties, Bool.and_eq_true] at hexpanded
      have hrest := mergeOverrides_eq rest overrides hexpanded.2
        fun entry hentry => hallowed entry (List.mem_cons_of_mem _ hentry)
      have hhead := mergeOverride_eq schema (overrides.lookup key) hexpanded.1
        fun override h => hallowed (key, schema) List.mem_cons_self override h
      rw [settleProperties, settleProperties]
      cases hsettle : settle schema none with
      | none =>
          have hnone := hhead.1 hsettle
          simp only [Option.bind_none, Option.bind_some, hsettle, hnone]
          exact hrest
      | some node =>
          have hmerged := hhead.2 node hsettle
          simp only [Option.bind_none, Option.bind_some, hsettle, Option.map_some,
            Option.toList_some, List.singleton_append, mergeOverrides, hmerged, ok_bind, hrest]
          rfl

theorem mergeOverride_eq : (schema : Schema) → (override : Option Override) →
    schema.expanded = true → (∀ o, override = some o → Allowed o schema) →
    (settle schema none = none → settle schema override = none) ∧
      ∀ node, settle schema none = some node →
      mergeOverride node override = .ok (settle schema override)
  | .boolean schema, override, _, hallowed => by
      constructor
      · intro h
        cases h
      · intro node h
        cases h
        match override with
        | none => rfl
        | some (.flag b) => rfl
        | some (.nested entries) =>
            exact absurd (hallowed _ rfl) (not_allowed_nested_boolean entries schema)
        | some .other => exact absurd (hallowed _ rfl) (not_allowed_other _)
  | .oneOf branches, override, hexpanded, hallowed => by
      constructor
      · intro h
        cases h
      · intro node h
        cases h
        match override with
        | none => rfl
        | some (.flag b) => rfl
        | some (.nested entries) =>
            have hbranches := hexpanded
            simp only [Schema.expanded, Bool.and_eq_true] at hbranches
            obtain ⟨path, hpath⟩ := allowed_nested hexpanded (hallowed _ rfl)
            have hkeys := (Schema.expandedBranches_children hbranches.2).1
            have hnested := mergeBranches_eq branches entries hbranches.2
              (allAllowed_of_validateInclude hkeys hpath)
            simp only [Option.bind_none, mergeOverride, hnested]
            rfl
        | some .other => exact absurd (hallowed _ rfl) (not_allowed_other _)
  | .object _ _, _, _, _ => by
      constructor
      · intro _
        rfl
      · intro node h
        cases h
  | .other, _, _, _ => by
      constructor
      · intro _
        rfl
      · intro node h
        cases h

theorem mergeBranches_eq : (branches : List Schema) → (overrides : Request) →
    Schema.expandedBranches branches = true →
    AllAllowed overrides (Schema.oneOf branches).children →
    mergeOverrides (settleBranches branches none) overrides =
      .ok (settleBranches branches (some overrides))
  | [], _, _, _ => by
      rw [settleBranches, mergeOverrides, settleBranches]
  | .object title properties :: rest, overrides, hexpanded, hallowed => by
      simp only [Schema.expandedBranches, Schema.expanded, Bool.and_eq_true] at hexpanded
      exact mergeOverrides_eq properties overrides hexpanded.1.2 hallowed
  | .boolean _ :: rest, overrides, hexpanded, hallowed => by
      simp only [Schema.expandedBranches, Bool.and_eq_true] at hexpanded
      exact mergeBranches_eq rest overrides hexpanded.2 hallowed
  | .oneOf _ :: rest, overrides, hexpanded, hallowed => by
      simp only [Schema.expandedBranches, Bool.and_eq_true] at hexpanded
      exact mergeBranches_eq rest overrides hexpanded.2 hallowed
  | .other :: rest, overrides, hexpanded, hallowed => by
      simp only [Schema.expandedBranches, Bool.and_eq_true] at hexpanded
      exact mergeBranches_eq rest overrides hexpanded.2 hallowed

end

end Merge

/-- An include parameter that may be left out, and that the validator has accepted otherwise. -/
def Accepted (schema : IncludeSchema) (request : Option Request) : Prop :=
  ∀ overrides, request = some overrides → validateInclude overrides schema.properties [] = .ok ()

def IncludeSchema.schema (schema : IncludeSchema) : Schema :=
  .object (some schema.title) schema.properties

/-- For an accepted request the tree is built, out of what each property comes to. -/
theorem buildPydanticInclude_eq {schema : IncludeSchema} {request : Option Request}
    (haccepted : Accepted schema request) (obj : Value) :
    buildPydanticInclude obj schema.schema request =
      .ok (formatInclude obj (settleProperties schema.properties request)) := by
  have hexpanded := schema.expanded
  simp only [Schema.expanded, Bool.and_eq_true, Bool.not_eq_true'] at hexpanded
  have hdefaults :
      extractDefaultInclude schema.schema = .ok (settleProperties schema.properties none) := by
    simp only [IncludeSchema.schema, extractDefaultInclude, hexpanded.1.1]
    exact extractProperties_eq schema.properties hexpanded.2
  have hmerged : mergeInclude (settleProperties schema.properties none) request =
      .ok (settleProperties schema.properties request) := by
    cases request with
    | none => rfl
    | some overrides =>
        have hkeys := Schema.keys_nodup schema.expanded
        have hallowed := allAllowed_of_validateInclude hkeys (haccepted overrides rfl)
        exact mergeOverrides_eq schema.properties overrides hexpanded.2 hallowed
  rw [buildPydanticInclude, hdefaults, ok_bind, hmerged, ok_bind]
  rfl

end Graveboards.Includes
