import Graveboards.Library.Dictionary
import Graveboards.Parameters.DeepObject

/-!
Keys with brackets, for any declared parameters: which parameter a raw query key goes to, the
path in its brackets, and when the parser returns at all. Endpoints with filters are an
instance.
-/

namespace Graveboards.Parameters

open Graveboards.Library

/-- A schema as far as the parser walks it. The properties of a `oneOf` are never read, and a type
that is no single name is like none. -/
inductive ParamSchema where
  | plain (type : Option String) (properties : List (String × ParamSchema))
  | oneOf (type : Option String) (branches : List ParamSchema)

namespace ParamSchema

/-- The empty schema `{}`. -/
def empty : ParamSchema := .plain none []

/-- `schema.get("type")`. -/
def type : ParamSchema → Option String
  | plain type _ => type
  | oneOf type _ => type

/-- `schema.get("properties", {})`. -/
def properties : ParamSchema → List (String × ParamSchema)
  | plain _ properties => properties
  | oneOf _ _ => []

mutual

/-- The loop that replaces a `oneOf` by its first object branch, or else by its first branch;
`none`: IndexError. -/
def resolve : ParamSchema → Option ParamSchema
  | plain type properties => some (plain type properties)
  | oneOf _ branches => (resolveObject branches).getD (resolveFirst branches)

/-- What the first object branch is replaced by, if there is one. -/
def resolveObject : List ParamSchema → Option (Option ParamSchema)
  | [] => none
  | branch :: rest =>
      if branch.type = some "object" then some (resolve branch) else resolveObject rest

def resolveFirst : List ParamSchema → Option ParamSchema
  | [] => none
  | branch :: _ => resolve branch

end

/-- The schema that a key path leads to. -/
def leafSchema : ParamSchema → Path → Option ParamSchema
  | schema, [] => some schema
  | schema, name :: rest =>
      (resolve schema).bind fun schema =>
        leafSchema ((schema.properties.lookup name).getD empty) rest

mutual

/-- Every `oneOf` has a branch, as in any valid schema. -/
def Solid : ParamSchema → Prop
  | plain _ properties => SolidProperties properties
  | oneOf _ branches => branches ≠ [] ∧ SolidBranches branches

def SolidProperties : List (String × ParamSchema) → Prop
  | [] => True
  | (_, schema) :: rest => Solid schema ∧ SolidProperties rest

def SolidBranches : List ParamSchema → Prop
  | [] => True
  | branch :: rest => Solid branch ∧ SolidBranches rest

end

end ParamSchema

/-- The value at the leaf of a deep object. -/
def leafOf (k : String) (array : Bool) (v : List String) : Value :=
  if array then
    match v with
    | [s] =>
        if "filters".toList.isPrefixOf k.toList then
          .list ((s.toList.splitOn ',').map fun s => .str (String.ofList s))
        else .list [.str s]
    | v => .list (v.map .str)
  else
    match v with
    | [s] => .str s
    | v => .list (v.map .str)

/-- The text before the first bracket. -/
def beforeBracket (k : String) : String := String.ofList (k.toList.takeWhile (· ≠ '['))

/-- The key `name[k1]...[kn]`. -/
def bracketKey (name : String) (path : Path) : String :=
  String.ofList (name.toList ++ path.flatMap fun part => '[' :: (part.toList ++ [']']))

/-- The declared query parameters: `param_schemas` in their order, and which of them have the style
`deepObject`. -/
structure QueryParameters where
  schemas : List (String × ParamSchema)
  deepObject : String → Bool
  solid : ∀ param ∈ schemas, param.2.Solid

namespace QueryParameters

variable (params : QueryParameters)

def names : List String := params.schemas.map Prod.fst

/-- The declared names that begin a key with a bracket. -/
def candidates (k : String) : List String :=
  params.names.filter fun name => name.toList.isPrefixOf k.toList && k.toList.contains '['

/-- The last candidate, or else what comes before the first bracket. -/
def rootKey (k : String) : String :=
  let found := params.names.foldl (fun found key =>
    if key.toList.isPrefixOf k.toList && k.toList.contains '[' then key else found) ""
  if found = "" then beforeBracket k else found

/-- What a parameter that is no deep object is given; `none`: IndexError. -/
def flat (root : String) (v : List String) : Option (String × Value × Bool) :=
  match v with
  | [] => none
  | [s] => some (root, .str s, false)
  | v => some (root, .list (v.map .str), false)

/-- What a deep object is given; `none`: IndexError. -/
def nested (root k : String) (v : List String) : Option (String × Value × Bool) :=
  let path := bracketed none k.toList
  if path = [] then none
  else
    (((params.schemas.lookup root).getD .empty).leafSchema path).map fun schema =>
      (root, .list [nest path (leafOf k (schema.type = some "array") v)], true)

/-- `_make_deep_object`. -/
def makeDeepObject (k : String) (v : List String) : Option (String × Value × Bool) :=
  let declared := params.names.contains k
  let root := if declared then k else params.rootKey k
  if declared || !params.deepObject root then flat root v else params.nested root k v

/-- The leaf holds the values: the only one, all of them, or the parts of the only one between
commas. -/
def Carries (v : List String) (leaf : Value) : Prop :=
  leaf = .list (v.map .str) ∨
    ∃ s, v = [s] ∧
    (leaf = .str s ∨ leaf = .list ((s.toList.splitOn ',').map fun s => .str (String.ofList s)))

/-- A key is handled: the parser returns, the parameter is the one before the first bracket, if that
is declared, and no other declared one; and a well-formed key of a deep object gives the chain of
its parts. -/
def Handles (k : String) (v : List String) : Prop :=
  ∃ root value deep, params.makeDeepObject k v = some (root, value, deep) ∧
    (beforeBracket k ∈ params.names → root = beforeBracket k) ∧
    (root ∈ params.names → root = beforeBracket k) ∧
    ∀ path, path ≠ [] → (∀ part ∈ path, Schema.Writable part) →
    k = bracketKey (beforeBracket k) path →
      beforeBracket k ∈ params.names → params.deepObject (beforeBracket k) = true →
      ∃ leaf, value = .list [nest path leaf] ∧ deep = true ∧ Carries v leaf

/-- A declared name is no key with a bracket, and the last declared name that begins a key with a
bracket is what stands before the bracket, or empty. -/
structure Unambiguous (k : String) : Prop where
  declared : k ∈ params.names → k = beforeBracket k
  last : k ∉ params.names → ∀ name ∈ (params.candidates k).getLast?,
      name = beforeBracket k ∨ name = ""

/-- A deep object has a part in brackets, and any other parameter a value. -/
def Complete (k : String) (v : List String) : Prop :=
  if k ∉ params.names ∧ params.deepObject (beforeBracket k) = true then
    bracketed none k.toList ≠ [] else v ≠ []

end QueryParameters

/-! The walk through a valid schema. -/

namespace ParamSchema

mutual

theorem resolve_of_solid : (schema : ParamSchema) → schema.Solid →
    ∃ resolved, schema.resolve = some resolved ∧ resolved.Solid
  | plain type properties, h => ⟨plain type properties, rfl, h⟩
  | oneOf type branches, h => by
      rw [resolve]
      rw [Solid] at h
      cases hobject : resolveObject branches with
      | none => exact resolveFirst_of_solid branches h.1 h.2
      | some found =>
          rw [Option.getD_some]
          exact resolveObject_of_solid branches h.2 hobject

theorem resolveObject_of_solid : (branches : List ParamSchema) → SolidBranches branches →
    {found : Option ParamSchema} → resolveObject branches = some found →
    ∃ resolved, found = some resolved ∧ resolved.Solid
  | [], _, _, hfound => nomatch hfound
  | branch :: rest, h, found, hfound => by
      rw [SolidBranches] at h
      rw [resolveObject] at hfound
      split at hfound
      · obtain rfl := Option.some.inj hfound
        exact resolve_of_solid branch h.1
      · exact resolveObject_of_solid rest h.2 hfound

theorem resolveFirst_of_solid :
    (branches : List ParamSchema) → branches ≠ [] → SolidBranches branches →
    ∃ resolved, resolveFirst branches = some resolved ∧ resolved.Solid
  | [], hne, _ => absurd rfl hne
  | branch :: rest, _, h => by
      rw [SolidBranches] at h
      rw [resolveFirst]
      exact resolve_of_solid branch h.1

end

theorem solid_of_lookup {properties : List (String × ParamSchema)} {name : String}
    {schema : ParamSchema} (h : SolidProperties properties)
    (hlookup : properties.lookup name = some schema) : schema.Solid := by
  induction properties with
  | nil => cases hlookup
  | cons entry rest ih =>
      obtain ⟨name', schema'⟩ := entry
      rw [SolidProperties] at h
      rw [List.lookup_cons] at hlookup
      split at hlookup
      · obtain rfl := Option.some.inj hlookup
        exact h.1
      · exact ih h.2 hlookup

theorem solidProperties_properties {schema : ParamSchema} (h : schema.Solid) :
    SolidProperties schema.properties := by
  cases schema with
  | plain type properties => exact h
  | oneOf type branches => trivial

/-- The walk finds a schema for every path. -/
theorem exists_leafSchema {schema : ParamSchema} (h : schema.Solid) (path : Path) :
    ∃ leaf, schema.leafSchema path = some leaf := by
  induction path generalizing schema with
  | nil => exact ⟨schema, rfl⟩
  | cons name rest ih =>
      obtain ⟨resolved, hresolve, hsolid⟩ := resolve_of_solid schema h
      rw [leafSchema, hresolve, Option.bind_some]
      apply ih
      cases hlookup : resolved.properties.lookup name with
      | none => trivial
      | some schema' => exact solid_of_lookup (solidProperties_properties hsolid) hlookup

end ParamSchema

/-! The root of a key. -/

/-- A loop that keeps the last hit. -/
theorem foldl_last_hit {α : Type} (hit : α → Bool) (l : List α) (start : α) :
    l.foldl (fun found x => if hit x then x else found) start = (l.filter hit).getLastD start := by
  induction l generalizing start with
  | nil => rfl
  | cons x rest ih =>
      rw [List.foldl_cons, ih]
      cases hx : hit x with
      | true => rw [if_pos rfl, List.filter_cons_of_pos hx, List.getLastD_cons]
      | false => rw [if_neg Bool.false_ne_true, List.filter_cons_of_neg (by simp [hx])]

theorem bracket_not_mem_beforeBracket (k : String) : '[' ∉ (beforeBracket k).toList := by
  rw [beforeBracket, String.toList_ofList]
  intro hmem
  exact absurd (List.mem_takeWhile_imp hmem) (by decide)

namespace QueryParameters

variable {params : QueryParameters} {k : String} {v : List String}

theorem rootKey_eq (params : QueryParameters) (k : String) : params.rootKey k =
    if (params.candidates k).getLastD "" = "" then beforeBracket k
    else (params.candidates k).getLastD "" := by
  rw [rootKey, foldl_last_hit, candidates]

/-- The root is what comes before the bracket, unless the last candidate is another name. -/
theorem rootKey_eq_iff : params.rootKey k = beforeBracket k ↔
    ∀ name ∈ (params.candidates k).getLast?, name = beforeBracket k ∨ name = "" := by
  rw [rootKey_eq, List.getLastD_eq_getLast?]
  cases hlast : (params.candidates k).getLast? with
  | none => simp
  | some name =>
      rw [Option.getD_some]
      by_cases hempty : name = ""
      · simp [hempty]
      · simp [hempty]

/-- The root is a declared name, or what comes before the bracket. -/
theorem rootKey_cases (params : QueryParameters) (k : String) :
    params.rootKey k ∈ params.names ∨ params.rootKey k = beforeBracket k := by
  rw [rootKey_eq, List.getLastD_eq_getLast?]
  split
  case isTrue => exact .inr rfl
  case isFalse hne =>
      left
      cases hlast : (params.candidates k).getLast? with
      | none =>
          rw [hlast] at hne
          exact absurd rfl hne
      | some name =>
          rw [Option.getD_some]
          exact List.mem_of_mem_filter (List.mem_of_getLast? hlast)

/-- The key is taken as a deep object, if its root is what stands before the bracket. -/
def Deep (params : QueryParameters) (k : String) : Prop :=
  k ∉ params.names ∧ params.deepObject (beforeBracket k) = true

/-- The declared key, or else its root. -/
theorem unambiguous_iff : params.Unambiguous k ↔
    (if params.names.contains k then k else params.rootKey k) = beforeBracket k := by
  constructor
  · rintro ⟨hdeclared, hlast⟩
    split
    case isTrue hmem => exact hdeclared (List.contains_iff_mem.mp hmem)
    case isFalse hmem =>
      exact rootKey_eq_iff.mpr (hlast fun h => hmem (List.contains_iff_mem.mpr h))
  · intro h
    split at h
    case isTrue hmem =>
        rw [List.contains_iff_mem] at hmem
        exact ⟨fun _ => h, fun hnot => absurd hmem hnot⟩
    case isFalse hmem =>
        rw [List.contains_iff_mem] at hmem
        exact ⟨fun h' => absurd h' hmem, fun _ => rootKey_eq_iff.mp h⟩

theorem makeDeepObject_eq (hroot : params.Unambiguous k) (v : List String) :
    (params.Deep k → params.makeDeepObject k v = params.nested (beforeBracket k) k v) ∧
      (¬ params.Deep k → params.makeDeepObject k v = flat (beforeBracket k) v) := by
  have hcond : (params.names.contains k || !params.deepObject (beforeBracket k)) = true ↔
      ¬ params.Deep k := by
    rw [Bool.or_eq_true, List.contains_iff_mem, Bool.not_eq_true', ← Bool.not_eq_true, Deep]
    tauto
  rw [unambiguous_iff] at hroot
  unfold makeDeepObject
  dsimp only
  rw [hroot]
  constructor
  · exact fun hdeep => if_neg fun h => hcond.mp h hdeep
  · exact fun hflat => if_pos (hcond.mpr hflat)

theorem root_of_flat {root : String} {result : String × Value × Bool}
    (h : flat root v = some result) :
    result.1 = root := by
  match v, h with
  | [s], h => exact (Option.some.inj h) ▸ rfl
  | s :: t :: rest, h => exact (Option.some.inj h) ▸ rfl

theorem root_of_nested {root : String} {result : String × Value × Bool}
    (h : params.nested root k v = some result) :
    result.1 = root := by
  unfold nested at h
  dsimp only at h
  split at h
  · cases h
  · obtain ⟨schema, -, rfl⟩ := Option.map_eq_some_iff.mp h
    rfl

theorem root_of_makeDeepObject {root : String} {value : Value} {deep : Bool}
    (h : params.makeDeepObject k v = some (root, value, deep)) :
    root = if params.names.contains k then k else params.rootKey k := by
  unfold makeDeepObject at h
  dsimp only at h
  generalize (if params.names.contains k then k else params.rootKey k) = declaredOrRoot at h ⊢
  split at h
  · exact root_of_flat h
  · exact root_of_nested h

/-- A parameter that is given the values flatly needs one. -/
theorem exists_flat_iff (root : String) (v : List String) :
    (∃ value, flat root v = some (root, value, false)) ↔ v ≠ [] := by
  match v with
  | [] => simp [flat]
  | [s] => simp [flat]
  | s :: t :: rest => simp [flat]

theorem exists_leaf (params : QueryParameters) (root : String) (path : Path) :
    ∃ leaf, ((params.schemas.lookup root).getD .empty).leafSchema path = some leaf := by
  apply ParamSchema.exists_leafSchema
  cases hlookup : params.schemas.lookup root with
  | none => trivial
  | some schema => exact params.solid (root, schema) (Dictionary.mem_of_lookup hlookup)

theorem carries_leafOf (k : String) (array : Bool) (v : List String) :
    Carries v (leafOf k array v) := by
  cases array with
  | true =>
      match v with
      | [] => exact .inl rfl
      | [s] =>
          rw [leafOf, if_pos rfl]
          by_cases hfilters : "filters".toList.isPrefixOf k.toList = true
          · exact .inr ⟨s, rfl, .inr (if_pos hfilters)⟩
          · exact .inl (if_neg hfilters)
      | s :: t :: rest => exact .inl rfl
  | false =>
      match v with
      | [] => exact .inl rfl
      | [s] => exact .inr ⟨s, rfl, .inl rfl⟩
      | s :: t :: rest => exact .inl rfl

/-- A deep object is given the chain of the parts in brackets, if there are any. -/
theorem nested_spec (params : QueryParameters) (root k : String) (v : List String) :
    (bracketed none k.toList = [] → params.nested root k v = none) ∧
      (bracketed none k.toList ≠ [] → ∃ leaf, Carries v leaf ∧
        params.nested root k v =
          some (root, .list [nest (bracketed none k.toList) leaf], true)) := by
  unfold nested
  constructor
  · exact fun hnil => if_pos hnil
  · intro hne
    obtain ⟨schema, hschema⟩ := params.exists_leaf root (bracketed none k.toList)
    rw [if_neg hne, hschema, Option.map_some]
    exact ⟨_, carries_leafOf k _ v, rfl⟩

theorem bracketed_bracketKey {name : String} {path : Path} (hname : '[' ∉ name.toList)
    (hpath : ∀ part ∈ path, Schema.Writable part) :
    bracketed none (bracketKey name path).toList = path := by
  rw [bracketKey, String.toList_ofList, bracketed_none_append hname, bracketed_path hpath]

/-- Keys are handled exactly where they are unambiguous and complete. -/
theorem handles_iff (params : QueryParameters) (k : String) (v : List String) :
    params.Handles k v ↔ params.Unambiguous k ∧ params.Complete k v := by
  constructor
  · rintro ⟨root, value, deep, hmake, hbefore, honly, -⟩
    have hroot := root_of_makeDeepObject hmake
    have hunambiguous : params.Unambiguous k := by
      rw [unambiguous_iff, ← hroot]
      by_cases hmem : root ∈ params.names
      · exact honly hmem
      · rw [hroot] at hmem ⊢
        split
        case isTrue hdeclared =>
            rw [if_pos hdeclared] at hmem
            exact absurd (List.contains_iff_mem.mp hdeclared) hmem
        case isFalse hdeclared =>
            rw [if_neg hdeclared] at hmem
            exact (params.rootKey_cases k).resolve_left hmem
    refine ⟨hunambiguous, ?_⟩
    obtain ⟨hnested, hflat⟩ := makeDeepObject_eq hunambiguous v
    unfold Complete
    split
    case isTrue hdeep =>
        intro hnil
        rw [hnested hdeep, (params.nested_spec _ k v).1 hnil] at hmake
        cases hmake
    case isFalse hflatly =>
        rintro rfl
        rw [hflat hflatly] at hmake
        cases hmake
  · rintro ⟨hunambiguous, hcomplete⟩
    obtain ⟨hnested, hflat⟩ := makeDeepObject_eq hunambiguous v
    unfold Complete at hcomplete
    split at hcomplete
    case isTrue hdeep =>
        obtain ⟨leaf, hcarries, hvalue⟩ := (params.nested_spec (beforeBracket k) k v).2 hcomplete
        refine ⟨_, _, _, (hnested hdeep).trans hvalue, fun _ => rfl, fun _ => rfl, ?_⟩
        intro path _ hpath hkey _ _
        have hparts : bracketed none k.toList = path := by
          rw [hkey]
          exact bracketed_bracketKey (bracket_not_mem_beforeBracket k) hpath
        exact ⟨leaf, by rw [hparts], rfl, hcarries⟩
    case isFalse hflatly =>
        obtain ⟨value, hvalue⟩ := (exists_flat_iff (beforeBracket k) v).mpr hcomplete
        refine ⟨_, _, _, (hflat hflatly).trans hvalue, fun _ => rfl, fun _ => rfl, ?_⟩
        -- A key with brackets of a deep object is flat only if it is declared itself.
        intro path hne _ hkey _ hdeepObject
        exfalso
        have hmem : k ∈ params.names := by
          by_contra hmem
          exact hflatly ⟨hmem, hdeepObject⟩
        have hbracket : '[' ∈ k.toList := by
          rw [hkey, bracketKey, String.toList_ofList]
          cases path with
          | nil => exact absurd rfl hne
          | cons part rest => simp
        rw [hunambiguous.declared hmem] at hbracket
        exact bracket_not_mem_beforeBracket k hbracket

/-- The filters of profiles as the only parameter. -/
def onlyFilters : QueryParameters :=
  { schemas := [("filters", .plain (some "object") [])]
    deepObject := fun name => name = "filters"
    solid := by simp [ParamSchema.Solid, ParamSchema.SolidProperties] }

/-- A key with a bracket that is never closed makes the parser raise. -/
theorem openBracket_not_handled : ¬ onlyFilters.Handles "filters[" ["1"] := by
  rintro ⟨root, value, deep, hmake, -⟩
  have hnone : onlyFilters.makeDeepObject "filters[" ["1"] = none := by decide
  rw [hnone] at hmake
  cases hmake

end QueryParameters

/-! An endpoint with filters declares parameters among others. -/

namespace ScalarType

/-- The value of `type` in the schema. -/
def schemaType : ScalarType → Option String
  | string => some "string"
  | dateTime => some "string"
  | integer => some "integer"
  | number => some "number"
  | boolean => some "boolean"
  | null => some "null"
  | unknown => none

end ScalarType

namespace ParamSchema

mutual

/-- What the parser sees of a schema that filters are checked against. -/
def ofSchema : Schema → ParamSchema
  | .scalar t => .plain t.schemaType []
  | .array _ => .plain (some "array") []
  | .object properties => .plain (some "object") (ofProperties properties)
  | .oneOf branches => .oneOf none (ofBranches branches)

def ofProperties : List (String × Schema) → List (String × ParamSchema)
  | [] => []
  | (name, schema) :: rest => (name, ofSchema schema) :: ofProperties rest

def ofBranches : List Schema → List ParamSchema
  | [] => []
  | branch :: rest => ofSchema branch :: ofBranches rest

end

theorem ofProperties_eq (properties : List (String × Schema)) :
    ofProperties properties = properties.map fun param => (param.1, ofSchema param.2) := by
  induction properties with
  | nil => rfl
  | cons entry rest ih => rw [ofProperties, ih, List.map_cons]

theorem lookup_getD_ofProperties (properties : List (String × Schema)) (name : String) :
    ((ofProperties properties).lookup name).getD empty =
      ofSchema ((properties.lookup name).getD .empty) := by
  induction properties with
  | nil => rfl
  | cons entry rest ih =>
      rw [ofProperties, List.lookup_cons, List.lookup_cons]
      cases name == entry.1 with
      | true => rfl
      | false => exact ih

theorem type_ofSchema (schema : Schema) :
    ((ofSchema schema).type = some "object" ↔ schema.isObject = true) ∧
      ((ofSchema schema).type = some "array" ↔ schema.isArray = true) := by
  cases schema with
  | scalar t => cases t <;> decide
  | array items => simp [ofSchema, type, Schema.isObject, Schema.isArray]
  | object properties => simp [ofSchema, type, Schema.isObject, Schema.isArray]
  | oneOf branches => simp [ofSchema, type, Schema.isObject, Schema.isArray]

theorem properties_ofSchema (schema : Schema) :
    (ofSchema schema).properties = ofProperties schema.properties := by
  cases schema with
  | _ => rfl

theorem resolveObject_ofBranches (branches : List Schema) :
    resolveObject (ofBranches branches) = (branches.find? Schema.isObject).map fun branch =>
      some (ofSchema branch) := by
  induction branches with
  | nil => rfl
  | cons branch rest ih =>
      rw [ofBranches, resolveObject, List.find?_cons]
      cases hobject : branch.isObject with
      | true =>
          rw [if_pos ((type_ofSchema branch).1.mpr hobject)]
          cases branch with
          | object properties => rfl
          | _ => cases hobject
      | false =>
          rw [if_neg
            (fun h => Bool.false_ne_true (hobject.symm.trans ((type_ofSchema branch).1.mp h))), ih]

mutual

theorem resolve_ofSchema :
    (schema : Schema) → (ofSchema schema).resolve = schema.resolve.map ofSchema
  | .scalar _ => rfl
  | .array _ => rfl
  | .object _ => rfl
  | .oneOf branches => by
      rw [ofSchema, resolve, resolveObject_ofBranches, Schema.resolve]
      cases branches.find? Schema.isObject with
      | none => exact resolveFirst_ofBranches branches
      | some branch => rfl

theorem resolveFirst_ofBranches : (branches : List Schema) →
    resolveFirst (ofBranches branches) = (Schema.resolveFirst branches).map ofSchema
  | [] => rfl
  | branch :: _ => resolve_ofSchema branch

end

theorem leafSchema_ofSchema (schema : Schema) (path : Path) :
    (ofSchema schema).leafSchema path = (schema.leafSchema path).map ofSchema := by
  induction path generalizing schema with
  | nil => rfl
  | cons name rest ih =>
      rw [leafSchema, resolve_ofSchema, Schema.leafSchema]
      cases schema.resolve with
      | none => rfl
      | some resolved =>
          rw [Option.map_some, Option.bind_some, Option.bind_some, properties_ofSchema, ← ih]
          rw [lookup_getD_ofProperties]

end ParamSchema

namespace Endpoint

variable {e : Endpoint}

/-- The parameters of an endpoint whose description is valid. -/
def queryParameters (e : Endpoint)
    (hsolid : ∀ param ∈ e.paramSchemas, (ParamSchema.ofSchema param.2).Solid) :
    QueryParameters :=
  { schemas := ParamSchema.ofProperties e.paramSchemas
    deepObject := e.deepObject
    solid := by
      intro param hparam
      rw [ParamSchema.ofProperties_eq] at hparam
      obtain ⟨declared, hdeclared, rfl⟩ := List.mem_map.mp hparam
      exact hsolid declared hdeclared }

theorem names_queryParameters
    (hsolid : ∀ param ∈ e.paramSchemas, (ParamSchema.ofSchema param.2).Solid) :
    (e.queryParameters hsolid).names = e.paramSchemas.map Prod.fst := by
  change (ParamSchema.ofProperties e.paramSchemas).map Prod.fst = _
  rw [ParamSchema.ofProperties_eq, List.map_map]
  rfl

theorem leafOf_ofSchema (k : String) (schema : Schema) (v : List String) :
    leafOf k ((ParamSchema.ofSchema schema).type = some "array") v = leafValue k schema v := by
  have harray : decide ((ParamSchema.ofSchema schema).type = some "array") = schema.isArray := by
    rw [Bool.eq_iff_iff, decide_eq_true_iff]
    exact (ParamSchema.type_ofSchema schema).2
  rw [harray]
  rfl

/-- The filters of an endpoint are read as any other deep object. -/
theorem makeDeepObject_queryParameters
    (hsolid : ∀ param ∈ e.paramSchemas, (ParamSchema.ofSchema param.2).Solid) (k : String)
    (v : List String) : (e.queryParameters hsolid).makeDeepObject k v = e.makeDeepObject k v := by
  have hroot : (e.queryParameters hsolid).rootKey k = e.rootKey k := by
    rw [QueryParameters.rootKey, names_queryParameters]
    rfl
  have hnested (root : String) : (e.queryParameters hsolid).nested root k v =
      if bracketed none k.toList = [] then none
      else (((e.paramSchemas.lookup root).getD .empty).leafSchema (bracketed none k.toList)).map
        fun schema =>
        (root, .list [nest (bracketed none k.toList) (leafValue k schema v)], true) := by
    have hlookup : ((e.queryParameters hsolid).schemas.lookup root).getD .empty =
        ParamSchema.ofSchema ((e.paramSchemas.lookup root).getD .empty) :=
      ParamSchema.lookup_getD_ofProperties e.paramSchemas root
    rw [QueryParameters.nested, hlookup, ParamSchema.leafSchema_ofSchema, Option.map_map]
    simp only [Function.comp_def, leafOf_ofSchema]
  unfold QueryParameters.makeDeepObject Endpoint.makeDeepObject
  dsimp only
  rw [hroot, names_queryParameters, hnested]
  rfl

end Endpoint

end Graveboards.Parameters
