import Graveboards.Library.Numeral
import Graveboards.Search.Values

/-!
Filter parameters: the schema of an endpoint's filters, the Python values that the query
string is turned into, how texts are coerced, and what the validator accepts.
-/

namespace Graveboards.Parameters

open Graveboards.Library
open Graveboards.Search (PyFloat DateTime nearestDouble)

abbrev Path := List String

inductive Value where
  | none
  | bool (b : Bool)
  | int (n : Int)
  | float (x : PyFloat)
  | str (s : String)
  | datetime (d : DateTime)
  | list (items : List Value)
  | dict (entries : List (String × Value))

/-- `dateTime` is a string whose format is `date-time`; `unknown` is any other type, or none. -/
inductive ScalarType where
  | string
  | dateTime
  | integer
  | number
  | boolean
  | null
  | unknown
  deriving DecidableEq

inductive Schema where
  | scalar (t : ScalarType)
  | array (items : Schema)
  | object (properties : List (String × Schema))
  | oneOf (branches : List Schema)

structure DeepObjectValidationError where
  path : Path
  message : String
  deriving DecidableEq

namespace Value

/-- `type(value).__name__`. -/
def typeName : Value → String
  | none => "NoneType"
  | bool _ => "bool"
  | int _ => "int"
  | float _ => "float"
  | str _ => "str"
  | datetime _ => "datetime"
  | list _ => "list"
  | dict _ => "dict"

def isDict : Value → Bool
  | dict _ => true
  | _ => false

mutual

/-- The values under the keys of the nested objects. -/
def leaves : Value → List (Path × Value)
  | dict entries => leavesEntries entries
  | v => [([], v)]

def leavesEntries : List (String × Value) → List (Path × Value)
  | [] => []
  | (key, v) :: rest => (leaves v).map (fun leaf => (key :: leaf.1, leaf.2)) ++ leavesEntries rest

end

mutual

/-- No object in the value is empty. -/
def solid : Value → Bool
  | dict entries => !entries.isEmpty && solidEntries entries
  | _ => true

def solidEntries : List (String × Value) → Bool
  | [] => true
  | (_, v) :: rest => solid v && solidEntries rest

end

theorem leaves_of_not_dict {v : Value} (h : v.isDict = false) : v.leaves = [([], v)] := by
  cases v with
  | dict entries => cases h
  | _ => rfl

end Value

namespace Schema

/-- The empty schema `{}`. -/
def empty : Schema := .scalar .unknown

/-- `schema.get("properties", {})`. -/
def properties : Schema → List (String × Schema)
  | object properties => properties
  | _ => []

/-- `schema.get("type") == "object"`. -/
def isObject : Schema → Bool
  | object _ => true
  | _ => false

def isArray : Schema → Bool
  | array _ => true
  | _ => false

mutual

/-- The loop that replaces a `oneOf` by its first object branch, or else by its first branch;
`none`: IndexError. -/
def resolve : Schema → Option Schema
  | oneOf branches =>
      match branches.find? isObject with
      | some branch => some branch
      | none => resolveFirst branches
  | schema => some schema

def resolveFirst : List Schema → Option Schema
  | [] => none
  | branch :: _ => resolve branch

end

/-- The schema that a key path leads to. -/
def leafSchema : Schema → Path → Option Schema
  | schema, [] => some schema
  | schema, name :: rest =>
      (resolve schema).bind fun schema =>
        leafSchema ((schema.properties.lookup name).getD empty) rest

end Schema

section Coercion

variable (fromisoformat : String → Option DateTime)

/-- `data.lower()`, as far as it matters for `true` and `false`. -/
def lower (data : String) : List Char := data.toList.map Char.toLower

/-- `data.replace("Z", "+00:00")`. -/
def withOffset (data : String) : String :=
  String.ofList (data.toList.flatMap fun c => if c = 'Z' then "+00:00".toList else [c])

/-- The double that a decimal numeral stands for. -/
def toFloat (x : Bool × Rat) : PyFloat :=
  let q := nearestDouble x.2
  if (2 : Rat) ^ 1024 ≤ q then .infinite x.1 else .finite x.1 (q * 2 ^ 1074).floor.toNat

/-- `cast` of a text. -/
def castText (data : String) : Value :=
  if lower data = "true".toList then .bool true
  else if lower data = "false".toList then .bool false
  else
    match fromisoformat (withOffset data) with
    | some d => .datetime d
    | none =>
        if '.' ∈ data.toList then
          ((Numeral.decimal data.toList).map fun x => .float (toFloat x)).getD (.str data)
        else ((Numeral.int data.toList).map .int).getD (.str data)

mutual

def cast : Value → Value
  | .str data => castText fromisoformat data
  | .dict entries => .dict (castEntries entries)
  | .list items => .list (castItems items)
  | v => v

def castItems : List Value → List Value
  | [] => []
  | v :: rest => cast v :: castItems rest

def castEntries : List (String × Value) → List (String × Value)
  | [] => []
  | (key, v) :: rest => (key, cast v) :: castEntries rest

end

def coerceFilters : Value → Value
  | .list [v] => cast fromisoformat v
  | v => cast fromisoformat v

end Coercion

section Validation

variable (fromisoformat : String → Option DateTime)

def expected (path : Path) (noun : String) (value : Value) :
    Except DeepObjectValidationError Unit :=
  .error ⟨path, "Expected " ++ noun ++ ", got " ++ value.typeName⟩

/-- The scalar cases of `validate_value`. A bool is an `int` to `isinstance`. -/
def validateScalar (value : Value) (t : ScalarType) (path : Path) :
    Except DeepObjectValidationError Unit :=
  match t, value with
  | .string, .str _ => .ok ()
  | .string, _ => expected path "string" value
  | .dateTime, .str s =>
      if (fromisoformat (withOffset s)).isSome then .ok ()
      else .error ⟨path, "Expected ISO 8601 date-time string, got '" ++ s ++ "'"⟩
  | .dateTime, _ => expected path "string" value
  | .integer, .int _ => .ok ()
  | .integer, .bool _ => .ok ()
  | .integer, _ => expected path "integer" value
  | .number, .int _ => .ok ()
  | .number, .bool _ => .ok ()
  | .number, .float _ => .ok ()
  | .number, _ => expected path "number" value
  | .boolean, .bool _ => .ok ()
  | .boolean, _ => expected path "boolean" value
  | .null, .none => .ok ()
  | .null, _ => expected path "null" value
  | .unknown, _ => .error ⟨path, "Invalid filter schema definition"⟩

/-- The loop over the branches of a `oneOf`. A branch that does not apply is passed over;
the last error of the others is raised when none matches. -/
def firstMatch (path : Path) (check : Schema → Option (Except DeepObjectValidationError Unit)) :
    List Schema → Option DeepObjectValidationError → Except DeepObjectValidationError Unit
  | [], lastError =>
      .error (lastError.getD ⟨path, "Value does not match any allowed condition schema"⟩)
  | branch :: rest, lastError =>
      match check branch with
      | none => firstMatch path check rest lastError
      | some (.ok ()) => .ok ()
      | some (.error e) => firstMatch path check rest (some e)

/-- The body of the loop of `validate_filters`, given how the value is checked against a schema.
An object branch is for dictionaries only, and the others are for everything else. -/
def validateProperty (validate : Schema → Except DeepObjectValidationError Unit) (value : Value)
    (schema : Schema) (path : Path) : Except DeepObjectValidationError Unit :=
  match schema with
  | .oneOf branches =>
      firstMatch path
        (fun branch => if branch.isObject = value.isDict then some (validate branch) else none)
        branches none
  | schema => validate schema

mutual

def validateValue : Value → Schema → Path → Except DeepObjectValidationError Unit
  | .dict entries, .object properties, path => validateEntries entries properties path
  | _, .object _, path => .error ⟨path, "Expected nested filter object"⟩
  | .list items, .array schema, path => validateItems items schema 0 path
  | value, .array _, path => expected path "array" value
  | value, .scalar t, path => validateScalar fromisoformat value t path
  | _, .oneOf _, path => .error ⟨path, "Invalid filter schema definition"⟩

def validateItems : List Value → Schema → Nat → Path → Except DeepObjectValidationError Unit
  | [], _, _, _ => .ok ()
  | item :: rest, schema, i, path =>
      validateValue item schema (path ++ [toString i]) >>= fun _ =>
        validateItems rest schema (i + 1) path

def validateEntries :
    List (String × Value) → List (String × Schema) → Path → Except DeepObjectValidationError Unit
  | [], _, _ => .ok ()
  | (key, value) :: rest, properties, path =>
      (match properties.lookup key with
        | none => .error ⟨path ++ [key], "Unknown filter field"⟩
        | some schema =>
            validateProperty (fun schema => validateValue value schema (path ++ [key])) value schema
              (path ++ [key])) >>= fun _ => validateEntries rest properties path

end

def validateFilters (filters : Value) (schema : Schema) (path : Path) :
    Except DeepObjectValidationError Unit :=
  match filters with
  | .dict entries => validateEntries fromisoformat entries schema.properties path
  | _ => .error ⟨path, "Expected a dict for filter object"⟩

end Validation

/-! What the validator accepts, leaf by leaf. -/

namespace ScalarType

variable (fromisoformat : String → Option DateTime)

/-- The values of the declared type. -/
def Declares : ScalarType → Value → Prop
  | .string, .str _ => True
  | .dateTime, .str s => (fromisoformat (withOffset s)).isSome = true
  | .integer, .int _ => True
  | .number, .int _ => True
  | .number, .float _ => True
  | .boolean, .bool _ => True
  | .null, .none => True
  | _, _ => False

def isNumeric : ScalarType → Bool
  | .integer => true
  | .number => true
  | _ => false

/-- A bool that stands for a number. -/
def Counts (t : ScalarType) (v : Value) : Prop := t.isNumeric = true ∧ ∃ b, v = .bool b

/-- The values that pass for the type. -/
def Admits (t : ScalarType) (v : Value) : Prop := t.Declares fromisoformat v ∨ t.Counts v

/-- The types that filters have. -/
def isFilter : ScalarType → Bool
  | .null => false
  | .unknown => false
  | _ => true

variable {fromisoformat}

theorem validateScalar_eq_ok_iff {t : ScalarType} {v : Value} (path : Path) :
    validateScalar fromisoformat v t path = .ok () ↔ t.Admits fromisoformat v := by
  cases t with
  | dateTime =>
      cases v <;>
        simp [validateScalar, Admits, Declares, Counts, isNumeric, expected,
          Option.isSome_iff_ne_none]
  | _ => cases v <;> simp [validateScalar, Admits, Declares, Counts, isNumeric, expected]

theorem not_admits_dict {t : ScalarType} {entries : List (String × Value)} :
    ¬ t.Admits fromisoformat (.dict entries) := by
  cases t <;> simp [Admits, Declares, Counts]

theorem not_admits_unknown {v : Value} : ¬ unknown.Admits fromisoformat v := by
  cases v <;> simp [Admits, Declares, Counts, isNumeric]

theorem declares_iff_not_counts {t : ScalarType} {v : Value} (h : t.Admits fromisoformat v) :
    t.Declares fromisoformat v ↔ ¬ t.Counts v := by
  constructor
  · rintro hdeclares ⟨hnumeric, b, rfl⟩
    cases t with
    | integer => exact hdeclares
    | number => exact hdeclares
    | _ => cases hnumeric
  · exact fun hcounts => h.resolve_right hcounts

end ScalarType

namespace Schema

/-- What a leaf's schema says about its value, given what a type says. -/
def Holds (R : ScalarType → Value → Prop) : Schema → Value → Prop
  | .scalar t, v => R t v
  | .array (.scalar t), .list items => ∀ v ∈ items, R t v
  | .oneOf branches, v => ∃ t, .scalar t ∈ branches ∧ R t v
  | _, _ => False

/-- Some value of the leaf is a bool that stands for a number. -/
def Counts : Schema → Value → Prop
  | .array (.scalar t), .list items => ∃ v ∈ items, t.Counts v
  | .scalar t, v => t.Counts v
  | .oneOf branches, v => ∃ t, .scalar t ∈ branches ∧ t.Counts v
  | _, _ => False

/-- A property name that the key of a deep object can carry. -/
def Writable (name : String) : Prop := '[' ∉ name.toList ∧ ']' ∉ name.toList

mutual

/-- The schemas of filters: scalars, arrays of scalars, objects, and a choice between a scalar
and an object of conditions, in either order. -/
def Filter : Schema → Prop
  | .scalar t => t.isFilter = true
  | .array items => ∃ t, items = .scalar t ∧ t.isFilter = true
  | .object properties => FilterProperties properties
  | .oneOf [.scalar t, .object properties] => t.isFilter = true ∧ FilterProperties properties
  | .oneOf [.object properties, .scalar t] => t.isFilter = true ∧ FilterProperties properties
  | .oneOf _ => False

def FilterProperties : List (String × Schema) → Prop
  | [] => True
  | (name, schema) :: rest => Writable name ∧ Filter schema ∧ FilterProperties rest

end

theorem filter_oneOf {branches : List Schema} (h : Filter (.oneOf branches)) :
    ∃ t properties, t.isFilter = true ∧ FilterProperties properties ∧
      (branches = [.scalar t, .object properties] ∨
        branches = [.object properties, .scalar t]) := by
  unfold Filter at h
  split at h
  case h_1 heq => cases heq
  case h_2 heq => cases heq
  case h_3 heq => cases heq
  case h_4 t properties heq => exact ⟨t, properties, h.1, h.2, .inl (oneOf.inj heq)⟩
  case h_5 properties t heq => exact ⟨t, properties, h.1, h.2, .inr (oneOf.inj heq)⟩
  case h_6 => exact h.elim

theorem filter_of_lookup {properties : List (String × Schema)} {name : String} {schema : Schema}
    (h : FilterProperties properties) (hlookup : properties.lookup name = some schema) :
    Writable name ∧ Filter schema := by
  induction properties with
  | nil => cases hlookup
  | cons entry rest ih =>
      obtain ⟨name', schema'⟩ := entry
      rw [FilterProperties] at h
      rw [List.lookup_cons] at hlookup
      split at hlookup
      · rename_i heq
        obtain rfl := Option.some.inj hlookup
        rw [beq_iff_eq] at heq
        exact ⟨heq ▸ h.1, h.2.1⟩
      · exact ih h.2.2 hlookup

theorem leafSchema_empty (path : Path) : leafSchema empty path = some empty := by
  induction path with
  | nil => rfl
  | cons name rest ih => exact ih

theorem leafSchema_object (properties : List (String × Schema)) (name : String) (rest : Path) :
    leafSchema (.object properties) (name :: rest) =
      leafSchema ((properties.lookup name).getD empty) rest := rfl

theorem leafSchema_oneOf {branches : List Schema} {t : ScalarType}
    {properties : List (String × Schema)}
    (h : branches = [.scalar t, .object properties] ∨ branches = [.object properties, .scalar t])
    (name : String) (rest : Path) :
    leafSchema (.oneOf branches) (name :: rest) =
      leafSchema (.object properties) (name :: rest) := by
  rcases h with rfl | rfl <;> rfl

end Schema

section Acceptance

variable {fromisoformat : String → Option DateTime}

theorem seq_eq_ok_iff {ε : Type} {x y : Except ε Unit} :
    (x >>= fun _ => y) = .ok () ↔ x = .ok () ∧ y = .ok () := by
  cases x with
  | error e => simp [error_bind]
  | ok u => simp [ok_bind]

/-- The leaves that a schema admits. -/
def Fits (fromisoformat : String → Option DateTime) (schema : Schema) (leaf : Path × Value) :
    Prop :=
  ∃ schema', schema.leafSchema leaf.1 = some schema' ∧
    schema'.Holds (ScalarType.Admits fromisoformat) leaf.2

theorem not_fits_empty (leaf : Path × Value) : ¬ Fits fromisoformat .empty leaf := by
  rintro ⟨schema', hschema, hholds⟩
  rw [Schema.leafSchema_empty] at hschema
  obtain rfl := Option.some.inj hschema
  exact ScalarType.not_admits_unknown hholds

/-- A leaf below a scalar or an array fits nothing. -/
theorem not_fits_below {schema : Schema} (h : schema.resolve = some schema)
    (hnone : schema.properties = []) (name : String) (leaf : Path × Value) :
    ¬ Fits fromisoformat schema (name :: leaf.1, leaf.2) := by
  rintro ⟨schema', hschema, hholds⟩
  rw [Schema.leafSchema, h, Option.bind_some, hnone] at hschema
  exact not_fits_empty leaf ⟨schema', hschema, hholds⟩

theorem validateItems_iff {t : ScalarType} {items : List Value} {i : Nat} {path : Path} :
    validateItems fromisoformat items (.scalar t) i path = .ok () ↔
      ∀ v ∈ items, t.Admits fromisoformat v := by
  induction items generalizing i with
  | nil => simp [validateItems]
  | cons v rest ih =>
      have hvalue {path : Path} :
          validateValue fromisoformat v (.scalar t) path = .ok () ↔ t.Admits fromisoformat v := by
        rw [← ScalarType.validateScalar_eq_ok_iff path]
        cases v <;> rw [validateValue]
      rw [validateItems, seq_eq_ok_iff, hvalue, ih, List.forall_mem_cons]

/-- A value that is not an object is checked as a leaf. -/
theorem validateProperty_leaf {v : Value} {schema : Schema} {path : Path} (hv : v.isDict = false)
    (h : schema.Filter) :
    validateProperty (fun schema => validateValue fromisoformat v schema path) v schema path =
      .ok () ↔
      schema.Holds (ScalarType.Admits fromisoformat) v := by
  have hscalar {t : ScalarType} :
      validateValue fromisoformat v (.scalar t) path = .ok () ↔ t.Admits fromisoformat v := by
    rw [← ScalarType.validateScalar_eq_ok_iff path]
    cases v <;> rw [validateValue]
  cases schema with
  | scalar t => exact hscalar
  | array items =>
      rw [Schema.Filter] at h
      obtain ⟨t, rfl, -⟩ := h
      cases v with
      | list items =>
          simp only [validateProperty, validateValue, validateItems_iff, Schema.Holds]
      | _ => simp [validateProperty, validateValue, expected, Schema.Holds]
  | object properties =>
      cases v with
      | dict entries => cases hv
      | _ => simp [validateProperty, validateValue, Schema.Holds]
  | oneOf branches =>
      obtain ⟨t, properties, -, -, rfl | rfl⟩ := Schema.filter_oneOf h
      all_goals
        have hcheck := hscalar (t := t)
        simp only [validateProperty, firstMatch, Schema.isObject, hv, Schema.Holds, if_true]
        cases hresult : validateValue fromisoformat v (.scalar t) path with
        | ok u => simp_all
        | error e => simp_all

theorem fits_nil {schema : Schema} {v : Value} :
    Fits fromisoformat schema ([], v) ↔ schema.Holds (ScalarType.Admits fromisoformat) v := by
  constructor
  · rintro ⟨schema', hschema, hholds⟩
    obtain rfl := Option.some.inj hschema
    exact hholds
  · exact fun hholds => ⟨schema, rfl, hholds⟩

mutual

/-- A value without empty objects has a leaf. -/
theorem exists_leaf : (v : Value) → v.solid = true → ∃ leaf, leaf ∈ v.leaves
  | .dict entries, h => by
      rw [Value.solid, Bool.and_eq_true] at h
      rw [Value.leaves]
      exact exists_leaf_of_entries entries (by simpa using h.1) h.2
  | .none, _ | .bool _, _ | .int _, _ | .float _, _ | .str _, _ | .datetime _, _ | .list _, _ =>
      ⟨_, List.mem_singleton_self _⟩

theorem exists_leaf_of_entries : (entries : List (String × Value)) → entries ≠ [] →
    Value.solidEntries entries = true → ∃ leaf, leaf ∈ Value.leavesEntries entries
  | [], hne, _ => absurd rfl hne
  | (key, v) :: rest, _, h => by
      rw [Value.solidEntries, Bool.and_eq_true] at h
      obtain ⟨leaf, hleaf⟩ := exists_leaf v h.1
      rw [Value.leavesEntries]
      exact ⟨_, List.mem_append_left _ (List.mem_map_of_mem hleaf)⟩

end

theorem cons_of_mem_leavesEntries {entries : List (String × Value)} {leaf : Path × Value}
    (h : leaf ∈ Value.leavesEntries entries) :
    ∃ (name : String) (leaf' : Path × Value), leaf = (name :: leaf'.1, leaf'.2) := by
  induction entries with
  | nil => cases h
  | cons entry rest ih =>
      rw [Value.leavesEntries, List.mem_append, List.mem_map] at h
      rcases h with ⟨leaf', -, rfl⟩ | hrest
      · exact ⟨_, leaf', rfl⟩
      · exact ih hrest

theorem fits_cons {properties : List (String × Schema)} {name : String} {leaf : Path × Value} :
    Fits fromisoformat (.object properties) (name :: leaf.1, leaf.2) ↔
      Fits fromisoformat ((properties.lookup name).getD .empty) leaf := Iff.rfl

/-- Validation and the leaves it is about: one direction for every value, the other for values
without empty objects, which no leaf tells of. -/
def Agrees (fromisoformat : String → Option DateTime) (accepted solid : Prop)
    (leaves : List (Path × Value)) (schema : Schema) : Prop :=
  (accepted → ∀ leaf ∈ leaves, Fits fromisoformat schema leaf) ∧
    (solid → (∀ leaf ∈ leaves, Fits fromisoformat schema leaf) → accepted)

theorem agrees_leaf {v : Value} {schema : Schema} {path : Path} (hv : v.isDict = false)
    (h : schema.Filter) :
    Agrees fromisoformat
      (validateProperty (fun schema => validateValue fromisoformat v schema path) v schema path =
        .ok ())
      (v.solid = true) v.leaves schema := by
  rw [Agrees, Value.leaves_of_not_dict hv, validateProperty_leaf hv h,
    List.forall_mem_singleton, fits_nil]
  exact ⟨id, fun _ => id⟩

/-- An object is rejected where the schema has no properties. -/
theorem agrees_below {entries : List (String × Value)} {schema : Schema} {accepted : Prop}
    (hrejected : ¬ accepted) (h : schema.resolve = some schema) (hnone : schema.properties = []) :
    Agrees fromisoformat accepted (Value.solid (.dict entries) = true)
    (Value.leavesEntries entries) schema := by
  constructor
  · exact fun haccepted => absurd haccepted hrejected
  · intro hsolid hfits
    obtain ⟨leaf, hleaf⟩ := exists_leaf (.dict entries) hsolid
    rw [Value.leaves] at hleaf
    obtain ⟨name, leaf', rfl⟩ := cons_of_mem_leavesEntries hleaf
    exact absurd (hfits _ hleaf) (not_fits_below h hnone name leaf')

mutual

theorem validateProperty_agrees : (v : Value) → {schema : Schema} → {path : Path} → schema.Filter →
    Agrees fromisoformat
      (validateProperty (fun schema => validateValue fromisoformat v schema path) v schema path =
        .ok ())
      (v.solid = true) v.leaves schema
  | .dict entries, .scalar t, path, _ => by
      apply agrees_below _ rfl rfl
      rw [validateProperty, validateValue, ScalarType.validateScalar_eq_ok_iff]
      · exact ScalarType.not_admits_dict
      · simp
  | .dict entries, .array items, path, _ => by
      apply agrees_below _ rfl rfl
      simp [validateProperty, validateValue, expected]
  | .dict entries, .object properties, path, h => by
      rw [Schema.Filter] at h
      have hentries := validateEntries_agrees entries path h
      rw [Value.leaves]
      exact ⟨hentries.1, fun hsolid => hentries.2 (Bool.and_eq_true_iff.mp hsolid).2⟩
  | .dict entries, .oneOf branches, path, h => by
      obtain ⟨t, properties, -, hproperties, hbranches⟩ := Schema.filter_oneOf h
      have hentries := validateEntries_agrees entries path hproperties
      have hchecked :
          validateProperty (fun schema => validateValue fromisoformat (.dict entries) schema path)
          (.dict entries)
            (.oneOf branches) path = .ok () ↔
              validateEntries fromisoformat entries properties path = .ok () := by
        rcases hbranches with rfl | rfl
        all_goals
          simp only [validateProperty, firstMatch, Schema.isObject, Value.isDict,
            validateValue, if_true]
          cases validateEntries fromisoformat entries properties path <;> simp
      have hfits {leaf : Path × Value} (hleaf : leaf ∈ Value.leavesEntries entries) :
          Fits fromisoformat (.oneOf branches) leaf ↔
            Fits fromisoformat (.object properties) leaf := by
        obtain ⟨name, leaf', rfl⟩ := cons_of_mem_leavesEntries hleaf
        simp only [Fits, Schema.leafSchema_oneOf hbranches]
      rw [Value.leaves]
      constructor
      · exact fun haccepted leaf hleaf =>
          (hfits hleaf).mpr (hentries.1 (hchecked.mp haccepted) leaf hleaf)
      · intro hsolid hleaves
        apply hchecked.mpr
        apply hentries.2 (Bool.and_eq_true_iff.mp hsolid).2
        exact fun leaf hleaf => (hfits hleaf).mp (hleaves leaf hleaf)
  | .none, _, _, h => agrees_leaf rfl h
  | .bool _, _, _, h => agrees_leaf rfl h
  | .int _, _, _, h => agrees_leaf rfl h
  | .float _, _, _, h => agrees_leaf rfl h
  | .str _, _, _, h => agrees_leaf rfl h
  | .datetime _, _, _, h => agrees_leaf rfl h
  | .list _, _, _, h => agrees_leaf rfl h

theorem validateEntries_agrees :
    (entries : List (String × Value)) → {properties : List (String × Schema)} →
    (path : Path) → Schema.FilterProperties properties →
    Agrees fromisoformat (validateEntries fromisoformat entries properties path = .ok ())
      (Value.solidEntries entries = true) (Value.leavesEntries entries) (.object properties)
  | [], _, _, _ => ⟨fun _ _ hleaf => absurd hleaf List.not_mem_nil, fun _ _ => rfl⟩
  | (key, v) :: rest, properties, path, h => by
      have hrest := validateEntries_agrees rest path h
      have hsplit : validateEntries fromisoformat ((key, v) :: rest) properties path = .ok () ↔
          (∃ schema, properties.lookup key = some schema ∧
            validateProperty (fun schema => validateValue fromisoformat v schema (path ++ [key])) v
            schema
              (path ++ [key]) = .ok ()) ∧
              validateEntries fromisoformat rest properties path = .ok () := by
        rw [validateEntries, seq_eq_ok_iff]
        cases properties.lookup key <;> simp
      rw [hsplit, Value.leavesEntries, Value.solidEntries, Bool.and_eq_true]
      constructor
      · rintro ⟨⟨schema, hschema, haccepted⟩, haccepted'⟩ leaf hleaf
        rw [List.mem_append, List.mem_map] at hleaf
        rcases hleaf with ⟨leaf', hleaf', rfl⟩ | hleaf
        · rw [fits_cons, hschema]
          exact (validateProperty_agrees v (Schema.filter_of_lookup h hschema).2).1
            haccepted leaf' hleaf'
        · exact hrest.1 haccepted' leaf hleaf
      · rintro ⟨hsolid, hsolid'⟩ hfits
        have hfits' :
            ∀ leaf ∈ v.leaves, Fits fromisoformat ((properties.lookup key).getD .empty) leaf :=
          fun leaf hleaf =>
            fits_cons.mp (hfits _ (List.mem_append_left _ (List.mem_map_of_mem hleaf)))
        constructor
        · cases hschema : properties.lookup key with
          | none =>
              obtain ⟨leaf, hleaf⟩ := exists_leaf v hsolid
              rw [hschema] at hfits'
              exact absurd (hfits' leaf hleaf) (not_fits_empty leaf)
          | some schema =>
              rw [hschema] at hfits'
              exact ⟨schema, rfl,
                (validateProperty_agrees v (Schema.filter_of_lookup h hschema).2).2 hsolid hfits'⟩
        · exact hrest.2 hsolid' fun leaf hleaf => hfits leaf (List.mem_append_right _ hleaf)

end

end Acceptance

end Graveboards.Parameters
