import Graveboards.Library.Dictionary
import Graveboards.Library.Text
import Graveboards.Parameters.Filters

/-!
The include parameter: the include schema of an endpoint, what the validator accepts, and the
tree for `model_dump` that the defaults of the schema and the request are merged into.
-/

namespace Graveboards.Includes

open Graveboards.Library
open Graveboards.Parameters (Path DeepObjectValidationError)

/-- A value of an include parameter. `other` is anything but a bool or a dictionary. -/
inductive Override where
  | flag (b : Bool)
  | nested (entries : List (String × Override))
  | other

abbrev Request := List (String × Override)

structure BooleanSchema where
  default : Option Bool
  enum : Option (List Bool)
  deriving DecidableEq

/-- `other` is a schema with neither of the two types nor a `oneOf`. -/
inductive Schema where
  | boolean (schema : BooleanSchema)
  | oneOf (branches : List Schema)
  | object (title : Option String) (properties : List (String × Schema))
  | other

abbrev Properties := List (String × Schema)

/-- A node of the internal tree: a column, whose `__schema__` is `True`, or a relation. -/
inductive Meta where
  | column (enabled : Bool)
  | relation (enabled : Bool) (schema : List (String × Meta))

/-- The values of pydantic's include tree: `True`, a nested tree, or one under `__all__`. -/
inductive Include where
  | all
  | fields (entries : List (String × Include))
  | each (entries : List (String × Include))

/-- A value of an object of the database: null, a list of objects, an object, or anything else. -/
inductive Value where
  | none
  | scalar (text : String)
  | collection (items : List Value)
  | object (attributes : List (String × Value))

inductive BuildError where
  | runtimeError (message : String)
  | attributeError (message : String)
  deriving DecidableEq

/-- The dictionary in an override. -/
def Override.tree : Override → Option Request
  | nested entries => some entries
  | _ => none

namespace BooleanSchema

/-- `schema.get("default", False)`. -/
def start (schema : BooleanSchema) : Bool := schema.default.getD false

/-- The value is in the `enum`, where there is one. -/
def allows (schema : BooleanSchema) (b : Bool) : Bool :=
  schema.enum.all fun values => values.contains b

end BooleanSchema

namespace Schema

def isObject : Schema → Bool
  | object _ _ => true
  | _ => false

def objectProperties : Schema → Option Properties
  | object _ properties => some properties
  | _ => none

def booleanSchema : Schema → Option BooleanSchema
  | boolean schema => some schema
  | _ => none

/-- `__enabled__` before the request is looked at. -/
def start : Schema → Bool
  | boolean schema => schema.start
  | oneOf branches => ((branches.findSome? booleanSchema).map BooleanSchema.start).getD false
  | _ => false

/-- The properties that a nested include is about. -/
def children : Schema → Properties
  | oneOf branches => (branches.findSome? objectProperties).getD []
  | object _ properties => properties
  | _ => []

/-- The schema disables the relation: a boolean that it allows is `enum: [false]`. -/
def disables : Schema → Bool
  | boolean schema => schema.enum == some [false]
  | oneOf branches =>
      (branches.filterMap booleanSchema).any fun schema => schema.enum == some [false]
  | _ => false

end Schema

def isShallow (title : Option String) : Bool :=
  (title.getD "").toList.reverse.take 7 == "Shallow".toList.reverse

section Validation

def refuse (path : Path) (message : String) : Except DeepObjectValidationError Unit :=
  .error ⟨path, message⟩

mutual

/-- `validate_include`. -/
def validateInclude : Request → Properties → Path → Except DeepObjectValidationError Unit
  | [], _, _ => .ok ()
  | (key, value) :: rest, properties, path =>
      match properties.lookup key with
      | none => refuse (path ++ [key]) "Unknown include field"
      | some prop =>
          validateOverride value prop (path ++ [key]) >>= fun _ =>
            validateInclude rest properties path

/-- The body of its loop. Of the branches of a `oneOf` the last one of each type counts. -/
def validateOverride : Override → Schema → Path → Except DeepObjectValidationError Unit
  | value, .boolean schema, path =>
      match value with
      | .flag b =>
          if schema.allows b then .ok ()
          else refuse path "This relationship cannot be included (recursive include is forbidden)"
      | _ =>
          if schema.enum.isSome then
            refuse path "This relationship cannot be included (recursive include is forbidden)"
          else refuse path "Expected boolean (true or false)"
  | .nested entries, .oneOf branches, path =>
      match (branches.filterMap Schema.objectProperties).getLast? with
      | none => refuse path "Nested includes are not allowed here"
      | some properties => validateInclude entries properties path
  | .flag b, .oneOf branches, path =>
      match (branches.filterMap Schema.booleanSchema).getLast? with
      | none => refuse path "Boolean value not allowed here"
      | some schema =>
          if schema.allows b then .ok ()
          else refuse path ("This relationship cannot be " ++ if b then "included" else "excluded")
  | .other, .oneOf _, path => refuse path "Expected boolean or object"
  | .nested entries, .object _ properties, path => validateInclude entries properties path
  | _, .object _ _, path => refuse path "Expected nested include object"
  | _, .other, path => refuse path "Invalid include schema definition"

end

end Validation

section Merging

mutual

/-- `_extract_default_include`. -/
def extractDefaultInclude : Schema → Except BuildError (List (String × Meta))
  | .object title properties =>
      if isShallow title then .error (.runtimeError "Shallow schemas were not properly resolved")
      else extractProperties properties
  | _ => .ok []

/-- Its loop over the properties. -/
def extractProperties : Properties → Except BuildError (List (String × Meta))
  | [] => .ok []
  | (name, schema) :: rest => do
      let node ← extractProperty schema
      let nodes ← extractProperties rest
      return (node.map (Prod.mk name)).toList ++ nodes

def extractProperty : Schema → Except BuildError (Option Meta)
  | .boolean schema => .ok (some (.column schema.start))
  | .oneOf branches => do
      let nested ← extractBranches branches
      return some (.relation (Schema.oneOf branches).start nested)
  | _ => .ok none

/-- The defaults of the first branch that is an object. -/
def extractBranches : List Schema → Except BuildError (List (String × Meta))
  | [] => .ok []
  | branch :: rest => if branch.isObject then extractDefaultInclude branch else extractBranches rest

end

mutual

/-- `_merge_include`, given overrides. -/
def mergeOverrides : List (String × Meta) → Request → Except BuildError (List (String × Meta))
  | [], _ => .ok []
  | (key, default) :: rest, overrides => do
      let node ← mergeOverride default (overrides.lookup key)
      let nodes ← mergeOverrides rest overrides
      return (node.map (Prod.mk key)).toList ++ nodes

def mergeOverride : Meta → Option Override → Except BuildError (Option Meta)
  | default, none => .ok (some default)
  | .column _, some (.flag b) => .ok (some (.column b))
  | .relation _ nested, some (.flag b) => .ok (some (.relation b nested))
  | .column _, some (.nested _) => .error (.attributeError "'bool' object has no attribute 'items'")
  | .relation _ nested, some (.nested entries) => do
      let nested ← mergeOverrides nested entries
      return some (.relation true nested)
  | _, some .other => .ok none

end

def mergeInclude (defaults : List (String × Meta)) :
    Option Request → Except BuildError (List (String × Meta))
  | none => .ok defaults
  | some overrides => mergeOverrides defaults overrides

/-- `getattr(obj, field, None)`. -/
def Value.getattr (field : String) : Value → Value
  | object attributes => (attributes.lookup field).getD none
  | _ => none

/-- The object by which the tree under a relation is made: a list's first item, or the list where
it is empty. -/
def Value.child : Value → Value
  | collection (item :: _) => item
  | value => value

mutual

/-- `_format_include`. -/
def formatInclude (obj : Value) : List (String × Meta) → List (String × Include)
  | [] => []
  | (field, node) :: rest =>
      ((formatField obj field node).map (Prod.mk field)).toList ++ formatInclude obj rest

def formatField (obj : Value) (field : String) : Meta → Option Include
  | .column enabled => if enabled then some .all else none
  | .relation enabled schema =>
      if enabled then
        match obj.getattr field with
        | .none => none
        | .collection items => some (.each (formatInclude (Value.collection items).child schema))
        | value => some (.fields (formatInclude value schema))
      else none

end

def buildPydanticInclude (obj : Value) (includeSchema : Schema) (requestInclude : Option Request) :
    Except BuildError (List (String × Include)) := do
  let defaults ← extractDefaultInclude includeSchema
  let merged ← mergeInclude defaults requestInclude
  return formatInclude obj merged

end Merging

end Graveboards.Includes
