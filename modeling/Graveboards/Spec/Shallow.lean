import Graveboards.Library.Dictionary

/-!
The expansion of shallow references in the OpenAPI specification: a schema is resolved against
the table of component schemas, with the titles on the way to it as a stack.
-/

namespace Graveboards.Spec

open Graveboards.Library

/-- The title of a schema, and the other keys of its dictionary as a text. -/
structure Head where
  title : Option String
  other : String
  deriving DecidableEq

/-- A schema of one of the kinds that are told apart. `primitive` is everything else. -/
inductive Schema where
  | object (head : Head) (properties : Option (List (String × Schema)))
  | array (head : Head) (items : Option Schema)
  | oneOf (head : Head) (branches : List Schema)
  | boolean (head : Head)
  | primitive (head : Head)

abbrev Properties := List (String × Schema)

/-- `components.schemas`. -/
abbrev Components := List (String × Schema)

/-- The titles on the way to a schema, the last one first. -/
abbrev Stack := List String

def Schema.head : Schema → Head
  | object head _ => head
  | array head _ => head
  | oneOf head _ => head
  | boolean head => head
  | primitive head => head

/-- `SCHEMAS_WITH_SHALLOW_REFS`. -/
def schemasWithShallowRefs : List String :=
  ["Beatmap", "BeatmapSnapshot", "Beatmapset", "BeatmapsetSnapshot", "Leaderboard", "BeatmapFilter",
    "BeatmapSnapshotFilter", "BeatmapsetFilter", "BeatmapsetSnapshotFilter", "BeatmapInclude",
    "BeatmapSnapshotInclude", "BeatmapsetInclude", "BeatmapsetSnapshotInclude",
    "LeaderboardInclude",
    "RequestInclude"]

def disabledNestedObj : Schema :=
  .boolean
    ⟨none, "enum: [False], default: False, description: *This nested include has been disabled " ++
      "to prevent infinite recursion*"⟩

/-- `{}`. -/
def emptySchema : Schema := .primitive ⟨none, ""⟩

/-- `title.endswith(suffix)`. -/
def endsWith (title suffix : String) : Bool := suffix.toList.isSuffixOf title.toList

def isShallow (title : String) : Bool := endsWith title "Shallow"

def isInclude (title : String) : Bool := endsWith title "Include"

/-- `title[:-7]`. -/
def baseTitle (title : String) : String :=
  String.ofList (title.toList.take (title.toList.length - 7))

/-- What stands for a schema that is on the stack already: the disabled boolean under an include
schema, and nothing elsewhere. -/
def cycle (stack : Stack) : Option Schema :=
  match stack with
  | top :: _ => if isInclude top then some disabledNestedObj else none
  | [] => none

/-- What resolving a schema comes to: the schema, or None. Outside is `none` where the depth of
recursion that is allowed for is used up. -/
abbrev Outcome := Option (Option Schema)

/-- A schema of this title is entered. -/
def entering (title : Option String) (stack : Stack) (resolve : Stack → Outcome) : Outcome :=
  match title with
  | some title => if title ∈ stack then some (cycle stack) else resolve (title :: stack)
  | none => resolve stack

section Resolution

-- The names in the table, and how the schema under a name is resolved.
variable (names : List String) (component : String → Stack → Outcome)

mutual

/-- `resolve_property`. -/
def resolveProperty : Schema → Stack → Outcome
  | .object head properties, stack =>
      let inline := entering head.title stack fun stack =>
        match properties with
        | none => some (some (.object head none))
        | some properties =>
            (resolveProperties properties stack).map fun properties =>
              some (.object head (some properties))
      match head.title with
      | some title =>
          if isShallow title then
            if baseTitle title ∈ stack then some (cycle stack)
            else if baseTitle title ∈ names then component (baseTitle title) stack
            else some none
          else if title ∈ names then component title stack
          else inline
      | none => inline
  | .array head items, stack =>
      match items with
      | none => some (some (.array head (some emptySchema)))
      | some items =>
          (resolveProperty items stack).map fun items => items.map fun items =>
            .array head (some items)
  | .oneOf head branches, stack =>
      (resolveBranches branches stack).map fun branches => some (.oneOf head branches)
  | schema, _ => some (some schema)

/-- The loop over the properties of a schema. -/
def resolveProperties : Properties → Stack → Option Properties
  | [], _ => some []
  | (name, schema) :: rest, stack =>
      (resolveProperty schema stack).bind fun resolved =>
        (resolveProperties rest stack).map fun rest => (resolved.map (Prod.mk name)).toList ++ rest

/-- The loop over the branches of a `oneOf`. A branch that is dropped is disabled under an include
schema. A boolean branch is kept, as `resolve_property` keeps it. -/
def resolveBranches : List Schema → Stack → Option (List Schema)
  | [], _ => some []
  | branch :: rest, stack =>
      (resolveProperty branch stack).bind fun resolved =>
        (resolveBranches rest stack).map fun rest =>
          (match resolved with
            | some resolved => [resolved]
            | none => (cycle stack).toList) ++ rest

end

/-- The properties of a schema, where it has any. -/
def resolveBody : Option Properties → Stack → Option (Option Properties)
  | none, _ => some none
  | some properties, stack => (resolveProperties names component properties stack).map some

/-- `resolve_schema`. Only an object has properties. -/
def resolveObject (schema : Schema) (stack : Stack) : Outcome :=
  entering schema.head.title stack fun stack =>
    match schema with
    | .object head properties =>
        (resolveBody names component properties stack).map fun properties =>
          some (.object head properties)
    | schema => some (some schema)

end Resolution

/-- `resolve_schema`, with a depth of recursion through the table. -/
def resolveSchema (schemas : Components) : Nat → Schema → Stack → Outcome
  | 0, _, _ => none
  | depth + 1, schema, stack =>
      resolveObject (Dictionary.keys schemas)
        (fun name stack => (schemas.lookup name).bind fun schema =>
          resolveSchema schemas depth schema stack)
        schema stack

/-- `schemas[name] = fully_resolved`. -/
def replace (schemas : Components) (name : String) (schema : Schema) : Components :=
  schemas.map fun entry => if entry.1 = name then (name, schema) else entry

/-- The loop over the listed names. What is resolved with an empty stack is never None. -/
def populate (depth : Nat) : List String → Components → Option Components
  | [], schemas => some schemas
  | name :: rest, schemas =>
      match schemas.lookup name with
      | none => populate depth rest schemas
      | some schema =>
          match resolveSchema schemas depth schema [] with
          | some (some resolved) => populate depth rest (replace schemas name resolved)
          | _ => none

/-- A parameter, with its other keys as a text. -/
structure Parameter where
  schema : Option Schema
  other : String

/-- A path item: the parameters for all its operations, and those of each method. -/
structure PathItem where
  parameters : List Parameter
  operations : List (String × List Parameter)

structure OpenapiSpec where
  schemas : Components
  paths : List (String × PathItem)

def httpMethods : List String :=
  ["get", "put", "post", "delete", "options", "head", "patch", "trace"]

/-- One step of `fix_params`. -/
def fixParameter (schemas : Components) (parameter : Parameter) : Parameter :=
  match parameter.schema.bind fun schema => schema.head.title with
  | some title =>
      if title ∈ schemasWithShallowRefs then
        match schemas.lookup title with
        | some schema => { parameter with schema := some schema }
        | none => parameter
      else parameter
  | none => parameter

/-- `_propagate_to_parameters`, for one path item. -/
def fixPath (schemas : Components) (item : PathItem) : PathItem :=
  { parameters := item.parameters.map (fixParameter schemas)
    operations := item.operations.map fun operation =>
      if operation.1 ∈ httpMethods then (operation.1, operation.2.map (fixParameter schemas))
      else operation }

/-- `populate_shallow_refs`, the listed names being iterated in this order. -/
def populateShallowRefs (depth : Nat) (order : List String) (spec : OpenapiSpec) :
    Option OpenapiSpec :=
  (populate depth order spec.schemas).map fun schemas =>
    { schemas := schemas
      paths := spec.paths.map fun entry => (entry.1, fixPath schemas entry.2) }

end Graveboards.Spec
