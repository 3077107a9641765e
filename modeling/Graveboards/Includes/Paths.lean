import Graveboards.Includes.Merged

/-!
Which paths an include tree holds: those whose nodes are all switched on, as long as the
request switches on no relation that the schema disables and no plain object.
-/

namespace Graveboards.Includes

open Graveboards.Library
open Graveboards.Parameters (Path)

def Include.entries : Include → List (String × Include)
  | all => []
  | fields entries => entries
  | each entries => entries

/-- The tree holds the path. -/
def Contains (entries : List (String × Include)) : Path → Prop
  | [] => True
  | key :: rest => ∃ node, entries.lookup key = some node ∧ Contains node.entries rest

/-- Every node of the path is switched on. -/
def Enabled (properties : Properties) (request : Option Request) : Path → Prop
  | [] => True
  | key :: rest =>
      let override := request.bind (List.lookup key)
      ∃ schema, properties.lookup key = some schema ∧ switchedOn override schema.start = true ∧
        Enabled schema.children (override.bind Override.tree) rest

/-- A node of the path is disabled by the schema. -/
def ThroughDisabled (properties : Properties) : Path → Prop
  | [] => False
  | key :: rest =>
      ∃ schema, properties.lookup key = some schema ∧
        (schema.disables = true ∨ ThroughDisabled schema.children rest)

namespace Value

/-- The objects of a relation. -/
def objects : Value → List Value
  | none => []
  | collection items => items
  | value => [value]

theorem child_mem_objects {value : Value} (h : value.objects ≠ []) :
    value.child ∈ value.objects := by
  cases value with
  | collection items =>
      cases items with
      | nil => exact absurd rfl h
      | cons item rest => simp [child, objects]
  | none => exact absurd rfl h
  | _ => simp [child, objects]

end Value

mutual

/-- The value of a property, with every relation of its objects populated. -/
def Present : Schema → Value → Prop
  | .oneOf branches, value =>
      value.objects ≠ [] ∧ ∀ obj ∈ value.objects, PresentBranches branches obj
  | _, _ => True

/-- All the relations of the object are present. -/
def PresentProperties : Properties → Value → Prop
  | [], _ => True
  | (key, schema) :: rest, obj => Present schema (obj.getattr key) ∧ PresentProperties rest obj

def PresentBranches : List Schema → Value → Prop
  | [], _ => True
  | .object _ properties :: _, obj => PresentProperties properties obj
  | _ :: rest, obj => PresentBranches rest obj

end

mutual

/-- No node that is switched on is disabled, or a plain object. -/
def clean : Schema → Option Override → Bool
  | .boolean schema, override =>
      !switchedOn override schema.start || !(Schema.boolean schema).disables
  | .oneOf branches, override =>
      !switchedOn override (Schema.oneOf branches).start ||
        (!(Schema.oneOf branches).disables && cleanBranches branches (override.bind Override.tree))
  | .object _ _, override => !switchedOn override false
  | .other, override => !switchedOn override false

def cleanProperties : Properties → Option Request → Bool
  | [], _ => true
  | (key, schema) :: rest, request =>
      clean schema (request.bind (List.lookup key)) && cleanProperties rest request

def cleanBranches : List Schema → Option Request → Bool
  | [], _ => true
  | .object _ properties :: _, request => cleanProperties properties request
  | _ :: rest, request => cleanBranches rest request

end

/-- For an accepted request the include trees come out, and hold what is switched on. -/
structure Served (schema : IncludeSchema) (request : Option Request) : Prop where
  built : ∀ obj, ∃ tree, buildPydanticInclude obj schema.schema request = .ok tree
  contained : ∀ obj tree, PresentProperties schema.properties obj →
    buildPydanticInclude obj schema.schema request = .ok tree →
      ∀ path, Contains tree path ↔ Enabled schema.properties request path
  secluded : ∀ obj tree path, buildPydanticInclude obj schema.schema request = .ok tree →
    Contains tree path → ¬ ThroughDisabled schema.properties path

section Presence

theorem presentBranches_eq (branches : List Schema) (obj : Value) :
    PresentBranches branches obj = PresentProperties (Schema.oneOf branches).children obj := by
  induction branches with
  | nil => rfl
  | cons branch rest ih =>
      cases branch with
      | object title properties => rfl
      | _ =>
          rw [PresentBranches]
          · exact ih
          · simp

theorem present_of_mem {properties : Properties} {obj : Value}
    (h : PresentProperties properties obj) {entry : String × Schema} (hmem : entry ∈ properties) :
    Present entry.2 (obj.getattr entry.1) := by
  induction properties with
  | nil => cases hmem
  | cons head rest ih =>
      rcases List.mem_cons.mp hmem with rfl | hmem
      · exact h.1
      · exact ih h.2 hmem

theorem presentProperties_iff {properties : Properties} {obj : Value} :
    PresentProperties properties obj ↔
      ∀ entry ∈ properties, Present entry.2 (obj.getattr entry.1) := by
  constructor
  · intro h entry hmem
    exact present_of_mem h hmem
  · intro h
    induction properties with
    | nil => trivial
    | cons head rest ih =>
        constructor
        · exact h head List.mem_cons_self
        · exact ih fun entry hmem => h entry (List.mem_cons_of_mem _ hmem)

mutual

/-- An object with one object under each relation. -/
def populated : Schema → Value
  | .oneOf branches => .object (populatedBranches branches)
  | _ => .none

def populatedProperties : Properties → List (String × Value)
  | [] => []
  | (key, schema) :: rest => (key, populated schema) :: populatedProperties rest

def populatedBranches : List Schema → List (String × Value)
  | [] => []
  | .object _ properties :: _ => populatedProperties properties
  | _ :: rest => populatedBranches rest

end

theorem getattr_populated {properties : Properties} (hkeys : (Dictionary.keys properties).Nodup)
    {entry : String × Schema} (hmem : entry ∈ properties) :
    (Value.object (populatedProperties properties)).getattr entry.1 = populated entry.2 := by
  have hmap : populatedProperties properties = properties.map fun e => (e.1, populated e.2) := by
    clear hkeys hmem
    induction properties with
    | nil => rfl
    | cons head rest ih => rw [populatedProperties, ih, List.map_cons]
  have hnodup : (Dictionary.keys (populatedProperties properties)).Nodup := by
    have hsame : Dictionary.keys (populatedProperties properties) = Dictionary.keys properties := by
      simp [hmap, Dictionary.keys, Function.comp_def]
    rw [hsame]
    exact hkeys
  have hentry : (entry.1, populated entry.2) ∈ populatedProperties properties := by
    rw [hmap]
    exact List.mem_map.mpr ⟨entry, hmem, rfl⟩
  simp only [Value.getattr, Dictionary.lookup_of_mem hnodup hentry, Option.getD_some]

mutual

theorem present_populated :
    (schema : Schema) → schema.expanded = true → Present schema (populated schema)
  | .oneOf branches, h => by
      simp only [Schema.expanded, Bool.and_eq_true] at h
      constructor
      · simp [populated, Value.objects]
      · intro obj hobj
        simp only [populated, Value.objects, List.mem_singleton] at hobj
        subst hobj
        exact present_populatedBranches branches h.2
  | .boolean _, _ => trivial
  | .object _ _, _ => trivial
  | .other, _ => trivial

theorem present_populatedProperties :
    (properties : Properties) → Schema.expandedProperties properties = true →
    ∀ entry ∈ properties, Present entry.2 (populated entry.2)
  | [], _, _, hmem => by cases hmem
  | (key, schema) :: rest, h, entry, hmem => by
      simp only [Schema.expandedProperties, Bool.and_eq_true] at h
      rcases List.mem_cons.mp hmem with rfl | hmem
      · exact present_populated schema h.1
      · exact present_populatedProperties rest h.2 entry hmem

theorem present_populatedBranches :
    (branches : List Schema) → Schema.expandedBranches branches = true →
    PresentBranches branches (.object (populatedBranches branches))
  | [], _ => trivial
  | .object title properties :: rest, h => by
      simp only [Schema.expandedBranches, Bool.and_eq_true] at h
      have hkeys := Schema.keys_nodup h.1
      have hproperties := h.1
      simp only [Schema.expanded, Bool.and_eq_true] at hproperties
      rw [PresentBranches, presentProperties_iff]
      intro entry hmem
      rw [populatedBranches, getattr_populated hkeys hmem]
      exact present_populatedProperties properties hproperties.2 entry hmem
  | .boolean _ :: rest, h => by
      simp only [Schema.expandedBranches, Bool.and_eq_true] at h
      exact present_populatedBranches rest h.2
  | .oneOf _ :: rest, h => by
      simp only [Schema.expandedBranches, Bool.and_eq_true] at h
      exact present_populatedBranches rest h.2
  | .other :: rest, h => by
      simp only [Schema.expandedBranches, Bool.and_eq_true] at h
      exact present_populatedBranches rest h.2

end

end Presence

section Tree

/-- What stands under a key of the tree. -/
theorem lookup_formatInclude {properties : Properties} (hkeys : (Dictionary.keys properties).Nodup)
    (request : Option Request) (obj : Value) (key : String) :
    (formatInclude obj (settleProperties properties request)).lookup key =
      (properties.lookup key).bind fun schema =>
        (settle schema (request.bind (List.lookup key))).bind (formatField obj key) := by
  rw [formatInclude_eq, settleProperties_eq, Dictionary.lookup_select,
    Dictionary.lookup_select _ hkeys]
  · cases properties.lookup key with
    | none => rfl
    | some schema => rfl
  · exact hkeys.sublist (Dictionary.keys_select_sublist _ properties)

/-- A property that the tree holds is a node that is switched on, and under it stands the tree
of the child. -/
theorem entries_of_field {schema : Schema} {override : Option Override} {obj : Value} {key : String}
    {node : Include} (h : (settle schema override).bind (formatField obj key) = some node) :
    schema.isNode = true ∧ switchedOn override schema.start = true ∧
      node.entries =
        formatInclude (obj.getattr key).child
        (settleProperties schema.children (override.bind Override.tree)) := by
  cases schema with
  | boolean schema =>
      simp only [settle, Option.bind_some, formatField, Option.ite_none_right_eq_some] at h
      obtain ⟨hon, hnode⟩ := h
      cases hnode
      simp [Schema.isNode, Schema.start, hon, Include.entries, Schema.children,
        settleProperties, formatInclude]
  | oneOf branches =>
      simp only [settle, Option.bind_some, formatField, Option.ite_none_right_eq_some,
        settleBranches_eq] at h
      obtain ⟨hon, hnode⟩ := h
      refine ⟨rfl, hon, ?_⟩
      cases hvalue : obj.getattr key with
      | none =>
          rw [hvalue] at hnode
          cases hnode
      | _ =>
          rw [hvalue] at hnode
          cases hnode
          rfl
  | _ => cases h

theorem field_isSome {schema : Schema} {override : Option Override} {obj : Value} {key : String}
    (hnode : schema.isNode = true) (hon : switchedOn override schema.start = true)
    (hpresent : Present schema (obj.getattr key)) :
    ∃ node, (settle schema override).bind (formatField obj key) = some node := by
  cases schema with
  | boolean schema =>
      have hstart : switchedOn override schema.start = true := hon
      exact ⟨.all, by simp [settle, formatField, hstart]⟩
  | oneOf branches =>
      simp only [settle, Option.bind_some, formatField, hon, if_true]
      cases hvalue : obj.getattr key with
      | none =>
          rw [hvalue] at hpresent
          exact absurd rfl hpresent.1
      | _ => exact ⟨_, rfl⟩
  | _ => cases hnode

theorem present_child {schema : Schema} {value : Value} (h : Present schema value) :
    schema.isNode = true → PresentProperties schema.children value.child := by
  intro hnode
  cases schema with
  | boolean schema => trivial
  | oneOf branches =>
      rw [← presentBranches_eq]
      exact h.2 _ (Value.child_mem_objects h.1)
  | _ => cases hnode

/-- The nodes of the path are columns and relations. -/
def Through (properties : Properties) : Path → Prop
  | [] => True
  | key :: rest =>
      ∃ schema, properties.lookup key = some schema ∧ schema.isNode = true ∧
        Through schema.children rest

/-- A path in the tree is switched on, and leads through columns and relations. -/
theorem enabled_of_contains {path : Path} {properties : Properties}
    {request : Option Request} {obj : Value} (hkeys : (Dictionary.keys properties).Nodup)
    (hexpanded : Schema.expandedProperties properties = true)
    (h : Contains (formatInclude obj (settleProperties properties request)) path) :
    Enabled properties request path ∧ Through properties path := by
  induction path generalizing properties request obj with
  | nil => exact ⟨trivial, trivial⟩
  | cons key rest ih =>
      obtain ⟨node, hnode, hrest⟩ := h
      rw [lookup_formatInclude hkeys] at hnode
      obtain ⟨schema, hschema, hfield⟩ := Option.bind_eq_some_iff.mp hnode
      have hchildren := Schema.expanded_children
        (Schema.expanded_of_mem hexpanded (Dictionary.mem_of_lookup hschema))
      obtain ⟨hisNode, hon, hentries⟩ := entries_of_field hfield
      rw [hentries] at hrest
      obtain ⟨henabled, hthrough⟩ := ih hchildren.1 hchildren.2 hrest
      exact ⟨⟨schema, hschema, hon, henabled⟩, ⟨schema, hschema, hisNode, hthrough⟩⟩

/-- Where the relations are present, such a path is in the tree. -/
theorem contains_of_enabled {path : Path} {properties : Properties}
    {request : Option Request} {obj : Value} (hkeys : (Dictionary.keys properties).Nodup)
    (hexpanded : Schema.expandedProperties properties = true)
    (hpresent : PresentProperties properties obj) (henabled : Enabled properties request path)
    (hthrough : Through properties path) :
    Contains (formatInclude obj (settleProperties properties request)) path := by
  induction path generalizing properties request obj with
  | nil => trivial
  | cons key rest ih =>
      obtain ⟨schema, hschema, hon, henabled⟩ := henabled
      obtain ⟨_, hsame, hisNode, hthrough⟩ := hthrough
      rw [hschema] at hsame
      cases hsame
      have hmem := Dictionary.mem_of_lookup hschema
      have hchildren := Schema.expanded_children (Schema.expanded_of_mem hexpanded hmem)
      have hvalue := present_of_mem hpresent hmem
      obtain ⟨node, hfield⟩ := field_isSome hisNode hon hvalue
      refine ⟨node, ?_, ?_⟩
      · rw [lookup_formatInclude hkeys, hschema]
        exact hfield
      · rw [(entries_of_field hfield).2.2]
        exact ih hchildren.1 hchildren.2 (present_child hvalue hisNode) henabled hthrough

end Tree

section Cleanness

theorem cleanBranches_eq (branches : List Schema) (request : Option Request) :
    cleanBranches branches request = cleanProperties (Schema.oneOf branches).children request := by
  induction branches with
  | nil => rfl
  | cons branch rest ih =>
      cases branch with
      | object title properties => rfl
      | _ =>
          rw [cleanBranches]
          · exact ih
          · simp

theorem clean_of_mem {properties : Properties} {request : Option Request}
    (h : cleanProperties properties request = true) {entry : String × Schema}
    (hmem : entry ∈ properties) :
    clean entry.2 (request.bind (List.lookup entry.1)) = true := by
  induction properties with
  | nil => cases hmem
  | cons head rest ih =>
      simp only [cleanProperties, Bool.and_eq_true] at h
      rcases List.mem_cons.mp hmem with rfl | hmem
      · exact h.1
      · exact ih h.2 hmem

/-- What a clean node that is switched on must be. -/
theorem node_of_clean {schema : Schema} {override : Option Override}
    (h : clean schema override = true) (hon : switchedOn override schema.start = true) :
    schema.isNode = true ∧ schema.disables = false ∧
      cleanProperties schema.children (override.bind Override.tree) = true := by
  cases schema with
  | boolean schema =>
      have hstart : switchedOn override schema.start = true := hon
      have hdisables : (Schema.boolean schema).disables = false := by simpa [clean, hstart] using h
      exact ⟨rfl, hdisables, rfl⟩
  | oneOf branches =>
      simp only [clean, hon, Bool.not_true, Bool.false_or, Bool.and_eq_true, Bool.not_eq_true',
        cleanBranches_eq] at h
      exact ⟨rfl, h.1, h.2⟩
  | object title properties =>
      have hoff : switchedOn override false = true := hon
      simp [clean, hoff] at h
  | other =>
      have hoff : switchedOn override false = true := hon
      simp [clean, hoff] at h

theorem sound_of_clean {path : Path} {properties : Properties} {request : Option Request}
    (h : cleanProperties properties request = true) (henabled : Enabled properties request path) :
    Through properties path ∧ ¬ ThroughDisabled properties path := by
  induction path generalizing properties request with
  | nil => exact ⟨trivial, id⟩
  | cons key rest ih =>
      obtain ⟨schema, hschema, hon, henabled⟩ := henabled
      have hclean := clean_of_mem h (Dictionary.mem_of_lookup hschema)
      obtain ⟨hisNode, hdisables, hchildren⟩ := node_of_clean hclean hon
      obtain ⟨hthrough, hnot⟩ := ih hchildren henabled
      refine ⟨⟨schema, hschema, hisNode, hthrough⟩, ?_⟩
      rintro ⟨_, hsame, hbad⟩
      rw [hschema] at hsame
      cases hsame
      rcases hbad with hbad | hbad
      · rw [hdisables] at hbad
        cases hbad
      · exact hnot hbad

/-- All switched-on paths from here lead through nodes that the schema does not disable. -/
def Sound (properties : Properties) (request : Option Request) : Prop :=
  ∀ path, Enabled properties request path → Through properties path ∧
    ¬ ThroughDisabled properties path

/-- Seen from one of its properties. -/
theorem Sound.property {properties : Properties} {request : Option Request}
    (h : Sound properties request) {key : String} {schema : Schema}
    (hschema : properties.lookup key = some schema)
    (hon : switchedOn (request.bind (List.lookup key)) schema.start = true) :
    schema.isNode = true ∧ schema.disables = false ∧
      Sound schema.children ((request.bind (List.lookup key)).bind Override.tree) := by
  have hpath :
      ∀ rest, Enabled schema.children ((request.bind (List.lookup key)).bind Override.tree) rest →
      (schema.isNode = true ∧ Through schema.children rest) ∧
        ¬ (schema.disables = true ∨ ThroughDisabled schema.children rest) := by
    intro rest henabled
    obtain ⟨⟨_, hsame, hthrough⟩, hnot⟩ := h (key :: rest) ⟨schema, hschema, hon, henabled⟩
    rw [hschema] at hsame
    cases hsame
    exact ⟨hthrough, fun hbad => hnot ⟨schema, hschema, hbad⟩⟩
  have hnode := hpath [] trivial
  refine ⟨hnode.1.1, ?_, ?_⟩
  · exact eq_false_of_ne_true fun hbad => hnode.2 (.inl hbad)
  · intro rest henabled
    obtain ⟨⟨-, hthrough⟩, hnot⟩ := hpath rest henabled
    exact ⟨hthrough, fun hbad => hnot (.inr hbad)⟩

mutual

theorem clean_of_sound : (schema : Schema) → (override : Option Override) → schema.expanded = true →
    (switchedOn override schema.start = true → schema.isNode = true ∧ schema.disables = false ∧
      Sound schema.children (override.bind Override.tree)) → clean schema override = true
  | .boolean schema, override, _, h => by
      cases hon : switchedOn override schema.start with
      | false => simp [clean, hon]
      | true =>
          have hdisables := (h hon).2.1
          simp [clean, hdisables]
  | .oneOf branches, override, hexpanded, h => by
      simp only [Schema.expanded, Bool.and_eq_true] at hexpanded
      cases hon : switchedOn override (Schema.oneOf branches).start with
      | false => simp [clean, hon]
      | true =>
          obtain ⟨-, hdisables, hsound⟩ := h hon
          have hbranches := cleanBranches_of_sound branches _ hexpanded.2 hsound
          simp [clean, hdisables, hbranches]
  | .object title properties, override, _, h => by
      cases hon : switchedOn override false with
      | false => simp [clean, hon]
      | true => cases (h hon).1
  | .other, override, _, h => by
      cases hon : switchedOn override false with
      | false => simp [clean, hon]
      | true => cases (h hon).1

theorem cleanProperties_of_sound : (properties : Properties) → (request : Option Request) →
    Schema.expandedProperties properties = true →
    (∀ entry ∈ properties, switchedOn (request.bind (List.lookup entry.1)) entry.2.start = true →
      entry.2.isNode = true ∧ entry.2.disables = false ∧
        Sound entry.2.children ((request.bind (List.lookup entry.1)).bind Override.tree)) →
    cleanProperties properties request = true
  | [], _, _, _ => rfl
  | (key, schema) :: rest, request, hexpanded, h => by
      simp only [Schema.expandedProperties, Bool.and_eq_true] at hexpanded
      have hhead := clean_of_sound schema _ hexpanded.1 (h (key, schema) List.mem_cons_self)
      have hrest := cleanProperties_of_sound rest request hexpanded.2
        fun entry hmem => h entry (List.mem_cons_of_mem _ hmem)
      rw [cleanProperties, hhead, hrest]
      rfl

theorem cleanBranches_of_sound : (branches : List Schema) → (request : Option Request) →
    Schema.expandedBranches branches = true → Sound (Schema.oneOf branches).children request →
    cleanBranches branches request = true
  | [], _, _, _ => rfl
  | .object title properties :: rest, request, hexpanded, h => by
      simp only [Schema.expandedBranches, Bool.and_eq_true] at hexpanded
      have hkeys := Schema.keys_nodup hexpanded.1
      have hproperties := hexpanded.1
      simp only [Schema.expanded, Bool.and_eq_true] at hproperties
      rw [cleanBranches]
      apply cleanProperties_of_sound properties request hproperties.2
      intro entry hmem hon
      exact Sound.property h (Dictionary.lookup_of_mem hkeys hmem) hon
  | .boolean _ :: rest, request, hexpanded, h => by
      simp only [Schema.expandedBranches, Bool.and_eq_true] at hexpanded
      exact cleanBranches_of_sound rest request hexpanded.2 h
  | .oneOf _ :: rest, request, hexpanded, h => by
      simp only [Schema.expandedBranches, Bool.and_eq_true] at hexpanded
      exact cleanBranches_of_sound rest request hexpanded.2 h
  | .other :: rest, request, hexpanded, h => by
      simp only [Schema.expandedBranches, Bool.and_eq_true] at hexpanded
      exact cleanBranches_of_sound rest request hexpanded.2 h

end

end Cleanness

/-- An accepted request gets the tree of what is switched on, and nothing that is disabled,
exactly when it switches on no relation that the schema disables and no plain object. -/
theorem served_iff_clean (schema : IncludeSchema) (request : Option Request)
    (haccepted : Accepted schema request) :
    Served schema request ↔ cleanProperties schema.properties request = true := by
  have hkeys := Schema.keys_nodup schema.expanded
  have hexpanded : Schema.expandedProperties schema.properties = true := by
    have h := schema.expanded
    simp only [Schema.expanded, Bool.and_eq_true] at h
    exact h.2
  have htree := buildPydanticInclude_eq haccepted
  constructor
  · intro h
    have hsound : Sound schema.properties request := by
      intro path henabled
      let obj := Value.object (populatedProperties schema.properties)
      have hpresent : PresentProperties schema.properties obj := by
        rw [presentProperties_iff]
        intro entry hmem
        rw [getattr_populated hkeys hmem]
        exact present_populatedProperties schema.properties hexpanded entry hmem
      have hcontains := (h.contained obj _ hpresent (htree obj) path).mpr henabled
      exact ⟨(enabled_of_contains hkeys hexpanded hcontains).2,
        h.secluded obj _ path (htree obj) hcontains⟩
    apply cleanProperties_of_sound schema.properties request hexpanded
    intro entry hmem hon
    exact hsound.property (Dictionary.lookup_of_mem hkeys hmem) hon
  · intro hclean
    constructor
    · intro obj
      exact ⟨_, htree obj⟩
    · intro obj tree hpresent hbuilt path
      rw [htree obj] at hbuilt
      cases hbuilt
      constructor
      · intro hcontains
        exact (enabled_of_contains hkeys hexpanded hcontains).1
      · intro henabled
        exact contains_of_enabled hkeys hexpanded hpresent henabled
          (sound_of_clean hclean henabled).1
    · intro obj tree path hbuilt hcontains
      rw [htree obj] at hbuilt
      cases hbuilt
      exact (sound_of_clean hclean (enabled_of_contains hkeys hexpanded hcontains).1).2

section Sample

/-- `disabled_nested_obj`. -/
def disabledNestedObj : Schema := .boolean ⟨some false, some [false]⟩

def flagDefault (b : Bool) : Schema := .boolean ⟨some b, none⟩

/-- `BeatmapInclude` without its snapshots: the beatmaps of its beatmapset are a cycle. -/
def beatmapInclude : IncludeSchema where
  title := "BeatmapInclude"
  properties :=
    [("id", flagDefault true), ("beatmapset_id", flagDefault true),
      ("beatmapset", .oneOf
        [.object (some "BeatmapsetInclude")
          [("id", flagDefault true), ("user_id", flagDefault true),
            ("beatmaps", .oneOf [disabledNestedObj, flagDefault false])],
          flagDefault false])]
  expanded := by decide +kernel

def beatmapsOfBeatmapset (b : Bool) : Option Request :=
  some [("beatmapset", .nested [("beatmaps", .flag b)])]

theorem served_iff_clean_without_beatmaps :
    Accepted beatmapInclude (beatmapsOfBeatmapset false) ∧
      Served beatmapInclude (beatmapsOfBeatmapset false) := by
  have haccepted : Accepted beatmapInclude (beatmapsOfBeatmapset false) := by
    intro overrides h
    cases h
    rfl
  exact ⟨haccepted, (served_iff_clean _ _ haccepted).mpr (by decide +kernel)⟩

/-- The beatmaps of a beatmap's beatmapset are disabled, but can be asked for with true. -/
theorem beatmaps_of_beatmapset_not_served :
    Accepted beatmapInclude (beatmapsOfBeatmapset true) ∧
      ¬ Served beatmapInclude (beatmapsOfBeatmapset true) := by
  constructor
  · intro overrides h
    cases h
    rfl
  · intro h
    let beatmap : Value := .object [("id", .scalar "1")]
    let beatmapset : Value := .object [("beatmaps", .collection [beatmap])]
    let obj : Value := .object [("beatmapset", beatmapset)]
    obtain ⟨tree, htree⟩ := h.built obj
    have hsecluded := h.secluded obj tree ["beatmapset", "beatmaps"] htree
    cases htree
    apply hsecluded
    · exact ⟨_, rfl, _, rfl, trivial⟩
    · exact ⟨_, rfl, .inr ⟨_, rfl, .inl rfl⟩⟩

end Sample

end Graveboards.Includes
