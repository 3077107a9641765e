import Graveboards.Includes.Paths

/-!
The items of a list response: one include tree is made by the first object's relations and
dumps them all. When each item is what a response for its object alone holds.
-/

namespace Graveboards.Includes

open Graveboards.Library

mutual

/-- `model_dump(include=...)` of a value. The objects of a list are dumped one by one; in the
objects of one model a relation is a list in all of them or in none. -/
def dumpFields : Value → List (String × Include) → Value
  | .none, _ => .none
  | .scalar text, _ => .scalar text
  | .collection items, entries => .collection (dumpItems items entries)
  | .object attributes, entries => .object (dumpAttributes attributes entries)

def dumpItems : List Value → List (String × Include) → List Value
  | [], _ => []
  | item :: rest, entries => dumpFields item entries :: dumpItems rest entries

def dumpAttributes : List (String × Value) → List (String × Include) → List (String × Value)
  | [], _ => []
  | (key, value) :: rest, entries =>
      match entries.lookup key with
      | none => dumpAttributes rest entries
      | some .all => (key, value) :: dumpAttributes rest entries
      | some node => (key, dumpFields value node.entries) :: dumpAttributes rest entries

end

/-- What the tree makes of a value under one of its keys. -/
def dump : Include → Value → Value
  | .all, value => value
  | node, value => dumpFields value node.entries

section Response

-- `model_validate`: the response schema's object for an object of the database.
variable (modelValidate : Value → Value)

/-- The data of a list endpoint, and `SearchEngine.dump`. -/
def respond (includeSchema : Schema) (requestInclude : Option Request) (page : List Value) :
    Except BuildError (List Value) :=
  match page with
  | [] => .ok []
  | first :: _ => do
      let tree ← buildPydanticInclude first includeSchema requestInclude
      return page.map fun model => dumpFields (modelValidate model) tree

/-- Each item is that of the response for its object alone. -/
def Independent (includeSchema : Schema) (requestInclude : Option Request) (page : List Value) :
    Prop :=
  ∃ items, respond modelValidate includeSchema requestInclude page = .ok items ∧
    ∀ (i : Nat) (model : Value), page[i]? = some model →
      ∃ item, respond modelValidate includeSchema requestInclude [model] = .ok [item] ∧
      items[i]? = some item

end Response

namespace Value

def given : Value → Bool
  | none => false
  | _ => true

mutual

/-- The values under a name in the objects of a value. -/
def valuesAt (field : String) : Value → List Value
  | collection items => valuesAtItems field items
  | object attributes => (attributes.filter fun entry => entry.1 == field).map Prod.snd
  | _ => []

def valuesAtItems (field : String) : List Value → List Value
  | [] => []
  | item :: rest => valuesAt field item ++ valuesAtItems field rest

end

end Value

mutual

/-- For a relation that is switched on, and that the items have: it is given in both objects or in
neither, and what is given is alike by the child on either side. -/
def alike : Schema → Option Override → Value → Value → List Value → Bool
  | .oneOf branches, override, a, b, values =>
      !switchedOn override (Schema.oneOf branches).start || values.isEmpty ||
        (a.given == b.given &&
          (!a.given || values.all fun value =>
            alikeBranches branches (override.bind Override.tree) a.child b.child value))
  | _, _, _, _, _ => true

/-- The relations of two objects make the same of a value. -/
def alikeProperties : Properties → Option Request → Value → Value → Value → Bool
  | [], _, _, _, _ => true
  | (key, schema) :: rest, request, a, b, value =>
      alike schema (request.bind (List.lookup key)) (a.getattr key) (b.getattr key)
        (value.valuesAt key) &&
        alikeProperties rest request a b value

def alikeBranches : List Schema → Option Request → Value → Value → Value → Bool
  | [], _, _, _, _ => true
  | .object _ properties :: _, request, a, b, value => alikeProperties properties request a b value
  | _ :: rest, request, a, b, value => alikeBranches rest request a b value

end

section Dumping

theorem dumpAttributes_cons (key : String) (value : Value) (rest : List (String × Value))
    (entries : List (String × Include)) :
    dumpAttributes ((key, value) :: rest) entries =
      (((entries.lookup key).map fun node => dump node value).map (Prod.mk key)).toList ++
        dumpAttributes rest entries := by
  rw [dumpAttributes]
  cases entries.lookup key with
  | none => rfl
  | some node => cases node <;> rfl

theorem mem_keys_dumpAttributes {attributes : List (String × Value)}
    {entries : List (String × Include)} {key : String}
    (h : key ∈ Dictionary.keys (dumpAttributes attributes entries)) :
    (entries.lookup key).isSome = true := by
  induction attributes with
  | nil => cases h
  | cons entry rest ih =>
      obtain ⟨name, value⟩ := entry
      rw [dumpAttributes_cons] at h
      cases hnode : entries.lookup name with
      | none =>
          rw [hnode] at h
          exact ih h
      | some node =>
          rw [hnode] at h
          rcases List.mem_cons.mp h with rfl | h
          · simp [hnode]
          · exact ih h

/-- Two trees dump the attributes alike when they make the same of each of them. -/
theorem dumpAttributes_eq_iff {attributes : List (String × Value)} {s t : List (String × Include)} :
    dumpAttributes attributes s = dumpAttributes attributes t ↔
      ∀ entry ∈ attributes,
        (s.lookup entry.1).map (fun node => dump node entry.2) =
          (t.lookup entry.1).map (fun node => dump node entry.2) := by
  induction attributes with
  | nil => simp [dumpAttributes]
  | cons entry rest ih =>
      obtain ⟨key, value⟩ := entry
      rw [dumpAttributes_cons, dumpAttributes_cons, List.forall_mem_cons, ← ih]
      constructor
      · intro h
        have hdropped : ∀ {u v : List (String × Include)} {node : Include},
            u.lookup key = none → v.lookup key = some node →
              dumpAttributes rest u ≠ (key, dump node value) :: dumpAttributes rest v := by
          intro u v node hu hv heq
          have hmem : key ∈ Dictionary.keys (dumpAttributes rest u) := by simp [heq]
          have hsome := mem_keys_dumpAttributes hmem
          rw [hu] at hsome
          cases hsome
        cases hs : s.lookup key with
        | none =>
            cases ht : t.lookup key with
            | none => simpa [hs, ht] using h
            | some node => exact absurd (by simpa [hs, ht] using h) (hdropped hs ht)
        | some node =>
            cases ht : t.lookup key with
            | none => exact absurd (by simpa [hs, ht] using h.symm) (hdropped ht hs)
            | some node' => simpa [hs, ht] using h
      · rintro ⟨hhead, hrest⟩
        rw [hhead, hrest]

mutual

/-- Two trees dump a value alike when they make the same of all that it has under any name. -/
theorem dumpFields_eq_iff : (value : Value) → (s t : List (String × Include)) →
    (dumpFields value s = dumpFields value t ↔
      ∀ key, ∀ inner ∈ value.valuesAt key,
        (s.lookup key).map (fun node => dump node inner) =
          (t.lookup key).map (fun node => dump node inner))
  | .none, _, _ => by simp [dumpFields, Value.valuesAt]
  | .scalar _, _, _ => by simp [dumpFields, Value.valuesAt]
  | .collection items, s, t => by
      simp only [dumpFields, Value.collection.injEq, Value.valuesAt]
      exact dumpItems_eq_iff items s t
  | .object attributes, s, t => by
      simp only [dumpFields, Value.object.injEq, Value.valuesAt, dumpAttributes_eq_iff]
      constructor
      · intro h key inner hinner
        obtain ⟨entry, hentry, rfl⟩ := List.mem_map.mp hinner
        obtain ⟨hmem, hkey⟩ := List.mem_filter.mp hentry
        rw [beq_iff_eq] at hkey
        rw [← hkey]
        exact h entry hmem
      · intro h entry hmem
        apply h entry.1 entry.2
        exact List.mem_map.mpr ⟨entry, List.mem_filter.mpr ⟨hmem, by simp⟩, rfl⟩

theorem dumpItems_eq_iff : (items : List Value) → (s t : List (String × Include)) →
    (dumpItems items s = dumpItems items t ↔
      ∀ key, ∀ inner ∈ Value.valuesAtItems key items,
        (s.lookup key).map (fun node => dump node inner) =
          (t.lookup key).map (fun node => dump node inner))
  | [], _, _ => by simp [dumpItems, Value.valuesAtItems]
  | item :: rest, s, t => by
      simp only [dumpItems, List.cons.injEq, Value.valuesAtItems, List.mem_append,
        dumpFields_eq_iff item s t, dumpItems_eq_iff rest s t]
      constructor
      · rintro ⟨hitem, hrest⟩ key inner (hinner | hinner)
        · exact hitem key inner hinner
        · exact hrest key inner hinner
      · intro h
        constructor
        · intro key inner hinner
          exact h key inner (.inl hinner)
        · intro key inner hinner
          exact h key inner (.inr hinner)

end

end Dumping

section Likeness

theorem alikeProperties_iff {properties : Properties} {request : Option Request}
    {a b value : Value} :
    alikeProperties properties request a b value = true ↔
      ∀ entry ∈ properties,
        alike entry.2 (request.bind (List.lookup entry.1)) (a.getattr entry.1) (b.getattr entry.1)
          (value.valuesAt entry.1) = true := by
  induction properties with
  | nil => simp [alikeProperties]
  | cons entry rest ih => simp only [alikeProperties, Bool.and_eq_true, ih, List.forall_mem_cons]

/-- The field of a relation, with the tree that the child makes. -/
theorem field_oneOf {branches : List Schema} {override : Option Override}
    {obj : Value} {key : String} (inner : Value) :
    ((settle (.oneOf branches) override).bind (formatField obj key)).map
    (fun node => dump node inner) =
      if switchedOn override (Schema.oneOf branches).start = true ∧
      (obj.getattr key).given = true then
        some (dumpFields inner
          (formatInclude (obj.getattr key).child
            (settleBranches branches (override.bind Override.tree))))
      else none := by
  cases hon : switchedOn override (Schema.oneOf branches).start with
  | false => simp [settle, formatField, hon]
  | true =>
      cases hvalue : obj.getattr key with
      | none => simp [settle, formatField, hon, hvalue, Value.given]
      | _ =>
          simp [settle, formatField, hon, hvalue, Value.given, dump, Include.entries, Value.child]

/-- Two objects make the same of the values under one of their properties. -/
def FieldAgrees (schema : Schema) (override : Option Override) (a b : Value) (key : String)
    (values : List Value) : Prop :=
  ∀ inner ∈ values,
    ((settle schema override).bind (formatField a key)).map (fun node => dump node inner) =
      ((settle schema override).bind (formatField b key)).map (fun node => dump node inner)

/-- The trees of two objects dump a value alike when their relations make the same of it. -/
theorem dumpProperties_iff {properties : Properties} (hkeys : (Dictionary.keys properties).Nodup)
    (hentries : ∀ entry ∈ properties, ∀ (override : Option Override) (a b : Value) (key : String)
      (values : List Value), FieldAgrees entry.2 override a b key values ↔
        alike entry.2 override (a.getattr key) (b.getattr key) values = true)
    (request : Option Request) (a b value : Value) :
    dumpFields value (formatInclude a (settleProperties properties request)) =
        dumpFields value (formatInclude b (settleProperties properties request)) ↔
      alikeProperties properties request a b value = true := by
  simp only [dumpFields_eq_iff, alikeProperties_iff, lookup_formatInclude hkeys]
  constructor
  · intro h entry hmem
    rw [← hentries entry hmem]
    intro inner hinner
    have hfield := h entry.1 inner hinner
    rw [Dictionary.lookup_of_mem hkeys hmem] at hfield
    exact hfield
  · intro h key inner hinner
    cases hschema : properties.lookup key with
    | none => rfl
    | some schema =>
        have hmem := Dictionary.mem_of_lookup hschema
        exact (hentries (key, schema) hmem _ a b key _).mpr (h (key, schema) hmem) inner hinner

mutual

theorem fieldAgrees_iff :
    (schema : Schema) → schema.expanded = true → ∀ (override : Option Override) (a b : Value)
    (key : String) (values : List Value),
    FieldAgrees schema override a b key values ↔
      alike schema override (a.getattr key) (b.getattr key) values = true
  | .boolean _, _, _, _, _, _, _ => by simp [FieldAgrees, settle, formatField, alike]
  | .object _ _, _, _, _, _, _, _ => by simp [FieldAgrees, settle, alike]
  | .other, _, _, _, _, _, _ => by simp [FieldAgrees, settle, alike]
  | .oneOf branches, hexpanded, override, a, b, key, values => by
      simp only [Schema.expanded, Bool.and_eq_true] at hexpanded
      have hbranches := alikeBranches_iff branches hexpanded.2 (override.bind Override.tree)
        (a.getattr key).child (b.getattr key).child
      simp only [FieldAgrees, field_oneOf]
      cases hon : switchedOn override (Schema.oneOf branches).start with
      | false => simp [alike, hon]
      | true =>
          cases values with
          | nil => simp [alike, hon]
          | cons value rest =>
              cases ha : (a.getattr key).given with
              | false =>
                  cases hb : (b.getattr key).given with
                  | false => simp [alike, ha, hb]
                  | true =>
                      simp only [alike, hon, ha, hb]
                      constructor
                      · intro h
                        have hvalue := h value List.mem_cons_self
                        simp at hvalue
                      · simp
              | true =>
                  cases hb : (b.getattr key).given with
                  | false =>
                      simp only [alike, hon, ha, hb]
                      constructor
                      · intro h
                        have hvalue := h value List.mem_cons_self
                        simp at hvalue
                      · simp
                  | true => simp [alike, hon, ha, hb, hbranches]

theorem properties_fieldAgrees_iff :
    (properties : Properties) → Schema.expandedProperties properties = true →
    ∀ entry ∈ properties,
    ∀ (override : Option Override) (a b : Value) (key : String) (values : List Value),
    FieldAgrees entry.2 override a b key values ↔
      alike entry.2 override (a.getattr key) (b.getattr key) values = true
  | [], _, _, hmem => by cases hmem
  | (name, schema) :: rest, hexpanded, entry, hmem => by
      simp only [Schema.expandedProperties, Bool.and_eq_true] at hexpanded
      rcases List.mem_cons.mp hmem with rfl | hmem
      · exact fieldAgrees_iff schema hexpanded.1
      · exact properties_fieldAgrees_iff rest hexpanded.2 entry hmem

theorem alikeBranches_iff : (branches : List Schema) → Schema.expandedBranches branches = true →
    ∀ (request : Option Request) (a b value : Value),
    dumpFields value (formatInclude a (settleBranches branches request)) =
        dumpFields value (formatInclude b (settleBranches branches request)) ↔
      alikeBranches branches request a b value = true
  | [], _, _, _, _, _ => by simp [settleBranches, formatInclude, alikeBranches]
  | .object title properties :: rest, hexpanded, request, a, b, value => by
      simp only [Schema.expandedBranches, Bool.and_eq_true] at hexpanded
      have hkeys := Schema.keys_nodup hexpanded.1
      have hproperties := hexpanded.1
      simp only [Schema.expanded, Bool.and_eq_true] at hproperties
      have hentries := properties_fieldAgrees_iff properties hproperties.2
      exact dumpProperties_iff hkeys hentries request a b value
  | .boolean _ :: rest, hexpanded, request, a, b, value => by
      simp only [Schema.expandedBranches, Bool.and_eq_true] at hexpanded
      exact alikeBranches_iff rest hexpanded.2 request a b value
  | .oneOf _ :: rest, hexpanded, request, a, b, value => by
      simp only [Schema.expandedBranches, Bool.and_eq_true] at hexpanded
      exact alikeBranches_iff rest hexpanded.2 request a b value
  | .other :: rest, hexpanded, request, a, b, value => by
      simp only [Schema.expandedBranches, Bool.and_eq_true] at hexpanded
      exact alikeBranches_iff rest hexpanded.2 request a b value

end

end Likeness

section Response

variable (modelValidate : Value → Value)

theorem respond_eq {schema : IncludeSchema} {request : Option Request}
    (haccepted : Accepted schema request) (first : Value) (rest : List Value) :
    respond modelValidate schema.schema request (first :: rest) =
      .ok ((first :: rest).map fun model =>
        dumpFields (modelValidate model)
          (formatInclude first (settleProperties schema.properties request))) := by
  simp only [respond, buildPydanticInclude_eq haccepted, ok_bind]
  rfl

/-- The items of a response are independent of each other exactly when the relations of the first
object make of each item what those of its own object make of it. -/
theorem independent_iff_alike (schema : IncludeSchema) (request : Option Request)
    (haccepted : Accepted schema request) (page : List Value) :
    Independent modelValidate schema.schema request page ↔
      ∀ first ∈ page.head?, ∀ model ∈ page,
        alikeProperties schema.properties request first model (modelValidate model) = true := by
  have hkeys := Schema.keys_nodup schema.expanded
  have hexpanded := schema.expanded
  simp only [Schema.expanded, Bool.and_eq_true] at hexpanded
  have hitem :=
    dumpProperties_iff hkeys (properties_fieldAgrees_iff schema.properties hexpanded.2) request
  cases page with
  | nil =>
      constructor
      · intro _ first hfirst
        cases hfirst
      · intro _
        refine ⟨[], rfl, ?_⟩
        intro i model hmodel
        simp at hmodel
  | cons first rest =>
      simp only [List.head?_cons, Option.mem_def, Option.some.injEq, forall_eq', ← hitem]
      constructor
      · rintro ⟨items, hitems, halone⟩ model hmem
        rw [respond_eq modelValidate haccepted] at hitems
        cases hitems
        obtain ⟨i, hi⟩ := List.mem_iff_getElem?.mp hmem
        obtain ⟨item, hsingle, hsame⟩ := halone i model hi
        rw [respond_eq modelValidate haccepted] at hsingle
        cases hsingle
        rw [List.getElem?_map, hi] at hsame
        simpa using hsame
      · intro h
        refine ⟨_, respond_eq modelValidate haccepted first rest, ?_⟩
        intro i model hi
        refine ⟨_, respond_eq modelValidate haccepted model [], ?_⟩
        rw [List.getElem?_map, hi, Option.map_some, h model (List.mem_of_getElem? hi)]

/-- `BeatmapSnapshotInclude`, with its leaderboard alone. -/
def beatmapSnapshotInclude : IncludeSchema where
  title := "BeatmapSnapshotInclude"
  properties :=
    [("beatmap_id", flagDefault true),
      ("leaderboard", .oneOf [.object (some "LeaderboardInclude") [("frozen", flagDefault true)],
        flagDefault false])]
  expanded := by decide +kernel

def withLeaderboard : Option Request := some [("leaderboard", .flag true)]

def beatmapSnapshot (beatmapId : String) (leaderboard : Value) : Value :=
  .object [("beatmap_id", .scalar beatmapId), ("leaderboard", leaderboard)]

def openLeaderboard : Value := .object [("frozen", .scalar "False")]

theorem independent_iff_alike_leaderboards :
    Accepted beatmapSnapshotInclude withLeaderboard ∧
      Independent id beatmapSnapshotInclude.schema withLeaderboard
        [beatmapSnapshot "1" openLeaderboard, beatmapSnapshot "2" openLeaderboard] := by
  have haccepted : Accepted beatmapSnapshotInclude withLeaderboard := by
    intro overrides h
    cases h
    rfl
  refine ⟨haccepted, (independent_iff_alike id _ _ haccepted _).mpr ?_⟩
  intro first hfirst
  cases hfirst
  decide +kernel

/-- A snapshot without a leaderboard hides that of the next one. -/
theorem leaderboard_not_independent :
    Accepted beatmapSnapshotInclude withLeaderboard ∧
      ¬ Independent id beatmapSnapshotInclude.schema withLeaderboard
        [beatmapSnapshot "1" .none, beatmapSnapshot "2" openLeaderboard] := by
  constructor
  · intro overrides h
    cases h
    rfl
  · rintro ⟨items, hitems, halone⟩
    obtain ⟨item, hsingle, hsame⟩ := halone 1 _ rfl
    cases hitems
    cases hsingle
    have hgiven := congrArg (Option.map fun shown => (shown.getattr "leaderboard").given) hsame
    exact absurd hgiven (by decide +kernel)

end Response

end Graveboards.Includes
