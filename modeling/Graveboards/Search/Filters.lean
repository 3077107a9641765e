import Graveboards.Search.Terms

/-!
Sorting options and the filters of each category. A filtered field is written as its
number, which is looked up with the text of the category; on the way back the number
gives the name of the field.
-/

namespace Graveboards.Search

open Graveboards.Library

/-! Sorting. -/

inductive SortingOrder where
  | ascending
  | descending
  deriving DecidableEq

/-- `SortingOrderId`. -/
def SortingOrder.id : SortingOrder → Nat
  | .ascending => 1
  | .descending => 2

def SortingOrder.ofId : Nat → Option SortingOrder
  | 1 => some .ascending
  | 2 => some .descending
  | _ => none

structure SortingOption where
  field : ModelField
  order : Option SortingOrder
  deriving DecidableEq

abbrev SortingSchema := List SortingOption

namespace SortingOption

def serialize (o : SortingOption) : Except PyError Bytes :=
  match o.order with
  | none => .error (.attributeError "'NoneType' object has no attribute 'name'")
  | some order => do
      let fieldId ← pack 1 o.field.id
      let orderId ← pack 1 order.id
      pure (fieldId ++ orderId)

def ofIds (fieldId orderId : Nat) : Except PyError SortingOption :=
  match ModelField.ofId fieldId with
  | none => .error (.valueError (toString fieldId ++ " is not a valid ModelFieldId"))
  | some field =>
      match SortingOrder.ofId orderId with
      | none => .error (.valueError (toString orderId ++ " is not a valid SortingOrderId"))
      | some order => .ok ⟨field, some order⟩

def deserialize : Reader SortingOption := do
  let ids ← Decoder.unsignedPair 1
  .ofExcept (ofIds ids.1 ids.2)

theorem ofIds_id (field : ModelField) (order : SortingOrder) :
    ofIds field.id order.id = .ok ⟨field, some order⟩ := by
  rw [ofIds, (ModelField.ofId_id field).1]
  cases order <;> rfl

/-- An option with an order is written and read back; one without cannot be written. -/
theorem reads_deserialize (o : SortingOption) (horder : o.order.isSome = true) :
    ∃ data, o.serialize = .ok data ∧ Decoder.Reads deserialize data (.ok o) := by
  obtain ⟨field, order⟩ := o
  obtain ⟨order, rfl⟩ := Option.isSome_iff_exists.mp horder
  have hfield : field.id < 256 ^ 1 := (ModelField.ofId_id field).2
  have horder : order.id < 256 ^ 1 := by cases order <;> decide
  refine ⟨Decoder.digits 1 field.id ++ Decoder.digits 1 order.id ++ [], ?_, ?_⟩
  · rw [serialize]
    dsimp only
    rw [pack_of_lt hfield, pack_of_lt horder, List.append_nil]
    rfl
  · apply (Decoder.reads_unsignedPair hfield horder).then
    rw [ofIds_id]
    exact Decoder.reads_ofExcept (.ok _)

theorem order_of_serialize {o : SortingOption} {data : Bytes} (h : o.serialize = .ok data) :
    o.order.isSome = true := by
  unfold serialize at h
  split at h
  case h_1 => cases h
  case h_2 order horder => rw [horder]; rfl

theorem allCaught_ofIds (fieldId orderId : Nat) : AllCaught (ofIds fieldId orderId) := by
  unfold ofIds
  split
  · exact allCaught_error rfl
  · split
    · exact allCaught_error rfl
    · exact allCaught_ok _

end SortingOption

namespace SortingSchema

def serialize (options : SortingSchema) : Except PyError Bytes := do
  let optionCount ← pack 1 options.length
  let chunks ← options.mapM SortingOption.serialize
  pure (optionCount ++ chunks.flatten)

def deserialize : Reader SortingSchema := do
  let optionCount ← Decoder.unsigned 1
  Decoder.replicate optionCount SortingOption.deserialize

/-- At most 255 options, each with an order. -/
def Portable (options : SortingSchema) : Prop :=
  options.length < 256 ∧ ∀ o ∈ options, o.order.isSome = true

theorem reads_deserialize {options : SortingSchema} (h : Portable options) :
    ∃ data, serialize options = .ok data ∧ Decoder.Reads deserialize data (.ok options) := by
  obtain ⟨hcount, horders⟩ := h
  have hoption : ∀ o ∈ options, o.serialize = .ok (o.serialize.toOption.getD []) ∧
      Decoder.Reads SortingOption.deserialize (o.serialize.toOption.getD []) (.ok o) := by
    intro o ho
    obtain ⟨data, hserialize, hreads⟩ := o.reads_deserialize (horders o ho)
    rw [hserialize]
    exact ⟨rfl, hreads⟩
  have hreads := Decoder.reads_replicate fun o ho => (hoption o ho).2
  rw [Pages.mapM_of_forall fun o _ => rfl, List.map_id'] at hreads
  refine ⟨_, ?_, (Decoder.reads_unsigned hcount).then hreads⟩
  rw [serialize, pack_of_lt hcount, ok_bind, Pages.mapM_of_forall fun o ho => (hoption o ho).1,
    List.flatMap_def]
  rfl

theorem portable_of_serialize {options : SortingSchema} {data : Bytes}
    (h : serialize options = .ok data) :
    Portable options := by
  obtain ⟨optionCount, hcount, h⟩ := bind_eq_ok h
  obtain ⟨chunks, hchunks, -⟩ := bind_eq_ok h
  refine ⟨lt_of_pack hcount, fun o ho => ?_⟩
  obtain ⟨chunk, hchunk⟩ := Pages.forall_of_mapM hchunks o ho
  exact SortingOption.order_of_serialize hchunk

/-- The options are written, and their bytes are read back wherever they stand. -/
def RoundTrips (options : SortingSchema) : Prop :=
  ∃ data, serialize options = .ok data ∧ Decoder.Reads deserialize data (.ok options)

theorem sorting_round_trip_iff (options : SortingSchema) :
    RoundTrips options ↔ Portable options := by
  constructor
  · rintro ⟨data, hserialize, -⟩
    exact portable_of_serialize hserialize
  · exact reads_deserialize

/-- An option whose order is given as null cannot be written. -/
theorem nullOrder_not_round_trips : ¬ RoundTrips [⟨⟨0, by decide⟩, none⟩] := by
  rintro ⟨data, hserialize, -⟩
  cases hserialize

theorem guarded_deserialize {P : Platform} : Guarded P deserialize := by
  apply (guarded_unsigned 1).bind
  intro optionCount
  apply Decoder.guarded_replicate
  apply Guarded.bind
  · exact fun bytes => guarded_pure _
  · exact fun ids => guarded_ofExcept (SortingOption.allCaught_ofIds _ _)

end SortingSchema

/-! Filters. -/

/-- `SearchableFieldCategory.value`. -/
def SearchableFieldCategory.value : SearchableFieldCategory → String
  | .profile => "profile"
  | .beatmap => "beatmap"
  | .beatmapset => "beatmapset"
  | .queue => "queue"
  | .request => "request"

/-- A dictionary from field names to conditions. -/
structure FieldFilters where
  root : List (String × Conditions)
  distinct : (root.map Prod.fst).Nodup
  deriving DecidableEq

namespace FieldFilters

def empty : FieldFilters := ⟨[], List.nodup_nil⟩

/-- The keys after `values[name] = c`: the old ones, or one more. -/
theorem keys_replace (root : List (String × Conditions)) (name : String) (c : Conditions) :
    (root.map fun x => if x.1 = name then (name, c) else x).map Prod.fst = root.map Prod.fst := by
  rw [List.map_map]
  apply List.map_congr_left
  intro x _
  rw [Function.comp_apply]
  split
  case isTrue hname => exact hname.symm
  case isFalse => rfl

/-- `values[name] = c`. -/
def setItem (f : FieldFilters) (name : String) (c : Conditions) : FieldFilters :=
  if h : name ∈ f.root.map Prod.fst then
    ⟨f.root.map fun x => if x.1 = name then (name, c) else x,
      (keys_replace f.root name c).symm ▸ f.distinct⟩
  else
    ⟨f.root ++ [(name, c)], by
      rw [List.map_append]
      exact List.nodup_append_comm.mp (List.nodup_cons.mpr ⟨h, f.distinct⟩)⟩

def ofItems (items : List (String × Conditions)) : FieldFilters :=
  items.foldl (fun f x => f.setItem x.1 x.2) empty

/-- `cls(**values)`, where no values are no root. -/
def construct (f : FieldFilters) : Except PyError FieldFilters :=
  if f.root.isEmpty then .error (.validationError [.noFields]) else .ok f

/-- `validate_type` with the type of a column. -/
def hasType (expected : ColumnType) (v : ConditionValue) : Bool :=
  match expected, v.type with
  | .int, .bool | .float, .int | .float, .bool => true
  | expected, type => expected = type

def validateField (category : SearchableFieldCategory) (name : String) (c : Conditions) :
    Except PyError Unit :=
  match ModelField.fromModelFieldName (.modelClass category) name with
  | some field =>
      match c.valuesForValidation.find? fun v => !hasType field.row.columnType v with
      | some v => .error (.fieldValidation category name (some v) (some field.row.columnType))
      | none => .ok ()
  | none =>
      if category.relationshipNames.contains name then
        .error (.fieldValidation category name none none)
      else .error (.fieldNotSupported category name)

/-- `validate_against_sqlalchemy_model`; filters of relationships do not pass the
validation of their conditions and are left out. -/
def validateAgainstModel (f : FieldFilters) (category : SearchableFieldCategory) :
    Except PyError Unit :=
  f.root.forM fun x => validateField category x.1 x.2

def serializeField (P : Platform) (category : SearchableFieldCategory) (name : String)
    (c : Conditions) :
    Except PyError Bytes :=
  match ModelField.fromModelFieldName (.text category.value) name with
  | none =>
      .error (.valueError ("No ModelField exists with model class '" ++ category.value ++
        "' and field '" ++ name ++ "'"))
  | some field => do
      let fieldId ← pack 2 field.id
      let conditions ← c.serialize P
      pure (fieldId ++ conditions)

def serialize (P : Platform) (category : SearchableFieldCategory) (f : FieldFilters) :
    Except PyError Bytes := do
  let length ← pack 1 f.root.length
  let chunks ← f.root.mapM fun x => serializeField P category x.1 x.2
  pure (length ++ chunks.flatten)

def readField (P : Platform) : Reader (String × Conditions) := do
  let fieldId ← Decoder.unsigned 2
  match ModelField.ofId fieldId with
  | none => .fail (.valueError (toString fieldId ++ " is not a valid ModelFieldId"))
  | some field => return (field.row.fieldName, ← Conditions.deserialize P)

def deserialize (P : Platform) : Reader FieldFilters := do
  let length ← Decoder.unsigned 1
  let items ← Decoder.replicate length (readField P)
  .ofExcept (construct (ofItems items))

/-- No field can be written: its number is looked up with a text for a model class. -/
theorem root_of_serialize {P : Platform} {category : SearchableFieldCategory}
    {f : FieldFilters} {data : Bytes} (h : f.serialize P category = .ok data) : f.root = [] := by
  obtain ⟨length, -, h⟩ := bind_eq_ok h
  obtain ⟨chunks, hchunks, -⟩ := bind_eq_ok h
  apply List.eq_nil_iff_forall_not_mem.mpr
  intro x hx
  obtain ⟨chunk, hchunk⟩ := Pages.forall_of_mapM hchunks x hx
  rw [serializeField, ModelField.fromModelFieldName_text] at hchunk
  cases hchunk

theorem allCaught_validateAgainstModel (f : FieldFilters) (category : SearchableFieldCategory) :
    AllCaught (f.validateAgainstModel category) := by
  apply AllCaught.forM
  intro x
  unfold validateField
  split
  · split
    · exact allCaught_error rfl
    · exact allCaught_ok ()
  · apply AllCaught.ite
    · exact allCaught_error rfl
    · exact allCaught_error rfl

theorem guarded_deserialize {P : Platform} : Guarded P (deserialize P) := by
  apply (guarded_unsigned 1).bind
  intro length
  apply Guarded.bind
  · apply Decoder.guarded_replicate
    apply (guarded_unsigned 2).bind
    intro fieldId
    split
    · rfl
    · exact guarded_conditions.bind fun conditions => guarded_pure _
  · intro items
    apply guarded_ofExcept
    apply AllCaught.ite
    · exact allCaught_error rfl
    · exact allCaught_ok _

end FieldFilters

structure FiltersSchema where
  profile : Option FieldFilters
  beatmap : Option FieldFilters
  beatmapset : Option FieldFilters
  queue : Option FieldFilters
  request : Option FieldFilters
  deriving DecidableEq

namespace FiltersSchema

def empty : FiltersSchema := ⟨none, none, none, none, none⟩

/-- The order of `SearchableFieldCategoryFlag`. -/
def toList (f : FiltersSchema) : List (SearchableFieldCategory × Option FieldFilters) :=
  [(.profile, f.profile), (.beatmap, f.beatmap), (.beatmapset, f.beatmapset), (.queue, f.queue),
    (.request, f.request)]

def ofList (parts : List (Option FieldFilters)) : FiltersSchema :=
  match parts with
  | [profile, beatmap, beatmapset, queue, request] => ⟨profile, beatmap, beatmapset, queue, request⟩
  | _ => empty

/-- Filters without fields are falsy. -/
def truthy (f : Option FieldFilters) : Option FieldFilters := f.filter fun f => !f.root.isEmpty

/-- `validate_filters`, of filters that are already built. -/
def construct (f : FiltersSchema) : Except PyError FiltersSchema := do
  f.toList.forM fun x =>
    match x.2 with
    | some filters => filters.validateAgainstModel x.1
    | none => .ok ()
  pure f

def serialize (P : Platform) (f : FiltersSchema) : Except PyError Bytes := do
  let chunks ← f.toList.mapM fun x =>
    match truthy x.2 with
    | some filters => filters.serialize P x.1
    | none => .ok []
  let presence ← pack 1 (Decoder.mask (f.toList.map fun x => (truthy x.2).isSome))
  pure (presence ++ chunks.flatten)

def deserialize (P : Platform) : Reader FiltersSchema := do
  let presence ← Decoder.unsigned 1
  let parts ← Decoder.masked (List.replicate 5 (FieldFilters.deserialize P)) presence
  .ofExcept (construct (ofList parts))

/-- The categories without fields are dropped. -/
def normal (f : FiltersSchema) : FiltersSchema :=
  ⟨truthy f.profile, truthy f.beatmap, truthy f.beatmapset, truthy f.queue, truthy f.request⟩

/-- No category has a field. -/
def Portable (f : FiltersSchema) : Prop := f.normal = empty

theorem portable_iff (f : FiltersSchema) : f.Portable ↔ ∀ x ∈ f.toList, truthy x.2 = none := by
  simp [Portable, normal, empty, toList]

theorem portable_of_serialize {P : Platform} {f : FiltersSchema} {data : Bytes}
    (h : f.serialize P = .ok data) :
    f.Portable := by
  obtain ⟨chunks, hchunks, -⟩ := bind_eq_ok h
  rw [portable_iff]
  intro x hx
  obtain ⟨chunk, hchunk⟩ := Pages.forall_of_mapM hchunks x hx
  split at hchunk
  case h_1 filters hfilters =>
      have hroot := FieldFilters.root_of_serialize hchunk
      have htruthy := (Option.filter_eq_some_iff.mp hfilters).2
      rw [hroot] at htruthy
      cases htruthy
  case h_2 hnone => exact hnone

theorem reads_deserialize (P : Platform) {f : FiltersSchema} (h : f.Portable) :
    ∃ data, f.serialize P = .ok data ∧ Decoder.Reads (deserialize P) data (.ok f.normal) := by
  have hnone := (portable_iff f).mp h
  have hmask : (f.toList.map fun x => (truthy x.2).isSome) = f.toList.map fun _ => false := by
    apply List.map_congr_left
    intro x hx
    rw [hnone x hx]
    rfl
  refine ⟨Decoder.digits 1 0 ++ ([] ++ []), ?_, ?_⟩
  · have hchunks : (f.toList.mapM fun x =>
        match truthy x.2 with
        | some filters => filters.serialize P x.1
        | none => .ok []) = .ok (f.toList.map fun _ => []) := by
      apply Pages.mapM_of_forall
      intro x hx
      rw [hnone x hx]
    rw [serialize, hchunks, ok_bind, hmask]
    rfl
  · apply (Decoder.reads_unsigned (show 0 < 256 ^ 1 by decide)).then
    apply (show Decoder.Reads (Decoder.masked (List.replicate 5 (FieldFilters.deserialize P)) 0) []
      (.ok (List.replicate 5 none)) from fun _ _ => rfl).then
    have hconstruct : construct (ofList (List.replicate 5 none)) = .ok f.normal := by
      rw [h]
      rfl
    rw [hconstruct]
    exact Decoder.reads_ofExcept (.ok f.normal)

theorem allCaught_construct (f : FiltersSchema) : AllCaught f.construct := by
  apply AllCaught.bind
  · apply AllCaught.forM
    intro x
    split
    · exact FieldFilters.allCaught_validateAgainstModel _ _
    · exact allCaught_ok ()
  · exact fun _ => allCaught_ok f

theorem guarded_deserialize {P : Platform} : Guarded P (deserialize P) := by
  apply (guarded_unsigned 1).bind
  intro presence
  apply Guarded.bind
  · apply Decoder.guarded_masked
    intro reader hreader
    rw [List.eq_of_mem_replicate hreader]
    exact FieldFilters.guarded_deserialize
  · exact fun parts => guarded_ofExcept (allCaught_construct _)

end FiltersSchema

end Graveboards.Search
