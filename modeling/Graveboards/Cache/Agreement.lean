import Graveboards.Cache.RoundTrip

/-!
A hit agrees with a miss: for which beatmapsets reading gives back what was written, and what
`get_beatmapset` returns from the cache is validated to what osu! answers.
-/

namespace Graveboards.Cache

open Graveboards.Library

variable {py : Python} {p : Pydantic}

section Models

variable {encode : String → Ty → Value → Value} {decode : String → String → Option Value}

/-- The field has its value back after `serialize` and `deserialize`. -/
def Survives (py : Python) (p : Pydantic) (encode : String → Ty → Value → Value)
    (decode : String → String → Option Value) (field : Key × Ty) (value : Value) : Prop :=
  ∃ read, decode field.1.name (py.text (encode field.1.name field.2 value)) = some read ∧
    validate p field.2 read = some value

/-- The values are those of the fields, in order. -/
def Named (fields : Fields) (values : List (String × Value)) : Prop :=
  List.Forall₂ (fun field value => value.1 = field.1.name) fields values

theorem typedFields_iff {strict : Bool} {fields : Fields} {values : List (String × Value)} :
    TypedFields strict fields values ↔
      List.Forall₂ (fun field value => value.1 = field.1.name ∧
        (Typed strict field.2 value.2 ∨ strict = false ∧ field.1.default = true ∧ value.2 = .null))
        fields values := by
  induction fields generalizing values with
  | nil => rw [TypedFields, List.forall₂_nil_left_iff]
  | cons field rest ih =>
      rw [TypedFields, List.forall₂_cons_left_iff]
      constructor
      · rintro ⟨value, others, rfl, hvalue, hothers⟩
        exact ⟨(field.1.name, value), others, ⟨rfl, hvalue⟩, ih.mp hothers, rfl⟩
      · rintro ⟨⟨name, value⟩, others, ⟨rfl, hvalue⟩, hothers, rfl⟩
        exact ⟨value, others, rfl, hvalue, ih.mpr hothers⟩

theorem named_of_typedFields {strict : Bool} {fields : Fields} {values : List (String × Value)}
    (h : TypedFields strict fields values) : Named fields values :=
  (typedFields_iff.mp h).imp fun _ _ hfield => hfield.1

theorem keys_serializeFields {fields : Fields} {values : List (String × Value)}
    (h : Named fields values) :
    Dictionary.keys (serializeFields py encode fields values) = fields.map fun field =>
      field.1.name := by
  induction h with
  | nil => rfl
  | cons hname _ ih => rw [serializeFields, Dictionary.keys_cons, ih, List.map_cons, hname]

theorem keys_deserializeEntries {entries : List (String × String)} {values : List (String × Value)}
    (h : deserializeEntries decode entries = some values) :
    Dictionary.keys values = Dictionary.keys entries := by
  rw [deserializeEntries, Pages.mapM_eq_some_iff] at h
  induction h with
  | nil => rfl
  | cons hentry _ ih =>
      obtain ⟨value, -, rfl⟩ := Option.map_eq_some_iff.mp hentry
      rw [Dictionary.keys_cons, Dictionary.keys_cons, ih]

/-- Under each key stands what its text is read as. -/
theorem lookup_deserializeEntries {entries : List (String × String)}
    {values : List (String × Value)} (hkeys : (Dictionary.keys entries).Nodup)
    (h : deserializeEntries decode entries = some values) :
    ∀ entry ∈ entries, ∃ value, decode entry.1 entry.2 = some value ∧
    values.lookup entry.1 = some value := by
  have hnodup : (Dictionary.keys values).Nodup := by
    rw [keys_deserializeEntries h]
    exact hkeys
  intro entry hmem
  rw [deserializeEntries] at h
  have hread : ∃ value, decode entry.1 entry.2 = some value ∧ (entry.1, value) ∈ values := by
    rw [Pages.mapM_eq_some_iff] at h
    clear hkeys hnodup
    induction h with
    | nil => cases hmem
    | cons hentry _ ih =>
        obtain ⟨value, hvalue, rfl⟩ := Option.map_eq_some_iff.mp hentry
        rcases List.mem_cons.mp hmem with rfl | hmem
        · exact ⟨value, hvalue, List.mem_cons_self⟩
        · obtain ⟨value, hvalue, hin⟩ := ih hmem
          exact ⟨value, hvalue, List.mem_cons_of_mem _ hin⟩
  obtain ⟨value, hvalue, hin⟩ := hread
  exact ⟨value, hvalue, Dictionary.lookup_of_mem hnodup hin⟩

theorem validateFields_iff_survives {fields : Fields} {values read : List (String × Value)}
    (hnamed : Named fields values) (halias : ∀ field ∈ fields, field.1.alias' = field.1.name)
    (hread : ∀ entry ∈ serializeFields py encode fields values,
      ∃ value, decode entry.1 entry.2 = some value ∧ read.lookup entry.1 = some value) :
    validateFields p fields read = some values ↔
      List.Forall₂ (fun field value => Survives py p encode decode field value.2)
      fields values := by
  rw [validateFields_eq_some_iff]
  induction hnamed with
  | nil => exact iff_of_true .nil .nil
  | @cons field value fields values hname hnamed ih =>
      rw [serializeFields, List.forall_mem_cons] at hread
      rw [List.forall_mem_cons] at halias
      have hrest := ih halias.2 hread.2
      obtain ⟨given, hdecode, hlookup⟩ := hread.1
      rw [hname] at hdecode hlookup
      have hfirst : Validated p read field value.2 ↔ Survives py p encode decode field value.2 := by
        rw [Validated, Survives, halias.1, hlookup, hdecode]
        simp
      rw [List.forall₂_cons, List.forall₂_cons, hrest, hfirst]
      exact ⟨fun h => ⟨h.1.2, h.2⟩, fun h => ⟨⟨hname, h.1⟩, h.2⟩⟩

theorem deserializeEntries_isSome {fields : Fields} {values : List (String × Value)}
    (hnamed : Named fields values)
    (h : List.Forall₂ (fun field value => Survives py p encode decode field value.2)
      fields values) :
    ∃ read, deserializeEntries decode (serializeFields py encode fields values) = some read := by
  induction hnamed with
  | nil => exact ⟨[], rfl⟩
  | @cons field value fields values hname hnamed ih =>
      obtain ⟨⟨given, hdecode, -⟩, hrest⟩ := List.forall₂_cons.mp h
      obtain ⟨read, hread⟩ := ih hrest
      rw [← hname] at hdecode
      refine ⟨(value.1, given) :: read, ?_⟩
      rw [deserializeEntries, serializeFields, List.mapM_cons, hname]
      rw [hname] at hdecode
      rw [hdecode]
      rw [deserializeEntries] at hread
      rw [hread]
      rfl

/-- An instance is read back exactly when each of its fields is. -/
theorem deserialize_serialize_iff {fields : Fields} {values : List (String × Value)}
    (hnamed : Named fields values) (halias : ∀ field ∈ fields, field.1.alias' = field.1.name)
    (hkeys : (fields.map fun field => field.1.name).Nodup) :
    ((deserializeEntries decode (serializeFields py encode fields values)).bind fun read =>
        validate p (.model fields) (.dict read)) = some (.model values) ↔
      List.Forall₂ (fun field value => Survives py p encode decode field value.2)
      fields values := by
  have hnodup : (Dictionary.keys (serializeFields py encode fields values)).Nodup := by
    rw [keys_serializeFields hnamed]
    exact hkeys
  have hiff {read : List (String × Value)}
      (hread : deserializeEntries decode (serializeFields py encode fields values) = some read) :=
    validateFields_iff_survives (p := p) hnamed halias (lookup_deserializeEntries hnodup hread)
  constructor
  · intro h
    obtain ⟨read, hread, h⟩ := Option.bind_eq_some_iff.mp h
    obtain ⟨others, hothers, heq⟩ := Option.map_eq_some_iff.mp h
    cases heq
    exact (hiff hread).mp hothers
  · intro h
    obtain ⟨read, hread⟩ := deserializeEntries_isSome hnamed h
    rw [hread, Option.bind_some, validate, (hiff hread).mpr h]
    rfl

end Models

section Zip

theorem keys_of_named {fields : Fields} {values : List (String × Value)} (h : Named fields values) :
    Dictionary.keys values = fields.map fun field => field.1.name := by
  induction h with
  | nil => rfl
  | cons hname _ ih => rw [Dictionary.keys_cons, ih, List.map_cons, hname]

theorem exists_zip {fields : Fields} {values : List (String × Value)} (h : Named fields values)
    {field : Key × Ty} (hmem : field ∈ fields) : ∃ value, (field, value) ∈ fields.zip values := by
  induction h with
  | nil => cases hmem
  | @cons first value fields values _ _ ih =>
      rw [List.zip_cons_cons]
      rcases List.mem_cons.mp hmem with rfl | hmem
      · exact ⟨value, List.mem_cons_self⟩
      · obtain ⟨value, hvalue⟩ := ih hmem
        exact ⟨value, List.mem_cons_of_mem _ hvalue⟩

/-- What stands beside a field is found under its name. -/
theorem lookup_zip {fields : Fields} {values : List (String × Value)} (h : Named fields values)
    (hkeys : (fields.map fun field => field.1.name).Nodup) {field : Key × Ty}
    {value : String × Value} (hzip : (field, value) ∈ fields.zip values) :
    values.lookup field.1.name = some value.2 := by
  have hnodup : (Dictionary.keys values).Nodup := by
    rw [keys_of_named h]
    exact hkeys
  rw [Named, List.forall₂_iff_zip] at h
  rw [← h.2 hzip]
  exact Dictionary.lookup_of_mem hnodup (List.of_mem_zip hzip).2

end Zip

section Nulls

/-- The field may be null, and does not keep it. -/
def lossy (decoding : String → Decoding) (field : Key × Ty) : Bool :=
  (field.1.default || field.2.takesNull) && !keepsNull (decoding field.1.name) field.2

def lossyNames (decoding : String → Decoding) (fields : Fields) : List String :=
  (fields.filter (lossy decoding)).map fun field => field.1.name

theorem typed_null {strict : Bool} {t : Ty} (h : Typed strict t .null) : t.takesNull = true := by
  cases t with
  | scalar s => cases s <;> cases h
  | optional t => rfl
  | any => rfl
  | list t =>
      obtain ⟨items, hitems, -⟩ := h
      cases hitems
  | dict keys t =>
      obtain ⟨entries, hentries, -⟩ := h
      cases hentries
  | keeping key t =>
      obtain ⟨items, hitems, -⟩ := h
      cases hitems
  | model fields =>
      obtain ⟨values, hvalues, -⟩ := h
      cases hvalues

/-- No null is lost exactly when none stands under the names of the lossy fields. -/
theorem keepsNull_iff {decoding : String → Decoding} {fields : Fields}
    {values : List (String × Value)} (htyped : TypedFields false fields values)
    (hkeys : (fields.map fun field => field.1.name).Nodup) :
    List.Forall₂ (fun field value => value.2 = .null →
      keepsNull (decoding field.1.name) field.2 = true)
        fields values ↔
      ∀ name ∈ lossyNames decoding fields, values.lookup name ≠ some .null := by
  have hnamed := named_of_typedFields htyped
  rw [typedFields_iff, List.forall₂_iff_zip] at htyped
  rw [List.forall₂_iff_zip]
  constructor
  · rintro ⟨-, hkeeps⟩ name hname hlookup
    obtain ⟨field, hfield, rfl⟩ := List.mem_map.mp hname
    obtain ⟨hmem, hlossy⟩ := List.mem_filter.mp hfield
    obtain ⟨value, hzip⟩ := exists_zip hnamed hmem
    rw [lookup_zip hnamed hkeys hzip, Option.some.injEq] at hlookup
    have hkept := hkeeps hzip hlookup
    simp [lossy, hkept] at hlossy
  · intro h
    refine ⟨htyped.1, ?_⟩
    intro field value hzip hnull
    obtain ⟨hname, hvalue⟩ := htyped.2 hzip
    have hmay : (field.1.default || field.2.takesNull) = true := by
      rcases hvalue with hvalue | ⟨-, hdefault, -⟩
      · rw [hnull] at hvalue
        simp [typed_null hvalue]
      · simp [hdefault]
    by_contra hlost
    have hlossy : field.1.name ∈ lossyNames decoding fields := by
      apply List.mem_map.mpr
      refine ⟨field, List.mem_filter.mpr ⟨(List.of_mem_zip hzip).1, ?_⟩, rfl⟩
      rw [lossy, hmay, eq_false_of_ne_true hlost]
      rfl
    apply h field.1.name hlossy
    rw [lookup_zip hnamed hkeys hzip, hnull]

end Nulls

section Tables

/-- The values of which `serialize` takes the texts. -/
def encodedFields (encode : String → Ty → Value → Value) (fields : Fields)
    (values : List (String × Value)) :
    List Value :=
  (fields.zip values).map fun entry => encode entry.1.1.name entry.1.2 entry.2.2

theorem forall₂_congr {α β : Type} {R S : α → β → Prop} {l : List α} {l' : List β}
    (h : ∀ a b, (a, b) ∈ l.zip l' → (R a b ↔ S a b)) :
    List.Forall₂ R l l' ↔ List.Forall₂ S l l' := by
  rw [List.forall₂_iff_zip, List.forall₂_iff_zip]
  constructor
  · rintro ⟨hlength, hall⟩
    exact ⟨hlength, fun hmem => (h _ _ hmem).mp (hall hmem)⟩
  · rintro ⟨hlength, hall⟩
    exact ⟨hlength, fun hmem => (h _ _ hmem).mpr (hall hmem)⟩

/-- A field that is not null is typed strictly, where no model in its type has a default. -/
theorem strict_of_zip {fields : Fields} {values : List (String × Value)}
    (htyped : TypedFields false fields values) {field : Key × Ty} {value : String × Value}
    (hzip : (field, value) ∈ fields.zip values) (hsettled : field.2.settled = true)
    (hnull : value.2 ≠ .null) : Typed true field.2 value.2 := by
  rw [typedFields_iff, List.forall₂_iff_zip] at htyped
  rcases (htyped.2 hzip).2 with hvalue | ⟨-, -, hvalue⟩
  · exact typed_strict field.2 hsettled value.2 hvalue
  · exact absurd hvalue hnull

/-- The fields are typed strictly, where those that are not null are and null is one of the type. -/
theorem typedFields_strict_of_zip {fields : Fields} {values : List (String × Value)}
    (htyped : TypedFields false fields values)
    (hstrict : ∀ field value, (field, value) ∈ fields.zip values → value.2 ≠ .null →
      Typed true field.2 value.2)
    (hnulls : ∀ field value, (field, value) ∈ fields.zip values → value.2 = .null →
      field.2.takesNull = true) :
    TypedFields true fields values := by
  rw [typedFields_iff, List.forall₂_iff_zip] at htyped ⊢
  refine ⟨htyped.1, ?_⟩
  intro field value hzip
  refine ⟨(htyped.2 hzip).1, .inl ?_⟩
  by_cases hnull : value.2 = .null
  · have htakes := hnulls field value hzip hnull
    rw [hnull]
    cases hfield : field.2 with
    | optional t => exact .inl rfl
    | any => trivial
    | _ =>
        rw [hfield] at htakes
        cases htakes
  · exact hstrict field value hzip hnull

theorem takesNull_of_keepsNull {decoding : Decoding} {t : Ty} (h : keepsNull decoding t = true) :
    t.takesNull = true := by
  simp only [keepsNull, Bool.and_eq_true] at h
  exact h.2

end Tables

section Beatmaps

variable (hp : p.Documented)

/-- What is read off the table of fields. -/
theorem beatmap_table :
    (∀ field ∈ beatmapFields,
      field.2.suits (Beatmap.encoding field.1.name) (Beatmap.decoding field.1.name) = true ∧
        field.2.distinct = true ∧ field.2.settled = true ∧ field.1.alias' = field.1.name) ∧
      (beatmapFields.map fun field => field.1.name).Nodup ∧
      lossyNames Beatmap.decoding beatmapFields = ["owners", "top_tag_ids"] ∧
      "owners" ∈ beatmapFields.map (fun field => field.1.name) ∧
      "top_tag_ids" ∈ beatmapFields.map fun field => field.1.name := by
  decide +kernel

theorem beatmap_suits : ∀ field ∈ beatmapFields,
    field.2.suits (Beatmap.encoding field.1.name) (Beatmap.decoding field.1.name) = true ∧
      field.2.distinct = true ∧ field.2.settled = true ∧ field.1.alias' = field.1.name :=
  beatmap_table.1

theorem beatmap_names : (beatmapFields.map fun field => field.1.name).Nodup :=
  beatmap_table.2.1

theorem beatmap_lossy : lossyNames Beatmap.decoding beatmapFields = ["owners", "top_tag_ids"] :=
  beatmap_table.2.2.1

include hp in
/-- A beatmap is read back exactly when its owners and its tags are set. -/
theorem beatmap_survives_iff {values : List (String × Value)}
    (htyped : TypedFields false beatmapFields values)
    (hspells : ∀ value ∈ encodedFields (Beatmap.encode p) beatmapFields values, py.Spells value) :
    Beatmap.deserialize py p (Beatmap.serialize py p values) = some (.model values) ↔
      ∀ name ∈ ["owners", "top_tag_ids"], values.lookup name ≠ some .null := by
  have hnamed := named_of_typedFields htyped
  have hiff : Beatmap.deserialize py p (Beatmap.serialize py p values) = some (.model values) ↔
      List.Forall₂
      (fun field value => Survives py p (Beatmap.encode p) (Beatmap.decode py) field value.2)
        beatmapFields values :=
    deserialize_serialize_iff hnamed
      (fun field hfield => (beatmap_suits field hfield).2.2.2) beatmap_names
  rw [← beatmap_lossy, ← keepsNull_iff htyped beatmap_names, hiff]
  apply forall₂_congr
  intro field value hzip
  obtain ⟨hsuits, hdistinct, hsettled, -⟩ := beatmap_suits field (List.of_mem_zip hzip).1
  apply roundTrips_iff hp hsuits hdistinct
  · exact strict_of_zip htyped hzip hsettled
  · exact hspells _ (List.mem_map.mpr ⟨(field, value), hzip, rfl⟩)

/-- Then it is typed strictly. -/
theorem beatmap_strict {values : List (String × Value)}
    (htyped : TypedFields false beatmapFields values)
    (hnames : ∀ name ∈ ["owners", "top_tag_ids"], values.lookup name ≠ some .null) :
    Typed true beatmap (.model values) := by
  refine ⟨values, rfl, ?_⟩
  rw [← beatmap_lossy, ← keepsNull_iff htyped beatmap_names, List.forall₂_iff_zip] at hnames
  apply typedFields_strict_of_zip htyped
  · intro field value hzip
    exact strict_of_zip htyped hzip (beatmap_suits field (List.of_mem_zip hzip).1).2.2.1
  · intro field value hzip hnull
    exact takesNull_of_keepsNull (hnames.2 hzip hnull)

end Beatmaps

section Beatmapsets

/-- `getattr` of a model. -/
def Value.field (name : String) : Value → Value
  | .model values => (values.lookup name).getD .null
  | _ => .null

def Value.isNull : Value → Bool
  | .null => true
  | _ => false

def Value.isFloat : Value → Bool
  | .float _ => true
  | _ => false

def Value.items : Value → List Value
  | .list items => items
  | _ => []

/-- Nothing of the beatmapset gets lost: its old thread is set, and each beatmap's owners and
tags. -/
def Kept (b : Value) : Prop :=
  b.field "legacy_thread_url" ≠ .null ∧
    ∀ beatmap ∈ (b.field "beatmaps").items, beatmap.field "owners" ≠ .null ∧
    beatmap.field "top_tag_ids" ≠ .null

/-- The values of which the two `serialize` take the texts. -/
def spelled (py : Python) (p : Pydantic) : Value → List Value
  | .model values =>
      encodedFields (Beatmapset.encode py p) Beatmapset.fields values ++
        ((Value.model values).field "beatmaps").items.flatMap fun item =>
          match item with
          | .model values => encodedFields (Beatmap.encode p) beatmapFields values
          | _ => []
  | _ => []

theorem ofTexts_texts (entries : List (String × String)) :
    ofTexts (texts entries) = some entries := by
  rw [texts, ofTexts]
  exact mapM_map_self fun entry _ => rfl

/-- What a beatmap is read as is an instance. -/
theorem beatmap_of_deserialize {entries : List (String × String)} {result : Value}
    (h : Beatmap.deserialize py p entries = some result) :
    validate p beatmap result = some result := by
  obtain ⟨values, -, hvalid⟩ := Option.bind_eq_some_iff.mp h
  obtain ⟨fields, -, rfl⟩ := Option.map_eq_some_iff.mp hvalid
  rfl

/-- The beatmaps are read back exactly when each of them is. -/
theorem beatmaps_survive_iff {items : List Value}
    (hitems : ∀ item ∈ items, Typed false beatmap item)
    (hspells : py.Spells (Beatmapset.encode py p "beatmaps" (.list beatmap) (.list items))) :
    Survives py p (Beatmapset.encode py p) (Beatmapset.decode py p)
    (required "beatmaps" (.list beatmap))
        (.list items) ↔
      ∀ values, .model values ∈ items →
        Beatmap.deserialize py p (Beatmap.serialize py p values) = some (.model values) := by
  let written : Value → Value := fun item =>
    match item with
    | .model values => texts (Beatmap.serialize py p values)
    | value => value
  let read : Value → Option Value := fun item => (ofTexts item).bind (Beatmap.deserialize py p)
  have hencode : Beatmapset.encode py p "beatmaps" (.list beatmap) (.list items) =
      .list (items.map written) := rfl
  rw [hencode] at hspells
  have hread (values : List (String × Value)) :
      read (written (.model values)) =
        Beatmap.deserialize py p (Beatmap.serialize py p values) := by
    simp only [read, written, ofTexts_texts, Option.bind_some]
  have hdecode : Beatmapset.decode py p "beatmaps" (py.text (.list (items.map written))) =
      ((items.map written).mapM read).map .list := by
    have heval : py.literalEval (py.text (.list (items.map written))) =
        some (.list (items.map written)) := hspells.2
    change Beatmapset.deserializeBeatmaps py p (py.text (.list (items.map written))) = _
    rw [Beatmapset.deserializeBeatmaps, heval]
  have hmodel : ∀ item ∈ items, ∃ values, item = .model values := by
    intro item hmem
    obtain ⟨values, rfl, -⟩ := hitems item hmem
    exact ⟨values, rfl⟩
  have hall : (∀ values, .model values ∈ items →
        Beatmap.deserialize py p (Beatmap.serialize py p values) = some (.model values)) ↔
      (items.map written).mapM read = some items := by
    rw [Pages.mapM_eq_some_iff, List.forall₂_map_left_iff, List.forall₂_same]
    constructor
    · intro h item hmem
      obtain ⟨values, rfl⟩ := hmodel item hmem
      rw [hread]
      exact h values hmem
    · intro h values hmem
      rw [← hread]
      exact h _ hmem
  rw [hall]
  constructor
  · rintro ⟨given, hgiven, hvalid⟩
    change Beatmapset.decode py p "beatmaps" (py.text (.list (items.map written))) =
      some given at hgiven
    rw [hdecode] at hgiven
    obtain ⟨results, hresults, rfl⟩ := Option.map_eq_some_iff.mp hgiven
    have hself : results.mapM (validate p beatmap) = some results := by
      apply mapM_self
      intro result hmem
      obtain ⟨item, -, hitem⟩ := Pages.exists_of_mem_mapM hresults hmem
      obtain ⟨entries, -, hentries⟩ := Option.bind_eq_some_iff.mp hitem
      exact beatmap_of_deserialize hentries
    change (results.mapM (validate p beatmap)).map Value.list = some (.list items) at hvalid
    rw [hself, Option.map_some, Option.some.injEq, Value.list.injEq] at hvalid
    rw [hresults, hvalid]
  · intro h
    refine ⟨.list items, ?_, ?_⟩
    · change Beatmapset.decode py p "beatmaps" (py.text (.list (items.map written))) = _
      rw [hdecode, h]
      rfl
    · have hself : items.mapM (validate p beatmap) = some items := by
        apply mapM_self
        intro item hmem
        obtain ⟨values, rfl⟩ := hmodel item hmem
        rfl
      change (items.mapM (validate p beatmap)).map Value.list = some (.list items)
      rw [hself]
      rfl

/-- What is read off the table of fields. -/
theorem beatmapset_table :
    (∀ field ∈ Beatmapset.fields, field.1.name ≠ "beatmaps" →
      field.2.suits (Beatmapset.encoding field.1.name) (Beatmapset.decoding field.1.name) = true ∧
        field.2.distinct = true ∧ field.2.settled = true ∧
        Beatmapset.encoding field.1.name ≠ .beatmaps ∧
          Beatmapset.decoding field.1.name ≠ .beatmaps) ∧
      (∀ field ∈ Beatmapset.fields, field.1.alias' = field.1.name) ∧
      (Beatmapset.fields.map fun field => field.1.name).Nodup ∧
      lossyNames Beatmapset.decoding Beatmapset.fields = ["legacy_thread_url"] ∧
      "legacy_thread_url" ∈ Beatmapset.fields.map (fun field => field.1.name) ∧
      beatmapset.distinct = true := by
  decide +kernel

theorem beatmapset_suits : ∀ field ∈ Beatmapset.fields, field.1.name ≠ "beatmaps" →
    field.2.suits (Beatmapset.encoding field.1.name) (Beatmapset.decoding field.1.name) = true ∧
      field.2.distinct = true ∧ field.2.settled = true ∧
      Beatmapset.encoding field.1.name ≠ .beatmaps ∧
        Beatmapset.decoding field.1.name ≠ .beatmaps :=
  beatmapset_table.1

theorem beatmapset_alias : ∀ field ∈ Beatmapset.fields, field.1.alias' = field.1.name :=
  beatmapset_table.2.1

theorem beatmapset_names : (Beatmapset.fields.map fun field => field.1.name).Nodup :=
  beatmapset_table.2.2.1

theorem beatmapset_lossy :
    lossyNames Beatmapset.decoding Beatmapset.fields = ["legacy_thread_url"] :=
  beatmapset_table.2.2.2.1

theorem eq_beatmaps {field : Key × Ty} (hmem : field ∈ Beatmapset.fields)
    (hname : field.1.name = "beatmaps") :
    field = required "beatmaps" (.list beatmap) := by
  have hbeatmaps : required "beatmaps" (.list beatmap) ∈ Beatmapset.fields := by
    simp [Beatmapset.fields, beatmapsetFields]
  exact List.inj_on_of_nodup_map beatmapset_names hmem hbeatmaps hname

theorem field_ne_null_iff {values : List (String × Value)} {name : String}
    (hmem : name ∈ Dictionary.keys values) :
    (Value.model values).field name ≠ .null ↔ values.lookup name ≠ some .null := by
  cases hlookup : values.lookup name with
  | none =>
      obtain ⟨value, hvalue⟩ := Dictionary.mem_keys.mp hmem
      rw [List.lookup_eq_none_iff] at hlookup
      simpa using hlookup _ hvalue
  | some value => simp [Value.field, hlookup]

/-- The beatmaps of a beatmapset. -/
theorem exists_beatmaps {values : List (String × Value)}
    (htyped : TypedFields false Beatmapset.fields values) :
    ∃ items, (Value.model values).field "beatmaps" = .list items ∧ ∀ item ∈ items,
    Typed false beatmap item := by
  have hnamed := named_of_typedFields htyped
  have hbeatmaps : required "beatmaps" (.list beatmap) ∈ Beatmapset.fields := by
    simp [Beatmapset.fields, beatmapsetFields]
  obtain ⟨value, hzip⟩ := exists_zip hnamed hbeatmaps
  have hlookup := lookup_zip hnamed beatmapset_names hzip
  rw [typedFields_iff, List.forall₂_iff_zip] at htyped
  rcases (htyped.2 hzip).2 with ⟨items, hitems, hall⟩ | ⟨-, hdefault, -⟩
  · refine ⟨items, ?_, hall⟩
    rw [Value.field, show values.lookup "beatmaps" = some value.2 from hlookup, hitems]
    rfl
  · cases hdefault

/-- What is kept, in terms of the fields. -/
theorem kept_iff {values : List (String × Value)}
    (htyped : TypedFields false Beatmapset.fields values) :
    Kept (.model values) ↔
      (∀ name ∈ ["legacy_thread_url"], values.lookup name ≠ some .null) ∧
        ∀ inner, .model inner ∈ ((Value.model values).field "beatmaps").items →
          ∀ name ∈ ["owners", "top_tag_ids"], inner.lookup name ≠ some .null := by
  have hkeys := keys_of_named (named_of_typedFields htyped)
  have hthread : "legacy_thread_url" ∈ Dictionary.keys values := by
    rw [hkeys]
    exact beatmapset_table.2.2.2.2.1
  obtain ⟨items, hitems, htypes⟩ := exists_beatmaps htyped
  have hinner (inner : List (String × Value)) (hmem : .model inner ∈ items) :
      ((Value.model inner).field "owners" ≠ .null ∧
        (Value.model inner).field "top_tag_ids" ≠ .null) ↔
        ∀ name ∈ ["owners", "top_tag_ids"], inner.lookup name ≠ some .null := by
    obtain ⟨_, heq, hfields⟩ := htypes _ hmem
    cases heq
    have hnames := keys_of_named (named_of_typedFields hfields)
    have howners : "owners" ∈ Dictionary.keys inner := by
      rw [hnames]
      exact beatmap_table.2.2.2.1
    have htags : "top_tag_ids" ∈ Dictionary.keys inner := by
      rw [hnames]
      exact beatmap_table.2.2.2.2
    rw [field_ne_null_iff howners, field_ne_null_iff htags]
    simp
  rw [Kept, field_ne_null_iff hthread, hitems, Value.items]
  constructor
  · rintro ⟨hset, hall⟩
    refine ⟨by simpa using hset, ?_⟩
    intro inner hmem
    exact (hinner inner hmem).mp (hall _ hmem)
  · rintro ⟨hset, hall⟩
    refine ⟨by simpa using hset, ?_⟩
    intro item hmem
    obtain ⟨inner, rfl, -⟩ := htypes item hmem
    exact (hinner inner hmem).mpr (hall inner hmem)

variable (hp : p.Documented)
include hp

/-- A field of a beatmapset is read back where no null gets lost, in it and in the beatmaps. -/
theorem field_survives_iff {values : List (String × Value)}
    (htyped : TypedFields false Beatmapset.fields values)
    (hspells : ∀ value ∈ spelled py p (.model values), py.Spells value) {field : Key × Ty}
    {value : String × Value} (hzip : (field, value) ∈ Beatmapset.fields.zip values) :
    Survives py p (Beatmapset.encode py p) (Beatmapset.decode py p) field value.2 ↔
      (value.2 = .null → keepsNull (Beatmapset.decoding field.1.name) field.2 = true) ∧
        (field.1.name = "beatmaps" → ∀ inner, .model inner ∈ value.2.items →
          ∀ name ∈ ["owners", "top_tag_ids"], inner.lookup name ≠ some .null) := by
  have hnamed := named_of_typedFields htyped
  have hspelled : py.Spells (Beatmapset.encode py p field.1.name field.2 value.2) := by
    apply hspells
    rw [spelled]
    exact List.mem_append_left _ (List.mem_map.mpr ⟨(field, value), hzip, rfl⟩)
  by_cases hname : field.1.name = "beatmaps"
  · obtain rfl := eq_beatmaps (List.of_mem_zip hzip).1 hname
    obtain ⟨items, hitems, htypes⟩ := exists_beatmaps htyped
    have hlookup := lookup_zip hnamed beatmapset_names hzip
    have hvalue : value.2 = .list items := by
      rw [← hitems, Value.field, show values.lookup "beatmaps" = some value.2 from hlookup]
      rfl
    rw [hvalue] at hspelled
    rw [hvalue, beatmaps_survive_iff htypes hspelled]
    have hinner (inner : List (String × Value)) (hmem : .model inner ∈ items) :
        Beatmap.deserialize py p (Beatmap.serialize py p inner) = some (.model inner) ↔
          ∀ name ∈ ["owners", "top_tag_ids"], inner.lookup name ≠ some .null := by
      obtain ⟨_, heq, hfields⟩ := htypes _ hmem
      cases heq
      apply beatmap_survives_iff hp hfields
      intro written hwritten
      apply hspells
      rw [spelled, hitems]
      exact List.mem_append_right _ (List.mem_flatMap.mpr ⟨.model inner, hmem, hwritten⟩)
    constructor
    · intro h
      refine ⟨by simp, ?_⟩
      intro _ inner hmem
      exact (hinner inner hmem).mp (h inner hmem)
    · rintro ⟨-, h⟩ inner hmem
      exact (hinner inner hmem).mpr (h hname inner hmem)
  · obtain ⟨hsuits, hdistinct, hsettled, hencoding, hdecoding⟩ :=
      beatmapset_suits field (List.of_mem_zip hzip).1 hname
    have hencode : Beatmapset.encode py p field.1.name field.2 value.2 =
        encodeAs p (Beatmapset.encoding field.1.name) field.2 value.2 := by
      unfold Beatmapset.encode encodeAs
      cases hcase : Beatmapset.encoding field.1.name with
      | beatmaps => exact absurd hcase hencoding
      | _ => rfl
    have hdecode (text : String) : Beatmapset.decode py p field.1.name text =
        decodeAs py (Beatmapset.decoding field.1.name) text := by
      unfold Beatmapset.decode decodeAs
      cases hcase : Beatmapset.decoding field.1.name with
      | beatmaps => exact absurd hcase hdecoding
      | _ => rfl
    rw [hencode] at hspelled
    rw [Survives, hencode]
    simp only [hdecode, hname, false_implies, and_true]
    exact roundTrips_iff hp hsuits hdistinct (strict_of_zip htyped hzip hsettled) hspelled

/-- A beatmapset is read back exactly when nothing of it gets lost. -/
theorem beatmapset_survives_iff {b : Value} (htyped : Typed false beatmapset b)
    (hspells : ∀ value ∈ spelled py p b, py.Spells value) :
    Beatmapset.deserialize py p (Beatmapset.serialize py p b) = some b ↔ Kept b := by
  obtain ⟨values, rfl, hvalues⟩ := htyped
  change TypedFields false Beatmapset.fields values at hvalues
  have hnamed := named_of_typedFields hvalues
  have hiff : Beatmapset.deserialize py p (Beatmapset.serialize py p (.model values)) =
      some (.model values) ↔
      List.Forall₂ (fun field value =>
        Survives py p (Beatmapset.encode py p) (Beatmapset.decode py p) field value.2)
        Beatmapset.fields values :=
    deserialize_serialize_iff hnamed beatmapset_alias beatmapset_names
  have hpointwise :=
    hiff.trans (forall₂_congr fun field value hzip => field_survives_iff hp hvalues hspells hzip)
  rw [hpointwise, kept_iff hvalues, ← beatmapset_lossy, ← keepsNull_iff hvalues beatmapset_names]
  rw [List.forall₂_iff_zip, List.forall₂_iff_zip]
  have hbeatmaps : required "beatmaps" (.list beatmap) ∈ Beatmapset.fields := by
    simp [Beatmapset.fields, beatmapsetFields]
  constructor
  · rintro ⟨hlength, hall⟩
    refine ⟨⟨hlength, fun hzip => (hall hzip).1⟩, ?_⟩
    obtain ⟨value, hzip⟩ := exists_zip hnamed hbeatmaps
    have hlookup := lookup_zip hnamed beatmapset_names hzip
    rw [Value.field, show values.lookup "beatmaps" = some value.2 from hlookup]
    exact (hall hzip).2 rfl
  · rintro ⟨⟨hlength, hkeeps⟩, hinner⟩
    refine ⟨hlength, fun {field value} hzip => ⟨hkeeps hzip, ?_⟩⟩
    intro hname
    have hlookup := lookup_zip hnamed beatmapset_names hzip
    rw [hname] at hlookup
    rw [Value.field, hlookup] at hinner
    exact hinner

omit hp in
/-- A beatmapset of which nothing gets lost is typed strictly. -/
theorem beatmapset_strict {b : Value} (htyped : Typed false beatmapset b) (hkept : Kept b) :
    Typed true beatmapset b := by
  obtain ⟨values, rfl, hvalues⟩ := htyped
  change TypedFields false Beatmapset.fields values at hvalues
  rw [kept_iff hvalues, ← beatmapset_lossy, ← keepsNull_iff hvalues beatmapset_names,
    List.forall₂_iff_zip] at hkept
  obtain ⟨⟨-, hkeeps⟩, hinner⟩ := hkept
  refine ⟨values, rfl, typedFields_strict_of_zip hvalues ?_ fun field value hzip hnull =>
    takesNull_of_keepsNull (hkeeps hzip hnull)⟩
  intro field value hzip hnull
  by_cases hname : field.1.name = "beatmaps"
  · obtain rfl := eq_beatmaps (List.of_mem_zip hzip).1 hname
    obtain ⟨items, hitems, htypes⟩ := exists_beatmaps hvalues
    have hlookup := lookup_zip (named_of_typedFields hvalues) beatmapset_names hzip
    have hvalue : value.2 = .list items := by
      rw [← hitems, Value.field, show values.lookup "beatmaps" = some value.2 from hlookup]
      rfl
    rw [hitems] at hinner
    refine ⟨items, hvalue, ?_⟩
    intro item hmem
    obtain ⟨inner, rfl, hfields⟩ := htypes item hmem
    exact beatmap_strict hfields (hinner inner hmem)
  · exact strict_of_zip hvalues hzip
      (beatmapset_suits field (List.of_mem_zip hzip).1 hname).2.2.1 hnull

end Beatmapsets

section Agreement

/-- The beatmaps as `BeatmapsetOsuApiSchema` has them. -/
def optionalBeatmaps (field : Key × Ty) : Key × Ty :=
  if field.1.name = "beatmaps" then defaulted "beatmaps" (.optional (.list beatmap)) else field

/-- What is a `Beatmapset` is the same `BeatmapsetOsuApiSchema`. -/
theorem validate_osuApiSchema {given b : Value} (h : validate p beatmapset given = some b) :
    validate p beatmapsetOsuApiSchema given = some b := by
  have hfields : beatmapsetOsuApiSchema = .model (Beatmapset.fields.map optionalBeatmaps) := rfl
  rw [hfields]
  cases given with
  | dict entries =>
      obtain ⟨values, hvalues, rfl⟩ := Option.map_eq_some_iff.mp h
      change validateFields p Beatmapset.fields entries = some values at hvalues
      have hupgraded :
          validateFields p (Beatmapset.fields.map optionalBeatmaps) entries = some values := by
        rw [validateFields_eq_some_iff, List.forall₂_iff_zip] at hvalues
        rw [validateFields_eq_some_iff, List.forall₂_map_left_iff, List.forall₂_iff_zip]
        refine ⟨hvalues.1, ?_⟩
        intro field value hzip
        obtain ⟨hname, hvalidated⟩ := hvalues.2 hzip
        by_cases hbeatmaps : field.1.name = "beatmaps"
        · obtain rfl := eq_beatmaps (List.of_mem_zip hzip).1 hbeatmaps
          refine ⟨hname, ?_⟩
          change Validated p entries (defaulted "beatmaps" (.optional (.list beatmap))) value.2
          cases hlookup : (entries.lookup "beatmaps").or (entries.lookup "beatmaps") with
          | none => cases ((validated_of_missing hlookup).mp hvalidated).1
          | some given =>
              have hgiven := (validated_of_given hlookup).mp hvalidated
              have hnull : given ≠ .null := by
                rintro rfl
                cases hgiven
              refine (validated_of_given hlookup).mpr ?_
              change validate p (.optional (.list beatmap)) given = some value.2
              rw [validate_optional _ hnull]
              exact hgiven
        · have hsame : optionalBeatmaps field = field := if_neg hbeatmaps
          rw [hsame]
          exact ⟨hname, hvalidated⟩
      rw [validate]
      simp only [hupgraded, Option.map_some]
  | model values => exact h
  | _ => cases h

theorem beatmapset_distinct : beatmapset.distinct = true :=
  beatmapset_table.2.2.2.2.2

/-- A beatmapset is read back from the cache, and a hit is validated to what a miss is. -/
def Agrees (py : Python) (p : Pydantic) (response b : Value) : Prop :=
  Beatmapset.deserialize py p (Beatmapset.serialize py p b) = some b ∧
    validate p beatmapsetOsuApiSchema
    (getBeatmapset py p (some (Beatmapset.serialize py p b)) response) =
      validate p beatmapsetOsuApiSchema response

/-- A response agrees with what is cached for it exactly when its old thread is set, and the owners
and the tags of each of its beatmaps. -/
theorem agrees_iff_kept (hp : p.Documented) (response b : Value) (hplain : response.plain = true)
    (hvalid : validate p beatmapset response = some b)
    (hspells : ∀ value ∈ spelled py p b, py.Spells value) :
    Agrees py p response b ↔ Kept b := by
  have htyped := typed_of_validate hp beatmapset response b hplain hvalid
  have hiff := beatmapset_survives_iff hp htyped hspells
  constructor
  · intro h
    exact hiff.mp h.1
  · intro hkept
    have hread := hiff.mpr hkept
    refine ⟨hread, ?_⟩
    have hdump := validate_dump hp beatmapset beatmapset_distinct b (beatmapset_strict htyped hkept)
    rw [getBeatmapset, Option.bind_some, hread, validate_osuApiSchema hvalid]
    exact validate_osuApiSchema hdump

end Agreement

section Sample

/-- Pydantic on what the sample needs: numerals, whole numbers as floats, and ISO texts. -/
def samplePydantic : Pydantic where
  lax
    | .int, .str text => ((Numeral.int text.toList).filter isReadable).map .int
    | .float, .int n => (Double.ofInt? n).map .float
    | .datetime, .str text => (Zoned.fromisoformat text).map .datetime
    | _, _ => none
  isoformat := Zoned.isoformatZ

theorem samplePydantic_int (s : String) : samplePydantic.lax .int (.str s) =
    ((Numeral.int s.toList).filter isReadable).map Value.int := rfl

theorem samplePydantic_datetime (s : String) : samplePydantic.lax .datetime (.str s) =
    (Zoned.fromisoformat s).map Value.datetime := rfl

theorem samplePydantic_documented : samplePydantic.Documented := by
  constructor
  · intro s value result h
    cases s with
    | int =>
        cases value with
        | str text =>
            obtain ⟨n, hn, rfl⟩ := Option.map_eq_some_iff.mp h
            exact (Option.filter_eq_some_iff.mp hn).2
        | _ => cases h
    | float =>
        cases value with
        | int n =>
            obtain ⟨x, -, rfl⟩ := Option.map_eq_some_iff.mp h
            rfl
        | _ => cases h
    | datetime =>
        cases value with
        | str text =>
            obtain ⟨d, -, rfl⟩ := Option.map_eq_some_iff.mp h
            rfl
        | _ => cases h
    | _ => cases h
  · intro n hn
    have hread : Numeral.int (toString n).toList = some n := by
      rw [Numeral.int_toString, if_neg]
      have hle : (toString n.natAbs).length ≤ Numeral.maxDigits := by simpa [isReadable] using hn
      omega
    rw [samplePydantic_int, hread, Option.filter_some, if_pos hn, Option.map_some]
  · intro d
    have hformat : samplePydantic.isoformat d = d.isoformatZ := rfl
    rw [samplePydantic_datetime, hformat, Zoned.fromisoformat_isoformatZ, Option.map_some]

def text (s : String) : Value := .str s

/-- 1 January 2024 at noon, in UTC. -/
def noon : Value := .datetime ⟨Iso.newYear, some 0, by decide⟩

def sampleAvailability : Value :=
  .model [("download_disabled", .bool false), ("more_information", .null)]

def sampleCovers : Value :=
  .model [("cover", text "c"), ("cover_2x", text "c2"), ("card", text "d"), ("card_2x", text "d2"),
    ("list", text "l"), ("list_2x", text "l2"), ("slimcover", text "s"),
    ("slimcover_2x", text "s2")]

def sampleNominations : Value :=
  .model [("current", .int 0), ("eligible_main_rulesets", .list [text "osu"]),
    ("required_meta", .model [("main_ruleset", .int 2), ("non_main_ruleset", .int 1)])]

def whole (n : UInt8) : Value := .float (Double.ofByte n)

def sampleFailtimes : Value :=
  .model [("exit", .list [.int 0, .int 1]), ("fail", .list [.int 2, .int 0])]

def sampleOwners : Value :=
  .list [.dict [("id", .int 5), ("username", text "mapper")],
    .dict [("id", .int 6), ("username", text "guest")]]

def sampleTags : Value := .list [.dict [("tag_id", .int 36)], .dict [("tag_id", .int 4)]]

/-- The values of a beatmap with two owners and two tags. -/
def sampleBeatmap : List (String × Value) :=
  [("accuracy", whole 8), ("ar", whole 9), ("beatmapset_id", .int 7), ("bpm", whole 180),
    ("checksum", text "0f"), ("count_circles", .int 100), ("count_sliders", .int 50),
    ("count_spinners", .int 1), ("cs", whole 4), ("deleted_at", .null),
    ("difficulty_rating", whole 5), ("drain", whole 6), ("failtimes", sampleFailtimes),
    ("hit_length", .int 80), ("id", .int 11), ("is_scoreable", .bool false),
    ("last_updated", noon), ("max_combo", .int 250), ("mode", text "osu"), ("mode_int", .int 0),
    ("owners", sampleOwners), ("passcount", .int 1), ("playcount", .int 9), ("ranked", .int (-2)),
    ("status", text "graveyard"), ("top_tag_ids", sampleTags), ("total_length", .int 90),
    ("url", text "u"), ("user_id", .int 5), ("version", text "Insane")]

/-- A beatmapset with a thread or without one. -/
def sampleWith (beatmaps : List Value) (thread : Value) : Value :=
  .model [("artist", text "a"), ("artist_unicode", text "a"), ("availability", sampleAvailability),
    ("beatmaps", .list beatmaps), ("bpm", .float (Double.ofByte 180)),
    ("can_be_hyped", .bool true),
    ("covers", sampleCovers), ("creator", text "mapper"), ("current_nominations", .list []),
    ("deleted_at", .null), ("description", .model [("description", text "")]),
    ("discussion_enabled", .bool true), ("discussion_locked", .bool false),
    ("favourite_count", .int 3),
    ("genre", .model [("id", .int 3), ("name", text "Anime")]),
    ("hype", .model [("current", .int 0), ("required", .int 5)]), ("id", .int 7),
    ("is_scoreable", .bool false),
    ("language", .null), ("last_updated", noon), ("legacy_thread_url", thread),
    ("nominations_summary", sampleNominations), ("nsfw", .bool false), ("offset", .int 0),
    ("pack_tags", .list []), ("play_count", .int 9), ("preview_url", text "p"),
    ("ranked", .int (-2)),
    ("ranked_date", .null), ("rating", .float Double.zero), ("ratings", .list [.int 0, .int 1]),
    ("source", text ""), ("spotlight", .bool false), ("status", text "graveyard"),
    ("storyboard", .bool false),
    ("submitted_date", noon), ("tags", text ""), ("title", text "t"), ("title_unicode", text "t"),
    ("track_id", .null), ("user", .null), ("user_id", .int 5), ("video", .bool false)]

/-- No beatmaps. -/
def sampleBeatmapset (thread : Value) : Value := sampleWith [] thread

/-- What osu! answers for it. -/
def sampleResponse (thread : Value) : Value :=
  dump samplePydantic beatmapset (sampleBeatmapset thread)

mutual

/-- `repr` of values whose texts have no escapes, and one kind of quotes at most, and whose floats
are whole. -/
def sampleRepr : Value → String
  | .null => "None"
  | .bool b => if b then "True" else "False"
  | .int n => toString n
  | .float x => toString x.value.num ++ ".0"
  | .str s => if '\'' ∈ s.toList then "\"" ++ s ++ "\"" else "'" ++ s ++ "'"
  | .list items => "[" ++ String.intercalate ", " (sampleReprs items) ++ "]"
  | .dict entries => "\x7b" ++ String.intercalate ", " (sampleReprEntries entries) ++ "\x7d"
  | _ => "?"

def sampleReprs : List Value → List String
  | [] => []
  | item :: rest => sampleRepr item :: sampleReprs rest

def sampleReprEntries : List (String × Value) → List String
  | [] => []
  | (key, value) :: rest => ("'" ++ key ++ "': " ++ sampleRepr value) :: sampleReprEntries rest

end

/-- The structured values of a beatmapset without beatmaps, each once. -/
def sampleValues : List Value :=
  [.bool true, .bool false, .list [], .list [.int 0, .int 1],
    dump samplePydantic availabilitySchema sampleAvailability,
    dump samplePydantic coversSchema sampleCovers, .dict [("description", text "")],
    .dict [("id", .int 3), ("name", text "Anime")],
    .dict [("current", .int 0), ("required", .int 5)],
    dump samplePydantic nominationsSummarySchema sampleNominations]

def sampleFloats : List Double := [.zero, .ofByte 180]

/-- An interpreter that reads the texts of values and floats. -/
def pythonOf (values : List Value) (floats : List Double) : Python where
  repr := sampleRepr
  literalEval s := values.find? fun value => sampleRepr value = s
  float s := floats.find? fun x => sampleRepr (.float x) = s

/-- The first element with a text is read from it. -/
theorem find?_of_nodup {α : Type} {textOf : α → String} {xs : List α}
    (hnodup : (xs.map textOf).Nodup) {x : α} (hmem : x ∈ xs) :
    xs.find? (fun y => textOf y = textOf x) = some x := by
  obtain ⟨y, hy⟩ := Option.isSome_iff_exists.mp
    (List.find?_isSome.mpr ⟨x, hmem, decide_eq_true rfl⟩ :
      (xs.find? fun y => textOf y = textOf x).isSome)
  have hsame : textOf y = textOf x := by simpa using List.find?_some hy
  rw [hy, List.inj_on_of_nodup_map hnodup (List.mem_of_find?_eq_some hy) hmem hsame]

section Spells

variable {values : List Value} {floats : List Double}

theorem pythonOf_spells_value (hnodup : (values.map sampleRepr).Nodup)
    (hne : ∀ v ∈ values, sampleRepr v ≠ "") {v : Value} (hmem : v ∈ values)
    (hfloat : v.isFloat = false) : (pythonOf values floats).Spells v := by
  cases v with
  | null | str _ | int _ => trivial
  | float x => cases hfloat
  | _ => exact ⟨hne _ hmem, find?_of_nodup hnodup hmem⟩

theorem pythonOf_spells_float (hnodup : (floats.map fun x => sampleRepr (.float x)).Nodup)
    (hne : ∀ x ∈ floats, sampleRepr (.float x) ≠ "") {x : Double} (hmem : x ∈ floats) :
    (pythonOf values floats).Spells (.float x) :=
  ⟨hne x hmem, find?_of_nodup hnodup hmem⟩

end Spells

def samplePython : Python := pythonOf sampleValues sampleFloats

/-- What Redis holds of the beatmap, in the list of its beatmapset. -/
def beatmapTexts : Value := texts (Beatmap.serialize (pythonOf [] []) samplePydantic sampleBeatmap)

def beatmapValues : List Value :=
  sampleValues ++ [dump samplePydantic failtimesSchema sampleFailtimes, sampleOwners, sampleTags,
    .list [beatmapTexts]]

def beatmapFloats : List Double :=
  sampleFloats ++ [.ofByte 4, .ofByte 5, .ofByte 6, .ofByte 8, .ofByte 9]

def beatmapPython : Python := pythonOf beatmapValues beatmapFloats

theorem beatmapPython_spells_value {v : Value} (hmem : v ∈ beatmapValues)
    (hfloat : v.isFloat = false) :
    beatmapPython.Spells v :=
  pythonOf_spells_value (by decide +kernel) (by decide +kernel) hmem hfloat

theorem beatmapPython_spells_float {x : Double} (hmem : x ∈ beatmapFloats) :
    beatmapPython.Spells (.float x) :=
  pythonOf_spells_float (by decide +kernel) (by decide +kernel) hmem

theorem sample_spells :
    ∀ value ∈ spelled beatmapPython samplePydantic (sampleWith [.model sampleBeatmap] (text "u")),
    beatmapPython.Spells value := by
  obtain ⟨values, hvalues⟩ :
      ∃ values, sampleWith [.model sampleBeatmap] (text "u") = .model values := ⟨_, rfl⟩
  have hspelled :
      spelled beatmapPython samplePydantic (sampleWith [.model sampleBeatmap] (text "u")) =
      encodedFields (Beatmapset.encode beatmapPython samplePydantic) Beatmapset.fields values ++
        encodedFields (Beatmap.encode samplePydantic) beatmapFields sampleBeatmap := by
    rw [hvalues, spelled, ← hvalues]
    exact congrArg (_ ++ ·) (List.append_nil _)
  rw [hspelled, List.forall_mem_append]
  cases hvalues
  constructor
  all_goals
    simp only [Beatmapset.fields, beatmapsetFields, beatmapFields, sampleBeatmap, encodedFields,
      List.zip_cons_cons, List.zip_nil_left, List.map_cons, List.map_nil]
    repeat' refine List.forall_mem_cons.mpr ⟨?_, ?_⟩
    all_goals first
      | exact True.intro
      | exact beatmapPython_spells_float (by simp [beatmapFloats, sampleFloats])
      | exact List.forall_mem_nil _
      | (refine beatmapPython_spells_value ?_ rfl
         repeat first
           | exact List.Mem.head _
           | apply List.Mem.tail)

theorem agrees_iff_kept_owners :
    Agrees beatmapPython samplePydantic
      (dump samplePydantic beatmapset (sampleWith [.model sampleBeatmap] (text "u")))
      (sampleWith [.model sampleBeatmap] (text "u")) := by
  have hplain :
      (dump samplePydantic beatmapset (sampleWith [.model sampleBeatmap] (text "u"))).plain =
        true := by
    decide +kernel
  apply (agrees_iff_kept samplePydantic_documented _ _ hplain rfl sample_spells).mpr
  constructor
  · intro h
    cases h
  · intro beatmap hmem
    obtain rfl := List.mem_singleton.mp hmem
    constructor
    · intro h
      cases h
    · intro h
      cases h

/-- A beatmapset without a thread comes back with an empty one. -/
theorem no_thread_not_agrees :
    validate samplePydantic beatmapset (sampleResponse .null) = some (sampleBeatmapset .null) ∧
      ¬ Agrees samplePython samplePydantic (sampleResponse .null) (sampleBeatmapset .null) := by
  refine ⟨rfl, ?_⟩
  rintro ⟨hread, -⟩
  have hempty : ((Beatmapset.deserialize samplePython samplePydantic
      (Beatmapset.serialize samplePython samplePydantic (sampleBeatmapset .null))).map fun b =>
        (b.field "legacy_thread_url").isNull) = some false := by decide +kernel
  rw [hread] at hempty
  cases hempty

end Sample

end Graveboards.Cache
