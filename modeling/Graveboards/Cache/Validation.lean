import Graveboards.Cache.Models
import Graveboards.Library.Pages

/-!
What validation comes to: an accepted JSON value gives an instance of the type, an instance
is taken as it is, and what is dumped of an instance is validated to the instance again.
-/

namespace Graveboards.Cache

open Graveboards.Library

namespace Value

mutual

/-- The value is made of JSON data alone. -/
def plain : Value → Bool
  | .datetime _ => false
  | .model _ => false
  | .list items => plainItems items
  | .dict entries => plainEntries entries
  | _ => true

def plainItems : List Value → Bool
  | [] => true
  | item :: rest => plain item && plainItems rest

def plainEntries : List (String × Value) → Bool
  | [] => true
  | (_, value) :: rest => plain value && plainEntries rest

end

theorem plain_of_mem_items {items : List Value} (h : plainItems items = true) {item : Value}
    (hmem : item ∈ items) : item.plain = true := by
  induction items with
  | nil => cases hmem
  | cons head rest ih =>
      simp only [plainItems, Bool.and_eq_true] at h
      rcases List.mem_cons.mp hmem with rfl | hmem
      · exact h.1
      · exact ih h.2 hmem

theorem plain_of_mem_entries {entries : List (String × Value)} (h : plainEntries entries = true)
    {entry : String × Value} (hmem : entry ∈ entries) : entry.2.plain = true := by
  induction entries with
  | nil => cases hmem
  | cons head rest ih =>
      simp only [plainEntries, Bool.and_eq_true] at h
      rcases List.mem_cons.mp hmem with rfl | hmem
      · exact h.1
      · exact ih h.2 hmem

theorem plain_of_mem_elements {value : Value} (h : value.plain = true) {items : List Value}
    (hitems : elements value = some items) {item : Value} (hmem : item ∈ items) :
    item.plain = true := by
  cases value with
  | list given =>
      obtain rfl := Option.some.inj hitems
      exact plain_of_mem_items h hmem
  | dict entries =>
      obtain ⟨-, hnone⟩ := Option.ite_none_right_eq_some.mp hitems
      obtain rfl := Option.some.inj hnone
      cases hmem
  | str s =>
      obtain ⟨-, hnone⟩ := Option.ite_none_right_eq_some.mp hitems
      obtain rfl := Option.some.inj hnone
      cases hmem
  | _ => cases hitems

end Value

mutual

/-- The value is an instance of the type. Where this is strict, no field is left at a default
that its type does not allow. -/
def Typed (strict : Bool) : Ty → Value → Prop
  | .scalar s, value => s.holds value = true
  | .optional t, value => value = .null ∨ Typed strict t value
  | .list t, value => ∃ items, value = .list items ∧ ∀ item ∈ items, Typed strict t item
  | .dict keys t, value =>
      ∃ entries, value = .dict entries ∧ ∀ entry ∈ entries,
        keys.all (fun keys => keys.contains entry.1) = true ∧ Typed strict t entry.2
  | .any, _ => True
  | .keeping key t, value =>
      ∃ items, value = .list items ∧ ∀ item ∈ items, ∃ inner, item = .dict [(key, inner)] ∧
        Typed strict t inner
  | .model fields, value => ∃ values, value = .model values ∧ TypedFields strict fields values

def TypedFields (strict : Bool) : Fields → List (String × Value) → Prop
  | [], values => values = []
  | (key, t) :: rest, values =>
      ∃ value others, values = (key.name, value) :: others ∧
        (Typed strict t value ∨ strict = false ∧ key.default = true ∧ value = .null) ∧
        TypedFields strict rest others

end

mutual

/-- The fields of every model are written under distinct names. -/
def Ty.distinct : Ty → Bool
  | .optional t => t.distinct
  | .list t => t.distinct
  | .dict _ t => t.distinct
  | .keeping _ t => t.distinct
  | .model fields =>
      decide ((fields.map fun field => field.1.alias').Nodup) && distinctFields fields
  | _ => true

def distinctFields : Fields → Bool
  | [] => true
  | (_, t) :: rest => t.distinct && distinctFields rest

end

/-- Null is an instance of the type. -/
def Ty.takesNull : Ty → Bool
  | .optional _ => true
  | .any => true
  | _ => false

mutual

/-- No model in the type has a default. -/
def Ty.settled : Ty → Bool
  | .optional t => t.settled
  | .list t => t.settled
  | .dict _ t => t.settled
  | .keeping _ t => t.settled
  | .model fields => settledFields fields
  | _ => true

def settledFields : Fields → Bool
  | [] => true
  | (key, t) :: rest => !key.default && t.settled && settledFields rest

end

variable {p : Pydantic}

theorem validate_optional (t : Ty) {value : Value} (h : value ≠ .null) :
    validate p (.optional t) value = validate p t value := by
  cases value with
  | null => exact absurd rfl h
  | _ => rfl

theorem dump_optional (t : Ty) {value : Value} (h : value ≠ .null) :
    dump p (.optional t) value = dump p t value := by
  cases value with
  | null => exact absurd rfl h
  | _ => rfl

theorem dump_ne_null : (t : Ty) → ∀ {value : Value}, value ≠ .null → dump p t value ≠ .null
  | .optional t, value, h => by
      rw [dump_optional t h]
      exact dump_ne_null t h
  | .scalar _, value, h => by cases value <;> simp_all [dump]
  | .list _, value, h => by cases value <;> simp_all [dump]
  | .dict _ _, value, h => by cases value <;> simp_all [dump]
  | .any, _, h => h
  | .keeping _ _, value, h => by cases value <;> simp_all [dump]
  | .model _, value, h => by cases value <;> simp_all [dump]

/-- What a field is validated to, out of the entries that were passed. -/
def Validated (p : Pydantic) (entries : List (String × Value)) (field : Key × Ty) (value : Value) :
    Prop :=
  match (entries.lookup field.1.alias').or (entries.lookup field.1.name) with
  | some given => validate p field.2 given = some value
  | none => field.1.default = true ∧ value = .null

theorem validated_of_given {entries : List (String × Value)} {field : Key × Ty}
    {value given : Value}
    (h : (entries.lookup field.1.alias').or (entries.lookup field.1.name) = some given) :
    Validated p entries field value ↔ validate p field.2 given = some value := by
  rw [Validated, h]

theorem validated_of_missing {entries : List (String × Value)} {field : Key × Ty} {value : Value}
    (h : (entries.lookup field.1.alias').or (entries.lookup field.1.name) = none) :
    Validated p entries field value ↔ field.1.default = true ∧ value = .null := by
  rw [Validated, h]

theorem validateFields_eq_some_iff {fields : Fields} {entries values : List (String × Value)} :
    validateFields p fields entries = some values ↔
      List.Forall₂ (fun field value => value.1 = field.1.name ∧ Validated p entries field value.2)
      fields values := by
  induction fields generalizing values with
  | nil =>
      rw [validateFields, List.forall₂_nil_left_iff, Option.some.injEq, eq_comm]
  | cons field rest ih =>
      obtain ⟨key, t⟩ := field
      rw [validateFields, List.forall₂_cons_left_iff]
      simp only [Option.bind_eq_some_iff, Option.map_eq_some_iff]
      have hvalidated (value : Value) : Validated p entries (key, t) value ↔
          (match (entries.lookup key.alias').or (entries.lookup key.name) with
            | some value => validate p t value
            | none => if key.default then some .null else none) = some value := by
        rw [Validated]
        dsimp only
        cases (entries.lookup key.alias').or (entries.lookup key.name) with
        | some given => exact Iff.rfl
        | none => rw [Option.ite_none_right_eq_some, Option.some.injEq, eq_comm (a := value)]
      constructor
      · rintro ⟨value, hvalue, others, hothers, rfl⟩
        exact ⟨(key.name, value), others, ⟨rfl, (hvalidated value).mpr hvalue⟩, ih.mp hothers, rfl⟩
      · rintro ⟨⟨name, value⟩, others, ⟨rfl, hvalue⟩, hothers, rfl⟩
        exact ⟨value, (hvalidated value).mp hvalue, others, ih.mpr hothers, rfl⟩

section Accepted

mutual

theorem typed_of_validate (hp : p.Documented) : (t : Ty) → ∀ value instance', value.plain = true →
    validate p t value = some instance' → Typed false t instance'
  | .scalar s, value, result, _, h => by
      rw [validate] at h
      split at h
      · next hholds =>
          cases h
          exact hholds
      · exact hp.typed s value result h
  | .optional t, value, result, hplain, h => by
      by_cases hnull : value = .null
      · rw [hnull] at h
        cases h
        exact .inl rfl
      · rw [validate_optional t hnull] at h
        exact .inr (typed_of_validate hp t value result hplain h)
  | .list t, value, result, hplain, h => by
      cases value with
      | list items =>
          obtain ⟨results, hresults, rfl⟩ := Option.map_eq_some_iff.mp h
          refine ⟨results, rfl, ?_⟩
          intro result hresult
          obtain ⟨item, hitem, hvalid⟩ :=
            Pages.exists_of_mem_mapM hresults hresult
          exact typed_of_validate hp t item result (Value.plain_of_mem_items hplain hitem) hvalid
      | _ => cases h
  | .dict keys t, value, result, hplain, h => by
      cases value with
      | dict entries =>
          obtain ⟨results, hresults, rfl⟩ := Option.map_eq_some_iff.mp h
          refine ⟨results, rfl, ?_⟩
          intro result hresult
          obtain ⟨entry, hentry, hvalid⟩ :=
            Pages.exists_of_mem_mapM hresults hresult
          obtain ⟨hkeys, hvalue⟩ := Option.ite_none_right_eq_some.mp hvalid
          obtain ⟨inner, hinner, rfl⟩ := Option.map_eq_some_iff.mp hvalue
          exact ⟨hkeys,
            typed_of_validate hp t entry.2 inner (Value.plain_of_mem_entries hplain hentry) hinner⟩
      | _ => cases h
  | .any, _, _, _, _ => trivial
  | .keeping key t, value, result, hplain, h => by
      obtain ⟨items, hitems, hvalid⟩ := Option.bind_eq_some_iff.mp h
      obtain ⟨results, hresults, rfl⟩ := Option.map_eq_some_iff.mp hvalid
      refine ⟨results, rfl, ?_⟩
      intro result hresult
      obtain ⟨item, hitem, hvalid⟩ :=
        Pages.exists_of_mem_mapM hresults hresult
      obtain ⟨given, hgiven, hvalid⟩ := Option.bind_eq_some_iff.mp hvalid
      obtain ⟨inner, hinner, rfl⟩ := Option.map_eq_some_iff.mp hvalid
      have hitemPlain := Value.plain_of_mem_elements hplain hitems hitem
      have hgivenPlain : given.plain = true := by
        cases item with
        | dict entries =>
            exact Value.plain_of_mem_entries hitemPlain (Dictionary.mem_of_lookup hgiven)
        | _ => cases hgiven
      exact ⟨inner, rfl, typed_of_validate hp t given inner hgivenPlain hinner⟩
  | .model fields, value, result, hplain, h => by
      cases value with
      | dict entries =>
          obtain ⟨values, hvalues, rfl⟩ := Option.map_eq_some_iff.mp h
          exact ⟨values, rfl, typedFields_of_validate hp fields entries values hplain hvalues⟩
      | model values => cases hplain
      | _ => cases h

theorem typedFields_of_validate (hp : p.Documented) : (fields : Fields) → ∀ entries values,
    Value.plainEntries entries = true → validateFields p fields entries = some values →
      TypedFields false fields values
  | [], _, _, _, h => by
      cases h
      rfl
  | (key, t) :: rest, entries, values, hplain, h => by
      rw [validateFields_eq_some_iff, List.forall₂_cons_left_iff] at h
      obtain ⟨⟨name, value⟩, others, ⟨rfl, hvalue⟩, hothers, rfl⟩ := h
      refine ⟨value, others, rfl, ?_, typedFields_of_validate hp rest entries others hplain
        (validateFields_eq_some_iff.mpr hothers)⟩
      rw [Validated] at hvalue
      dsimp only at hvalue
      cases hlookup : (entries.lookup key.alias').or (entries.lookup key.name) with
      | none =>
          rw [hlookup] at hvalue
          exact .inr ⟨rfl, hvalue⟩
      | some given =>
          rw [hlookup] at hvalue
          have hgiven : given.plain = true := by
            rcases Option.or_eq_some_iff.mp hlookup with halias | ⟨-, hname⟩
            · exact Value.plain_of_mem_entries hplain (Dictionary.mem_of_lookup halias)
            · exact Value.plain_of_mem_entries hplain (Dictionary.mem_of_lookup hname)
          exact .inl (typed_of_validate hp t given value hgiven hvalue)

end

variable (hp : p.Documented)
include hp

/-- A value other than null is validated to another one. -/
theorem ne_null_of_validate : (t : Ty) → ∀ {value result : Value}, value ≠ .null →
    validate p t value = some result → result ≠ .null
  | .optional t, value, result, hvalue, h => by
      rw [validate_optional t hvalue] at h
      exact ne_null_of_validate t hvalue h
  | .any, _, _, hvalue, h => by
      cases h
      exact hvalue
  | .scalar s, value, result, hvalue, h => by
      rintro rfl
      rw [validate] at h
      split at h
      · cases h
        exact hvalue rfl
      · have hholds := hp.typed s value .null h
        cases s <;> cases hholds
  | .list t, value, result, _, h => by
      rintro rfl
      cases value with
      | list items =>
          obtain ⟨_, -, hnull⟩ := Option.map_eq_some_iff.mp h
          cases hnull
      | _ => cases h
  | .dict keys t, value, result, _, h => by
      rintro rfl
      cases value with
      | dict entries =>
          obtain ⟨_, -, hnull⟩ := Option.map_eq_some_iff.mp h
          cases hnull
      | _ => cases h
  | .keeping key t, value, result, _, h => by
      rintro rfl
      obtain ⟨items, -, hvalid⟩ := Option.bind_eq_some_iff.mp h
      obtain ⟨_, -, hnull⟩ := Option.map_eq_some_iff.mp hvalid
      cases hnull
  | .model fields, value, result, _, h => by
      rintro rfl
      cases value with
      | dict entries =>
          obtain ⟨_, -, hnull⟩ := Option.map_eq_some_iff.mp h
          cases hnull
      | model values => cases h
      | _ => cases h

/-- Null is validated where it is an option, or where anything is. -/
theorem validate_null (t : Ty) : validate p t .null = some .null ↔ t.takesNull = true := by
  cases t with
  | scalar s =>
      rw [validate]
      constructor
      · intro h
        split at h
        · next hholds => cases s <;> cases hholds
        · have hholds := hp.typed s .null .null h
          cases s <;> cases hholds
      · intro h
        cases h
  | optional t => exact ⟨fun _ => rfl, fun _ => rfl⟩
  | any => exact ⟨fun _ => rfl, fun _ => rfl⟩
  | _ =>
      constructor
      · intro h
        cases h
      · intro h
        cases h

end Accepted

section Instances

/-- A list that is validated item by item to itself. -/
theorem mapM_self {α : Type} {f : α → Option α} {l : List α} (h : ∀ x ∈ l, f x = some x) :
    l.mapM f = some l := by
  rw [Pages.mapM_eq_some_iff]
  exact List.forall₂_same.mpr h

/-- An instance is taken as it is. -/
theorem validate_instance : (t : Ty) → ∀ value, Typed true t value → validate p t value = some value
  | .scalar s, value, h => by
      rw [validate]
      exact if_pos h
  | .optional t, value, h => by
      by_cases hnull : value = .null
      · rw [hnull]
        rfl
      · rw [validate_optional t hnull]
        exact validate_instance t value (h.resolve_left hnull)
  | .list t, value, h => by
      obtain ⟨items, rfl, hitems⟩ := h
      have hself : items.mapM (validate p t) = some items :=
        mapM_self fun item hmem => validate_instance t item (hitems item hmem)
      simp only [validate, hself, Option.map_some]
  | .dict keys t, value, h => by
      obtain ⟨entries, rfl, hentries⟩ := h
      rw [validate]
      have hself : (entries.mapM fun entry =>
          if keys.all (fun keys => keys.contains entry.1) then
            (validate p t entry.2).map (Prod.mk entry.1)
          else none) = some entries := by
        apply mapM_self
        intro entry hmem
        obtain ⟨hkeys, htyped⟩ := hentries entry hmem
        rw [if_pos hkeys, validate_instance t entry.2 htyped]
        rfl
      simp only [hself, Option.map_some]
  | .any, _, _ => rfl
  | .keeping key t, value, h => by
      obtain ⟨items, rfl, hitems⟩ := h
      rw [validate]
      have hself : (items.mapM fun item =>
          (getItem key item).bind fun value =>
            (validate p t value).map fun value => .dict [(key, value)]) = some items := by
        apply mapM_self
        intro item hmem
        obtain ⟨inner, rfl, htyped⟩ := hitems item hmem
        simp only [getItem, List.lookup_cons_self, Option.bind_some,
          validate_instance t inner htyped, Option.map_some]
      simp only [elements, Option.bind_some, hself, Option.map_some]
  | .model fields, value, h => by
      obtain ⟨values, rfl, -⟩ := h
      rfl

end Instances

mutual

theorem typed_strict :
    (t : Ty) → t.settled = true → ∀ value, Typed false t value → Typed true t value
  | .scalar _, _, _, h => h
  | .optional t, hsettled, value, h => by
      rcases h with hnull | h
      · exact .inl hnull
      · exact .inr (typed_strict t hsettled value h)
  | .list t, hsettled, value, h => by
      obtain ⟨items, rfl, hitems⟩ := h
      exact ⟨items, rfl, fun item hmem => typed_strict t hsettled item (hitems item hmem)⟩
  | .dict keys t, hsettled, value, h => by
      obtain ⟨entries, rfl, hentries⟩ := h
      refine ⟨entries, rfl, fun entry hmem => ?_⟩
      obtain ⟨hkeys, htyped⟩ := hentries entry hmem
      exact ⟨hkeys, typed_strict t hsettled entry.2 htyped⟩
  | .any, _, _, _ => trivial
  | .keeping key t, hsettled, value, h => by
      obtain ⟨items, rfl, hitems⟩ := h
      refine ⟨items, rfl, fun item hmem => ?_⟩
      obtain ⟨inner, rfl, htyped⟩ := hitems item hmem
      exact ⟨inner, rfl, typed_strict t hsettled inner htyped⟩
  | .model fields, hsettled, value, h => by
      obtain ⟨values, rfl, hvalues⟩ := h
      exact ⟨values, rfl, typedFields_strict fields hsettled values hvalues⟩

theorem typedFields_strict : (fields : Fields) → settledFields fields = true → ∀ values,
    TypedFields false fields values → TypedFields true fields values
  | [], _, _, h => h
  | (key, t) :: rest, hsettled, values, h => by
      simp only [settledFields, Bool.and_eq_true, Bool.not_eq_true'] at hsettled
      obtain ⟨value, others, rfl, hvalue, hothers⟩ := h
      refine ⟨value, others, rfl, ?_, typedFields_strict rest hsettled.2 others hothers⟩
      rcases hvalue with htyped | ⟨-, hdefault, -⟩
      · exact .inl (typed_strict t hsettled.1.2 value htyped)
      · rw [hsettled.1.1] at hdefault
        cases hdefault

end

section Dumps

/-- Items that are dumped and validated again, one by one. -/
theorem mapM_map_self {α β : Type} {f : β → Option α} {g : α → β} {l : List α}
    (h : ∀ x ∈ l, f (g x) = some x) :
    (l.map g).mapM f = some l := by
  rw [List.mapM_map]
  exact mapM_self h

theorem keys_dumpFields {strict : Bool} :
    (fields : Fields) → ∀ values, TypedFields strict fields values →
    Dictionary.keys (dumpFields p fields values) = fields.map fun field => field.1.alias'
  | [], values, h => by
      cases h
      rfl
  | (key, t) :: rest, values, h => by
      obtain ⟨value, others, rfl, -, hothers⟩ := h
      rw [dumpFields, Dictionary.keys_cons, keys_dumpFields rest others hothers, List.map_cons]

mutual

/-- What is dumped of an instance is validated to the instance. -/
theorem validate_dump (hp : p.Documented) :
    (t : Ty) → t.distinct = true → ∀ value, Typed true t value →
    validate p t (dump p t value) = some value
  | .scalar s, _, value, h => by
      cases value with
      | datetime d =>
          cases s with
          | datetime => exact hp.time d
          | _ => cases h
      | _ => exact if_pos h
  | .optional t, hdistinct, value, h => by
      by_cases hnull : value = .null
      · rw [hnull]
        rfl
      · rw [dump_optional t hnull, validate_optional t (dump_ne_null t hnull)]
        exact validate_dump hp t hdistinct value (h.resolve_left hnull)
  | .list t, hdistinct, value, h => by
      obtain ⟨items, rfl, hitems⟩ := h
      have hself : (items.map (dump p t)).mapM (validate p t) = some items :=
        mapM_map_self fun item hmem => validate_dump hp t hdistinct item (hitems item hmem)
      simp only [dump, validate, hself, Option.map_some]
  | .dict keys t, hdistinct, value, h => by
      obtain ⟨entries, rfl, hentries⟩ := h
      have hself : ((entries.map fun entry => (entry.1, dump p t entry.2)).mapM fun entry =>
          if keys.all (fun keys => keys.contains entry.1) then
            (validate p t entry.2).map (Prod.mk entry.1)
          else none) = some entries := by
        apply mapM_map_self
        intro entry hmem
        obtain ⟨hkeys, htyped⟩ := hentries entry hmem
        rw [if_pos hkeys, validate_dump hp t hdistinct entry.2 htyped]
        rfl
      simp only [dump, validate, hself, Option.map_some]
  | .any, _, _, _ => rfl
  | .keeping key t, hdistinct, value, h => by
      obtain ⟨items, rfl, hitems⟩ := h
      simp only [dump, validate, elements, Option.bind_some]
      rw [mapM_map_self]
      · rfl
      · intro item hmem
        obtain ⟨inner, rfl, htyped⟩ := hitems item hmem
        simp only [List.map_cons, List.map_nil, getItem, List.lookup_cons_self, Option.bind_some,
          validate_dump hp t hdistinct inner htyped, Option.map_some]
  | .model fields, hdistinct, value, h => by
      obtain ⟨values, rfl, hvalues⟩ := h
      simp only [Ty.distinct, Bool.and_eq_true, decide_eq_true_eq] at hdistinct
      have hkeys : (Dictionary.keys (dumpFields p fields values)).Nodup := by
        rw [keys_dumpFields fields values hvalues]
        exact hdistinct.1
      have hself :=
        validateFields_dump hp fields hdistinct.2 values (dumpFields p fields values) hvalues
        fun entry hmem => Dictionary.lookup_of_mem hkeys hmem
      simp only [dump, validate, hself, Option.map_some]

theorem validateFields_dump (hp : p.Documented) :
    (fields : Fields) → distinctFields fields = true → ∀ values entries,
    TypedFields true fields values →
    (∀ entry ∈ dumpFields p fields values, entries.lookup entry.1 = some entry.2) →
    validateFields p fields entries = some values
  | [], _, values, _, h, _ => by
      cases h
      rfl
  | (key, t) :: rest, hdistinct, values, entries, h, hentries => by
      simp only [distinctFields, Bool.and_eq_true] at hdistinct
      obtain ⟨value, others, rfl, hvalue, hothers⟩ := h
      have htyped : Typed true t value := by
        rcases hvalue with hvalue | ⟨hstrict, -⟩
        · exact hvalue
        · cases hstrict
      rw [dumpFields, List.forall_mem_cons] at hentries
      have hrest := validateFields_dump hp rest hdistinct.2 others entries hothers hentries.2
      simp only [validateFields, hentries.1, Option.some_or,
        validate_dump hp t hdistinct.1 value htyped, Option.bind_some, hrest, Option.map_some]

end

end Dumps

end Graveboards.Cache
