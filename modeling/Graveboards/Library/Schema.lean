import Graveboards.Library.Json

/-!
Record schemas in the manner of pydantic: an ordered list of fields, each with
a lax coercion and an optional default, extra keys forbidden, a model check
over the finished record, and a dump that leaves out null fields. The textual
number and truth-value grammars belong to the validation library and are
parameters; everything else follows its documented conversion table.

The main result is that validating a dump gives the same dump back, whenever
each field is stable under its own coercion.
-/

namespace Graveboards.Library

/-- Why one field was refused. -/
inductive Issue where
  | missing
  | extraForbidden
  | wrongType (expected : String)
  | valueError (message : String)
  deriving DecidableEq

structure FieldError where
  loc : String
  issue : Issue
  deriving DecidableEq

/-- An exception raised inside a validator. A `ValueError`, and a validation
error of a nested model, which is one, are collected by the library; an
exception of another class is not. -/
inductive Raised where
  | valueError (message : String)
  | nested (errors : List FieldError)
  | other (exception : String)
  deriving DecidableEq

/-- How validation can fail: a collected validation error, or an exception of
another class that escapes through it. -/
inductive Failure where
  | invalid (errors : List FieldError)
  | escaped (exception : String)
  deriving DecidableEq

abbrev Coercion := Json → Except Issue Json

/-- The library's readings of text as a number or a truth value. -/
structure TextReaders where
  int : String → Option Int
  float : String → Option Double
  bool : String → Option Bool

/-- Readers that accept no text as a number or a truth value. -/
def noText : TextReaders := ⟨fun _ => none, fun _ => none, fun _ => none⟩

namespace Coercion

/-- Lax `int`: booleans count as zero and one, floats without a fractional
part are accepted where 64 bits hold them. -/
def int (text : TextReaders) : Coercion
  | .int n => .ok (.int n)
  | .bool b => .ok (.int (if b then 1 else 0))
  | .float x =>
      if x.value.isInt ∧ |x.value| < 2 ^ 63 then .ok (.int x.value.num)
      else .error (.wrongType "int")
  | .str s => match text.int s with
      | some n => .ok (.int n)
      | none => .error (.wrongType "int")
  | .null | .list _ | .dict _ => .error (.wrongType "int")

/-- Lax `float`: an integer is rounded to the nearest double, and refused where
there is none. -/
def float (text : TextReaders) : Coercion
  | .float x => .ok (.float x)
  | .int n => match Double.ofInt? n with
      | some x => .ok (.float x)
      | none => .error (.wrongType "float")
  | .bool b => .ok (.float (if b then Double.one else Double.zero))
  | .str s => match text.float s with
      | some x => .ok (.float x)
      | none => .error (.wrongType "float")
  | .null | .list _ | .dict _ => .error (.wrongType "float")

/-- Lax `bool`: the numbers zero and one, and the library's words for the two
truth values. -/
def bool (text : TextReaders) : Coercion
  | .bool b => .ok (.bool b)
  | .int n =>
      if n = 0 then .ok (.bool false)
      else if n = 1 then .ok (.bool true)
      else .error (.wrongType "bool")
  | .float x =>
      if x.value = 0 then .ok (.bool false)
      else if x.value = 1 then .ok (.bool true)
      else .error (.wrongType "bool")
  | .str s => match text.bool s with
      | some b => .ok (.bool b)
      | none => .error (.wrongType "bool")
  | .null | .list _ | .dict _ => .error (.wrongType "bool")

def str : Coercion
  | .str s => .ok (.str s)
  | _ => .error (.wrongType "str")

def literalStr (allowed : List String) : Coercion
  | .str s => if s ∈ allowed then .ok (.str s) else .error (.wrongType "literal")
  | _ => .error (.wrongType "literal")

/-- An integer literal is recognised by Python equality, so `2.0` selects the
literal `2`; the dump holds the literal itself. -/
def literalInt (allowed : List Int) : Coercion := fun j =>
  match allowed.find? (fun n : Int => j.num? == some (n : Rat)) with
  | some n => .ok (.int n)
  | none => .error (.wrongType "literal")

/-- `dict[str, Any]`: the entries are kept as they are. -/
def anyDict : Coercion
  | .dict entries => .ok (.dict entries)
  | _ => .error (.wrongType "dict")

def each (element : Coercion) : List Json → Except Issue (List Json)
  | [] => .ok []
  | x :: rest => do
      let y ← element x
      let ys ← each element rest
      pure (y :: ys)

def list (element : Coercion) : Coercion
  | .list items => (each element items).map .list
  | _ => .error (.wrongType "list")

def optional (coerce : Coercion) : Coercion
  | .null => .ok .null
  | j => coerce j

/-- A `field_validator` in the default "after" mode. -/
def check (coerce : Coercion) (validator : Json → Except String Unit) : Coercion := fun j =>
  match coerce j with
  | .ok v => match validator v with
      | .ok () => .ok v
      | .error message => .error (.valueError message)
  | .error issue => .error issue

/-- Coercing a coerced value changes nothing. -/
def Stable (coerce : Coercion) : Prop :=
  ∀ v w, coerce v = .ok w → coerce w = .ok w

def NonNull (coerce : Coercion) : Prop :=
  ∀ v w, coerce v = .ok w → w ≠ .null

section

variable (text : TextReaders)

theorem int_eq_ok {v w : Json} (h : int text v = .ok w) : ∃ n, w = .int n := by
  unfold int at h
  split at h
  all_goals first
    | exact ⟨_, (Except.ok.inj h).symm⟩
    | (split at h <;> first
        | exact ⟨_, (Except.ok.inj h).symm⟩
        | cases h)
    | cases h

theorem float_eq_ok {v w : Json} (h : float text v = .ok w) : ∃ x, w = .float x := by
  unfold float at h
  split at h
  all_goals first
    | exact ⟨_, (Except.ok.inj h).symm⟩
    | (split at h <;> first
        | exact ⟨_, (Except.ok.inj h).symm⟩
        | cases h)
    | cases h

theorem bool_eq_ok {v w : Json} (h : bool text v = .ok w) : ∃ b, w = .bool b := by
  unfold bool at h
  split at h
  all_goals first
    | exact ⟨_, (Except.ok.inj h).symm⟩
    | (split at h <;> first
        | exact ⟨_, (Except.ok.inj h).symm⟩
        | (split at h <;> first
            | exact ⟨_, (Except.ok.inj h).symm⟩
            | cases h)
        | cases h)
    | cases h

theorem str_eq_ok {v w : Json} (h : str v = .ok w) : ∃ s, v = .str s ∧ w = .str s := by
  unfold str at h
  split at h
  · exact ⟨_, rfl, (Except.ok.inj h).symm⟩
  · cases h

theorem literalStr_eq_ok {allowed : List String} {v w : Json}
    (h : literalStr allowed v = .ok w) : ∃ s ∈ allowed, v = .str s ∧ w = .str s := by
  unfold literalStr at h
  split at h
  · split at h
    · next hs => exact ⟨_, hs, rfl, (Except.ok.inj h).symm⟩
    · cases h
  · cases h

theorem literalInt_eq_ok {allowed : List Int} {v w : Json}
    (h : literalInt allowed v = .ok w) :
    ∃ n ∈ allowed, v.num? = some (n : Rat) ∧ w = .int n := by
  unfold literalInt at h
  split at h
  · next n hfind =>
      have hmem := List.mem_of_find?_eq_some hfind
      have heq := List.find?_some hfind
      exact ⟨n, hmem, by simpa using heq, (Except.ok.inj h).symm⟩
  · cases h

theorem anyDict_eq_ok {v w : Json} (h : anyDict v = .ok w) : w = v ∧ ∃ es, v = .dict es := by
  unfold anyDict at h
  split at h
  · exact ⟨(Except.ok.inj h).symm, _, rfl⟩
  · cases h

theorem each_eq_ok_cons {element : Coercion} {x : Json} {rest ys : List Json}
    (h : each element (x :: rest) = .ok ys) :
    ∃ y tail, element x = .ok y ∧ each element rest = .ok tail ∧ ys = y :: tail := by
  unfold each at h
  cases hx : element x with
  | error issue => simp [hx, bind, Except.bind] at h
  | ok y =>
      cases hrest : each element rest with
      | error issue => simp [hx, hrest, bind, Except.bind] at h
      | ok tail =>
          refine ⟨y, tail, rfl, rfl, ?_⟩
          simpa [hx, hrest, bind, Except.bind, pure, Except.pure, eq_comm] using h

/-- Element by element, a coerced list holds the coercions of its items. -/
theorem each_eq_ok_iff {element : Coercion} {items ys : List Json} :
    each element items = .ok ys ↔ List.Forall₂ (fun x y => element x = .ok y) items ys := by
  induction items generalizing ys with
  | nil =>
      simp only [each, Except.ok.injEq, List.forall₂_nil_left_iff]
      exact eq_comm
  | cons x rest ih =>
      constructor
      · intro h
        obtain ⟨y, tail, hx, hrest, rfl⟩ := each_eq_ok_cons h
        exact List.Forall₂.cons hx (ih.mp hrest)
      · intro h
        cases h with
        | cons hx hrest =>
            simp [each, hx, ih.mpr hrest, bind, Except.bind, pure, Except.pure]

theorem list_eq_ok {element : Coercion} {v w : Json} (h : list element v = .ok w) :
    ∃ items ys, v = .list items ∧ w = .list ys ∧
      List.Forall₂ (fun x y => element x = .ok y) items ys := by
  unfold list at h
  split at h
  · next items =>
      cases hys : each element items with
      | error issue => simp [hys, Except.map] at h
      | ok ys =>
          refine ⟨items, ys, rfl, ?_, each_eq_ok_iff.mp hys⟩
          simpa [hys, Except.map, eq_comm] using h
  · cases h

theorem check_eq_ok {coerce : Coercion} {validator : Json → Except String Unit} {v w : Json}
    (h : check coerce validator v = .ok w) : coerce v = .ok w ∧ validator w = .ok () := by
  unfold check at h
  cases hc : coerce v with
  | error issue => simp [hc] at h
  | ok u =>
      cases hv : validator u with
      | error message => simp [hc, hv] at h
      | ok done =>
          obtain rfl : u = w := by simpa [hc, hv] using h
          exact ⟨rfl, hv⟩

theorem stable_int : Stable (int text) := by
  intro v w h
  obtain ⟨n, rfl⟩ := int_eq_ok text h
  rfl

theorem stable_float : Stable (float text) := by
  intro v w h
  obtain ⟨x, rfl⟩ := float_eq_ok text h
  rfl

theorem stable_bool : Stable (bool text) := by
  intro v w h
  obtain ⟨b, rfl⟩ := bool_eq_ok text h
  rfl

theorem stable_str : Stable str := by
  intro v w h
  obtain ⟨s, rfl, rfl⟩ := str_eq_ok h
  rfl

theorem stable_literalStr (allowed : List String) : Stable (literalStr allowed) := by
  intro v w h
  obtain ⟨s, hs, rfl, rfl⟩ := literalStr_eq_ok h
  exact h

theorem stable_literalInt (allowed : List Int) : Stable (literalInt allowed) := by
  intro v w h
  obtain ⟨n, -, hnum, rfl⟩ := literalInt_eq_ok h
  have hsame : (Json.int n).num? = v.num? := by rw [hnum]; rfl
  simpa only [literalInt, hsame] using h

theorem stable_anyDict : Stable anyDict := by
  intro v w h
  obtain ⟨rfl, -⟩ := anyDict_eq_ok h
  exact h

theorem stable_list {element : Coercion} (helement : Stable element) : Stable (list element) := by
  intro v w h
  obtain ⟨items, ys, rfl, rfl, hforall⟩ := list_eq_ok h
  have hys : each element ys = .ok ys := by
    apply each_eq_ok_iff.mpr
    clear h
    induction hforall with
    | nil => exact List.Forall₂.nil
    | cons hx _ ih => exact List.Forall₂.cons (helement _ _ hx) ih
  simp [list, hys, Except.map]

theorem stable_optional {coerce : Coercion} (hcoerce : Stable coerce) :
    Stable (optional coerce) := by
  intro v w h
  by_cases hw : w = .null
  · subst hw
    rfl
  · have hsame (j : Json) (hj : j ≠ .null) : optional coerce j = coerce j := by
      unfold optional
      split
      · exact absurd rfl hj
      · rfl
    have hv : v ≠ .null := by
      rintro rfl
      exact hw (Except.ok.inj h).symm
    rw [hsame w hw]
    rw [hsame v hv] at h
    exact hcoerce v w h

theorem stable_check {coerce : Coercion} {validator : Json → Except String Unit}
    (hcoerce : Stable coerce) : Stable (check coerce validator) := by
  intro v w h
  obtain ⟨hc, hv⟩ := check_eq_ok h
  simp [check, hcoerce v w hc, hv]

theorem nonNull_int : NonNull (int text) := by
  intro v w h
  obtain ⟨n, rfl⟩ := int_eq_ok text h
  simp

theorem nonNull_bool : NonNull (bool text) := by
  intro v w h
  obtain ⟨b, rfl⟩ := bool_eq_ok text h
  simp

theorem nonNull_str : NonNull str := by
  intro v w h
  obtain ⟨s, -, rfl⟩ := str_eq_ok h
  simp

theorem nonNull_literalStr (allowed : List String) : NonNull (literalStr allowed) := by
  intro v w h
  obtain ⟨s, -, -, rfl⟩ := literalStr_eq_ok h
  simp

theorem nonNull_list (element : Coercion) : NonNull (list element) := by
  intro v w h
  obtain ⟨items, ys, -, rfl, -⟩ := list_eq_ok h
  simp

theorem nonNull_check {coerce : Coercion} {validator : Json → Except String Unit}
    (hcoerce : NonNull coerce) : NonNull (check coerce validator) := by
  intro v w h
  exact hcoerce v w (check_eq_ok h).1

end

end Coercion

/-- One declared field. A missing key takes the default, which is not
validated. -/
structure Field where
  name : String
  coerce : Coercion
  default : Option Json

structure Schema where
  fields : List Field
  /-- The `model_validator` in "after" mode, over the finished record. -/
  check : List (String × Json) → Except Raised Unit

namespace Schema

def read (entries : List (String × Json)) (field : Field) : Except Issue Json :=
  match Json.find field.name entries with
  | some v => field.coerce v
  | none => match field.default with
      | some d => .ok d
      | none => .error .missing

def fieldError (entries : List (String × Json)) (field : Field) : Option FieldError :=
  match read entries field with
  | .ok _ => none
  | .error issue => some ⟨field.name, issue⟩

def extraErrors (fields : List Field) (entries : List (String × Json)) : List FieldError :=
  (entries.filter (fun entry => entry.1 ∉ fields.map Field.name)).map
    (fun entry => ⟨entry.1, .extraForbidden⟩)

/-- The validated model, field by field, nulls included. -/
def record (fields : List Field) (entries : List (String × Json)) : List (String × Json) :=
  fields.filterMap (fun field => match read entries field with
    | .ok v => some (field.name, v)
    | .error _ => none)

theorem record_cons {fields : List Field} {entries : List (String × Json)} {field : Field}
    {v : Json} (h : read entries field = .ok v) :
    record (field :: fields) entries = (field.name, v) :: record fields entries := by
  simp only [record, List.filterMap_cons, h]

/-- `model_dump(exclude_none=True)`. -/
def dump (record : List (String × Json)) : List (String × Json) :=
  record.filter (fun entry => entry.2 ≠ .null)

/-- `schema_cls(**entries).model_dump(exclude_none=True)`. -/
def validate (schema : Schema) (entries : List (String × Json)) :
    Except Failure (List (String × Json)) :=
  match schema.fields.filterMap (fieldError entries) ++ extraErrors schema.fields entries with
  | [] =>
      let finished := record schema.fields entries
      match schema.check finished with
      | .ok () => .ok (dump finished)
      | .error (.valueError message) => .error (.invalid [⟨"", .valueError message⟩])
      | .error (.nested errors) => .error (.invalid errors)
      | .error (.other exception) => .error (.escaped exception)
  | errors => .error (.invalid errors)

/-- What a declared field must satisfy for dumps to be fixed points: its
coercion is stable, it can only become null if null is its default, and a
default other than null passes the field's own coercion. -/
structure FieldStable (field : Field) : Prop where
  coerce : field.coerce.Stable
  null : ∀ v, field.coerce v = .ok .null → field.default = some .null
  default : ∀ d, field.default = some d → d ≠ .null → field.coerce d = .ok d

theorem FieldStable.required {name : String} {coerce : Coercion} (hstable : coerce.Stable)
    (hnull : coerce.NonNull) : FieldStable ⟨name, coerce, none⟩ :=
  ⟨hstable, fun v h => absurd rfl (hnull v _ h), fun _ h => by cases h⟩

theorem FieldStable.optional {name : String} {coerce : Coercion} (hstable : coerce.Stable) :
    FieldStable ⟨name, coerce, some .null⟩ :=
  ⟨hstable, fun _ _ => rfl, fun _ h hd => absurd (Option.some.inj h).symm hd⟩

theorem FieldStable.defaulted {name : String} {coerce : Coercion} {d : Json}
    (hstable : coerce.Stable) (hnull : coerce.NonNull) (hd : coerce d = .ok d) :
    FieldStable ⟨name, coerce, some d⟩ :=
  ⟨hstable, fun v h => absurd rfl (hnull v _ h), fun _ h _ => Option.some.inj h ▸ hd⟩

structure Stable (schema : Schema) : Prop where
  names : (schema.fields.map Field.name).Nodup
  fields : ∀ field ∈ schema.fields, FieldStable field

theorem fieldErrors_eq_nil_iff {fields : List Field} {entries : List (String × Json)} :
    fields.filterMap (fieldError entries) = [] ↔
      ∀ field ∈ fields, ∃ v, read entries field = .ok v := by
  rw [List.filterMap_eq_nil_iff]
  refine forall₂_congr fun field _ => ?_
  unfold fieldError
  cases read entries field with
  | ok v => simp
  | error issue => simp

theorem extraErrors_eq_nil_iff {fields : List Field} {entries : List (String × Json)} :
    extraErrors fields entries = [] ↔ ∀ entry ∈ entries, entry.1 ∈ fields.map Field.name := by
  simp [extraErrors, List.filter_eq_nil_iff]

theorem validate_eq_ok_iff {schema : Schema} {entries dumped : List (String × Json)} :
    schema.validate entries = .ok dumped ↔
      (∀ field ∈ schema.fields, ∃ v, read entries field = .ok v) ∧
      (∀ entry ∈ entries, entry.1 ∈ schema.fields.map Field.name) ∧
      schema.check (record schema.fields entries) = .ok () ∧
      dumped = dump (record schema.fields entries) := by
  unfold validate
  constructor
  · intro h
    split at h
    · next herrors =>
        obtain ⟨hfields, hkeys⟩ := List.append_eq_nil_iff.mp herrors
        refine ⟨fieldErrors_eq_nil_iff.mp hfields, extraErrors_eq_nil_iff.mp hkeys, ?_⟩
        dsimp only at h
        split at h
        · next hcheck => exact ⟨hcheck, (Except.ok.inj h).symm⟩
        all_goals cases h
    · cases h
  · rintro ⟨hfields, hkeys, hcheck, rfl⟩
    rw [fieldErrors_eq_nil_iff.mpr hfields, extraErrors_eq_nil_iff.mpr hkeys]
    simp [hcheck]

/-- An exception gets past the validation exactly if it is the model check that
raises it, which runs once the fields have passed. -/
theorem validate_eq_escaped_iff {schema : Schema} {entries : List (String × Json)}
    {exception : String} :
    schema.validate entries = .error (.escaped exception) ↔
      (∀ field ∈ schema.fields, ∃ v, read entries field = .ok v) ∧
      (∀ entry ∈ entries, entry.1 ∈ schema.fields.map Field.name) ∧
      schema.check (record schema.fields entries) = .error (.other exception) := by
  unfold validate
  constructor
  · intro h
    split at h
    · next herrors =>
        obtain ⟨hfields, hkeys⟩ := List.append_eq_nil_iff.mp herrors
        refine ⟨fieldErrors_eq_nil_iff.mp hfields, extraErrors_eq_nil_iff.mp hkeys, ?_⟩
        dsimp only at h
        split at h
        · cases h
        · cases h
        · cases h
        · next hcheck =>
            cases h
            exact hcheck
    · cases h
  · rintro ⟨hfields, hkeys, hcheck⟩
    rw [fieldErrors_eq_nil_iff.mpr hfields, extraErrors_eq_nil_iff.mpr hkeys]
    simp [hcheck]

/-- A dump keeps a field under its name exactly when the field was read as
something other than null. -/
theorem find_dump_record {fields : List Field} (hnames : (fields.map Field.name).Nodup)
    (entries : List (String × Json)) {field : Field} (hmem : field ∈ fields) {v : Json}
    (hread : read entries field = .ok v) :
    Json.find field.name (dump (record fields entries)) = if v = .null then none else some v := by
  induction fields with
  | nil => cases hmem
  | cons head rest ih =>
      rw [List.map_cons, List.nodup_cons] at hnames
      have hskip (hne : head.name ≠ field.name) (hrest : field ∈ rest) :
          Json.find field.name (dump (record (head :: rest) entries)) =
            if v = .null then none else some v := by
        rw [← ih hnames.2 hrest]
        cases hhead : read entries head with
        | error issue => simp [record, hhead]
        | ok w =>
            by_cases hw : w = .null
            · simp [record, hhead, dump, hw]
            · simp [record, hhead, dump, hw, hne]
      rcases List.mem_cons.mp hmem with rfl | hrest
      · by_cases hv : v = .null
        · have habsent : ¬ (Json.find field.name (dump (record rest entries))).isSome := by
            rw [Json.find_isSome_iff]
            intro hin
            obtain ⟨entry, hentry, hname⟩ := List.mem_map.mp hin
            have hrecord := (List.mem_filter.mp hentry).1
            obtain ⟨other, hother, hsome⟩ := List.mem_filterMap.mp hrecord
            apply hnames.1
            refine List.mem_map.mpr ⟨other, hother, ?_⟩
            cases hr : read entries other with
            | error issue => simp [hr] at hsome
            | ok w =>
                simp only [hr, Option.some.injEq] at hsome
                rw [← hname, ← hsome]
          simp only [Option.not_isSome_iff_eq_none] at habsent
          simpa [record, hread, dump, hv] using habsent
        · simp [record, hread, dump, hv]
      · apply hskip _ hrest
        intro heq
        exact hnames.1 (List.mem_map.mpr ⟨field, hrest, heq.symm⟩)

/-- Reading a field back from the dump gives the value read the first time. -/
theorem read_dump {schema : Schema} (hstable : schema.Stable)
    {entries : List (String × Json)} {field : Field} (hmem : field ∈ schema.fields) {v : Json}
    (hread : read entries field = .ok v) :
    read (dump (record schema.fields entries)) field = .ok v := by
  have hfield := hstable.fields field hmem
  have hfind := find_dump_record hstable.names entries hmem hread
  have hcases : (∃ u, field.coerce u = .ok v) ∨ field.default = some v := by
    unfold read at hread
    split at hread
    · next u _ => exact Or.inl ⟨u, hread⟩
    · split at hread
      · next d hd => exact Or.inr (by rw [hd, Except.ok.inj hread])
      · cases hread
  unfold read
  rw [hfind]
  by_cases hv : v = .null
  · subst hv
    have hdefault : field.default = some .null := by
      rcases hcases with ⟨u, hu⟩ | hd
      · exact hfield.null u hu
      · exact hd
    simp [hdefault]
  · simp only [hv, if_false]
    rcases hcases with ⟨u, hu⟩ | hd
    · exact hfield.coerce u v hu
    · exact hfield.default v hd hv

/-- Validation is idempotent: the dump of a valid input is valid and dumps to
itself. -/
theorem validate_dump {schema : Schema} (hstable : schema.Stable)
    {entries dumped : List (String × Json)} (h : schema.validate entries = .ok dumped) :
    schema.validate dumped = .ok dumped := by
  obtain ⟨hreads, -, hcheck, rfl⟩ := validate_eq_ok_iff.mp h
  have hsame : record schema.fields (dump (record schema.fields entries)) =
      record schema.fields entries := by
    unfold record
    apply List.filterMap_congr
    intro field hmem
    obtain ⟨v, hv⟩ := hreads field hmem
    have hback := read_dump hstable hmem hv
    simp only [record] at hback
    rw [hv, hback]
  refine validate_eq_ok_iff.mpr ⟨?_, ?_, ?_, ?_⟩
  · intro field hmem
    obtain ⟨v, hv⟩ := hreads field hmem
    exact ⟨v, read_dump hstable hmem hv⟩
  · intro entry hentry
    obtain ⟨field, hmem, hsome⟩ := List.mem_filterMap.mp (List.mem_filter.mp hentry).1
    refine List.mem_map.mpr ⟨field, hmem, ?_⟩
    cases hr : read entries field with
    | error issue => simp [hr] at hsome
    | ok w =>
        simp only [hr, Option.some.injEq] at hsome
        rw [← hsome]
  · rw [hsame, hcheck]
  · rw [hsame]

end Schema

end Graveboards.Library
