import Mathlib.Data.List.ReduceOption
import Graveboards.Library.Pages
import Graveboards.Search.Conditions
import Graveboards.Search.Instants

/-!
The clauses that a search makes of conditions, and the same conditions read back from their
bytes. Validation, the clauses and the bytes each have their own notion of an operator that is
present: given, set, and not null.
-/

namespace Graveboards.Search

open Graveboards.Library

/-! The conditions by operator. -/

/-- What is given for an operator, in terms of the value that it has. -/
def Conditions.entry (c : Conditions) : ConditionField → Option Entry
  | .eq => c.eq.map .value
  | .neq => c.neq.map .value
  | .lt => c.lt.map .value
  | .lte => c.lte.map .value
  | .gt => c.gt.map .value
  | .gte => c.gte.map .value
  | .in_ => c.in_.map .values
  | .notIn => c.notIn.map .values
  | .isNull => c.isNull.map .flag
  | .regex => c.regex.map fun s => .value (.str s)
  | .notRegex => c.notRegex.map fun s => .value (.str s)

/-- `model_dump(exclude_unset=True, by_alias=True)`, of which each item makes a clause; null is
`none`. -/
def Conditions.clauses (c : Conditions) (raw : RawConditions) :
    List (ConditionField × Option Entry) :=
  (ConditionField.all.filter fun field => (raw field).isSome).map fun field =>
    (field, c.entry field)

/-- `deserialize`, with the operators that it sets. -/
def Conditions.deserializeSet (P : Platform) : Reader (RawConditions × Conditions) := do
  let presence ← Decoder.unsigned 2
  let values ← Decoder.masked (ConditionField.all.map (readEntry P)) presence
  let raw := RawConditions.ofList values
  .check (.patterns (raw.text .regex) (raw.text .notRegex))
    (.ofExcept ((Conditions.modelValidate P raw).map fun c => (raw, c)))

/-- The operators aside, the conditions are those of `deserialize`. -/
theorem Conditions.run_deserialize (P : Platform) (data : Bytes) (offset : Nat) :
    (Conditions.deserialize P).run data offset =
      ((Conditions.deserializeSet P).run data offset).map fun result => (result.1.2, result.2) := by
  rw [deserialize, deserializeSet, Decoder.run_bind, Decoder.run_bind]
  cases (Decoder.unsigned 2 : Reader Nat).run data offset with
  | error e => rfl
  | ok presence =>
      simp only [Except.bind, Decoder.run_bind]
      cases (Decoder.masked (ConditionField.all.map (readEntry P)) presence.1).run data
        presence.2 with
      | error e => rfl
      | ok values =>
          simp only [Decoder.run]
          cases modelValidate P (RawConditions.ofList values.1) with
          | error e => rfl
          | ok c => rfl

/-- The conditions are written, and what is read from their bytes has the same clauses. -/
def Conditions.KeepsClauses (P : Platform) (raw : RawConditions) (c : Conditions) : Prop :=
  ∃ data raw' c', c.serialize P = .ok data ∧
    Decoder.Reads (Conditions.deserializeSet P) data (.ok (raw', c')) ∧
    (c.clauses raw).Perm (c'.clauses raw')

/-- The clauses are kept by the conditions that `deserialize` reads. -/
theorem Conditions.KeepsClauses.deserialize {P : Platform} {raw : RawConditions} {c : Conditions}
    (h : c.KeepsClauses P raw) :
    ∃ data c', c.serialize P = .ok data ∧ Decoder.Reads (Conditions.deserialize P) data (.ok c') ∧
      ∃ raw', (c.clauses raw).Perm (c'.clauses raw') := by
  obtain ⟨data, raw', c', hserialize, hreads, hperm⟩ := h
  refine ⟨data, c', hserialize, ?_, raw', hperm⟩
  intro before after
  rw [Conditions.run_deserialize, hreads before after]
  rfl

/-- What comes out of the bytes of a value unchanged. -/
def ConditionValue.Portable (P : Platform) : ConditionValue → Prop
  | .int n => -2 ^ 63 ≤ n
  | .float x => (FloatFormat.double.pack x).isSome = true
  | .str s => s.IsText
  | .bool _ => True
  | .datetime d => d.Preserved P

def Entry.Portable (P : Platform) : Entry → Prop
  | .null => True
  | .value v => v.Portable P
  | .values vs => vs.length < 256 ∧ ∀ v ∈ vs, v.Portable P
  | .flag _ => True

/-- Every value is portable, and the sequences are short. -/
def Conditions.Portable (P : Platform) (c : Conditions) : Prop :=
  ∀ field e, c.entry field = some e → e.Portable P

/-- The datetimes have years from 1 to 9999. -/
def Conditions.InRange (c : Conditions) : Prop :=
  ∀ field e, c.entry field = some e →
    match e with
    | .value (.datetime d) => d.InRange
    | .values vs => ∀ d, .datetime d ∈ vs → d.InRange
    | _ => True

/-- What validation makes of what is given for an operator. -/
def Entry.parsed (P : Platform) (field : ConditionField) : Entry → Option Entry
  | .null => none
  | .value v => some (.value (if field = .regex ∨ field = .notRegex then v else parseDatetime P v))
  | .values vs => some (.values (vs.map (parseDatetime P)))
  | .flag b => some (.flag b)

/-! Validation once more. -/

namespace Checked

variable {α β : Type}

theorem seq_eq_ok {f : Checked (α → β)} {x : Checked α} {b : β} :
    f <*> x = .ok b ↔ ∃ g a, f = .ok g ∧ x = .ok a ∧ g a = b := by
  constructor
  · intro h
    cases f with
    | ok g =>
        cases x with
        | ok a => exact ⟨g, a, rfl, rfl, Checked.ok.inj h⟩
        | faults found => cases h
        | raised e => cases h
    | faults found => cases x <;> cases h
    | raised e => cases x <;> cases h
  · rintro ⟨g, a, rfl, rfl, rfl⟩
    rfl

theorem map_eq_ok {g : α → β} {x : Checked α} {b : β} :
    g <$> x = .ok b ↔ ∃ a, x = .ok a ∧ g a = b := by
  constructor
  · intro h
    cases x with
    | ok a => exact ⟨a, rfl, Checked.ok.inj h⟩
    | faults found => cases h
    | raised e => cases h
  · rintro ⟨a, rfl, rfl⟩
    rfl

theorem toExcept_eq_ok {x : Checked α} {a : α} (h : x.toExcept = .ok a) : x = .ok a := by
  cases x with
  | ok b => rw [Except.ok.inj h]
  | faults found => cases h
  | raised e => cases h

end Checked

section

variable {P : Platform} {raw : RawConditions} {c : Conditions}

/-- The fields one by one. -/
structure Conditions.FieldsOk (P : Platform) (raw : RawConditions) (c : Conditions) : Prop where
  eq : scalarField P raw .eq = .ok c.eq
  neq : scalarField P raw .neq = .ok c.neq
  lt : scalarField P raw .lt = .ok c.lt
  lte : scalarField P raw .lte = .ok c.lte
  gt : scalarField P raw .gt = .ok c.gt
  gte : scalarField P raw .gte = .ok c.gte
  in_ : sequenceField P raw .in_ = .ok c.in_
  notIn : sequenceField P raw .notIn = .ok c.notIn
  isNull : flagField raw .isNull = .ok c.isNull
  regex : regexField P raw .regex = .ok c.regex
  notRegex : regexField P raw .notRegex = .ok c.notRegex

theorem Conditions.fields_eq_ok_iff :
    Conditions.fields P raw = .ok c ↔ Conditions.FieldsOk P raw c := by
  simp only [Conditions.fields, Checked.seq_eq_ok, Checked.map_eq_ok]
  constructor
  · rintro ⟨_, _,
      ⟨_, _, ⟨_, _,
        ⟨_, _, ⟨_, _, ⟨_, _, ⟨_, _, ⟨_, _, ⟨_, _, ⟨_, _, ⟨_, heq, rfl⟩, hneq, rfl⟩, hlt, rfl⟩,
      hlte, rfl⟩, hgt, rfl⟩, hgte, rfl⟩, hin, rfl⟩, hnotIn, rfl⟩, hisNull, rfl⟩, hregex, rfl⟩,
      hnotRegex, rfl⟩
    exact ⟨heq, hneq, hlt, hlte, hgt, hgte, hin, hnotIn, hisNull, hregex, hnotRegex⟩
  · rintro ⟨heq, hneq, hlt, hlte, hgt, hgte, hin, hnotIn, hisNull, hregex, hnotRegex⟩
    exact ⟨_, _,
      ⟨_, _, ⟨_, _,
        ⟨_, _, ⟨_, _, ⟨_, _, ⟨_, _, ⟨_, _, ⟨_, _, ⟨_, _, ⟨_, heq, rfl⟩, hneq, rfl⟩, hlt, rfl⟩,
      hlte, rfl⟩, hgt, rfl⟩, hgte, rfl⟩, hin, rfl⟩, hnotIn, rfl⟩, hisNull, rfl⟩, hregex, rfl⟩,
      hnotRegex, rfl⟩

theorem parseDatetime_parseDatetime (v : ConditionValue) :
    parseDatetime P (parseDatetime P v) = parseDatetime P v := by
  cases v with
  | str s =>
      rw [parseDatetime]
      cases hparse : P.fromisoformat s with
      | none =>
          rw [Option.map_none, Option.getD_none, parseDatetime, hparse, Option.map_none,
            Option.getD_none]
      | some d => rfl
  | _ => rfl

/-- A value that is a datetime, or none, is left as it is. -/
def Settled (P : Platform) (v : ConditionValue) : Prop := parseDatetime P v = v

section Fields

variable {field : ConditionField}

theorem scalarField_eq_ok {x : Option ConditionValue} (h : scalarField P raw field = .ok x)
    (hfield : field ≠ .regex ∧ field ≠ .notRegex) :
    x.map .value = (raw field).bind (Entry.parsed P field) ∧ ∀ v ∈ x, Settled P v := by
  unfold scalarField at h
  split at h
  case h_1 hraw =>
      obtain rfl := Checked.ok.inj h
      rw [hraw]
      exact ⟨rfl, nofun⟩
  case h_2 hraw =>
      obtain rfl := Checked.ok.inj h
      rw [hraw]
      exact ⟨rfl, nofun⟩
  case h_3 v hraw =>
      obtain rfl := Checked.ok.inj h
      rw [hraw, Option.bind_some, Entry.parsed, if_neg (by tauto)]
      refine ⟨rfl, ?_⟩
      rintro - ⟨⟩
      exact parseDatetime_parseDatetime v
  case h_4 => cases h

theorem scalarField_again {x : Option ConditionValue} (h : raw field = x.map .value)
    (hx : ∀ v ∈ x, Settled P v) :
    scalarField P raw field = .ok x := by
  unfold scalarField
  cases x with
  | none => rw [h, Option.map_none]
  | some v =>
      rw [h, Option.map_some]
      dsimp only
      rw [hx v rfl]

theorem validateSequenceTypes_eq_ok {vs ws : List ConditionValue}
    (h : validateSequenceTypes field vs = .ok ws) :
    ws = vs := by
  unfold validateSequenceTypes at h
  split at h
  · exact (Checked.ok.inj h).symm
  · split at h
    · cases h
    · exact (Checked.ok.inj h).symm

theorem sequenceField_eq_ok {x : Option (List ConditionValue)}
    (h : sequenceField P raw field = .ok x) :
    x.map .values = (raw field).bind (Entry.parsed P field) ∧
      ∀ vs ∈ x, (∀ v ∈ vs, Settled P v) ∧ validateSequenceTypes field vs = .ok vs := by
  unfold sequenceField at h
  split at h
  case h_1 hraw =>
      obtain rfl := Checked.ok.inj h
      rw [hraw]
      exact ⟨rfl, nofun⟩
  case h_2 hraw =>
      obtain rfl := Checked.ok.inj h
      rw [hraw]
      exact ⟨rfl, nofun⟩
  case h_3 vs hraw =>
      obtain ⟨ws, hws, rfl⟩ := Checked.map_eq_ok.mp h
      obtain rfl := validateSequenceTypes_eq_ok hws
      rw [hraw]
      refine ⟨rfl, ?_⟩
      rintro - ⟨⟩
      refine ⟨?_, hws⟩
      intro v hv
      obtain ⟨w, -, rfl⟩ := List.mem_map.mp hv
      exact parseDatetime_parseDatetime w
  case h_4 => cases h

theorem sequenceField_again {x : Option (List ConditionValue)} (h : raw field = x.map .values)
    (hx : ∀ vs ∈ x, (∀ v ∈ vs, Settled P v) ∧ validateSequenceTypes field vs = .ok vs) :
    sequenceField P raw field = .ok x := by
  unfold sequenceField
  cases x with
  | none => rw [h, Option.map_none]
  | some vs =>
      obtain ⟨hsettled, htypes⟩ := hx vs rfl
      rw [h, Option.map_some]
      dsimp only
      rw [List.map_congr_left hsettled, List.map_id', htypes]
      rfl

theorem flagField_eq_ok {x : Option Bool} (h : flagField raw field = .ok x) :
    x.map .flag = (raw field).bind (Entry.parsed P field) := by
  unfold flagField at h
  split at h
  case h_1 hraw =>
      obtain rfl := Checked.ok.inj h
      rw [hraw]
      rfl
  case h_2 hraw =>
      obtain rfl := Checked.ok.inj h
      rw [hraw]
      rfl
  case h_3 b hraw =>
      obtain rfl := Checked.ok.inj h
      rw [hraw]
      rfl
  case h_4 => cases h

theorem flagField_again {x : Option Bool} (h : raw field = x.map .flag) :
    flagField raw field = .ok x := by
  unfold flagField
  cases x with
  | none => rw [h, Option.map_none]
  | some b => rw [h, Option.map_some]

theorem validateRegex_eq_ok {s t : PyStr} (h : validateRegex P s = .ok t) : t = s := by
  unfold validateRegex at h
  split_ifs at h
  split at h
  · cases h
  · cases h
  · split at h
    · cases h
    · cases h
    · split at h
      · cases h
      · exact (Checked.ok.inj h).symm

theorem eq_of_text {s : PyStr} (h : raw.text field = some s) :
    raw field = some (.value (.str s)) := by
  unfold RawConditions.text at h
  split at h
  case h_1 t hraw =>
      obtain rfl := Option.some.inj h
      exact hraw
  case h_2 => cases h

theorem regexField_eq_ok {x : Option PyStr} (h : regexField P raw field = .ok x)
    (hfield : field = .regex ∨ field = .notRegex) :
    (x.map fun s => .value (.str s)) = (raw field).bind (Entry.parsed P field) ∧
      ∀ s ∈ x, validateRegex P s = .ok s := by
  unfold regexField at h
  split at h
  case h_1 s htext =>
      obtain ⟨t, ht, rfl⟩ := Checked.map_eq_ok.mp h
      obtain rfl := validateRegex_eq_ok ht
      rw [eq_of_text htext, Option.bind_some, Entry.parsed, if_pos hfield]
      refine ⟨rfl, ?_⟩
      intro s' hs'
      obtain rfl := Option.some.inj hs'
      exact ht
  case h_2 =>
      split at h
      case h_1 hraw =>
          obtain rfl := Checked.ok.inj h
          rw [hraw]
          exact ⟨rfl, nofun⟩
      case h_2 hraw =>
          obtain rfl := Checked.ok.inj h
          rw [hraw]
          exact ⟨rfl, nofun⟩
      case h_3 => cases h

theorem regexField_again {x : Option PyStr} (h : raw field = x.map fun s => .value (.str s))
    (hx : ∀ s ∈ x, validateRegex P s = .ok s) : regexField P raw field = .ok x := by
  unfold regexField RawConditions.text
  cases x with
  | none => rw [h, Option.map_none]
  | some s =>
      rw [h, Option.map_some]
      dsimp only
      rw [hx s rfl]
      rfl

end Fields

namespace Conditions

/-- Each operator has what validation makes of its entry. -/
theorem FieldsOk.entry_eq (h : FieldsOk P raw c) (field : ConditionField) :
    c.entry field = (raw field).bind (Entry.parsed P field) := by
  cases field with
  | eq => exact (scalarField_eq_ok h.eq (by decide)).1
  | neq => exact (scalarField_eq_ok h.neq (by decide)).1
  | lt => exact (scalarField_eq_ok h.lt (by decide)).1
  | lte => exact (scalarField_eq_ok h.lte (by decide)).1
  | gt => exact (scalarField_eq_ok h.gt (by decide)).1
  | gte => exact (scalarField_eq_ok h.gte (by decide)).1
  | in_ => exact (sequenceField_eq_ok h.in_).1
  | notIn => exact (sequenceField_eq_ok h.notIn).1
  | isNull => exact flagField_eq_ok h.isNull
  | regex => exact (regexField_eq_ok h.regex (by decide)).1
  | notRegex => exact (regexField_eq_ok h.notRegex (by decide)).1

/-- What came out of validation passes it once more. -/
theorem FieldsOk.again (h : FieldsOk P raw c) : FieldsOk P c.entry c :=
  { eq := scalarField_again rfl (scalarField_eq_ok h.eq (by decide)).2
    neq := scalarField_again rfl (scalarField_eq_ok h.neq (by decide)).2
    lt := scalarField_again rfl (scalarField_eq_ok h.lt (by decide)).2
    lte := scalarField_again rfl (scalarField_eq_ok h.lte (by decide)).2
    gt := scalarField_again rfl (scalarField_eq_ok h.gt (by decide)).2
    gte := scalarField_again rfl (scalarField_eq_ok h.gte (by decide)).2
    in_ := sequenceField_again rfl (sequenceField_eq_ok h.in_).2
    notIn := sequenceField_again rfl (sequenceField_eq_ok h.notIn).2
    isNull := flagField_again rfl
    regex := regexField_again rfl (regexField_eq_ok h.regex (by decide)).2
    notRegex := regexField_again rfl (regexField_eq_ok h.notRegex (by decide)).2 }

theorem rejectIf_eq_ok {b : Bool} {fault : Fault} {u : Unit} (h : rejectIf b fault = .ok u) :
    b = false := by
  cases b with
  | true => cases h
  | false => rfl

theorem eq_of_validateLogic {c' : Conditions} {given : Nat} (h : c.validateLogic given = .ok c') :
    c' = c := by
  unfold validateLogic at h
  obtain ⟨_, -, h⟩ := bind_eq_ok h
  obtain ⟨_, -, h⟩ := bind_eq_ok h
  obtain ⟨_, -, h⟩ := bind_eq_ok h
  obtain ⟨_, -, h⟩ := bind_eq_ok h
  obtain ⟨_, -, h⟩ := bind_eq_ok h
  obtain ⟨_, -, h⟩ := bind_eq_ok h
  obtain ⟨_, -, h⟩ := bind_eq_ok h
  obtain ⟨_, -, h⟩ := bind_eq_ok h
  obtain ⟨_, -, h⟩ := bind_eq_ok h
  obtain ⟨_, -, h⟩ := bind_eq_ok h
  exact (Except.ok.inj h).symm

/-- The number of operators that were set matters only if it is 0, or more than one beside a null
check. -/
theorem validateLogic_again {given given' : Nat} (h : c.validateLogic given = .ok c)
    (hpos : 0 < given') (hle : given' ≤ given) : c.validateLogic given' = .ok c := by
  unfold validateLogic at h ⊢
  obtain ⟨_, hcondition, h⟩ := bind_eq_ok h
  obtain ⟨_, htypes, h⟩ := bind_eq_ok h
  obtain ⟨_, hnull, h⟩ := bind_eq_ok h
  have hsome := (Bool.or_eq_false_iff.mp (rejectIf_eq_ok hcondition)).2
  have halone : (decide (c.isNull = some true) && decide (1 < given')) = false := by
    have hnull := rejectIf_eq_ok hnull
    simp only [Bool.and_eq_false_iff, decide_eq_false_iff_not] at hnull ⊢
    exact hnull.imp_right fun hfew => by omega
  rw [hsome, Bool.or_false, decide_eq_false (by omega : ¬ given' = 0), htypes, halone]
  exact h

/-- Some operator has a value. -/
theorem holds_iff (c : Conditions) :
    (c.eq.isNone && c.neq.isNone && c.lt.isNone && c.lte.isNone && c.gt.isNone && c.gte.isNone &&
      c.in_.isNone &&
      c.notIn.isNone && c.isNull.isNone && c.regex.isNone && c.notRegex.isNone) = false ↔
    ∃ field, (c.entry field).isSome = true := by
  rw [← not_iff_not, not_exists, Bool.not_eq_false]
  simp only [Bool.and_eq_true, Option.isNone_iff_eq_none, Option.not_isSome_iff_eq_none]
  constructor
  · rintro ⟨⟨⟨⟨⟨⟨⟨⟨⟨⟨heq, hneq⟩, hlt⟩, hlte⟩, hgt⟩, hgte⟩, hin⟩, hnotIn⟩, hisNull⟩, hregex⟩,
      hnotRegex⟩ field
    cases field <;> simp only [entry, Option.map_eq_none_iff] <;> assumption
  · intro h
    have hnone {α : Type} {f : α → Entry} {x : Option α} (field : ConditionField)
        (hx : c.entry field = x.map f) :
        x = none := Option.map_eq_none_iff.mp (hx.symm.trans (h field))
    exact ⟨⟨⟨⟨⟨⟨⟨⟨⟨⟨hnone .eq rfl, hnone .neq rfl⟩, hnone .lt rfl⟩, hnone .lte rfl⟩, hnone .gt rfl⟩,
      hnone .gte rfl⟩, hnone .in_ rfl⟩, hnone .notIn rfl⟩, hnone .isNull rfl⟩, hnone .regex rfl⟩,
      hnone .notRegex rfl⟩

theorem exists_entry_of_validateLogic {given : Nat} (h : c.validateLogic given = .ok c) :
    ∃ field, (c.entry field).isSome = true := by
  obtain ⟨_, hcondition, -⟩ := bind_eq_ok h
  exact (holds_iff c).mp (Bool.or_eq_false_iff.mp (rejectIf_eq_ok hcondition)).2

theorem modelValidate_eq_ok_iff :
    modelValidate P raw = .ok c ↔ FieldsOk P raw c ∧ c.validateLogic raw.given = .ok c := by
  constructor
  · intro h
    obtain ⟨c', hfields, hlogic⟩ := bind_eq_ok h
    obtain rfl := eq_of_validateLogic hlogic
    exact ⟨fields_eq_ok_iff.mp (Checked.toExcept_eq_ok hfields), hlogic⟩
  · rintro ⟨hfields, hlogic⟩
    rw [modelValidate, fields_eq_ok_iff.mpr hfields]
    exact hlogic

theorem entry_ofList (f : ConditionField → Option Entry) :
    RawConditions.ofList (ConditionField.all.map f) = f := by
  funext field
  cases field with
  | _ => rfl

theorem mem_all (field : ConditionField) : field ∈ ConditionField.all := by
  cases field with
  | _ => decide

/-- An operator with a value was given, so conditions that hold one stay valid when only the values
are given. -/
theorem modelValidate_again (h : modelValidate P raw = .ok c) :
    modelValidate P c.entry = .ok c := by
  rw [modelValidate_eq_ok_iff] at h ⊢
  obtain ⟨hfields, hlogic⟩ := h
  refine ⟨hfields.again, validateLogic_again hlogic ?_ ?_⟩
  · obtain ⟨field, hfield⟩ := exists_entry_of_validateLogic hlogic
    exact List.length_pos_of_mem (List.mem_filter.mpr ⟨mem_all field, hfield⟩)
  · rw [RawConditions.given, RawConditions.given, ← List.countP_eq_length_filter,
      ← List.countP_eq_length_filter]
    apply List.countP_mono_left
    intro field _ hsome
    rw [hfields.entry_eq] at hsome
    exact Option.isSome_of_isSome_bind hsome

end Conditions

/-! What is read of the bytes. -/

/-- The bytes, if there are any. -/
def chunk {α : Type} (f : α → Except PyError Bytes) (x : α) : Bytes :=
  match f x with
  | .ok bytes => bytes
  | .error _ => []

theorem chunk_of_ok {α : Type} {f : α → Except PyError Bytes} {x : α} {bytes : Bytes}
    (h : f x = .ok bytes) :
    chunk f x = bytes := by
  rw [chunk, h]

theorem chunks_of_mapM {α : Type} {f : α → Except PyError Bytes} {l : List α} {chunks : List Bytes}
    (h : l.mapM f = .ok chunks) : (∀ x ∈ l, f x = .ok (chunk f x)) ∧ chunks = l.map (chunk f) := by
  have hall (x : α) (hx : x ∈ l) : f x = .ok (chunk f x) := by
    obtain ⟨bytes, hbytes⟩ := Pages.forall_of_mapM h x hx
    rw [chunk_of_ok hbytes, hbytes]
  exact ⟨hall, Except.ok.inj (h.symm.trans (Pages.mapM_of_forall hall))⟩

theorem flatMap_reduceOption {α β γ : Type} (f : α → Option β) (g : β → List γ) (l : List α) :
    (l.map f).reduceOption.flatMap g = l.flatMap fun x => ((f x).map g).getD [] := by
  induction l with
  | nil => rfl
  | cons x rest ih =>
      rw [List.map_cons, List.flatMap_cons, ← ih]
      cases f x with
      | none =>
          rw [List.reduceOption_cons_of_none, Option.map_none, Option.getD_none, List.nil_append]
      | some y =>
          rw [List.reduceOption_cons_of_some, List.flatMap_cons, Option.map_some, Option.getD_some]

/-- What is read of the bytes of an entry. -/
def Entry.transport (P : Platform) : Entry → Except PyError Entry
  | .null => .ok .null
  | .value v => (Search.transport P v).map .value
  | .values vs => (vs.mapM (Search.transport P)).map .values
  | .flag b => .ok (.flag b)

theorem reads_values {vs : List ConditionValue} {data : Bytes}
    (h : serializeEntry P (.values vs) = .ok data) :
    Decoder.Reads (Decoder.unsigned 1 >>= fun length =>
      Decoder.replicate length (deserializeConditionValue P) >>=
        fun vs => pure (Entry.values vs) : Reader Entry)
      data ((Entry.values vs).transport P) := by
  obtain ⟨count, hcount, h⟩ := bind_eq_ok h
  obtain ⟨chunks, hchunks, h⟩ := bind_eq_ok h
  obtain ⟨hserialize, rfl⟩ := chunks_of_mapM hchunks
  obtain rfl := Except.ok.inj h
  have hlength := lt_of_pack hcount
  obtain rfl : Decoder.digits 1 vs.length = count :=
    Except.ok.inj ((pack_of_lt hlength).symm.trans hcount)
  apply (Decoder.reads_unsigned hlength).then
  rw [← List.flatMap_def]
  exact (Decoder.reads_replicate fun v hv => reads_value (hserialize v hv)).map Entry.values

theorem reads_entry {field : ConditionField} {e : Entry} {data : Bytes}
    (hentry : c.entry field = some e) (h : serializeEntry P e = .ok data) :
    Decoder.Reads (readEntry P field) data (e.transport P) := by
  have hvalue {x : Option ConditionValue} (hx : x.map Entry.value = some e) :
      Decoder.Reads (deserializeConditionValue P >>= fun v => pure (Entry.value v) : Reader Entry)
      data
        (e.transport P) := by
    obtain ⟨v, -, rfl⟩ := Option.map_eq_some_iff.mp hx
    exact (reads_value h).map Entry.value
  have hpattern {x : Option PyStr} (hx : (x.map fun s => Entry.value (.str s)) = some e) :
      Decoder.Reads (deserializeConditionValue P >>= fun v => pure (Entry.value v) : Reader Entry)
      data
        (e.transport P) := by
    obtain ⟨s, -, rfl⟩ := Option.map_eq_some_iff.mp hx
    rw [serializeEntry] at h
    exact (reads_value h).map Entry.value
  cases field with
  | eq => exact hvalue hentry
  | neq => exact hvalue hentry
  | lt => exact hvalue hentry
  | lte => exact hvalue hentry
  | gt => exact hvalue hentry
  | gte => exact hvalue hentry
  | in_ =>
      obtain ⟨vs, -, rfl⟩ := Option.map_eq_some_iff.mp hentry
      exact reads_values h
  | notIn =>
      obtain ⟨vs, -, rfl⟩ := Option.map_eq_some_iff.mp hentry
      exact reads_values h
  | isNull =>
      obtain ⟨b, -, rfl⟩ := Option.map_eq_some_iff.mp hentry
      obtain rfl := Except.ok.inj h
      exact (reads_bool b).map_ok Entry.flag
  | regex => exact hpattern hentry
  | notRegex => exact hpattern hentry

namespace Conditions

/-- The sections that are written. -/
theorem serialize_eq_ok {data : Bytes} (h : c.serialize P = .ok data) :
    (∀ field e, c.entry field = some e → serializeEntry P e = .ok (chunk (serializeEntry P) e)) ∧
      data = Decoder.digits 2
      (Decoder.mask (ConditionField.all.map fun field => (c.entry field).isSome)) ++
        ConditionField.all.flatMap fun field =>
          ((c.entry field).map (chunk (serializeEntry P))).getD [] := by
  obtain ⟨chunks, hchunks, h⟩ := bind_eq_ok h
  obtain ⟨presence, hpresence, h⟩ := bind_eq_ok h
  obtain ⟨hserialize, rfl⟩ := chunks_of_mapM hchunks
  obtain rfl := Except.ok.inj ((pack_of_lt (lt_of_pack hpresence)).symm.trans hpresence)
  have hentries : c.entries = ConditionField.all.map c.entry := rfl
  constructor
  · intro field e he
    apply hserialize
    rw [hentries, List.reduceOption_mem_iff, List.mem_map]
    exact ⟨field, mem_all field, he⟩
  · obtain rfl := Except.ok.inj h
    rw [← List.flatMap_def, hentries, flatMap_reduceOption, List.map_map]
    rfl

/-- Conditions are written if each entry is. -/
theorem exists_serialize
    (h : ∀ field e, c.entry field = some e → ∃ bytes, serializeEntry P e = .ok bytes) :
    ∃ data, c.serialize P = .ok data := by
  have hentries : c.entries = ConditionField.all.map c.entry := rfl
  have hchunks : c.entries.reduceOption.mapM (serializeEntry P) =
      .ok (c.entries.reduceOption.map (chunk (serializeEntry P))) := by
    apply Pages.mapM_of_forall
    intro e he
    rw [hentries, List.reduceOption_mem_iff, List.mem_map] at he
    obtain ⟨field, -, he⟩ := he
    obtain ⟨bytes, hbytes⟩ := h field e he
    rw [chunk_of_ok hbytes, hbytes]
  have hmask : Decoder.mask (c.entries.map Option.isSome) < 256 ^ 2 := by
    have hlt : Decoder.mask (c.entries.map Option.isSome) < 2 ^ 11 :=
      Decoder.mask_lt (c.entries.map Option.isSome)
    omega
  rw [serialize, hchunks, ok_bind, pack_of_lt hmask]
  exact ⟨_, rfl⟩

/-- What is written for an operator, and what is read of it. -/
def sections (P : Platform) (c : Conditions) (field : ConditionField) :
    Option (Bytes × Except PyError Entry) :=
  (c.entry field).map fun e => (chunk (serializeEntry P) e, e.transport P)

/-- The conditions that are read, with what was set. -/
theorem reads_deserializeSet {data : Bytes} (h : c.serialize P = .ok data) :
    Decoder.Reads (deserializeSet P) data (do
      let values ← ConditionField.all.mapM fun field => Decoder.present (c.sections P field)
      (modelValidate P (RawConditions.ofList values)).map fun c' =>
        (RawConditions.ofList values, c')) := by
  obtain ⟨hserialize, rfl⟩ := serialize_eq_ok h
  have hmask :
      Decoder.mask (ConditionField.all.map fun field => (c.entry field).isSome) < 256 ^ 2 := by
    have hlt : Decoder.mask (ConditionField.all.map fun field => (c.entry field).isSome) < 2 ^ 11 :=
      Decoder.mask_lt (ConditionField.all.map fun field => (c.entry field).isSome)
    omega
  have hread : Decoder.Reads (Decoder.masked (ConditionField.all.map (readEntry P))
      (Decoder.mask (ConditionField.all.map fun field => (c.sections P field).isSome)))
      (ConditionField.all.flatMap fun field => ((c.sections P field).map Prod.fst).getD [])
      (ConditionField.all.mapM fun field => Decoder.present (c.sections P field)) := by
    apply Decoder.reads_masked
    intro field _ bytes result hwritten
    obtain ⟨e, he, hpair⟩ := Option.map_eq_some_iff.mp hwritten
    obtain ⟨rfl, rfl⟩ := Prod.mk.inj hpair
    exact reads_entry he (hserialize field e he)
  have hisSome (field : ConditionField) : (c.sections P field).isSome = (c.entry field).isSome :=
    Option.isSome_map
  have hbytes (field : ConditionField) :
      (c.sections P field).map Prod.fst = (c.entry field).map (chunk (serializeEntry P)) := by
    rw [sections, Option.map_map]
    rfl
  simp only [hisSome, hbytes] at hread
  apply (Decoder.reads_unsigned hmask).then
  rw [← List.append_nil (ConditionField.all.flatMap _)]
  exact hread.bind _ fun values _ => Decoder.reads_check (Decoder.reads_ofExcept _)

/-- The entries that are read, if all of them are. -/
theorem present_eq_ok {values : List (Option Entry)}
    (h : (ConditionField.all.mapM fun field => Decoder.present (c.sections P field)) = .ok values)
    (field : ConditionField) : (RawConditions.ofList values field).isSome = (c.entry field).isSome ∧
      ∀ e, c.entry field = some e → ∃ e', e.transport P = .ok e' ∧
      RawConditions.ofList values field = some e' := by
  have hall (field : ConditionField) : ∃ x, Decoder.present (c.sections P field) = .ok x :=
    Pages.forall_of_mapM h field (mem_all field)
  choose read hread using hall
  obtain rfl := Except.ok.inj (h.symm.trans (Pages.mapM_of_forall fun field _ => hread field))
  rw [entry_ofList]
  have hfield := hread field
  rw [sections] at hfield
  cases hentry : c.entry field with
  | none =>
      rw [hentry] at hfield
      obtain hnone : none = read field := Except.ok.inj hfield
      rw [← hnone]
      exact ⟨rfl, nofun⟩
  | some e =>
      rw [hentry, Option.map_some, Decoder.present] at hfield
      cases htransport : e.transport P with
      | error error =>
          rw [htransport] at hfield
          cases hfield
      | ok e' =>
          rw [htransport] at hfield
          obtain hsome : some e' = read field := Except.ok.inj hfield
          rw [← hsome]
          refine ⟨rfl, ?_⟩
          intro e'' he''
          obtain rfl := Option.some.inj he''
          exact ⟨e', htransport, rfl⟩

end Conditions

/-! Which entries come back. -/

theorem value_round_trips_iff (hP : P.Clock) {v : ConditionValue}
    (hrange : ∀ d, v = .datetime d → d.InRange) :
    ValueRoundTrips P v ↔ v.Portable P := by
  cases v with
  | int n => exact int_round_trips_iff P n
  | float x => exact float_round_trips_iff P x
  | str s => exact str_round_trips_iff P s
  | bool b => exact iff_of_true (bool_round_trips P b) trivial
  | datetime d => exact datetime_round_trips_iff hP (hrange d rfl)

theorem mapM_eq_self_iff {α ε : Type} {f : α → Except ε α} {l : List α} :
    l.mapM f = .ok l ↔ ∀ x ∈ l, f x = .ok x := by
  constructor
  · intro h
    induction l with
    | nil => simp
    | cons x rest ih =>
        rw [List.mapM_cons] at h
        obtain ⟨y, hy, h⟩ := bind_eq_ok h
        obtain ⟨others, hothers, h⟩ := bind_eq_ok h
        obtain ⟨rfl, rfl⟩ := List.cons_eq_cons.mp (Except.ok.inj h)
        exact List.forall_mem_cons.mpr ⟨hy, ih hothers⟩
  · intro h
    have hmap := Pages.mapM_of_forall (g := id) h
    rwa [List.map_id] at hmap

theorem exists_serializeEntry_values_iff {vs : List ConditionValue} :
    (∃ data, serializeEntry P (.values vs) = .ok data) ↔
      vs.length < 256 ∧ ∀ v ∈ vs, ∃ data, serializeConditionValue P v = .ok data := by
  constructor
  · rintro ⟨data, h⟩
    obtain ⟨count, hcount, h⟩ := bind_eq_ok h
    obtain ⟨chunks, hchunks, -⟩ := bind_eq_ok h
    exact ⟨lt_of_pack hcount, Pages.forall_of_mapM hchunks⟩
  · rintro ⟨hlength, hvalues⟩
    have hchunks :
        vs.mapM (serializeConditionValue P) = .ok (vs.map (chunk (serializeConditionValue P))) := by
      apply Pages.mapM_of_forall
      intro v hv
      obtain ⟨data, hdata⟩ := hvalues v hv
      rw [chunk_of_ok hdata, hdata]
    have hpack : pack 1 vs.length = .ok (Decoder.digits 1 vs.length) := pack_of_lt hlength
    rw [serializeEntry, hpack, ok_bind, hchunks]
    exact ⟨_, rfl⟩

/-- An entry is written and read back as it was exactly if it is portable. -/
theorem entry_kept_iff (hP : P.Clock) (hrange : c.InRange) {field : ConditionField} {e : Entry}
    (hentry : c.entry field = some e) :
    (∃ data, serializeEntry P e = .ok data) ∧ e.transport P = .ok e ↔ e.Portable P := by
  have hdates := hrange field e hentry
  cases e with
  | null => exact iff_of_true ⟨⟨_, rfl⟩, rfl⟩ trivial
  | flag b => exact iff_of_true ⟨⟨_, rfl⟩, rfl⟩ trivial
  | value v =>
      have hinRange (d : DateTime) (hd : v = .datetime d) : d.InRange := by
        subst hd
        exact hdates
      have htransport : (Entry.value v).transport P = .ok (.value v) ↔ transport P v = .ok v := by
        rw [Entry.transport]
        cases transport P v with
        | error e => exact iff_of_false nofun nofun
        | ok w => simp [Except.map]
      rw [htransport, Entry.Portable, ← value_round_trips_iff hP hinRange,
        round_trips_iff_transport]
      rfl
  | values vs =>
      have hinRange (v : ConditionValue) (hv : v ∈ vs) (d : DateTime) (hd : v = .datetime d) :
          d.InRange := by
        subst hd
        exact hdates d hv
      have htransport :
          (Entry.values vs).transport P = .ok (.values vs) ↔ ∀ v ∈ vs, transport P v = .ok v := by
        rw [Entry.transport, ← mapM_eq_self_iff]
        cases vs.mapM (transport P) with
        | error e => exact iff_of_false nofun nofun
        | ok ws => simp [Except.map]
      have hportable : (∀ v ∈ vs, v.Portable P) ↔
          ∀ v ∈ vs, (∃ data, serializeConditionValue P v = .ok data) ∧ transport P v = .ok v := by
        constructor
        · intro h v hv
          exact (round_trips_iff_transport P v).mp
            ((value_round_trips_iff hP (hinRange v hv)).mpr (h v hv))
        · intro h v hv
          exact (value_round_trips_iff hP (hinRange v hv)).mp
            ((round_trips_iff_transport P v).mpr (h v hv))
      rw [htransport, exists_serializeEntry_values_iff, Entry.Portable, hportable,
        forall₂_and, and_assoc]

theorem eq_of_parsed_transport {v w : ConditionValue} (h : transport P v = .ok w)
    (hparsed : parseDatetime P w = v) :
    w = v := by
  cases v with
  | int n =>
      obtain rfl := Except.ok.inj h
      exact hparsed
  | datetime d =>
      obtain ⟨millis, -, h⟩ := bind_eq_ok h
      cases hread : DateTime.ofMillis P millis.toNat with
      | error e =>
          rw [hread] at h
          cases h
      | ok d' =>
          rw [hread] at h
          obtain rfl := Except.ok.inj h
          exact hparsed
  | _ => exact (Except.ok.inj h).symm

theorem map_eq_ok {α β ε : Type} {f : α → β} {x : Except ε α} {b : β} (h : x.map f = .ok b) :
    ∃ a, x = .ok a ∧ f a = b := by
  cases x with
  | error e => cases h
  | ok a => exact ⟨a, rfl, Except.ok.inj h⟩

theorem eq_of_parsed_mapM {vs ws : List ConditionValue} (h : vs.mapM (transport P) = .ok ws)
    (hparsed : ws.map (parseDatetime P) = vs) : ws = vs := by
  induction vs generalizing ws with
  | nil => exact List.map_eq_nil_iff.mp hparsed
  | cons v rest ih =>
      rw [List.mapM_cons] at h
      obtain ⟨w, hw, h⟩ := bind_eq_ok h
      obtain ⟨others, hothers, h⟩ := bind_eq_ok h
      obtain rfl := Except.ok.inj h
      obtain ⟨hhead, htail⟩ := List.cons_eq_cons.mp hparsed
      rw [eq_of_parsed_transport hw hhead, ih hothers htail]

/-- An entry that validation takes back to what was written has been read as that. -/
theorem eq_of_parsed {field : ConditionField} {e e' : Entry} (h : e.transport P = .ok e')
    (hparsed : e'.parsed P field = some e) : e' = e := by
  cases e with
  | null =>
      obtain rfl := Except.ok.inj h
      cases hparsed
  | flag b => exact (Except.ok.inj h).symm
  | value v =>
      obtain ⟨w, hw, rfl⟩ := map_eq_ok h
      have hvalue := Entry.value.inj (Option.some.inj hparsed)
      split at hvalue
      · rw [hvalue]
      · rw [eq_of_parsed_transport hw hvalue]
  | values vs =>
      obtain ⟨ws, hws, rfl⟩ := map_eq_ok h
      rw [eq_of_parsed_mapM hws (Entry.values.inj (Option.some.inj hparsed))]

namespace Conditions

theorem mem_clauses {clause : ConditionField × Option Entry} :
    clause ∈ c.clauses raw ↔ (raw clause.1).isSome = true ∧ clause.2 = c.entry clause.1 := by
  obtain ⟨field, value⟩ := clause
  rw [clauses, List.mem_map]
  constructor
  · rintro ⟨field', hfield, heq⟩
    obtain ⟨rfl, rfl⟩ := Prod.mk.inj heq
    exact ⟨(List.mem_filter.mp hfield).2, rfl⟩
  · rintro ⟨hgiven, hvalue⟩
    exact ⟨field, List.mem_filter.mpr ⟨mem_all field, hgiven⟩, Prod.ext rfl hvalue.symm⟩

/-- The clauses that are read tell that nothing was null, and that each entry came back as it
was. -/
theorem kept_of_keepsClauses (h : modelValidate P raw = .ok c) (hkeeps : c.KeepsClauses P raw) :
    (∀ field, raw field ≠ some .null) ∧
      ∀ field e, c.entry field = some e → (∃ data, serializeEntry P e = .ok data) ∧
      e.transport P = .ok e := by
  have hfields := (modelValidate_eq_ok_iff.mp h).1
  obtain ⟨data, raw', c', hserialize, hreads, hperm⟩ := hkeeps
  obtain ⟨values, hvalues, hresult⟩ := bind_eq_ok ((reads_deserializeSet hserialize).eq_ok hreads)
  obtain ⟨c'', hvalidate, hpair⟩ := map_eq_ok hresult
  obtain ⟨rfl, rfl⟩ := Prod.mk.inj hpair
  have hfields' := (modelValidate_eq_ok_iff.mp hvalidate).1
  constructor
  · intro field hnull
    have hentry : c.entry field = none := by
      rw [hfields.entry_eq, hnull]
      rfl
    have hclause : (field, none) ∈ c.clauses raw :=
      mem_clauses.mpr ⟨by rw [hnull]; rfl, hentry.symm⟩
    have hgiven := (mem_clauses.mp (hperm.mem_iff.mp hclause)).1
    rw [(present_eq_ok hvalues field).1, hentry] at hgiven
    cases hgiven
  · intro field e hentry
    refine ⟨⟨_, (serialize_eq_ok hserialize).1 field e hentry⟩, ?_⟩
    have hgiven : (raw field).isSome = true := by
      rw [hfields.entry_eq] at hentry
      exact Option.isSome_of_isSome_bind (Option.isSome_of_eq_some hentry)
    have hclause : (field, some e) ∈ c.clauses raw := mem_clauses.mpr ⟨hgiven, hentry.symm⟩
    have hentry' := (mem_clauses.mp (hperm.mem_iff.mp hclause)).2
    obtain ⟨e', htransport, hread⟩ := (present_eq_ok hvalues field).2 e hentry
    rw [hfields'.entry_eq, hread] at hentry'
    rw [htransport, eq_of_parsed htransport hentry'.symm]

theorem keepsClauses_of_kept (h : modelValidate P raw = .ok c)
    (hnull : ∀ field, raw field ≠ some .null) (hkept : ∀ field e, c.entry field = some e →
      (∃ data, serializeEntry P e = .ok data) ∧ e.transport P = .ok e) :
    c.KeepsClauses P raw := by
  have hfields := (modelValidate_eq_ok_iff.mp h).1
  obtain ⟨data, hserialize⟩ := exists_serialize fun field e hentry => (hkept field e hentry).1
  have hvalues : (ConditionField.all.mapM fun field => Decoder.present (c.sections P field)) =
      .ok (ConditionField.all.map c.entry) := by
    apply Pages.mapM_of_forall
    intro field _
    rw [sections]
    cases hentry : c.entry field with
    | none => rfl
    | some e =>
        rw [Option.map_some, Decoder.present, (hkept field e hentry).2]
        rfl
  have hreads := reads_deserializeSet hserialize
  rw [hvalues, ok_bind, entry_ofList, modelValidate_again h] at hreads
  refine ⟨data, c.entry, c, hserialize, hreads, ?_⟩
  have hgiven (field : ConditionField) : (raw field).isSome = (c.entry field).isSome := by
    rw [hfields.entry_eq]
    cases hraw : raw field with
    | none => rfl
    | some e =>
        cases e with
        | null => exact absurd hraw (hnull field)
        | _ => rfl
  rw [clauses, clauses]
  simp only [hgiven]
  exact List.Perm.refl _

end Conditions

/-- Accepted conditions make the same clauses after transport exactly if no operator was given as
null, and every value is portable. -/
theorem conditions_keep_clauses_iff (hP : P.Clock) (hrange : c.InRange)
    (h : Conditions.modelValidate P raw = .ok c) :
    c.KeepsClauses P raw ↔ (∀ field, raw field ≠ some .null) ∧ c.Portable P := by
  constructor
  · intro hkeeps
    obtain ⟨hnull, hkept⟩ := Conditions.kept_of_keepsClauses h hkeeps
    exact ⟨hnull, fun field e hentry => (entry_kept_iff hP hrange hentry).mp (hkept field e hentry)⟩
  · rintro ⟨hnull, hportable⟩
    apply Conditions.keepsClauses_of_kept h hnull
    exact fun field e hentry => (entry_kept_iff hP hrange hentry).mpr (hportable field e hentry)

/-- Some seconds after one in 2023. -/
def moment (seconds micros : Int) : DateTime := ⟨(1700000000 + seconds) * 10 ^ 6 + micros, none⟩

section Moment

variable {seconds micros : Int}

theorem inRange_moment (hs : 0 ≤ seconds) (hs' : seconds < 2 ^ 32) (hu : 0 ≤ micros)
    (hu' : micros < 10 ^ 6) :
    (moment seconds micros).InRange := by
  dsimp only [moment, DateTime.InRange]
  omega

/-- On a clock that shows UTC, whole milliseconds of which the doubles do not fall short are
kept. -/
theorem preserved_moment (hs : 0 ≤ seconds) (hs' : seconds < 2 ^ 32) (hu : 0 ≤ micros)
    (hu' : micros < 10 ^ 6) (hwhole : micros % 1000 = 0)
    (hdouble : ((((1700000000 + seconds) * 10 ^ 6 + micros) / 1000 : Int) : Rat) ≤
      nearestDouble (clockFloat (1700000000 + seconds) micros * 1000)) :
    (moment seconds micros).Preserved Platform.utc := by
  have hsecond : (moment seconds micros).wall / 10 ^ 6 = 1700000000 + seconds := by
    dsimp only [moment]
    omega
  have hmicros : (moment seconds micros).wall % 10 ^ 6 = micros := by
    dsimp only [moment]
    omega
  refine ⟨rfl, 1700000000 + seconds, congrArg Except.ok hsecond, by omega,
    congrArg Except.ok hsecond.symm, ?_⟩
  rw [hmicros]
  exact (readMicros_sentMillis_iff hu hu' (by omega) (by omega)).mpr ⟨hwhole, hdouble⟩

end Moment

/-- From half a second into one second of 2023 to the next day, apart from three moments, and
matching a pattern. -/
def withinADay : Conditions :=
  { eq := none
    neq := some (.datetime (moment 60 0))
    lt := some (.datetime (moment 86400 0))
    lte := none
    gt := none
    gte := some (.datetime (moment 0 500000))
    in_ := none
    notIn := some [.datetime (moment 7 750000), .datetime (moment 3600 125000)]
    isNull := none
    regex := some (.ofString "ranked")
    notRegex := none }

theorem inRange_withinADay : withinADay.InRange := by
  intro field e h
  cases field with
  | neq | lt | gte =>
      obtain rfl := Option.some.inj h
      exact inRange_moment (by omega) (by omega) (by omega) (by omega)
  | notIn =>
      obtain rfl := Option.some.inj h
      intro d hd
      obtain heq | hd := List.mem_cons.mp hd
      · rw [ConditionValue.datetime.inj heq]
        exact inRange_moment (by omega) (by omega) (by omega) (by omega)
      · rw [ConditionValue.datetime.inj (List.mem_singleton.mp hd)]
        exact inRange_moment (by omega) (by omega) (by omega) (by omega)
  | regex =>
      obtain rfl := Option.some.inj h
      trivial
  | _ => cases h

theorem portable_withinADay : withinADay.Portable Platform.utc := by
  intro field e h
  cases field with
  | neq | lt | gte =>
      obtain rfl := Option.some.inj h
      exact preserved_moment (by omega) (by omega) (by omega) (by omega) (by omega)
        (by decide +kernel)
  | notIn =>
      obtain rfl := Option.some.inj h
      refine ⟨by decide, ?_⟩
      intro v hv
      obtain rfl | hv := List.mem_cons.mp hv
      · exact preserved_moment (by omega) (by omega) (by omega) (by omega) (by omega)
          (by decide +kernel)
      · obtain rfl := List.mem_singleton.mp hv
        exact preserved_moment (by omega) (by omega) (by omega) (by omega) (by omega)
          (by decide +kernel)
  | regex =>
      obtain rfl := Option.some.inj h
      intro p hp
      obtain ⟨character, -, rfl⟩ := List.mem_map.mp hp
      exact ⟨character, rfl⟩
  | _ => cases h

theorem keeps_clauses_withinADay :
    withinADay.KeepsClauses Platform.utc withinADay.entry ∧
      ∃ data c', withinADay.serialize Platform.utc = .ok data ∧
        Decoder.Reads (Conditions.deserialize Platform.utc) data (.ok c') ∧
        ∃ raw', (withinADay.clauses withinADay.entry).Perm (c'.clauses raw') := by
  have hnull (field : ConditionField) : withinADay.entry field ≠ some .null := by
    cases field <;> nofun
  have hkeeps : withinADay.KeepsClauses Platform.utc withinADay.entry :=
    (conditions_keep_clauses_iff Platform.utc_clock inRange_withinADay rfl).mpr
      ⟨hnull, portable_withinADay⟩
  exact ⟨hkeeps, hkeeps.deserialize⟩

/-- Equal to 5. -/
def isFive : Conditions :=
  ⟨some (.int 5), none, none, none, none, none, none, none, none, none, none⟩

/-- `{"eq": 5, "neq": null}` compares with null before its transport, and does not after it. -/
theorem null_operator_lost :
    Conditions.modelValidate Platform.utc
    (RawConditions.ofList [some (.value (.int 5)), some .null]) = .ok isFive ∧
      ¬ isFive.KeepsClauses Platform.utc
      (RawConditions.ofList [some (.value (.int 5)), some .null]) := by
  refine ⟨rfl, ?_⟩
  intro hkeeps
  exact (Conditions.kept_of_keepsClauses rfl hkeeps).1 .neq rfl

end

end Graveboards.Search
