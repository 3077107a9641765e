import Graveboards.Search.Values

/-!
The conditions on one field: validation as pydantic runs it, which collects the faults
of the fields but lets any other error through, and the bytes with a mask of the
operators that are present.
-/

namespace Graveboards.Search

open Graveboards.Library

/-! Validation that collects faults. -/

/-- `raised`: an error that is no ValueError ends the validation at once. -/
inductive Checked (α : Type) where
  | ok (a : α)
  | faults (found : List Fault)
  | raised (e : PyError)

namespace Checked

variable {α β : Type}

def seq : Checked (α → β) → Checked α → Checked β
  | .raised e, _ => .raised e
  | _, .raised e => .raised e
  | .faults found, .faults others => .faults (found ++ others)
  | .faults found, .ok _ => .faults found
  | .ok _, .faults found => .faults found
  | .ok f, .ok a => .ok (f a)

instance : Applicative Checked where
  pure := .ok
  seq f x := seq f (x ())

def raised? : Checked α → Option PyError
  | .raised e => some e
  | _ => none

@[simp] theorem raised?_seq (f : Checked (α → β)) (x : Checked α) :
    (f <*> x).raised? = f.raised?.or x.raised? := by
  cases f <;> cases x <;> rfl

@[simp] theorem raised?_map (f : α → β) (x : Checked α) : (f <$> x).raised? = x.raised? := by
  cases x <;> rfl

def toExcept : Checked α → Except PyError α
  | .ok a => .ok a
  | .faults found => .error (.validationError found)
  | .raised e => .error e

theorem toExcept_raised {x : Checked α} {e : PyError} (h : x.raised? = some e) :
    x.toExcept = .error e := by
  cases x with
  | raised e' =>
      obtain rfl := Option.some.inj h
      rfl
  | _ => cases h

end Checked

/-- Every error is one that the endpoint catches. -/
def AllCaught {α : Type} (r : Except PyError α) : Prop := ∀ e, r = .error e → e.isCaught = true

section AllCaught

variable {α β : Type}

theorem allCaught_ok (a : α) : AllCaught (.ok a : Except PyError α) := nofun

theorem allCaught_error {e : PyError} (h : e.isCaught = true) :
    AllCaught (.error e : Except PyError α) := by
  intro e' he
  obtain rfl := Except.error.inj he
  exact h

theorem AllCaught.bind {x : Except PyError α} {f : α → Except PyError β} (hx : AllCaught x)
    (hf : ∀ a, AllCaught (f a)) : AllCaught (x >>= f) := by
  cases x with
  | error e => exact allCaught_error (hx e rfl)
  | ok a => exact hf a

theorem AllCaught.ite {p : Prop} [Decidable p] {x y : Except PyError α} (hx : AllCaught x)
    (hy : AllCaught y) : AllCaught (if p then x else y) := by
  split
  · exact hx
  · exact hy

theorem AllCaught.forM {f : α → Except PyError Unit} (h : ∀ a, AllCaught (f a)) (l : List α) :
    AllCaught (l.forM f) := by
  induction l with
  | nil => exact allCaught_ok ()
  | cons a rest ih =>
      exact (h a).bind fun _ => ih

theorem Checked.allCaught_toExcept {x : Checked α} (h : x.raised? = none) :
    AllCaught x.toExcept := by
  cases x with
  | ok a => exact allCaught_ok a
  | faults found => exact allCaught_error rfl
  | raised e => cases h

end AllCaught

/-! Comparing values as Python does. -/

/-- A number, in units of the smallest positive double. -/
inductive Extended where
  | nan
  | infinite (negative : Bool)
  | finite (units : Int)
  deriving DecidableEq

def Extended.less : Extended → Extended → Bool
  | .nan, _ | _, .nan => false
  | .infinite true, y => y != .infinite true
  | .infinite false, _ => false
  | .finite _, .infinite negative => !negative
  | .finite m, .finite n => m < n

def Extended.same (x y : Extended) : Bool := x = y && x != .nan

namespace ConditionValue

def number? : ConditionValue → Option Extended
  | .int n => some (.finite (n * 2 ^ 1074))
  | .bool b => some (.finite (if b then 2 ^ 1074 else 0))
  | .float .nan => some .nan
  | .float (.infinite negative) => some (.infinite negative)
  | .float (.finite negative magnitude) =>
      some (.finite (if negative then -magnitude else magnitude))
  | .str _ | .datetime _ => none

/-- `a == b`. -/
def equals (a b : ConditionValue) : Bool :=
  match a, b with
  | .str s, .str t => s = t
  | .datetime ⟨wall, none⟩, .datetime ⟨wall', none⟩ => wall = wall'
  | .datetime ⟨wall, some offset⟩, .datetime ⟨wall', some offset'⟩ =>
      wall - offset = wall' - offset'
  | a, b =>
      match a.number?, b.number? with
      | some x, some y => x.same y
      | _, _ => false

/-- `a < b`. -/
def less (a b : ConditionValue) : Except PyError Bool :=
  match a, b with
  | .str s, .str t => .ok (decide (s.map PyStr.codePoint < t.map PyStr.codePoint))
  | .datetime ⟨wall, none⟩, .datetime ⟨wall', none⟩ => .ok (wall < wall')
  | .datetime ⟨wall, some offset⟩, .datetime ⟨wall', some offset'⟩ =>
      .ok (wall - offset < wall' - offset')
  | .datetime _, .datetime _ =>
      .error (.typeError "can't compare offset-naive and offset-aware datetimes")
  | a, b =>
      match a.number?, b.number? with
      | some x, some y => .ok (x.less y)
      | _, _ => .error (.typeError "not supported between these instances")

/-- `a > b`, or `a >= b` where they may meet. -/
def exceeds (a b : ConditionValue) (orEqual : Bool) : Except PyError Bool := do
  let greater ← b.less a
  pure (greater || (orEqual && a.equals b))

def isNumeric (v : ConditionValue) : Bool := v.number?.isSome

end ConditionValue

/-! The conditions. -/

structure Conditions where
  eq : Option ConditionValue
  neq : Option ConditionValue
  lt : Option ConditionValue
  lte : Option ConditionValue
  gt : Option ConditionValue
  gte : Option ConditionValue
  in_ : Option (List ConditionValue)
  notIn : Option (List ConditionValue)
  isNull : Option Bool
  regex : Option PyStr
  notRegex : Option PyStr
  deriving DecidableEq

/-- What is given for one operator before it is validated. -/
inductive Entry where
  | null
  | value (v : ConditionValue)
  | values (vs : List ConditionValue)
  | flag (b : Bool)
  deriving DecidableEq

/-- `ConditionFieldFlag`, the lowest bit first. -/
def ConditionField.all : List ConditionField :=
  [.eq, .neq, .lt, .lte, .gt, .gte, .in_, .notIn, .isNull, .regex, .notRegex]

abbrev RawConditions := ConditionField → Option Entry

def RawConditions.ofList (entries : List (Option Entry)) : RawConditions := fun field =>
  entries.getD (ConditionField.all.idxOf field) none

def RawConditions.given (raw : RawConditions) : Nat :=
  (ConditionField.all.filter fun field => (raw field).isSome).length

def maxRegexLength : Nat := 100
def maxGroups : Nat := 10

/-- `DANGEROUS_PATTERNS`, a set: the order only decides which message is raised. -/
def dangerousPatterns : List String :=
  ["\\(\\?<=.*?\\)", "\\(\\?<!.*?\\)", "\\\\\\d+", "\\(\\?P<.*?>", "\\(\\?[^:=!#]"]

def suspiciousPatterns : List String :=
  ["\\(\\s*\\.\\*\\s*\\)\\+", "\\(\\s*\\.\\+\\s*\\)\\+", "\\(\\s*.+\\*\\s*\\)\\+",
    "\\(\\s*\\.\\*\\s*\\)\\\x7b2,\x7d", "(\\.\\*)\x7b2,\x7d"]

def contains (needle : String) (s : PyStr) : Bool := s.tails.any (PyStr.ofString needle).isPrefixOf

def validateRegex (P : Platform) (value : PyStr) : Checked PyStr :=
  if maxRegexLength < value.length then .faults [.tooLong]
  else if value.isBlank then .faults [.emptyPattern]
  else if P.search "\\.\\*\\.\\*" value || (contains ".+" value && value.length < 10) then
    .faults [.overlyGreedy]
  else if P.search "\\([^)]*[+*]\\)[+*]" value then .faults [.nestedQuantifiers]
  else
    match dangerousPatterns.find? (P.search · value),
      suspiciousPatterns.find? (P.search · value) with
    | some pattern, _ => .faults [.disallowedFeature pattern]
    | none, some pattern => .faults [.catastrophicBacktracking pattern]
    | none, none =>
        match P.compile value with
        | .error message => .faults [.invalidRegex message]
        | .overflow message => .raised (.overflowError message)
        | .groups count => if maxGroups < count then .faults [.tooManyGroups] else .ok value

def parseDatetime (P : Platform) : ConditionValue → ConditionValue
  | .str s => ((P.fromisoformat s).map .datetime).getD (.str s)
  | v => v

def validateSequenceTypes (field : ConditionField) (vs : List ConditionValue) :
    Checked (List ConditionValue) :=
  match vs with
  | [] => .ok []
  | base :: rest =>
      match rest.find? fun v => v.type != base.type with
      | some v => .faults [.mixedSequence field base.type v.type]
      | none => .ok vs

def scalarField (P : Platform) (raw : RawConditions) (field : ConditionField) :
    Checked (Option ConditionValue) :=
  match raw field with
  | none | some .null => .ok none
  | some (.value v) => .ok (some (parseDatetime P v))
  | some _ => .faults [.wrongType field]

def sequenceField (P : Platform) (raw : RawConditions) (field : ConditionField) :
    Checked (Option (List ConditionValue)) :=
  match raw field with
  | none | some .null => .ok none
  | some (.values vs) => some <$> validateSequenceTypes field (vs.map (parseDatetime P))
  | some _ => .faults [.wrongType field]

def flagField (raw : RawConditions) (field : ConditionField) : Checked (Option Bool) :=
  match raw field with
  | none | some .null => .ok none
  | some (.flag b) => .ok (some b)
  | some _ => .faults [.wrongType field]

/-- The text that is given for a regex. -/
def RawConditions.text (raw : RawConditions) (field : ConditionField) : Option PyStr :=
  match raw field with
  | some (.value (.str s)) => some s
  | _ => none

def regexField (P : Platform) (raw : RawConditions) (field : ConditionField) :
    Checked (Option PyStr) :=
  match raw.text field with
  | some s => some <$> validateRegex P s
  | none =>
      match raw field with
      | none | some .null => .ok none
      | some _ => .faults [.wrongType field]

namespace Conditions

def valuesForValidation (c : Conditions) : List ConditionValue :=
  [c.eq, c.neq, c.lt, c.lte, c.gt, c.gte].reduceOption ++ (c.in_.getD [] ++ c.notIn.getD [])

def comparable (base v : ConditionValue) : Bool :=
  (base.isNumeric && v.isNumeric) || base.type = v.type

def reject (fault : Fault) : Except PyError Unit := .error (.validationError [fault])

def rejectIf (b : Bool) (fault : Fault) : Except PyError Unit := if b then reject fault else .ok ()

def ensureComparableTypes (values : List ConditionValue) : Except PyError Unit :=
  match values with
  | [] => .ok ()
  | base :: rest =>
      match rest.find? fun v => !comparable base v with
      | some v => reject (.notComparable base.type v.type)
      | none => .ok ()

/-- `is not None` of both, and what follows. -/
def range (lower upper : ConditionField) (low high : Option ConditionValue) (orEqual : Bool) :
    Except PyError Unit :=
  match low, high with
  | some low, some high => do
      let invalid ← low.exceeds high orEqual
      rejectIf invalid (.invalidRange lower upper (low, high))
  | _, _ => .ok ()

def holdsValue (values : Option (List ConditionValue)) (v : ConditionValue) : Bool :=
  (values.getD []).any (·.equals v)

def eqConflicts (c : Conditions) : Except PyError Unit :=
  match c.eq with
  | some eq => do
      rejectIf (c.neq.any (·.equals eq)) .eqIsNeq
      rejectIf (!(c.in_.getD []).isEmpty && !holdsValue c.in_ eq) .eqNotInIn
      rejectIf (holdsValue c.notIn eq) .eqInNotIn
  | none => .ok ()

/-- `given`: the number of operators that were set, to None or a value. -/
def validateLogic (c : Conditions) (given : Nat) : Except PyError Conditions := do
  rejectIf (given = 0 || c.eq.isNone && c.neq.isNone && c.lt.isNone && c.lte.isNone &&
    c.gt.isNone && c.gte.isNone &&
    c.in_.isNone && c.notIn.isNone && c.isNull.isNone && c.regex.isNone && c.notRegex.isNone)
    .noCondition
  ensureComparableTypes c.valuesForValidation
  rejectIf (c.isNull = some true && 1 < given) .nullWithOthers
  eqConflicts c
  rejectIf (c.gt.isSome && c.gte.isSome) .twoLowerBounds
  rejectIf (c.lt.isSome && c.lte.isSome) .twoUpperBounds
  range .gt .lt c.gt c.lt true
  range .gt .lte c.gt c.lte true
  range .gte .lt c.gte c.lt true
  range .gte .lte c.gte c.lte false
  pure c

def fields (P : Platform) (raw : RawConditions) : Checked Conditions :=
  Conditions.mk <$> scalarField P raw .eq <*> scalarField P raw .neq <*> scalarField P raw .lt <*>
    scalarField P raw .lte <*> scalarField P raw .gt <*> scalarField P raw .gte <*>
    sequenceField P raw .in_ <*>
    sequenceField P raw .notIn <*> flagField raw .isNull <*> regexField P raw .regex <*>
    regexField P raw .notRegex

/-- `Conditions.model_validate` of a dictionary with valid keys. -/
def modelValidate (P : Platform) (raw : RawConditions) : Except PyError Conditions := do
  let c ← (fields P raw).toExcept
  c.validateLogic raw.given

def entries (c : Conditions) : List (Option Entry) :=
  [c.eq.map .value, c.neq.map .value, c.lt.map .value, c.lte.map .value, c.gt.map .value,
    c.gte.map .value, c.in_.map .values, c.notIn.map .values, c.isNull.map .flag,
    c.regex.map fun s => .value (.str s),
    c.notRegex.map fun s => .value (.str s)]

end Conditions

def serializeEntry (P : Platform) : Entry → Except PyError Bytes
  | .null => .ok []
  | .value v => serializeConditionValue P v
  | .values vs => do
      let count ← pack 1 vs.length
      let chunks ← vs.mapM (serializeConditionValue P)
      pure (count ++ chunks.flatten)
  | .flag b => .ok (boolByte b)

def Conditions.serialize (P : Platform) (c : Conditions) : Except PyError Bytes := do
  let chunks ← c.entries.reduceOption.mapM (serializeEntry P)
  let presence ← pack 2 (Decoder.mask (c.entries.map Option.isSome))
  pure (presence ++ chunks.flatten)

def readEntry (P : Platform) : ConditionField → Reader Entry
  | .in_ | .notIn => do
      let length ← Decoder.unsigned 1
      return .values (← Decoder.replicate length (deserializeConditionValue P))
  | .isNull => return .flag (← readBool)
  | _ => return .value (← deserializeConditionValue P)

def Conditions.deserialize (P : Platform) : Reader Conditions := do
  let presence ← Decoder.unsigned 2
  let values ← Decoder.masked (ConditionField.all.map (readEntry P)) presence
  let raw := RawConditions.ofList values
  .check (.patterns (raw.text .regex) (raw.text .notRegex))
    (.ofExcept (Conditions.modelValidate P raw))

/-! Which errors a decoder raises. -/

/-- What `re.compile` raises on a given text, if no other check comes first. -/
def regexOverflow (P : Platform) (text : Option PyStr) : Option PyError :=
  text.bind fun s => (validateRegex P s).raised?

/-- The timestamp is one the platform converts, or rejects with a ValueError; no pattern
has a repetition count that is too large for `re`. -/
def Noted.isFine (P : Platform) : Noted → Bool
  | .millis n =>
      match DateTime.ofMillis P n with
      | .ok _ => true
      | .error e => e.isCaught
  | .patterns regex notRegex => ((regexOverflow P regex).or (regexOverflow P notRegex)).isNone

/-- Every error of the decoder is caught, as long as what it hands on is fine. -/
def Guarded (P : Platform) {α : Type} (reader : Reader α) : Prop :=
  Decoder.Guarded (Noted.isFine P) PyError.isCaught reader

section Guarded

variable {P : Platform} {α β : Type}

theorem Guarded.bind {reader : Reader α} {next : α → Reader β} (h : Guarded P reader)
    (hnext : ∀ a, Guarded P (next a)) : Guarded P (reader >>= next) :=
  Decoder.guarded_bind h hnext

theorem guarded_pure (a : α) : Guarded P (pure a : Reader α) := trivial

theorem guarded_ofExcept {r : Except PyError α} (h : AllCaught r) : Guarded P (.ofExcept r) :=
  Decoder.guarded_ofExcept h

theorem guarded_unsigned (width : Nat) : Guarded P (Decoder.unsigned width) := fun _ => trivial

theorem guarded_readSignedByte : Guarded P readSignedByte := fun _ => trivial

theorem guarded_readBool : Guarded P readBool := fun _ => trivial

theorem guarded_readText (length : Nat) : Guarded P (readText length) := by
  intro bytes
  apply guarded_ofExcept
  unfold decodeText
  split
  · exact allCaught_ok _
  · exact allCaught_error rfl

theorem guarded_millis (millis : Nat) :
    Guarded P
    (.check (.millis millis)
      (.ofExcept ((DateTime.ofMillis P millis).map ConditionValue.datetime))) := by
  unfold Guarded Decoder.Guarded
  cases h : DateTime.ofMillis P millis with
  | ok d => simp [Noted.isFine, h, Decoder.ofExcept, Except.map, Decoder.Guarded]
  | error e =>
      cases hcaught : e.isCaught with
      | true => simp [Noted.isFine, h, hcaught, Decoder.ofExcept, Except.map, Decoder.Guarded]
      | false => simp [Noted.isFine, h, hcaught, Decoder.ofExcept, Except.map]

theorem guarded_deserializeConditionValue : Guarded P (deserializeConditionValue P) := by
  apply (guarded_unsigned 1).bind
  intro typeId
  split
  · exact guarded_readSignedByte.bind fun n => guarded_pure _
  · exact fun zz => guarded_pure _
  · exact (guarded_unsigned 1).bind fun n => guarded_pure _
  · exact fun value => guarded_pure _
  · exact (guarded_unsigned 2).bind fun bits => guarded_pure _
  · exact (guarded_unsigned 4).bind fun bits => guarded_pure _
  · exact (guarded_unsigned 8).bind fun bits => guarded_pure _
  · exact fun length => (guarded_readText length).bind fun s => guarded_pure _
  · exact guarded_readBool.bind fun b => guarded_pure _
  · exact guarded_millis
  · rfl

theorem guarded_readEntry (field : ConditionField) : Guarded P (readEntry P field) := by
  unfold readEntry
  split
  · apply (guarded_unsigned 1).bind
    intro length
    apply Guarded.bind
    · exact Decoder.guarded_replicate guarded_deserializeConditionValue length
    · exact fun vs => guarded_pure _
  · apply (guarded_unsigned 1).bind
    intro length
    apply Guarded.bind
    · exact Decoder.guarded_replicate guarded_deserializeConditionValue length
    · exact fun vs => guarded_pure _
  · exact guarded_readBool.bind fun b => guarded_pure _
  · exact guarded_deserializeConditionValue.bind fun v => guarded_pure _

theorem raised?_validateRegex {s : PyStr} {e : PyError} (h : (validateRegex P s).raised? = some e) :
    e.isCaught = false := by
  unfold validateRegex at h
  split_ifs at h
  all_goals try cases h
  split at h
  · cases h
  · cases h
  · split at h
    · cases h
    · obtain rfl := Option.some.inj h
      rfl
    · split at h <;> cases h

theorem raised?_scalarField (raw : RawConditions) (field : ConditionField) :
    (scalarField P raw field).raised? = none := by
  unfold scalarField
  split <;> rfl

theorem raised?_validateSequenceTypes (field : ConditionField) (vs : List ConditionValue) :
    (validateSequenceTypes field vs).raised? = none := by
  unfold validateSequenceTypes
  split
  · rfl
  · split <;> rfl

theorem raised?_sequenceField (raw : RawConditions) (field : ConditionField) :
    (sequenceField P raw field).raised? = none := by
  unfold sequenceField
  split
  · rfl
  · rfl
  · rw [Checked.raised?_map, raised?_validateSequenceTypes]
  · rfl

theorem raised?_flagField (raw : RawConditions) (field : ConditionField) :
    (flagField raw field).raised? = none := by
  unfold flagField
  split <;> rfl

theorem raised?_regexField (raw : RawConditions) (field : ConditionField) :
    (regexField P raw field).raised? = regexOverflow P (raw.text field) := by
  unfold regexField
  split
  case h_1 s htext =>
      rw [Checked.raised?_map, htext]
      rfl
  case h_2 htext =>
      rw [htext]
      split <;> rfl

theorem raised?_fields (raw : RawConditions) :
    (Conditions.fields P raw).raised? =
      (regexOverflow P (raw.text .regex)).or (regexOverflow P (raw.text .notRegex)) := by
  simp [Conditions.fields, raised?_scalarField, raised?_sequenceField, raised?_flagField,
    raised?_regexField]

theorem allCaught_rejectIf (b : Bool) (fault : Fault) :
    AllCaught (Conditions.rejectIf b fault) := by
  cases b
  · exact allCaught_ok ()
  · exact allCaught_error rfl

theorem allCaught_less (a b : ConditionValue) : AllCaught (a.less b) := by
  unfold ConditionValue.less
  split
  · exact allCaught_ok _
  · exact allCaught_ok _
  · exact allCaught_ok _
  · exact allCaught_error rfl
  · split
    · exact allCaught_ok _
    · exact allCaught_error rfl

theorem allCaught_range (lower upper : ConditionField) (low high : Option ConditionValue)
    (orEqual : Bool) :
    AllCaught (Conditions.range lower upper low high orEqual) := by
  unfold Conditions.range
  split
  · apply AllCaught.bind
    · exact (allCaught_less _ _).bind fun _ => allCaught_ok _
    · exact fun invalid => allCaught_rejectIf _ _
  · exact allCaught_ok ()

theorem allCaught_ensureComparableTypes (values : List ConditionValue) :
    AllCaught (Conditions.ensureComparableTypes values) := by
  unfold Conditions.ensureComparableTypes
  split
  · exact allCaught_ok ()
  · split
    · exact allCaught_error rfl
    · exact allCaught_ok ()

theorem allCaught_eqConflicts (c : Conditions) : AllCaught (Conditions.eqConflicts c) := by
  unfold Conditions.eqConflicts
  split
  · exact (allCaught_rejectIf _ _).bind fun _ => (allCaught_rejectIf _ _).bind fun _ =>
      allCaught_rejectIf _ _
  · exact allCaught_ok ()

theorem allCaught_validateLogic (c : Conditions) (given : Nat) :
    AllCaught (c.validateLogic given) := by
  apply (allCaught_rejectIf _ _).bind
  intro _
  apply (allCaught_ensureComparableTypes _).bind
  intro _
  apply (allCaught_rejectIf _ _).bind
  intro _
  apply (allCaught_eqConflicts c).bind
  intro _
  apply (allCaught_rejectIf _ _).bind
  intro _
  apply (allCaught_rejectIf _ _).bind
  intro _
  apply (allCaught_range _ _ _ _ _).bind
  intro _
  apply (allCaught_range _ _ _ _ _).bind
  intro _
  apply (allCaught_range _ _ _ _ _).bind
  intro _
  apply (allCaught_range _ _ _ _ _).bind
  intro _
  exact allCaught_ok c

theorem guarded_modelValidate (raw : RawConditions) :
    Guarded P (.check (.patterns (raw.text .regex) (raw.text .notRegex))
      (.ofExcept (Conditions.modelValidate P raw))) := by
  have hraised := raised?_fields (P := P) raw
  unfold Guarded Decoder.Guarded
  split
  case isTrue hfine =>
      rw [Noted.isFine, Option.isNone_iff_eq_none, ← hraised] at hfine
      apply guarded_ofExcept
      exact (Checked.allCaught_toExcept hfine).bind fun c => allCaught_validateLogic c _
  case isFalse hfine =>
      rw [Noted.isFine, Option.isNone_iff_eq_none, ← hraised] at hfine
      obtain ⟨e, he⟩ := Option.ne_none_iff_exists'.mp hfine
      refine ⟨e, ?_, ?_⟩
      · rw [hraised, Option.or_eq_some_iff] at he
        obtain h | ⟨-, h⟩ := he
        all_goals
          obtain ⟨s, -, hs⟩ := Option.bind_eq_some_iff.mp h
          exact raised?_validateRegex hs
      · rw [Conditions.modelValidate, Checked.toExcept_raised he, error_bind]
        rfl

theorem guarded_conditions : Guarded P (Conditions.deserialize P) := by
  apply (guarded_unsigned 2).bind
  intro presence
  apply Guarded.bind
  · apply Decoder.guarded_masked
    intro reader hreader
    obtain ⟨field, -, rfl⟩ := List.mem_map.mp hreader
    exact guarded_readEntry field
  · exact fun values => guarded_modelValidate _

end Guarded

end Graveboards.Search
