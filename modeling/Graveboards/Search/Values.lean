import Mathlib.Data.Int.Bitwise
import Mathlib.Data.Int.Log
import Mathlib.Data.Rat.Floor
import Graveboards.Library.Decoder
import Graveboards.Library.Text
import Graveboards.Search.Fields

/-!
The values of search conditions: Python strings, floats and datetimes, the errors that
are raised about them, and the tagged bytes that stand for one value.
-/

namespace Graveboards.Search

open Graveboards.Library

/-! Strings. -/

/-- An element of a Python string. -/
inductive CodePoint where
  | char (c : Char)
  | surrogate (n : Fin 2048)
  deriving DecidableEq

abbrev PyStr := List CodePoint

namespace PyStr

def ofString (s : String) : PyStr := s.toList.map .char

def codePoint : CodePoint → Nat
  | .char c => c.toNat
  | .surrogate n => 0xD800 + n

theorem char_ne_surrogate (c : Char) (n : Fin 2048) : c.toNat ≠ 0xD800 + n := by
  have hvalid : c.toNat < 0xD800 ∨ 0xDFFF < c.toNat ∧ c.toNat < 0x110000 := c.valid
  omega

theorem codePoint_injective : Function.Injective codePoint := by
  intro p q h
  cases p with
  | char c =>
      cases q with
      | char c' => rw [Char.toNat_inj.mp h]
      | surrogate n => exact absurd h (char_ne_surrogate c n)
  | surrogate n =>
      cases q with
      | char c' => exact absurd h.symm (char_ne_surrogate c' n)
      | surrogate n' =>
          simp only [codePoint] at h
          congr 1
          omega

/-- `str.isspace` of one character. -/
def isSpace (p : CodePoint) : Bool :=
  let n := codePoint p
  (9 ≤ n && n ≤ 13) || (28 ≤ n && n ≤ 32) || n = 0x85 || n = 0xA0 || n = 0x1680 ||
    (0x2000 ≤ n && n ≤ 0x200A) || n = 0x2028 || n = 0x2029 || n = 0x202F || n = 0x205F || n = 0x3000

/-- `s.strip() == ""`. -/
def isBlank (s : PyStr) : Bool := s.all isSpace

def scalars : PyStr → Option (List Char)
  | [] => some []
  | .char c :: rest => (scalars rest).map (c :: ·)
  | .surrogate _ :: _ => none

/-- `str.encode`; `none`: UnicodeEncodeError. -/
def encode (s : PyStr) : Option Bytes := (scalars s).map (List.flatMap String.utf8EncodeChar)

/-- `bytes.decode`; `none`: UnicodeDecodeError. -/
def decode (bytes : Bytes) : Option PyStr :=
  bytes.toByteArray.utf8Decode?.map fun chars => chars.toList.map .char

theorem map_char_scalars {s : PyStr} {chars : List Char} (h : scalars s = some chars) :
    chars.map .char = s := by
  induction s generalizing chars with
  | nil =>
      obtain rfl := Option.some.inj h
      rfl
  | cons p rest ih =>
      cases p with
      | char c =>
          obtain ⟨chars', hrest, rfl⟩ := Option.map_eq_some_iff.mp h
          rw [List.map_cons, ih hrest]
      | surrogate n => cases h

theorem decode_encode {s : PyStr} {bytes : Bytes} (h : encode s = some bytes) :
    decode bytes = some s := by
  obtain ⟨chars, hchars, rfl⟩ := Option.map_eq_some_iff.mp h
  have hroundtrip :
      (chars.flatMap String.utf8EncodeChar).toByteArray.utf8Decode? = some chars.toArray :=
    List.utf8Decode?_utf8Encode
  rw [decode, hroundtrip, Option.map_some, List.toList_toArray, map_char_scalars hchars]

end PyStr

/-! Floats. -/

/-- A magnitude counts the smallest positive double, `2 ^ -1074`. -/
inductive PyFloat where
  | nan
  | infinite (negative : Bool)
  | finite (negative : Bool) (magnitude : Nat)
  deriving DecidableEq

/-- `smallest`: the exponent of the smallest positive number, negated. -/
structure FloatFormat where
  mantissa : Nat
  exponent : Nat
  smallest : Nat

namespace FloatFormat

def half : FloatFormat := ⟨10, 5, 24⟩
def single : FloatFormat := ⟨23, 8, 149⟩
def double : FloatFormat := ⟨52, 11, 1074⟩

def signBit (f : FloatFormat) (negative : Bool) : Nat :=
  if negative then 2 ^ (f.mantissa + f.exponent) else 0

def unpack (f : FloatFormat) (bits : Nat) : PyFloat :=
  let negative := bits.testBit (f.mantissa + f.exponent)
  let e := bits / 2 ^ f.mantissa % 2 ^ f.exponent
  let m := bits % 2 ^ f.mantissa
  if e = 2 ^ f.exponent - 1 then (if m = 0 then .infinite negative else .nan)
  else .finite negative
    ((if e = 0 then m else (2 ^ f.mantissa + m) * 2 ^ (e - 1)) * 2 ^ (1074 - f.smallest))

/-- The bits of a value that the format holds exactly: `float(np.float16(value)) == value`
and its siblings. -/
def pack (f : FloatFormat) : PyFloat → Option Nat
  | .nan => none
  | .infinite negative => some (f.signBit negative + (2 ^ f.exponent - 1) * 2 ^ f.mantissa)
  | .finite negative magnitude =>
      let units := magnitude / 2 ^ (1074 - f.smallest)
      let shift := Nat.log2 units - f.mantissa
      if magnitude % 2 ^ (1074 - f.smallest) = 0 ∧ units % 2 ^ shift = 0 ∧
        shift + 3 ≤ 2 ^ f.exponent then
        some (f.signBit negative + shift * 2 ^ f.mantissa + units / 2 ^ shift)
      else none

end FloatFormat

/-- What `json.loads` gives; an integer or a float may have any size. -/
inductive JsonValue where
  | null
  | bool (b : Bool)
  | int (n : Int)
  | float (x : PyFloat)
  | str (s : PyStr)
  | list (items : List JsonValue)
  | object (entries : List (PyStr × JsonValue))

/-- The double nearest to a number, ties to even. -/
def nearestDouble (q : Rat) : Rat :=
  if q = 0 then 0
  else
    let e := max (Int.log 2 |q| - 52) (-1074)
    Rounding.roundHalfEven (q / 2 ^ e) * 2 ^ e

/-- `int(x)` of a float. -/
def truncate (q : Rat) : Int := if q < 0 then ⌈q⌉ else ⌊q⌋

/-! Datetimes. -/

/-- Microseconds of the clock since 1970-01-01 00:00, and of the UTC offset; `none`: naive.
`fold` is left out. -/
structure DateTime where
  wall : Int
  offset : Option Int
  deriving DecidableEq

inductive ConditionValue where
  | int (n : Int)
  | float (x : PyFloat)
  | str (s : PyStr)
  | bool (b : Bool)
  | datetime (d : DateTime)
  deriving DecidableEq

/-- The types of condition values. -/
def ConditionValue.type : ConditionValue → ColumnType
  | .int _ => .int
  | .float _ => .float
  | .str _ => .str
  | .bool _ => .bool
  | .datetime _ => .datetime

inductive ConditionField where
  | eq
  | neq
  | lt
  | lte
  | gt
  | gte
  | in_
  | notIn
  | isNull
  | regex
  | notRegex
  deriving DecidableEq

/-! Errors. -/

/-- What a validator finds: the `ValueError`s it raises, and what pydantic checks. -/
inductive Fault where
  | unsupportedKeys (keys : List PyStr)
  | wrongType (field : ConditionField)
  | mixedSequence (field : ConditionField) (base v : ColumnType)
  | tooLong
  | emptyPattern
  | overlyGreedy
  | nestedQuantifiers
  | disallowedFeature (pattern : String)
  | catastrophicBacktracking (pattern : String)
  | invalidRegex (message : String)
  | tooManyGroups
  | noCondition
  | notComparable (base v : ColumnType)
  | nullWithOthers
  | eqIsNeq
  | eqNotInIn
  | eqInNotIn
  | twoLowerBounds
  | twoUpperBounds
  | invalidRange (lower upper : ConditionField) (bounds : ConditionValue × ConditionValue)
  | onlyEmptyTerms
  | termNotText
  | termTooLong
  | noFields
  deriving DecidableEq

inductive PyError where
  | valueError (message : String)
  | unicodeError
  | validationError (faults : List Fault)
  | typeError (message : String)
  | attributeError (message : String)
  | structError
  | overflowError (message : String)
  | osError
  | fieldNotSupported (category : SearchableFieldCategory) (field : String)
  | fieldValidation (category : SearchableFieldCategory) (field : String)
      (value : Option ConditionValue) (expected : Option ColumnType)
  | allValuesNull (origin : String)
  deriving DecidableEq

/-- `EXCEPTIONS`: a UnicodeError and a ValidationError are ValueErrors, a
FieldValidationError is a TypeError. -/
def PyError.isCaught : PyError → Bool
  | .attributeError _ | .structError | .overflowError _ | .osError => false
  | _ => true

/-! What the platform decides: the local time zone, the ISO 8601 parser and the `re`
module. -/

inductive LocaltimeError where
  | yearOutOfRange
  | overflow
  | failed

inductive Compiled where
  | groups (count : Nat)
  | error (message : String)
  | overflow (message : String)

structure Platform where
  /-- Seconds of the local clock to seconds of POSIX time. -/
  mktime : Int → Except LocaltimeError Int
  localtime : Int → Except LocaltimeError Int
  fromisoformat : PyStr → Option DateTime
  search : String → PyStr → Bool
  compile : PyStr → Compiled

/-- A server whose clock is UTC, for searches without texts that could be dates or patterns. -/
def Platform.utc : Platform :=
  { mktime := .ok
    localtime := .ok
    fromisoformat := fun _ => none
    search := fun _ _ => false
    compile := fun _ => .groups 0 }

def LocaltimeError.raised : LocaltimeError → PyError
  | .yearOutOfRange => .valueError "year is out of range"
  | .overflow => .overflowError "timestamp out of range for platform time_t"
  | .failed => .osError

namespace DateTime

/-- `datetime.timestamp`. -/
def timestamp (P : Platform) (d : DateTime) : Except PyError Rat :=
  match d.offset with
  | some offset => .ok (nearestDouble ((d.wall - offset) / 10 ^ 6))
  | none =>
      match P.mktime (d.wall / 10 ^ 6) with
      | .ok seconds =>
          .ok (nearestDouble (seconds + nearestDouble ((d.wall % 10 ^ 6 : Int) / 10 ^ 6)))
      | .error e => .error e.raised

/-- `datetime.fromtimestamp` of a float that is not negative. -/
def fromtimestamp (P : Platform) (t : Rat) : Except PyError DateTime :=
  let micros := ⌊t⌋ * 10 ^ 6 + Rounding.roundHalfEven (nearestDouble ((t - ⌊t⌋) * 10 ^ 6))
  if 2 ^ 63 ≤ micros / 10 ^ 6 then
    .error (.overflowError "timestamp out of range for platform time_t")
  else
    match P.localtime (micros / 10 ^ 6) with
    | .ok wall => .ok ⟨wall * 10 ^ 6 + micros % 10 ^ 6, none⟩
    | .error e => .error e.raised

/-- `int(value.timestamp() * 1000)`. -/
def toMillis (P : Platform) (d : DateTime) : Except PyError Int :=
  (d.timestamp P).map fun t => truncate (nearestDouble (t * 1000))

/-- `datetime.fromtimestamp(millis / 1000)`. -/
def ofMillis (P : Platform) (millis : Nat) : Except PyError DateTime :=
  let t := nearestDouble (millis / 1000)
  if 2 ^ 1024 ≤ t then .error (.overflowError "integer division result too large for a float")
  else fromtimestamp P t

end DateTime

/-! The bytes of one value. -/

/-- What a decoder hands on that may raise an error that is not caught. -/
inductive Noted where
  | millis (n : Nat)
  | patterns (regex notRegex : Option PyStr)

abbrev Reader := Decoder Noted PyError

/-- `struct.pack` of one unsigned number. -/
def pack (width n : Nat) : Except PyError Bytes :=
  if n < 256 ^ width then .ok (Decoder.digits width n) else .error .structError

def signedByte (n : Int8) : Bytes := [n.toUInt8]

def readSignedByte : Reader Int8 :=
  .unpack 1 fun bytes => .pure (bytes.headD 0).toInt8

def readBool : Reader Bool := .unpack 1 fun bytes => .pure (bytes.headD 0 != 0)

def boolByte (b : Bool) : Bytes := [if b then 1 else 0]

def encodeText (s : PyStr) : Except PyError Bytes :=
  match s.encode with
  | some bytes => .ok bytes
  | none => .error .unicodeError

def decodeText (bytes : Bytes) : Except PyError PyStr :=
  match PyStr.decode bytes with
  | some s => .ok s
  | none => .error .unicodeError

theorem encode_of_encodeText {term : PyStr} {encoded : Bytes} (h : encodeText term = .ok encoded) :
    term.encode = some encoded := by
  unfold encodeText at h
  split at h
  case h_1 bytes hencode =>
      obtain rfl := Except.ok.inj h
      exact hencode
  case h_2 => cases h

theorem pack_of_lt {width n : Nat} (h : n < 256 ^ width) :
    pack width n = .ok (Decoder.digits width n) := if_pos h

theorem lt_of_pack {width n : Nat} {bytes : Bytes} (h : pack width n = .ok bytes) :
    n < 256 ^ width := by
  unfold pack at h
  split at h
  case isTrue hlt => exact hlt
  case isFalse => cases h

def encodeZigzag (n : Int) : Int := Int.xor (n <<< 1) (n >>> 63)

def decodeZigzag (n : Int) : Int := Int.xor (n >>> 1) (-(Int.land n 1))

/-- `bytearray.append` of a negative number raises. -/
def encodeVarint (n : Int) : Except PyError Bytes :=
  if n < 0 then .error (.valueError "byte must be in range(0, 256)")
  else .ok (Varint.encode n.toNat)

/-- `ConditionValueId`. -/
inductive ConditionValueId where
  | signedChar
  | signedVarint
  | unsignedChar
  | unsignedVarint
  | halfFloat
  | float
  | double
  | str
  | bool
  | datetime
  deriving DecidableEq

def ConditionValueId.byte : ConditionValueId → UInt8
  | .signedChar => 1
  | .signedVarint => 2
  | .unsignedChar => 3
  | .unsignedVarint => 4
  | .halfFloat => 5
  | .float => 6
  | .double => 7
  | .str => 8
  | .bool => 9
  | .datetime => 10

def serializeFloat (x : PyFloat) : Except PyError Bytes :=
  match FloatFormat.half.pack x with
  | some bits => .ok (ConditionValueId.halfFloat.byte :: Decoder.digits 2 bits)
  | none =>
      match FloatFormat.single.pack x with
      | some bits => .ok (ConditionValueId.float.byte :: Decoder.digits 4 bits)
      | none =>
          match FloatFormat.double.pack x with
          | some bits => .ok (ConditionValueId.double.byte :: Decoder.digits 8 bits)
          | none => .error (.valueError "Float cannot be represented as f16, f32, nor f64")

def serializeConditionValue (P : Platform) : ConditionValue → Except PyError Bytes
  | .int n =>
      if 0 ≤ n ∧ n ≤ 255 then .ok [ConditionValueId.unsignedChar.byte, n.toNat.toUInt8]
      else if -128 ≤ n ∧ n ≤ 127 then
        .ok (ConditionValueId.signedChar.byte :: signedByte (Int8.ofInt n))
      else if 0 ≤ n then (encodeVarint n).map (ConditionValueId.unsignedVarint.byte :: ·)
      else (encodeVarint (encodeZigzag n)).map (ConditionValueId.signedVarint.byte :: ·)
  | .float x => serializeFloat x
  | .str s => do
      let encoded ← encodeText s
      pure (ConditionValueId.str.byte :: (Varint.encode encoded.length ++ encoded))
  | .bool b => .ok (ConditionValueId.bool.byte :: boolByte b)
  | .datetime d => do
      let timestamp ← d.toMillis P
      (encodeVarint timestamp).map (ConditionValueId.datetime.byte :: ·)

theorem reads_signedByte (n : Int8) : Decoder.Reads readSignedByte (signedByte n) (.ok n) := by
  have hread : Decoder.Reads readSignedByte (signedByte n) (.ok ((signedByte n).headD 0).toInt8) :=
    Decoder.reads_field (show (signedByte n).length = 1 from rfl) fun bytes =>
      (bytes.headD 0).toInt8
  rw [signedByte, List.headD_cons, Int8.toInt8_toUInt8] at hread
  exact hread

def readText (length : Nat) : Reader PyStr :=
  .slice length fun bytes => .ofExcept (decodeText bytes)

theorem reads_text {s : PyStr} {encoded : Bytes} (hencode : s.encode = some encoded) :
    Decoder.Reads (readText encoded.length) encoded (.ok s) := by
  have hdecode : decodeText encoded = .ok s := by
    rw [decodeText, PyStr.decode_encode hencode]
  have hreads : Decoder.Reads (readText encoded.length) (encoded ++ []) (.ok s) := by
    apply Decoder.reads_slice
    rw [hdecode]
    exact Decoder.reads_pure s
  rw [List.append_nil] at hreads
  exact hreads

def deserializeConditionValue (P : Platform) : Reader ConditionValue := do
  let typeId ← Decoder.unsigned 1
  match typeId with
  | 1 => return .int (← readSignedByte).toInt
  | 2 => .varint fun zz => .pure (.int (decodeZigzag zz))
  | 3 => return .int (← Decoder.unsigned 1)
  | 4 => .varint fun value => .pure (.int value)
  | 5 => return .float (FloatFormat.half.unpack (← Decoder.unsigned 2))
  | 6 => return .float (FloatFormat.single.unpack (← Decoder.unsigned 4))
  | 7 => return .float (FloatFormat.double.unpack (← Decoder.unsigned 8))
  | 8 => .varint fun length => do return .str (← readText length)
  | 9 => return .bool (← readBool)
  | 10 =>
      .varint fun millis =>
        .check (.millis millis) (.ofExcept ((DateTime.ofMillis P millis).map .datetime))
  | _ => .fail (.valueError ("Unsupported type ID: " ++ toString typeId))

end Graveboards.Search
