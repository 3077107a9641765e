import Graveboards.Library.Zigzag
import Graveboards.Search.Floats

/-!
What comes out of the bytes of one value, wherever they stand: the value itself, except for
large negative integers, whose sign does not fill the upper bits of their zigzag number, and
for datetimes.
-/

namespace Graveboards.Search

open Graveboards.Library

theorem encodeZigzag_eq (n : Int) : encodeZigzag n = Zigzag.encode 63 n := by
  have hleft : n <<< (1 : Int) = n <<< (1 : Nat) := Int.shiftLeft_natCast_right n 1
  have hright : n >>> (63 : Int) = n >>> (63 : Nat) := Int.shiftRight_natCast_right n 63
  rw [encodeZigzag, hleft, hright, Zigzag.encode]

theorem decodeZigzag_eq (n : Int) : decodeZigzag n = Zigzag.decode n := by
  have hright : n >>> (1 : Int) = n >>> (1 : Nat) := Int.shiftRight_natCast_right n 1
  rw [decodeZigzag, hright, Zigzag.decode]

theorem decodeZigzag_encodeZigzag_iff (n : Int) :
    decodeZigzag (encodeZigzag n) = n ↔ -2 ^ 63 ≤ n ∧ n < 2 ^ 63 := by
  rw [encodeZigzag_eq, decodeZigzag_eq, Zigzag.decode_encode_iff]

theorem encodeZigzag_nonneg (n : Int) : 0 ≤ encodeZigzag n := by
  rw [encodeZigzag_eq]
  exact Zigzag.encode_nonneg 63 n

theorem encodeVarint_of_nonneg {n : Int} (h : 0 ≤ n) :
    encodeVarint n = .ok (Varint.encode n.toNat) :=
  if_neg (not_lt.mpr h)

theorem nonneg_of_encodeVarint {n : Int} {data : Bytes} (h : encodeVarint n = .ok data) :
    0 ≤ n ∧ data = Varint.encode n.toNat := by
  unfold encodeVarint at h
  split at h
  case isTrue => cases h
  case isFalse hnonneg => exact ⟨not_lt.mp hnonneg, (Except.ok.inj h).symm⟩

/-- What is read of the bytes of a value. -/
def transport (P : Platform) : ConditionValue → Except PyError ConditionValue
  | .int n => .ok (.int (if -128 ≤ n then n else decodeZigzag (encodeZigzag n)))
  | .datetime d => do
      let millis ← d.toMillis P
      (DateTime.ofMillis P millis.toNat).map .datetime
  | v => .ok v

theorem reads_tag (id : ConditionValueId) :
    Decoder.Reads (Decoder.unsigned 1 : Reader Nat) [id.byte] (.ok id.byte.toNat) := by
  have hread :
      Decoder.Reads (Decoder.unsigned 1 : Reader Nat) [id.byte] (.ok (Decoder.number [id.byte])) :=
    Decoder.reads_field (show [id.byte].length = 1 from rfl) Decoder.number
  rw [Decoder.number, List.foldl_cons, List.foldl_nil, Nat.mul_zero, Nat.zero_add] at hread
  exact hread

/-- What is read behind the tag. -/
theorem reads_tagged {α : Type} (id : ConditionValueId) {f : Nat → Reader α} {rest : Bytes}
    {result : Except PyError α} (h : Decoder.Reads (f id.byte.toNat) rest result) :
    Decoder.Reads (Decoder.unsigned 1 >>= f) (id.byte :: rest) result :=
  (reads_tag id).then h

theorem reads_bool (b : Bool) : Decoder.Reads readBool (boolByte b) (.ok b) := by
  have hread : Decoder.Reads readBool (boolByte b) (.ok ((boolByte b).headD 0 != 0)) :=
    Decoder.reads_field (show (boolByte b).length = 1 from rfl) fun bytes => bytes.headD 0 != 0
  cases b <;> exact hread

section

variable {P : Platform}

/-- After a number of variable length, the bytes that follow it. -/
theorem reads_number {α : Type} {n : Nat} {next : Nat → Reader α} {result : Except PyError α}
    (h : Decoder.Reads (next n) [] result) :
    Decoder.Reads (.varint next) (Varint.encode n) result := by
  have hread := Decoder.reads_varint h
  rwa [List.append_nil] at hread

theorem reads_int {n : Int} {data : Bytes} (h : serializeConditionValue P (.int n) = .ok data) :
    Decoder.Reads (deserializeConditionValue P) data (transport P (.int n)) := by
  rw [serializeConditionValue] at h
  rw [transport]
  split_ifs at h with hunsigned hsigned hnonneg
  · obtain rfl := Except.ok.inj h
    have hbyte : [n.toNat.toUInt8] = Decoder.digits 1 n.toNat := by
      rw [Decoder.digits, Decoder.digits, Nat.mod_eq_of_lt (by omega), List.nil_append]
    have hvalue : ((n.toNat : Nat) : Int) = n := Int.toNat_of_nonneg hunsigned.1
    rw [if_pos (by omega), hbyte]
    apply reads_tagged .unsignedChar
    have hlt : n.toNat < 256 ^ 1 := by omega
    have hread :
        Decoder.Reads (Decoder.unsigned 1 >>= fun m => pure (ConditionValue.int m) : Reader _)
        (Decoder.digits 1 n.toNat) (.ok (.int (n.toNat : Nat))) :=
      (Decoder.reads_unsigned hlt).map_ok _
    rw [hvalue] at hread
    exact hread
  · obtain rfl := Except.ok.inj h
    have hvalue : (Int8.ofInt n).toInt = n := Int8.toInt_ofInt_of_le (by omega) (by omega)
    rw [if_pos hsigned.1]
    apply reads_tagged .signedChar
    have hread := (reads_signedByte (Int8.ofInt n)).map_ok fun m => ConditionValue.int m.toInt
    rw [hvalue] at hread
    exact hread
  · rw [encodeVarint_of_nonneg hnonneg] at h
    obtain rfl := Except.ok.inj h
    have hvalue : ((n.toNat : Nat) : Int) = n := Int.toNat_of_nonneg hnonneg
    rw [if_pos (by omega)]
    apply reads_tagged .unsignedVarint
    apply reads_number
    rw [hvalue]
    exact Decoder.reads_pure _
  · rw [encodeVarint_of_nonneg (encodeZigzag_nonneg n)] at h
    obtain rfl := Except.ok.inj h
    have hvalue : (((encodeZigzag n).toNat : Nat) : Int) = encodeZigzag n :=
      Int.toNat_of_nonneg (encodeZigzag_nonneg n)
    rw [if_neg (by omega)]
    apply reads_tagged .signedVarint
    apply reads_number
    rw [hvalue]
    exact Decoder.reads_pure _

/-- Bits that a format packs are read from as many bytes. -/
theorem reads_packed {f : FloatFormat} {width : Nat}
    (hwidth : f.mantissa + f.exponent + 1 = 8 * width) {x : PyFloat} {bits : Nat}
    (h : f.pack x = some bits) :
    Decoder.Reads
    (Decoder.unsigned width >>= fun bits => pure (ConditionValue.float (f.unpack bits)) : Reader _)
      (Decoder.digits width bits) (.ok (.float x)) := by
  obtain ⟨hunpack, hlt⟩ := FloatFormat.unpack_pack h
  rw [hwidth, Nat.pow_mul] at hlt
  have hread :
      Decoder.Reads
      (Decoder.unsigned width >>= fun bits => pure (ConditionValue.float (f.unpack bits)) :
      Reader _) (Decoder.digits width bits) (.ok (.float (f.unpack bits))) :=
    (Decoder.reads_unsigned hlt).map_ok _
  rw [hunpack] at hread
  exact hread

theorem reads_float {x : PyFloat} {data : Bytes} (h : serializeFloat x = .ok data) :
    Decoder.Reads (deserializeConditionValue P) data (.ok (.float x)) := by
  unfold serializeFloat at h
  split at h
  case h_1 bits hbits =>
      obtain rfl := Except.ok.inj h
      exact reads_tagged .halfFloat (reads_packed (show 10 + 5 + 1 = 8 * 2 from rfl) hbits)
  case h_2 =>
      split at h
      case h_1 bits hbits =>
          obtain rfl := Except.ok.inj h
          exact reads_tagged .float (reads_packed (show 23 + 8 + 1 = 8 * 4 from rfl) hbits)
      case h_2 =>
          split at h
          case h_1 bits hbits =>
              obtain rfl := Except.ok.inj h
              exact reads_tagged .double (reads_packed (show 52 + 11 + 1 = 8 * 8 from rfl) hbits)
          case h_2 => cases h

theorem reads_str {s : PyStr} {data : Bytes} (h : serializeConditionValue P (.str s) = .ok data) :
    Decoder.Reads (deserializeConditionValue P) data (.ok (.str s)) := by
  obtain ⟨encoded, hencode, h⟩ := bind_eq_ok h
  obtain rfl := Except.ok.inj h
  apply reads_tagged .str
  apply Decoder.reads_varint
  exact (reads_text (encode_of_encodeText hencode)).map_ok ConditionValue.str

theorem reads_datetime {d : DateTime} {data : Bytes}
    (h : serializeConditionValue P (.datetime d) = .ok data) :
    Decoder.Reads (deserializeConditionValue P) data (transport P (.datetime d)) := by
  obtain ⟨millis, hmillis, h⟩ := bind_eq_ok h
  cases hvarint : encodeVarint millis with
  | error e =>
      rw [hvarint] at h
      cases h
  | ok encoded =>
      obtain ⟨-, rfl⟩ := nonneg_of_encodeVarint hvarint
      rw [hvarint] at h
      obtain rfl := Except.ok.inj h
      rw [transport, hmillis, ok_bind]
      apply reads_tagged .datetime
      apply reads_number
      exact Decoder.reads_check (Decoder.reads_ofExcept _)

/-- What a written value is read back as. -/
theorem reads_value {v : ConditionValue} {data : Bytes}
    (h : serializeConditionValue P v = .ok data) :
    Decoder.Reads (deserializeConditionValue P) data (transport P v) := by
  cases v with
  | int n => exact reads_int h
  | float x => exact reads_float h
  | str s => exact reads_str h
  | bool b =>
      obtain rfl := Except.ok.inj h
      exact reads_tagged .bool ((reads_bool b).map_ok ConditionValue.bool)
  | datetime d => exact reads_datetime h

/-! Which values are written, and come back. -/

/-- No element is a lone surrogate. -/
def PyStr.IsText (s : PyStr) : Prop := ∀ p ∈ s, ∃ c, p = .char c

theorem PyStr.isSome_scalars_iff (s : PyStr) : (scalars s).isSome = true ↔ s.IsText := by
  induction s with
  | nil => exact ⟨fun _ => nofun, fun _ => rfl⟩
  | cons p rest ih =>
      cases p with
      | char c =>
          rw [scalars, Option.isSome_map, ih, IsText, IsText, List.forall_mem_cons]
          exact (and_iff_right ⟨c, rfl⟩).symm
      | surrogate n =>
          refine ⟨nofun, fun h => ?_⟩
          obtain ⟨c, hc⟩ := h _ List.mem_cons_self
          cases hc

theorem PyStr.exists_encode_iff (s : PyStr) : (∃ encoded, s.encode = some encoded) ↔ s.IsText := by
  rw [← isSome_scalars_iff, encode, ← Option.isSome_iff_exists, Option.isSome_map]

theorem exists_encodeText_iff (s : PyStr) : (∃ encoded, encodeText s = .ok encoded) ↔ s.IsText := by
  rw [← PyStr.exists_encode_iff]
  constructor
  · rintro ⟨encoded, h⟩
    exact ⟨encoded, encode_of_encodeText h⟩
  · rintro ⟨encoded, h⟩
    exact ⟨encoded, by rw [encodeText, h]⟩

/-- The value is written, and its bytes are read back wherever they stand. -/
def ValueRoundTrips (P : Platform) (v : ConditionValue) : Prop :=
  ∃ data, serializeConditionValue P v = .ok data ∧
    Decoder.Reads (deserializeConditionValue P) data (.ok v)

theorem round_trips_of_transport {v : ConditionValue} {data : Bytes}
    (h : serializeConditionValue P v = .ok data) (htransport : transport P v = .ok v) :
    ValueRoundTrips P v :=
  ⟨data, h, htransport ▸ reads_value h⟩

/-- What is read is what the value is taken to. -/
theorem transport_of_reads {v w : ConditionValue} {data : Bytes}
    (hserialize : serializeConditionValue P v = .ok data)
    (hreads : Decoder.Reads (deserializeConditionValue P) data (.ok w)) : transport P v = .ok w :=
  (reads_value hserialize).eq_ok hreads

theorem transport_of_round_trips {v : ConditionValue} (h : ValueRoundTrips P v) :
    transport P v = .ok v := by
  obtain ⟨data, hserialize, hreads⟩ := h
  exact transport_of_reads hserialize hreads

theorem round_trips_iff_transport (P : Platform) (v : ConditionValue) :
    ValueRoundTrips P v ↔ (∃ data, serializeConditionValue P v = .ok data) ∧
    transport P v = .ok v := by
  constructor
  · intro h
    obtain ⟨data, hserialize, -⟩ := id h
    exact ⟨⟨data, hserialize⟩, transport_of_round_trips h⟩
  · rintro ⟨⟨data, hserialize⟩, htransport⟩
    exact round_trips_of_transport hserialize htransport

theorem exists_serialize_int (P : Platform) (n : Int) :
    ∃ data, serializeConditionValue P (.int n) = .ok data := by
  rw [serializeConditionValue]
  split_ifs with hunsigned hsigned hnonneg
  · exact ⟨_, rfl⟩
  · exact ⟨_, rfl⟩
  · rw [encodeVarint_of_nonneg hnonneg]
    exact ⟨_, rfl⟩
  · rw [encodeVarint_of_nonneg (encodeZigzag_nonneg n)]
    exact ⟨_, rfl⟩

theorem int_round_trips_iff (P : Platform) (n : Int) :
    ValueRoundTrips P (.int n) ↔ -2 ^ 63 ≤ n := by
  have htransport : transport P (.int n) = .ok (.int n) ↔ -2 ^ 63 ≤ n := by
    rw [transport, Except.ok.injEq, ConditionValue.int.injEq]
    split
    case isTrue hbyte => exact ⟨fun _ => by omega, fun _ => rfl⟩
    case isFalse hlarge =>
        rw [decodeZigzag_encodeZigzag_iff]
        omega
  rw [← htransport]
  constructor
  · exact transport_of_round_trips
  · intro h
    obtain ⟨data, hserialize⟩ := exists_serialize_int P n
    exact round_trips_of_transport hserialize h

theorem str_round_trips_iff (P : Platform) (s : PyStr) : ValueRoundTrips P (.str s) ↔ s.IsText := by
  rw [← exists_encodeText_iff]
  constructor
  · rintro ⟨data, hserialize, -⟩
    obtain ⟨encoded, hencode, -⟩ := bind_eq_ok hserialize
    exact ⟨encoded, hencode⟩
  · rintro ⟨encoded, hencode⟩
    have hserialize : serializeConditionValue P (.str s) =
        .ok (ConditionValueId.str.byte :: (Varint.encode encoded.length ++ encoded)) := by
      rw [serializeConditionValue, hencode]
      rfl
    exact round_trips_of_transport hserialize rfl

theorem bool_round_trips (P : Platform) (b : Bool) : ValueRoundTrips P (.bool b) :=
  round_trips_of_transport rfl rfl

/-- Floats come back if they are doubles, and not NaN. -/
theorem float_round_trips_iff (P : Platform) (x : PyFloat) :
    ValueRoundTrips P (.float x) ↔ (FloatFormat.double.pack x).isSome = true := by
  have hserialize :
      (∃ data, serializeFloat x = .ok data) ↔ (FloatFormat.double.pack x).isSome = true := by
    unfold serializeFloat
    split
    case h_1 bits hbits =>
        refine iff_of_true ⟨_, rfl⟩ ?_
        exact FloatFormat.isSome_pack_double (by decide) (by decide) (by decide)
          (Option.isSome_of_eq_some hbits)
    case h_2 =>
        split
        case h_1 bits hbits =>
            refine iff_of_true ⟨_, rfl⟩ ?_
            exact FloatFormat.isSome_pack_double (by decide) (by decide) (by decide)
              (Option.isSome_of_eq_some hbits)
        case h_2 =>
            split
            case h_1 bits hbits =>
                rw [hbits]
                exact iff_of_true ⟨_, rfl⟩ rfl
            case h_2 hnone =>
                rw [hnone]
                exact iff_of_false nofun nofun
  rw [← hserialize, round_trips_iff_transport]
  exact and_iff_left rfl

/-! Encodings are prefix-free. -/

/-- The values of condition that are integers, texts or bools. -/
inductive PlainValue where
  | int (n : Int)
  | str (s : PyStr)
  | bool (b : Bool)

namespace PlainValue

def value : PlainValue → ConditionValue
  | int n => .int n
  | str s => .str s
  | bool b => .bool b

/-- An integer that takes at most 64 bits if it is negative; a text without lone surrogates. -/
def Portable : PlainValue → Prop
  | int n => -2 ^ 63 ≤ n
  | str s => s.IsText
  | bool _ => True

theorem round_trips_iff_portable (P : Platform) (v : PlainValue) :
    ValueRoundTrips P v.value ↔ v.Portable := by
  cases v with
  | int n => exact int_round_trips_iff P n
  | str s => exact str_round_trips_iff P s
  | bool b => exact iff_of_true (bool_round_trips P b) trivial

theorem exists_transport (P : Platform) (v : PlainValue) : ∃ w, transport P v.value = .ok w := by
  cases v <;> exact ⟨_, rfl⟩

/-- No encoding goes on after the end of another. -/
theorem eq_of_initial {v w : PlainValue} {data data' : Bytes}
    (hv : serializeConditionValue P v.value = .ok data)
    (hw : serializeConditionValue P w.value = .ok data') (hinitial : data <+: data') :
    data = data' ∧ transport P v.value = transport P w.value := by
  obtain ⟨rest, rfl⟩ := hinitial
  obtain ⟨v', hv'⟩ := exists_transport P v
  obtain ⟨w', hw'⟩ := exists_transport P w
  have hfirst := reads_value hv [] rest
  have hsecond := reads_value hw [] []
  rw [hv', List.nil_append, List.length_nil] at hfirst
  rw [hw', List.append_nil, List.nil_append, List.length_nil, hfirst] at hsecond
  obtain ⟨rfl, hlength⟩ := Prod.mk.inj (Except.ok.inj hsecond)
  rw [List.length_append] at hlength
  obtain rfl : rest = [] := List.eq_nil_of_length_eq_zero (by omega)
  exact ⟨(List.append_nil data).symm, hv'.trans hw'.symm⟩

/-- Only the integers below a signed byte have the tag of a signed number of variable length. -/
theorem head_serialize_int {n : Int} {data : Bytes}
    (h : serializeConditionValue P (.int n) = .ok data) :
    data.head? = some ConditionValueId.signedVarint.byte ↔ n < -128 := by
  rw [serializeConditionValue] at h
  split_ifs at h with hunsigned hsigned hnonneg
  · obtain rfl := Except.ok.inj h
    refine iff_of_false (fun hhead => ?_) (by omega)
    exact absurd hhead (by simp [ConditionValueId.byte])
  · obtain rfl := Except.ok.inj h
    refine iff_of_false (fun hhead => ?_) (by omega)
    exact absurd hhead (by simp [ConditionValueId.byte])
  · rw [encodeVarint_of_nonneg hnonneg] at h
    obtain rfl := Except.ok.inj h
    refine iff_of_false (fun hhead => ?_) (by omega)
    exact absurd hhead (by simp [ConditionValueId.byte])
  · rw [encodeVarint_of_nonneg (encodeZigzag_nonneg n)] at h
    obtain rfl := Except.ok.inj h
    exact iff_of_true rfl (by omega)

theorem serialize_large {n : Int} (h : n < -128) : serializeConditionValue P (.int n) =
    .ok (ConditionValueId.signedVarint.byte :: Varint.encode (encodeZigzag n).toNat) := by
  rw [serializeConditionValue, if_neg (by omega), if_neg (by omega), if_neg (by omega),
    encodeVarint_of_nonneg (encodeZigzag_nonneg n)]
  rfl

theorem int_injective {m n : Int} {data : Bytes}
    (hm : serializeConditionValue P (.int m) = .ok data)
    (hn : serializeConditionValue P (.int n) = .ok data) : m = n := by
  have htransport := (eq_of_initial (v := int m) (w := int n) hm hn (List.prefix_refl data)).2
  have hlarge : m < -128 ↔ n < -128 := (head_serialize_int hm).symm.trans (head_serialize_int hn)
  rcases lt_or_ge m (-128) with hlt | hge
  · -- The zigzag numbers of negative integers differ, even where decoding does not invert them.
    have hlt' := hlarge.mp hlt
    rw [serialize_large hlt] at hm
    rw [serialize_large hlt', ← hm] at hn
    have hvarint := Varint.encode_injective (List.cons_eq_cons.mp (Except.ok.inj hn)).2
    have hzigzag : encodeZigzag m = encodeZigzag n := by
      rw [← Int.toNat_of_nonneg (encodeZigzag_nonneg m), ← hvarint,
        Int.toNat_of_nonneg (encodeZigzag_nonneg n)]
    rw [encodeZigzag_eq, encodeZigzag_eq] at hzigzag
    exact Zigzag.encode_injective_neg (by omega) (by omega) hzigzag
  · have hge' : -128 ≤ n := by omega
    simp only [value, transport, if_pos hge, if_pos hge'] at htransport
    exact ConditionValue.int.inj (Except.ok.inj htransport)

theorem prefix_free (P : Platform) (v w : PlainValue) {data data' : Bytes}
    (hv : serializeConditionValue P v.value = .ok data)
    (hw : serializeConditionValue P w.value = .ok data') (hinitial : data <+: data') : v = w := by
  obtain ⟨rfl, htransport⟩ := eq_of_initial hv hw hinitial
  cases v with
  | int m =>
      cases w with
      | int n => rw [int_injective hv hw]
      | _ => cases htransport
  | str s =>
      cases w with
      | str t =>
          cases htransport
          rfl
      | _ => cases htransport
  | bool b =>
      cases w with
      | bool c =>
          cases htransport
          rfl
      | _ => cases htransport

end PlainValue

/-- No encoding of a value is the beginning of the encoding of another. -/
def PrefixFree (P : Platform) : Prop :=
  ∀ (v w : PlainValue) (data data' : Bytes), serializeConditionValue P v.value = .ok data →
    serializeConditionValue P w.value = .ok data' → data <+: data' → v = w

/-- Numbers of variable length come back always, zigzag numbers as long as they have 64 bits; so a
value comes back exactly if it is portable. The encodings are prefix-free in any case. -/
theorem plain_values_round_trip_iff (P : Platform) :
    (∀ (n : Nat) (rest : Bytes),
      Varint.decode (Varint.encode n ++ rest) = some (n, (Varint.encode n).length)) ∧
      (∀ n : Int, decodeZigzag (encodeZigzag n) = n ↔ -2 ^ 63 ≤ n ∧ n < 2 ^ 63) ∧
      (∀ v : PlainValue, ValueRoundTrips P v.value ↔ v.Portable) ∧ PrefixFree P :=
  ⟨Varint.decode_encode, decodeZigzag_encodeZigzag_iff, PlainValue.round_trips_iff_portable P,
    fun v w _ _ => PlainValue.prefix_free P v w⟩

/-- The first integer beyond 64 bits. -/
theorem hugeInt_not_round_trips : ¬ ValueRoundTrips Platform.utc (.int (-2 ^ 63 - 1)) := by
  rw [int_round_trips_iff]
  decide

end

end Graveboards.Search
