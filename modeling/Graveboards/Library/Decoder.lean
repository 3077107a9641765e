import Mathlib.Tactic
import Mathlib.Data.Nat.Bitwise

/-!
Decoders of byte strings as programs: fixed-width fields, base-128 integers and
slices, read at an offset that may run past the end. The rules say how reading
what has been written composes, that bytes added behind change nothing, and when a
read fails.
-/

namespace Graveboards.Library

abbrev Bytes := List UInt8

/-! Base-128 integers, least significant group first. -/

namespace Varint

def encode (n : Nat) : Bytes :=
  if n ≤ 0x7F then [n.toUInt8] else ((n &&& 0x7F) ||| 0x80).toUInt8 :: encode (n >>> 7)
termination_by n
decreasing_by
  rw [Nat.shiftRight_eq_div_pow]
  omega

/-- The number, and how many bytes it takes; `none`: the bytes end inside it. -/
def decodeFrom (shift result : Nat) : Bytes → Option (Nat × Nat)
  | [] => none
  | b :: rest =>
      let result' := result ||| ((b.toNat &&& 0x7F) <<< shift)
      if b.toNat &&& 0x80 = 0 then some (result', 1)
      else (decodeFrom (shift + 7) result' rest).map fun (n, count) => (n, count + 1)

def decode (data : Bytes) : Option (Nat × Nat) := decodeFrom 0 0 data

theorem or_shiftLeft {result shift : Nat} (m : Nat) (hresult : result < 2 ^ shift) :
    result ||| (m <<< shift) = result + m * 2 ^ shift := by
  rw [Nat.or_comm, Nat.shiftLeft_eq, Nat.mul_comm, ← Nat.two_pow_add_eq_or_of_lt hresult]
  omega

/-- The last byte of a number has its top bit clear. -/
theorem stops_iff (n : Nat) : n &&& 0x80 = 0 ↔ n.testBit 7 = false := by
  rw [show 0x80 = 2 ^ 7 from rfl, Nat.and_two_pow]
  cases n.testBit 7 <;> decide

theorem low_bits (n : Nat) : n &&& 0x7F = n % 128 := Nat.and_two_pow_sub_one_eq_mod n 7

theorem more_byte (n : Nat) : ((n &&& 0x7F) ||| 0x80).toUInt8.toNat = n % 128 + 128 := by
  have hor : (n % 128) ||| 0x80 = n % 128 + 128 := by
    rw [Nat.or_comm]
    exact (Nat.two_pow_add_eq_or_of_lt (show n % 128 < 2 ^ 7 by omega) 1).symm.trans (by omega)
  rw [low_bits, hor]
  simp
  omega

theorem decodeFrom_encode (n : Nat) (rest : Bytes) {shift result : Nat}
    (hresult : result < 2 ^ shift) :
    decodeFrom shift result (encode n ++ rest) =
      some (result + n * 2 ^ shift, (encode n).length) := by
  induction n using Nat.strongRecOn generalizing shift result with
  | ind n ih =>
      rw [encode]
      split
      case isTrue hsmall =>
          have hbyte : n.toUInt8.toNat = n := by
            simp
            omega
          have hstop : n &&& 0x80 = 0 := by
            rw [stops_iff]
            exact Nat.testBit_lt_two_pow (show n < 2 ^ 7 by omega)
          simp only [List.cons_append, List.nil_append, decodeFrom, hbyte, hstop, if_true, low_bits]
          rw [Nat.mod_eq_of_lt (by omega), or_shiftLeft _ hresult]
          rfl
      case isFalse hlarge =>
          have hgoes : (n % 128 + 128) &&& 0x80 ≠ 0 := by
            rw [ne_eq, stops_iff, Nat.add_comm, show 128 = 2 ^ 7 from rfl,
              Nat.testBit_two_pow_add_eq, Nat.testBit_lt_two_pow (Nat.mod_lt n (by decide))]
            decide
          have hlow : (n % 128 + 128) &&& 0x7F = n % 128 := by
            rw [low_bits]
            omega
          have hshift : n >>> 7 = n / 128 := Nat.shiftRight_eq_div_pow n 7
          have hpow : 2 ^ (shift + 7) = 2 ^ shift * 128 := Nat.pow_add 2 shift 7
          have hresult' : result + n % 128 * 2 ^ shift < 2 ^ (shift + 7) := by
            have hmod : n % 128 ≤ 127 := by omega
            have hmul : n % 128 * 2 ^ shift ≤ 127 * 2 ^ shift := Nat.mul_le_mul_right _ hmod
            omega
          simp only [List.cons_append, decodeFrom, more_byte, hgoes, if_false, hlow]
          rw [or_shiftLeft _ hresult, ih (n >>> 7) (by omega) hresult', hshift, hpow]
          have hsum : n % 128 * 2 ^ shift + n / 128 * (2 ^ shift * 128) = n * 2 ^ shift := by
            calc n % 128 * 2 ^ shift + n / 128 * (2 ^ shift * 128)
                = (n % 128 + 128 * (n / 128)) * 2 ^ shift := by ring
              _ = n * 2 ^ shift := by rw [Nat.mod_add_div]
          simp only [Option.map_some, List.length_cons]
          rw [Nat.add_assoc, hsum]

theorem decode_encode (n : Nat) (rest : Bytes) :
    decode (encode n ++ rest) = some (n, (encode n).length) := by
  have h := decodeFrom_encode n rest (show 0 < 2 ^ 0 by decide)
  rw [Nat.zero_add, Nat.pow_zero, Nat.mul_one] at h
  exact h

theorem encode_injective {m n : Nat} (h : encode m = encode n) : m = n := by
  have hm := decode_encode m []
  rw [h, decode_encode n []] at hm
  exact (Prod.mk.inj (Option.some.inj hm)).1.symm

theorem decodeFrom_append {data : Bytes} (extra : Bytes) {shift result n count : Nat}
    (h : decodeFrom shift result data = some (n, count)) :
    decodeFrom shift result (data ++ extra) = some (n, count) ∧ count ≤ data.length := by
  induction data generalizing shift result count with
  | nil => cases h
  | cons b rest ih =>
      simp only [List.cons_append, decodeFrom] at h ⊢
      split at h
      case isTrue hstop =>
          obtain ⟨rfl, rfl⟩ := Prod.mk.inj (Option.some.inj h)
          exact ⟨if_pos hstop, by simp⟩
      case isFalse hgoes =>
          obtain ⟨⟨m, count'⟩, hm, heq⟩ := Option.map_eq_some_iff.mp h
          obtain ⟨rfl, rfl⟩ := Prod.mk.inj heq
          obtain ⟨hextended, hle⟩ := ih hm
          rw [if_neg hgoes, hextended]
          exact ⟨rfl, by simpa using hle⟩

end Varint

/-- A decoder: what it reads next, and how it goes on. `ν`: what it hands to code
that may raise by itself; `ε`: what it raises. -/
inductive Decoder (ν ε α : Type) where
  | pure (a : α)
  | fail (e : ε)
  | unpack (width : Nat) (next : Bytes → Decoder ν ε α)
  | varint (next : Nat → Decoder ν ε α)
  | slice (length : Nat) (next : Bytes → Decoder ν ε α)
  | check (x : ν) (next : Decoder ν ε α)

/-- Why a decoder stops: a field past the end, an index past the end, its own error. -/
inductive ReadFailure (ε : Type) where
  | short
  | index
  | raised (e : ε)
  deriving DecidableEq

namespace Decoder

variable {ν ε α β : Type}

def bind : Decoder ν ε α → (α → Decoder ν ε β) → Decoder ν ε β
  | pure a, f => f a
  | fail e, _ => fail e
  | unpack width next, f => unpack width fun bytes => (next bytes).bind f
  | varint next, f => varint fun n => (next n).bind f
  | slice length next, f => slice length fun bytes => (next bytes).bind f
  | check x next, f => check x (next.bind f)

instance : Monad (Decoder ν ε) where
  pure := .pure
  bind := .bind

def ofExcept : Except ε α → Decoder ν ε α
  | .ok a => .pure a
  | .error e => .fail e

/-- The value and the offset behind it. -/
def run : Decoder ν ε α → Bytes → Nat → Except (ReadFailure ε) (α × Nat)
  | pure a, _, offset => .ok (a, offset)
  | fail e, _, _ => .error (.raised e)
  | unpack width next, data, offset =>
      if offset + width ≤ data.length then
        (next ((data.drop offset).take width)).run data (offset + width)
      else .error .short
  | varint next, data, offset =>
      match Varint.decode (data.drop offset) with
      | some (n, count) => (next n).run data (offset + count)
      | none => .error .index
  | slice length next, data, offset =>
      (next ((data.drop offset).take length)).run data (offset + length)
  | check _ next, data, offset => next.run data offset

@[simp] theorem run_pure (a : α) (data : Bytes) (offset : Nat) :
    (Pure.pure a : Decoder ν ε α).run data offset = .ok (a, offset) := rfl

theorem run_bind (p : Decoder ν ε α) (f : α → Decoder ν ε β) (data : Bytes) (offset : Nat) :
    (p >>= f).run data offset = (p.run data offset).bind fun (a, offset') =>
      (f a).run data offset' := by
  change (p.bind f).run data offset = _
  induction p generalizing offset with
  | pure a => rfl
  | fail e => rfl
  | unpack width next ih =>
      simp only [bind, run]
      split
      · exact ih _ _
      · rfl
  | varint next ih =>
      simp only [bind, run]
      split
      · exact ih _ _
      · rfl
  | slice length next ih => exact ih _ _
  | check x next ih => exact ih _

/-! What a run depends on. -/

theorem run_mono {p : Decoder ν ε α} {data : Bytes} {offset offset' : Nat} {a : α}
    (h : p.run data offset = .ok (a, offset')) : offset ≤ offset' := by
  induction p generalizing offset with
  | pure b =>
      obtain ⟨-, rfl⟩ := Prod.mk.inj (Except.ok.inj h)
      exact Nat.le_refl _
  | fail e => cases h
  | unpack width next ih =>
      simp only [run] at h
      split at h
      · have hle := ih _ h
        omega
      · cases h
  | varint next ih =>
      simp only [run] at h
      split at h
      · have hle := ih _ h
        omega
      · cases h
  | slice length next ih =>
      have hle := ih _ h
      omega
  | check x next ih => exact ih h

theorem read_append {data : Bytes} (extra : Bytes) {offset width : Nat}
    (hwithin : offset + width ≤ data.length) :
    ((data ++ extra).drop offset).take width = (data.drop offset).take width := by
  rw [List.drop_append_of_le_length (by omega), List.take_append_of_le_length]
  rw [List.length_drop]
  omega

/-- A run that has ended within the bytes reads the same when others follow. -/
theorem run_append {p : Decoder ν ε α} {data : Bytes} (extra : Bytes) {offset offset' : Nat} {a : α}
    (h : p.run data offset = .ok (a, offset')) (hwithin : offset' ≤ data.length) :
    p.run (data ++ extra) offset = .ok (a, offset') := by
  induction p generalizing offset with
  | pure b => exact h
  | fail e => cases h
  | unpack width next ih =>
      simp only [run] at h ⊢
      split at h
      case isTrue hle =>
          rw [if_pos (by rw [List.length_append]; omega), read_append extra hle]
          exact ih _ h
      case isFalse => cases h
  | varint next ih =>
      simp only [run] at h ⊢
      split at h
      case h_1 n count hdecode =>
          have hmono := run_mono h
          rw [List.drop_append_of_le_length (by omega)]
          rw [Varint.decode, (Varint.decodeFrom_append extra hdecode).1]
          exact ih _ h
      case h_2 => cases h
  | slice length next ih =>
      simp only [run] at h ⊢
      rw [read_append extra ((run_mono h).trans hwithin)]
      exact ih _ h
  | check x next ih => exact ih h

/-! When a run fails. -/

/-- Every field and number that is read lies within the bytes, and everything handed
on is fine. -/
def Clear (fine : ν → Bool) : Decoder ν ε α → Bytes → Nat → Prop
  | pure _, _, _ => True
  | fail _, _, _ => True
  | unpack width next, data, offset =>
      offset + width ≤ data.length ∧
        Clear fine (next ((data.drop offset).take width)) data (offset + width)
  | varint next, data, offset =>
      ∃ n count, Varint.decode (data.drop offset) = some (n, count) ∧
        Clear fine (next n) data (offset + count)
  | slice length next, data, offset =>
      Clear fine (next ((data.drop offset).take length)) data (offset + length)
  | check x next, data, offset => fine x = true ∧ Clear fine next data offset

/-- The decoder raises what is not caught exactly where something that is not fine is
handed on. -/
def Guarded (fine : ν → Bool) (caught : ε → Bool) : Decoder ν ε α → Prop
  | pure _ => True
  | fail e => caught e = true
  | unpack _ next => ∀ bytes, Guarded fine caught (next bytes)
  | varint next => ∀ n, Guarded fine caught (next n)
  | slice _ next => ∀ bytes, Guarded fine caught (next bytes)
  | check x next =>
      if fine x then Guarded fine caught next else ∃ e, caught e = false ∧ next = fail e

variable {fine : ν → Bool} {caught : ε → Bool}

theorem guarded_bind {p : Decoder ν ε α} {f : α → Decoder ν ε β} (hp : Guarded fine caught p)
    (hf : ∀ a, Guarded fine caught (f a)) : Guarded fine caught (p >>= f) := by
  change Guarded fine caught (p.bind f)
  induction p with
  | pure a => exact hf a
  | fail e => exact hp
  | unpack width next ih => exact fun bytes => ih bytes (hp bytes)
  | varint next ih => exact fun n => ih n (hp n)
  | slice length next ih => exact fun bytes => ih bytes (hp bytes)
  | check x next ih =>
      unfold Guarded at hp
      simp only [bind]
      unfold Guarded
      split
      case isTrue hfine =>
          rw [if_pos hfine] at hp
          exact ih hp
      case isFalse hfine =>
          rw [if_neg hfine] at hp
          obtain ⟨e, hcaught, rfl⟩ := hp
          exact ⟨e, hcaught, rfl⟩

theorem guarded_ofExcept {r : Except ε α} (h : ∀ e, r = .error e → caught e = true) :
    Guarded fine caught (ofExcept r : Decoder ν ε α) := by
  cases r with
  | ok a => trivial
  | error e => exact h e rfl

/-- The run returns, or raises what is caught. -/
def Handled (caught : ε → Bool) (r : Except (ReadFailure ε) (α × Nat)) : Prop :=
  match r with
  | .ok _ => True
  | .error (.raised e) => caught e = true
  | .error _ => False

theorem handled_iff_clear {p : Decoder ν ε α} (hp : Guarded fine caught p) (data : Bytes)
    (offset : Nat) :
    Handled caught (p.run data offset) ↔ p.Clear fine data offset := by
  induction p generalizing offset with
  | pure a => exact Iff.rfl
  | fail e => exact ⟨fun _ => trivial, fun _ => hp⟩
  | unpack width next ih =>
      simp only [run, Clear]
      split
      case isTrue hle => exact (ih _ (hp _) _).trans (iff_and_self.mpr fun _ => hle)
      case isFalse hlong => exact ⟨False.elim, fun h => hlong h.1⟩
  | varint next ih =>
      simp only [run, Clear]
      split
      case h_1 n count hdecode =>
          rw [ih n (hp n)]
          constructor
          · exact fun h => ⟨n, count, hdecode, h⟩
          · rintro ⟨m, count', hdecode', h⟩
            obtain ⟨rfl, rfl⟩ := Prod.mk.inj (Option.some.inj (hdecode.symm.trans hdecode'))
            exact h
      case h_2 hnone =>
          refine ⟨False.elim, ?_⟩
          rintro ⟨m, count, hdecode, -⟩
          rw [hnone] at hdecode
          cases hdecode
  | slice length next ih => exact ih _ (hp _) _
  | check x next ih =>
      simp only [run, Clear]
      unfold Guarded at hp
      split at hp
      case isTrue hfine => exact (ih hp offset).trans (iff_and_self.mpr fun _ => hfine)
      case isFalse hfine =>
          obtain ⟨e, hcaught, rfl⟩ := hp
          refine ⟨fun h => ?_, fun h => absurd h.1 hfine⟩
          exact absurd (hcaught.symm.trans h) nofun

/-! Reading what has been written. -/

/-- Wherever the bytes stand, the decoder reads exactly them and gives the result. -/
def Reads (p : Decoder ν ε α) (bytes : Bytes) (result : Except ε α) : Prop :=
  ∀ before after : Bytes, p.run (before ++ (bytes ++ after)) before.length =
    match result with
    | .ok a => .ok (a, before.length + bytes.length)
    | .error e => .error (.raised e)

/-- What is read is the same every time. -/
theorem Reads.eq_ok {p : Decoder ν ε α} {bytes : Bytes} {result : Except ε α} {a : α}
    (h : Reads p bytes result) (h' : Reads p bytes (.ok a)) : result = .ok a := by
  have hrun := (h [] []).symm.trans (h' [] [])
  cases result with
  | error e => cases hrun
  | ok b => rw [(Prod.mk.inj (Except.ok.inj hrun)).1]

theorem reads_pure (a : α) : Reads (Pure.pure a : Decoder ν ε α) [] (.ok a) := fun _ _ => rfl

theorem reads_ofExcept (r : Except ε α) : Reads (ofExcept r : Decoder ν ε α) [] r := by
  cases r <;> exact fun _ _ => rfl

theorem Reads.bind {p : Decoder ν ε α} {f : α → Decoder ν ε β} {bytes bytes' : Bytes}
    {result : Except ε α} (result' : α → Except ε β) (hp : Reads p bytes result)
    (hf : ∀ a, result = .ok a → Reads (f a) bytes' (result' a)) :
    Reads (p >>= f) (bytes ++ bytes') (result.bind result') := by
  intro before after
  have hfirst := hp before (bytes' ++ after)
  rw [run_bind, List.append_assoc, hfirst]
  cases result with
  | error e => rfl
  | ok a =>
      have hsecond := hf a rfl (before ++ bytes) after
      rw [List.length_append, List.append_assoc] at hsecond
      simp only [Except.bind]
      rw [hsecond]
      cases result' a <;> simp [Nat.add_assoc]

/-- What follows a decoder that does not fail. -/
theorem Reads.then {p : Decoder ν ε α} {f : α → Decoder ν ε β} {bytes bytes' : Bytes} {a : α}
    {result : Except ε β} (hp : Reads p bytes (.ok a)) (hf : Reads (f a) bytes' result) :
    Reads (p >>= f) (bytes ++ bytes') result :=
  hp.bind (fun _ => result) fun _ ha => Except.ok.inj ha ▸ hf

theorem Reads.map {p : Decoder ν ε α} {bytes : Bytes} {result : Except ε α} (g : α → β)
    (hp : Reads p bytes result) :
    Reads (p >>= fun a => Pure.pure (g a)) bytes (result.map g) := by
  have h : Reads (p >>= fun a => Pure.pure (g a)) (bytes ++ []) (result.bind fun a => .ok (g a)) :=
    hp.bind _ fun a _ => reads_pure (g a)
  rw [List.append_nil] at h
  cases result <;> exact h

theorem reads_unpack {bytes bytes' : Bytes} {next : Bytes → Decoder ν ε α} {result : Except ε α}
    (h : Reads (next bytes) bytes' result) :
    Reads (unpack bytes.length next) (bytes ++ bytes') result := by
  intro before after
  have hnext := h (before ++ bytes) after
  rw [List.length_append, List.append_assoc] at hnext
  rw [List.append_assoc, run, if_pos (by simp only [List.length_append]; omega), List.drop_left,
    List.take_left, hnext]
  cases result <;> simp [Nat.add_assoc]

theorem Reads.map_ok {p : Decoder ν ε α} {bytes : Bytes} {a : α} (g : α → β)
    (hp : Reads p bytes (.ok a)) :
    Reads (p >>= fun a => Pure.pure (g a)) bytes (.ok (g a)) := hp.map g

/-- A field of which one function makes the value. -/
theorem reads_field {width : Nat} {bytes : Bytes} (hlength : bytes.length = width)
    (read : Bytes → α) :
    Reads (unpack width fun field => .pure (read field) : Decoder ν ε α) bytes
    (.ok (read bytes)) := by
  subst hlength
  have hread :
      Reads (unpack bytes.length fun field => .pure (read field) : Decoder ν ε α) (bytes ++ [])
      (.ok (read bytes)) := reads_unpack (reads_pure (read bytes))
  rw [List.append_nil] at hread
  exact hread

theorem reads_varint {n : Nat} {bytes' : Bytes} {next : Nat → Decoder ν ε α} {result : Except ε α}
    (h : Reads (next n) bytes' result) :
    Reads (varint next) (Varint.encode n ++ bytes') result := by
  intro before after
  have hnext := h (before ++ Varint.encode n) after
  rw [List.length_append, List.append_assoc] at hnext
  rw [List.append_assoc, run, List.drop_left, Varint.decode_encode]
  dsimp only
  rw [hnext]
  cases result <;> simp [Nat.add_assoc]

theorem reads_slice {bytes bytes' : Bytes} {next : Bytes → Decoder ν ε α} {result : Except ε α}
    (h : Reads (next bytes) bytes' result) :
    Reads (slice bytes.length next) (bytes ++ bytes') result := by
  intro before after
  have hnext := h (before ++ bytes) after
  rw [List.length_append, List.append_assoc] at hnext
  rw [List.append_assoc, run, List.drop_left, List.take_left, hnext]
  cases result <;> simp [Nat.add_assoc]

theorem reads_check {bytes : Bytes} {x : ν} {next : Decoder ν ε α} {result : Except ε α}
    (h : Reads next bytes result) : Reads (check x next) bytes result := h

/-! Numbers of a fixed width, the most significant byte first. -/

def number (bytes : Bytes) : Nat := bytes.foldl (fun n b => 256 * n + b.toNat) 0

def digits : Nat → Nat → Bytes
  | 0, _ => []
  | width + 1, n => digits width (n / 256) ++ [(n % 256).toUInt8]

theorem digits_length (width n : Nat) : (digits width n).length = width := by
  induction width generalizing n with
  | zero => rfl
  | succ width ih => simp [digits, ih]

theorem number_digits {width n : Nat} (h : n < 256 ^ width) : number (digits width n) = n := by
  induction width generalizing n with
  | zero =>
      rw [Nat.pow_zero] at h
      obtain rfl : n = 0 := by omega
      rfl
  | succ width ih =>
      have hdiv : n / 256 < 256 ^ width := by
        rw [Nat.div_lt_iff_lt_mul (by decide), ← Nat.pow_succ]
        exact h
      have hbyte : (n % 256).toUInt8.toNat = n % 256 := by simp
      have hnumber := ih hdiv
      rw [number] at hnumber ⊢
      rw [digits, List.foldl_append, hnumber, List.foldl_cons, List.foldl_nil, hbyte]
      omega

/-- `struct.unpack_from` of one unsigned number. -/
def unsigned (width : Nat) : Decoder ν ε Nat := unpack width fun bytes => .pure (number bytes)

theorem reads_unsigned {width n : Nat} (h : n < 256 ^ width) :
    Reads (unsigned width : Decoder ν ε Nat) (digits width n) (.ok n) := by
  have hread :
      Reads (unsigned width : Decoder ν ε Nat) (digits width n) (.ok (number (digits width n))) :=
    reads_field (digits_length width n) number
  rw [number_digits h] at hread
  exact hread

/-- Two unsigned numbers of the same width, read at once. -/
def unsignedPair (width : Nat) : Decoder ν ε (Nat × Nat) :=
  unpack (width + width) fun bytes => .pure (number (bytes.take width), number (bytes.drop width))

theorem reads_unsignedPair {width m n : Nat} (hm : m < 256 ^ width) (hn : n < 256 ^ width) :
    Reads (unsignedPair width : Decoder ν ε (Nat × Nat)) (digits width m ++ digits width n)
    (.ok (m, n)) := by
  have htake : (digits width m ++ digits width n).take width = digits width m :=
    List.take_left' (digits_length width m)
  have hdrop : (digits width m ++ digits width n).drop width = digits width n :=
    List.drop_left' (digits_length width m)
  have hlength : (digits width m ++ digits width n).length = width + width := by
    rw [List.length_append, digits_length, digits_length]
  have hread : Reads (unsignedPair width : Decoder ν ε (Nat × Nat))
      (digits width m ++ digits width n) (.ok _) :=
    reads_field hlength _
  rw [htake, hdrop, number_digits hm, number_digits hn] at hread
  exact hread

/-! Counted sequences. -/

def replicate : Nat → Decoder ν ε α → Decoder ν ε (List α)
  | 0, _ => Pure.pure []
  | n + 1, p => do
      let a ← p
      let rest ← replicate n p
      Pure.pure (a :: rest)

theorem reads_replicate {γ : Type} {p : Decoder ν ε α} {items : List γ} {bytes : γ → Bytes}
    {result : γ → Except ε α} (h : ∀ x ∈ items, Reads p (bytes x) (result x)) :
    Reads (replicate items.length p) (items.flatMap bytes) (items.mapM result) := by
  induction items with
  | nil => exact reads_pure []
  | cons x rest ih =>
      have hrest := ih fun y hy => h y (List.mem_cons_of_mem x hy)
      rw [List.mapM_cons, List.flatMap_cons]
      exact (h x List.mem_cons_self).bind _ fun a _ => hrest.map (a :: ·)

theorem guarded_replicate {p : Decoder ν ε α} (hp : Guarded fine caught p) (n : Nat) :
    Guarded fine caught (replicate n p) := by
  induction n with
  | zero => trivial
  | succ n ih => exact guarded_bind hp fun a => guarded_bind ih fun rest => trivial

/-! Sections of which a bit mask says which are present. -/

/-- The first bit is the lowest. -/
def mask (bits : List Bool) : Nat := bits.foldr (fun bit m => bit.toNat + 2 * m) 0

@[simp] theorem mask_cons (bit : Bool) (bits : List Bool) :
    mask (bit :: bits) = bit.toNat + 2 * mask bits := rfl

theorem mask_lt (bits : List Bool) : mask bits < 2 ^ bits.length := by
  induction bits with
  | nil => decide
  | cons bit rest ih =>
      have hbit := bit.toNat_le
      rw [mask_cons, List.length_cons, Nat.pow_succ]
      omega

/-- Whether the first section is present, and the mask of the others. -/
theorem mask_step (bit : Bool) (bits : List Bool) :
    ((mask (bit :: bits) % 2 = 1) ↔ bit = true) ∧ mask (bit :: bits) / 2 = mask bits := by
  rw [mask_cons]
  cases bit
  · refine ⟨⟨fun h => ?_, nofun⟩, ?_⟩
    · rw [Bool.toNat_false] at h
      omega
    · rw [Bool.toNat_false]
      omega
  · refine ⟨⟨fun _ => rfl, fun _ => ?_⟩, ?_⟩ <;> rw [Bool.toNat_true] <;> omega

/-- A section of which the lowest bit says whether it is present. -/
def optional (p : Decoder ν ε α) (m : Nat) : Decoder ν ε (Option α) :=
  if m % 2 = 1 then p >>= fun a => Pure.pure (some a) else Pure.pure none

def masked : List (Decoder ν ε α) → Nat → Decoder ν ε (List (Option α))
  | [], _ => Pure.pure []
  | p :: rest, m => do
      let x ← optional p m
      let xs ← masked rest (m / 2)
      Pure.pure (x :: xs)

/-- What is read of a section that has been written, or left out. -/
def present (written : Option (Bytes × Except ε α)) : Except ε (Option α) :=
  match written with
  | some (_, result) => result.map some
  | none => .ok none

theorem reads_masked {γ : Type} {p : γ → Decoder ν ε α} {items : List γ}
    {written : γ → Option (Bytes × Except ε α)}
    (h : ∀ x ∈ items, ∀ bytes result, written x = some (bytes, result) → Reads (p x) bytes result) :
    Reads (masked (items.map p) (mask (items.map fun x => (written x).isSome)))
      (items.flatMap fun x => ((written x).map Prod.fst).getD [])
      (items.mapM fun x => present (written x)) := by
  induction items with
  | nil => exact reads_pure []
  | cons x rest ih =>
      have hrest := ih fun y hy => h y (List.mem_cons_of_mem x hy)
      have hx := h x List.mem_cons_self
      obtain ⟨hbit, hothers⟩ := mask_step (written x).isSome (rest.map fun y => (written y).isSome)
      rw [List.mapM_cons, List.flatMap_cons, List.map_cons, List.map_cons, masked]
      refine Reads.bind _ (?_ : Reads _ _ (present (written x))) fun a _ => ?_
      · rw [optional]
        cases hwritten : written x with
        | none =>
            rw [hwritten] at hbit
            rw [if_neg (fun h => by simpa using hbit.mp h)]
            exact reads_pure none
        | some section' =>
            obtain ⟨bytes, result⟩ := section'
            rw [hwritten] at hbit
            rw [if_pos (hbit.mpr rfl)]
            exact (hx bytes result hwritten).map some
      · rw [hothers]
        exact hrest.map (a :: ·)

theorem guarded_optional {p : Decoder ν ε α} (hp : Guarded fine caught p) (m : Nat) :
    Guarded fine caught (optional p m) := by
  rw [optional]
  split
  · exact guarded_bind hp fun a => trivial
  · trivial

theorem guarded_masked {ps : List (Decoder ν ε α)}
    (hps : ∀ p ∈ ps, Guarded fine caught p) (m : Nat) :
    Guarded fine caught (masked ps m) := by
  induction ps generalizing m with
  | nil => trivial
  | cons p rest ih =>
      have hrest := ih fun q hq => hps q (List.mem_cons_of_mem p hq)
      apply guarded_bind (guarded_optional (hps p List.mem_cons_self) m)
      exact fun x => guarded_bind (hrest _) fun xs => trivial

end Decoder

end Graveboards.Library
