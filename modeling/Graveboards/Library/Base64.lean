import Mathlib.Data.List.DropRight
import Graveboards.Library.Decoder

/-!
URL-safe base64 as `binascii` writes and reads it. The reader skips what is no base64
character, stops at the padding that completes a group, and does not look at what follows, so
too much padding does no harm. What it requires is that the last group is complete.
-/

namespace Graveboards.Library.Base64

def alphabet : List Char :=
  "ABCDEFGHIJKLMNOPQRSTUVWXYZabcdefghijklmnopqrstuvwxyz0123456789-_".toList

/-- The character of six bits. -/
def encodeChar (sextet : Nat) : Char := alphabet.getD sextet '='

/-- `urlsafe_b64decode` reads both alphabets. -/
def decodeChar (c : Char) : Option Nat :=
  if c = '+' then some 62 else if c = '/' then some 63 else alphabet.idxOf? c

def pad : Char := '='

/-- Three bytes give four characters, the last group is padded. -/
def encode : Bytes → List Char
  | [] => []
  | [a] => [encodeChar (a.toNat / 4), encodeChar (a.toNat % 4 * 16), pad, pad]
  | [a, b] =>
      [encodeChar (a.toNat / 4), encodeChar (a.toNat % 4 * 16 + b.toNat / 16),
        encodeChar (b.toNat % 16 * 4), pad]
  | a :: b :: c :: rest =>
      encodeChar (a.toNat / 4) :: encodeChar (a.toNat % 4 * 16 + b.toNat / 16) ::
        encodeChar (b.toNat % 16 * 4 + c.toNat / 64) :: encodeChar (c.toNat % 64) :: encode rest

/-- `s.rstrip("=")`. -/
def strip (s : List Char) : List Char := s.rdropWhile (· = pad)

/-- The characters of a group that have been read, and the bits of the last one that have not
been written. -/
structure Group where
  count : Nat
  left : Nat

namespace Group

def start : Group := ⟨0, 0⟩

/-- The group after one more character, and the byte it completes. -/
def push (g : Group) (sextet : Nat) : Group × Bytes :=
  match g.count with
  | 0 => (⟨1, sextet⟩, [])
  | 1 => (⟨2, sextet % 16⟩, [UInt8.ofNat (g.left * 4 + sextet / 16)])
  | 2 => (⟨3, sextet % 4⟩, [UInt8.ofNat (g.left * 16 + sextet / 4)])
  | _ => (start, [UInt8.ofNat (g.left * 64 + sextet)])

end Group

/-- `binascii.a2b_base64` without strict mode; `none`: binascii.Error. -/
def read (g : Group) (pads : Nat) : List Char → Option Bytes
  | [] => if g.count = 0 then some [] else none
  | c :: rest =>
      if c = pad then
        if 2 ≤ g.count then
          if 4 ≤ g.count + (pads + 1) then some [] else read g (pads + 1) rest
        else read g pads rest
      else
        match decodeChar c with
        | none => read g pads rest
        | some sextet => (read (g.push sextet).1 0 rest).map ((g.push sextet).2 ++ ·)

def decode (s : List Char) : Option Bytes := read .start 0 s

theorem decodeChar_encodeChar {n : Nat} (h : n < 64) :
    encodeChar n ≠ pad ∧ decodeChar (encodeChar n) = some n := by
  have hall : ∀ n < 64, encodeChar n ≠ pad ∧ decodeChar (encodeChar n) = some n := by decide +kernel
  exact hall n h

/-- A character of the alphabet is read as its six bits. -/
theorem read_encodeChar {n : Nat} (h : n < 64) (g : Group) (pads : Nat) (rest : List Char) :
    read g pads (encodeChar n :: rest) = (read (g.push n).1 0 rest).map ((g.push n).2 ++ ·) := by
  obtain ⟨hpad, hdecode⟩ := decodeChar_encodeChar h
  rw [read, if_neg hpad, hdecode]

/-- The characters before the padding. -/
def unpadded : Bytes → List Char
  | [] => []
  | [a] => [encodeChar (a.toNat / 4), encodeChar (a.toNat % 4 * 16)]
  | [a, b] =>
      [encodeChar (a.toNat / 4), encodeChar (a.toNat % 4 * 16 + b.toNat / 16),
        encodeChar (b.toNat % 16 * 4)]
  | a :: b :: c :: rest =>
      encodeChar (a.toNat / 4) :: encodeChar (a.toNat % 4 * 16 + b.toNat / 16) ::
        encodeChar (b.toNat % 16 * 4 + c.toNat / 64) :: encodeChar (c.toNat % 64) :: unpadded rest

theorem encode_eq (bytes : Bytes) : ∃ n, encode bytes = unpadded bytes ++ List.replicate n pad := by
  fun_induction unpadded bytes with
  | case1 => exact ⟨0, rfl⟩
  | case2 a => exact ⟨2, rfl⟩
  | case3 a b => exact ⟨1, rfl⟩
  | case4 a b c rest ih =>
      obtain ⟨n, hn⟩ := ih
      exact ⟨n, by rw [encode, hn]; rfl⟩

theorem exists_encodeChar {bytes : Bytes} {x : Char} (h : x ∈ unpadded bytes) :
    ∃ n < 64, x = encodeChar n := by
  fun_induction unpadded bytes with
  | case1 => cases h
  | case2 a =>
      have ha := a.toNat_lt
      simp only [List.mem_cons, List.not_mem_nil, or_false] at h
      rcases h with rfl | rfl <;> exact ⟨_, by omega, rfl⟩
  | case3 a b =>
      have ha := a.toNat_lt
      have hb := b.toNat_lt
      simp only [List.mem_cons, List.not_mem_nil, or_false] at h
      rcases h with rfl | rfl | rfl <;> exact ⟨_, by omega, rfl⟩
  | case4 a b c rest ih =>
      have ha := a.toNat_lt
      have hb := b.toNat_lt
      have hc := c.toNat_lt
      simp only [List.mem_cons] at h
      rcases h with rfl | rfl | rfl | rfl | h
      all_goals first | exact ih h | exact ⟨_, by omega, rfl⟩

theorem isAscii_of_mem_unpadded {bytes : Bytes} {x : Char} (h : x ∈ unpadded bytes) :
    x.toNat < 128 := by
  have hall : ∀ n < 64, (encodeChar n).toNat < 128 := by decide +kernel
  obtain ⟨n, hn, rfl⟩ := exists_encodeChar h
  exact hall n hn

theorem strip_encode (bytes : Bytes) : strip (encode bytes) = unpadded bytes := by
  obtain ⟨n, hn⟩ := encode_eq bytes
  rw [hn]
  clear hn
  induction n with
  | zero =>
      rw [List.replicate_zero, List.append_nil, strip, List.rdropWhile_eq_self_iff]
      intro hne hlast
      obtain ⟨n, hn, hchar⟩ := exists_encodeChar (List.getLast_mem hne)
      exact (decodeChar_encodeChar hn).1 (hchar.symm.trans (of_decide_eq_true hlast))
  | succ n ih =>
      rw [List.replicate_succ', ← List.append_assoc, strip,
        List.rdropWhile_concat_pos _ _ _ (by simp)]
      exact ih

/-- Whatever the length of the text, the padding that its length asks for completes the last
group; for three characters of a group it is more than that. -/
theorem read_unpadded (bytes : Bytes) :
    decode (unpadded bytes ++ List.replicate ((unpadded bytes).length % 4) pad) = some bytes := by
  have hbyte : ∀ {a : UInt8} {n : Nat}, n = a.toNat → UInt8.ofNat n = a := by
    rintro a n rfl
    exact UInt8.ofNat_toNat
  rw [decode]
  fun_induction unpadded bytes with
  | case1 => rfl
  | case2 a =>
      have ha := a.toNat_lt
      rw [List.cons_append, read_encodeChar (by omega), List.cons_append,
        read_encodeChar (by omega)]
      simp only [Group.push, Group.start]
      rw [hbyte (a := a) (by omega)]
      rfl
  | case3 a b =>
      have ha := a.toNat_lt
      have hb := b.toNat_lt
      rw [List.cons_append, read_encodeChar (by omega), List.cons_append,
        read_encodeChar (by omega), List.cons_append, read_encodeChar (by omega)]
      simp only [Group.push, Group.start]
      rw [hbyte (a := a) (by omega), hbyte (a := b) (by omega)]
      rfl
  | case4 a b c rest ih =>
      have ha := a.toNat_lt
      have hb := b.toNat_lt
      have hc := c.toNat_lt
      rw [List.cons_append, read_encodeChar (by omega), List.cons_append,
        read_encodeChar (by omega), List.cons_append, read_encodeChar (by omega), List.cons_append,
        read_encodeChar (by omega)]
      have hlength : ∀ x y z w : Char,
          (x :: y :: z :: w :: unpadded rest).length % 4 = (unpadded rest).length % 4 := by
        intro x y z w
        simp only [List.length_cons]
        omega
      simp only [Group.push, Group.start, hlength]
      rw [hbyte (a := a) (by omega), hbyte (a := b) (by omega), hbyte (a := c) (by omega)]
      rw [Group.start] at ih
      rw [ih]
      rfl

end Graveboards.Library.Base64
