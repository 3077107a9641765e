import Graveboards.Compression.Numbers

/-!
`json.dumps`: ASCII text with a blank behind each comma and colon. An integer of more than
4300 digits is refused, and so is a value that is nested too deeply.
-/

namespace Graveboards.Compression

open Graveboards.Library Graveboards.Search

/-- What `json.dumps` raises. -/
inductive DumpError where
  | tooManyDigits
  | recursion
  deriving DecidableEq

/-! Texts. -/

/-- The escapes of one letter. -/
def shortEscape (c : Char) : Option Char :=
  if c = '"' ∨ c = '\\' then some c
  else if c = '\n' then some 'n'
  else if c = '\r' then some 'r'
  else if c = '\t' then some 't'
  else if c = '\x0c' then some 'f'
  else if c = '\x08' then some 'b'
  else none

def unicodeEscape (unit : Nat) : List Char :=
  ['\\', 'u', (unit / 4096 % 16).digitChar, (unit / 256 % 16).digitChar, (unit / 16 % 16).digitChar,
    (unit % 16).digitChar]

/-- The escapes of a character that has more than four hexadecimal digits. -/
def surrogatePair (n : Nat) : List Char :=
  unicodeEscape (0xD800 + (n - 0x10000) / 1024) ++ unicodeEscape (0xDC00 + (n - 0x10000) % 1024)

/-- `py_encode_basestring_ascii` of one character. -/
def escape : CodePoint → List Char
  | .surrogate n => unicodeEscape (0xD800 + n)
  | .char c =>
      match shortEscape c with
      | some letter => ['\\', letter]
      | none =>
          if ' ' ≤ c ∧ c ≤ '~' then [c]
          else if c.toNat < 0x10000 then unicodeEscape c.toNat
          else surrogatePair c.toNat

def quote (s : PyStr) : List Char := '"' :: (s.flatMap escape ++ ['"'])

/-! Numbers. -/

def signText (negative : Bool) : List Char := if negative then ['-'] else []

/-- `int.__repr__`. -/
def dumpInt (n : Int) : Except DumpError (List Char) :=
  if Numeral.maxDigits < (digitsOf n.natAbs).length then .error .tooManyDigits
  else .ok (signText (decide (n < 0)) ++ digitsOf n.natAbs)

def floatText : PyFloat → List Char
  | .nan => "NaN".toList
  | .infinite negative => signText negative ++ "Infinity".toList
  | .finite negative magnitude => signText negative ++ reprMagnitude magnitude

/-! Values, with the number of containers that may still be opened. -/

def separated (parts : List (List Char)) : List Char := List.intercalate [',', ' '] parts

mutual

def dumps (depth : Nat) : JsonValue → Except DumpError (List Char)
  | .null => .ok "null".toList
  | .bool b => .ok (if b then "true".toList else "false".toList)
  | .int n => dumpInt n
  | .float x => .ok (floatText x)
  | .str s => .ok (quote s)
  | .list items =>
      match depth with
      | 0 => .error .recursion
      | depth + 1 => do
          let parts ← dumpsItems depth items
          .ok ('[' :: (separated parts ++ [']']))
  | .object entries =>
      match depth with
      | 0 => .error .recursion
      | depth + 1 => do
          let parts ← dumpsEntries depth entries
          .ok ('\x7b' :: (separated parts ++ ['\x7d']))

def dumpsItems (depth : Nat) : List JsonValue → Except DumpError (List (List Char))
  | [] => .ok []
  | v :: rest => do
      let text ← dumps depth v
      let texts ← dumpsItems depth rest
      .ok (text :: texts)

def dumpsEntries (depth : Nat) : List (PyStr × JsonValue) → Except DumpError (List (List Char))
  | [] => .ok []
  | (key, v) :: rest => do
      let text ← dumps depth v
      let texts ← dumpsEntries depth rest
      .ok ((quote key ++ (':' :: ' ' :: text)) :: texts)

end

/-! What is written and read back as it is. -/

def isHigh : CodePoint → Bool
  | .surrogate n => n.val < 1024
  | .char _ => false

def isLow : CodePoint → Bool
  | .surrogate n => 1024 ≤ n.val
  | .char _ => false

/-- No two surrogates that would be joined. -/
def Unpaired (s : PyStr) : Prop := s.IsChain fun p q => ¬ (isHigh p = true ∧ isLow q = true)

def IsDouble (x : PyFloat) : Prop := (FloatFormat.double.pack x).isSome = true

mutual

/-- The value keeps within the limits for digits and nesting, its floats are doubles, its objects
have different keys, and its texts no paired surrogates. -/
def Portable (depth : Nat) : JsonValue → Prop
  | .null | .bool _ => True
  | .int n => n.natAbs < 10 ^ Numeral.maxDigits
  | .float x => IsDouble x
  | .str s => Unpaired s
  | .list items =>
      match depth with
      | 0 => False
      | depth + 1 => PortableItems depth items
  | .object entries =>
      match depth with
      | 0 => False
      | depth + 1 => (entries.map Prod.fst).Nodup ∧ PortableEntries depth entries

def PortableItems (depth : Nat) : List JsonValue → Prop
  | [] => True
  | v :: rest => Portable depth v ∧ PortableItems depth rest

def PortableEntries (depth : Nat) : List (PyStr × JsonValue) → Prop
  | [] => True
  | (key, v) :: rest => Unpaired key ∧ Portable depth v ∧ PortableEntries depth rest

end

end Graveboards.Compression
