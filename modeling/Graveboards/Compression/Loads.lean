import Graveboards.Compression.Dumps

/-!
`json.loads`, one character at a time. The stack has the open containers around the value that
is being read; a number is complete when the character behind it is seen.
-/

namespace Graveboards.Compression

open Graveboards.Library Graveboards.Search

/-- A container that waits for a value. -/
inductive Frame where
  | list (items : List JsonValue)
  | member (entries : List (PyStr × JsonValue)) (key : PyStr)

/-- How far an escape has been read. -/
inductive Escape where
  | none
  | backslash
  | hex (unit count : Nat)
  deriving DecidableEq

/-- What is being read. A text is a value, or the key of a member of the entries. -/
inductive Mode where
  | value
  | firstItem
  | items (items : List JsonValue)
  | firstKey
  | key (entries : List (PyStr × JsonValue))
  | colon (entries : List (PyStr × JsonValue)) (key : PyStr)
  | entries (entries : List (PyStr × JsonValue))
  | text (keyOf : Option (List (PyStr × JsonValue))) (text : PyStr) (escape : Escape)
  | number (phase : Phase) (text : NumberText)
  | literal (rest : List Char) (v : JsonValue)
  | done (v : JsonValue)

abbrev State := Mode × List Frame

abbrev Loading := Except LoadError State

def isWhitespace (c : Char) : Bool := c = ' ' || c = '\t' || c = '\n' || c = '\r'

/-- `dict[key] = value`: a key that is there keeps its place. -/
def insert (entries : List (PyStr × JsonValue)) (key : PyStr) (v : JsonValue) :
    List (PyStr × JsonValue) :=
  if key ∈ entries.map Prod.fst then entries.map fun entry => if entry.1 = key then
    (key, v) else entry
  else entries ++ [(key, v)]

/-- A value goes to the container that waits for it. -/
def complete (v : JsonValue) : List Frame → State
  | [] => (.done v, [])
  | .list items :: stack => (.items (items ++ [v]), stack)
  | .member entries key :: stack => (.entries (insert entries key v), stack)

/-! Texts. -/

/-- A text at its closing quote. -/
def closeText (keyOf : Option (List (PyStr × JsonValue))) (text : PyStr) (stack : List Frame) :
    State :=
  match keyOf with
  | none => complete (.str text) stack
  | some entries => (.colon entries text, stack)

def longEscape (letter : Char) : Option Char :=
  match letter with
  | '"' => some '"'
  | '\\' => some '\\'
  | '/' => some '/'
  | 'b' => some '\x08'
  | 'f' => some '\x0c'
  | 'n' => some '\n'
  | 'r' => some '\r'
  | 't' => some '\t'
  | _ => none

def hexDigit (c : Char) : Option Nat :=
  if c.isDigit then some (c.toNat - '0'.toNat)
  else if 'a' ≤ c ∧ c ≤ 'f' then some (c.toNat - 'a'.toNat + 10)
  else if 'A' ≤ c ∧ c ≤ 'F' then some (c.toNat - 'A'.toNat + 10)
  else none

/-- A code unit behind a text: a low surrogate joins a high one before it. -/
def appendUnit (text : PyStr) (unit : Nat) : PyStr :=
  if h : 0xD800 ≤ unit ∧ unit < 0xE000 then
    match text.getLast? with
    | some (.surrogate high) =>
        if high.val < 1024 ∧ 0xDC00 ≤ unit then
          text.dropLast ++ [.char (Char.ofNat (0x10000 + high.val * 1024 + (unit - 0xDC00)))]
        else text ++ [.surrogate ⟨unit - 0xD800, by omega⟩]
    | _ => text ++ [.surrogate ⟨unit - 0xD800, by omega⟩]
  else text ++ [.char (Char.ofNat unit)]

def stepText (keyOf : Option (List (PyStr × JsonValue))) (text : PyStr) (stack : List Frame)
    (escape : Escape) (c : Char) : Loading :=
  match escape with
  | .none =>
      if c = '"' then .ok (closeText keyOf text stack)
      else if c = '\\' then .ok (.text keyOf text .backslash, stack)
      else if c < ' ' then .error .decodeError
      else .ok (.text keyOf (text ++ [.char c]) .none, stack)
  | .backslash =>
      if c = 'u' then .ok (.text keyOf text (.hex 0 0), stack)
      else
        match longEscape c with
        | some c => .ok (.text keyOf (text ++ [.char c]) .none, stack)
        | none => .error .decodeError
  | .hex unit count =>
      match hexDigit c with
      | none => .error .decodeError
      | some digit =>
          if count = 3 then .ok (.text keyOf (appendUnit text (unit * 16 + digit)) .none, stack)
          else .ok (.text keyOf text (.hex (unit * 16 + digit) (count + 1)), stack)

/-! Values. -/

/-- `limit`: how many containers may be open. -/
def stepValue (limit : Nat) (stack : List Frame) (c : Char) : Loading :=
  match c with
  | '"' => .ok (.text none [] .none, stack)
  | '[' => if stack.length < limit then .ok (.firstItem, stack) else .error .recursion
  | '\x7b' => if stack.length < limit then .ok (.firstKey, stack) else .error .recursion
  | 'n' => .ok (.literal ['u', 'l', 'l'] .null, stack)
  | 't' => .ok (.literal ['r', 'u', 'e'] (.bool true), stack)
  | 'f' => .ok (.literal ['a', 'l', 's', 'e'] (.bool false), stack)
  | 'N' => .ok (.literal ['a', 'N'] (.float .nan), stack)
  | 'I' => .ok (.literal "nfinity".toList (.float (.infinite false)), stack)
  | '-' => .ok (.number .sign (.start true), stack)
  | c =>
      match (NumberText.start false).next .sign c with
      | .more phase text => .ok (.number phase text, stack)
      | .stop | .broken => .error .decodeError

/-- Behind a complete value. -/
def stepBehind : State → Char → Loading
  | (.items items, stack), c =>
      if c = ',' then .ok (.value, .list items :: stack)
      else if c = ']' then .ok (complete (.list items) stack)
      else if isWhitespace c then .ok (.items items, stack)
      else .error .decodeError
  | (.entries entries, stack), c =>
      if c = ',' then .ok (.key entries, stack)
      else if c = '\x7d' then .ok (complete (.object entries) stack)
      else if isWhitespace c then .ok (.entries entries, stack)
      else .error .decodeError
  | state, c => if isWhitespace c then .ok state else .error .decodeError

def step (limit : Nat) : State → Char → Loading
  | (.value, stack), c => if isWhitespace c then .ok (.value, stack) else stepValue limit stack c
  | (.firstItem, stack), c =>
      if isWhitespace c then .ok (.firstItem, stack)
      else if c = ']' then .ok (complete (.list []) stack)
      else stepValue limit (.list [] :: stack) c
  | (.firstKey, stack), c =>
      if isWhitespace c then .ok (.firstKey, stack)
      else if c = '"' then .ok (.text (some []) [] .none, stack)
      else if c = '\x7d' then .ok (complete (.object []) stack)
      else .error .decodeError
  | (.key entries, stack), c =>
      if isWhitespace c then .ok (.key entries, stack)
      else if c = '"' then .ok (.text (some entries) [] .none, stack)
      else .error .decodeError
  | (.colon entries key, stack), c =>
      if isWhitespace c then .ok (.colon entries key, stack)
      else if c = ':' then .ok (.value, .member entries key :: stack)
      else .error .decodeError
  | (.text keyOf text escape, stack), c => stepText keyOf text stack escape c
  | (.number phase text, stack), c =>
      if phase = .sign ∧ c = 'I' then
        .ok (.literal "nfinity".toList (.float (.infinite true)), stack)
      else
        match text.next phase c with
        | .more phase text => .ok (.number phase text, stack)
        | .stop => (text.finish phase).bind fun v => stepBehind (complete v stack) c
        | .broken => .error text.broken
  | (.literal (d :: rest) v, stack), c =>
      if c = d then .ok (if rest = [] then complete v stack else (.literal rest v, stack))
      else .error .decodeError
  | (.literal [] _, _), _ => .error .decodeError
  | (mode, stack), c => stepBehind (mode, stack) c

/-- The end of the text. -/
def finish : State → Except LoadError JsonValue
  | (.done v, _) => .ok v
  | (.number phase text, stack) =>
      (text.finish phase).bind fun v =>
        match stack with
        | [] => .ok v
        | _ :: _ => .error .decodeError
  | _ => .error .decodeError

def run (limit : Nat) (state : State) (text : List Char) : Loading := text.foldlM (step limit) state

def loads (limit : Nat) (text : List Char) : Except LoadError JsonValue :=
  (run limit (.value, []) text).bind finish

end Graveboards.Compression
