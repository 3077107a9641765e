import Graveboards.Library.Text

/-!
Canonical forms of JSON documents. `sortKeys` puts the entries of every object
in key order, as `json.dumps(sort_keys=True)` writes them. `sortAll` also puts
the items of every list in the order of their texts, so that lists are
compared as bags. The second form depends on the first only.
-/

namespace Graveboards.Library

namespace Text

def hexDigits (n : Nat) : String :=
  String.ofList ([n / 4096, n / 256, n / 16, n].map (fun k => Nat.digitChar (k % 16)))

/-- One character of a JSON string literal. Beyond the basic plane the two
surrogates stand for the character. -/
def escapeChar (c : Char) : String :=
  if c = '"' then "\\\""
  else if c = '\\' then "\\\\"
  else if c = '\n' then "\\n"
  else if c = '\r' then "\\r"
  else if c = '\t' then "\\t"
  else if c.toNat = 8 then "\\b"
  else if c.toNat = 12 then "\\f"
  else if 32 ≤ c.toNat ∧ c.toNat < 127 then String.singleton c
  else if c.toNat < 65536 then "\\u" ++ hexDigits c.toNat
  else "\\u" ++ hexDigits (55296 + (c.toNat - 65536) / 1024) ++
    "\\u" ++ hexDigits (56320 + (c.toNat - 65536) % 1024)

def quoted (s : String) : String :=
  "\"" ++ String.join (s.toList.map escapeChar) ++ "\""

mutual

/-- `json.dumps`, entries in the order the document has them. -/
def dumps : Json → String
  | .null => "null"
  | .bool b => if b then "true" else "false"
  | .int n => toString n
  | .float x => x.repr
  | .str s => quoted s
  | .list items => "[" ++ dumpsItems items ++ "]"
  | .dict entries => "\x7b" ++ dumpsEntries entries ++ "\x7d"

def dumpsItems : List Json → String
  | [] => ""
  | [x] => dumps x
  | x :: rest => dumps x ++ ", " ++ dumpsItems rest

def dumpsEntries : List (String × Json) → String
  | [] => ""
  | [(k, v)] => quoted k ++ ": " ++ dumps v
  | (k, v) :: rest => quoted k ++ ": " ++ dumps v ++ ", " ++ dumpsEntries rest

end

end Text

namespace Json

/-- `sorted(obj.items())`: no two entries of an object share their key. -/
def sortEntries (entries : List (String × Json)) : List (String × Json) :=
  entries.insertionSort (fun a b => a.1 ≤ b.1)

/-- `sorted(items, key=json.dumps)`. -/
def sortItems (items : List Json) : List Json :=
  items.insertionSort (fun a b => Text.dumps a ≤ Text.dumps b)

mutual

def sortKeys : Json → Json
  | .list items => .list (sortKeysItems items)
  | .dict entries => .dict (sortEntries (sortKeysEntries entries))
  | other => other

def sortKeysItems : List Json → List Json
  | [] => []
  | x :: rest => sortKeys x :: sortKeysItems rest

def sortKeysEntries : List (String × Json) → List (String × Json)
  | [] => []
  | (k, v) :: rest => (k, sortKeys v) :: sortKeysEntries rest

end

mutual

def sortAll : Json → Json
  | .list items => .list (sortItems (sortAllItems items))
  | .dict entries => .dict (sortEntries (sortAllEntries entries))
  | other => other

def sortAllItems : List Json → List Json
  | [] => []
  | x :: rest => sortAll x :: sortAllItems rest

def sortAllEntries : List (String × Json) → List (String × Json)
  | [] => []
  | (k, v) :: rest => (k, sortAll v) :: sortAllEntries rest

end

theorem sortAllEntries_eq_map (entries : List (String × Json)) :
    sortAllEntries entries = entries.map (fun e => (e.1, sortAll e.2)) := by
  induction entries with
  | nil => rfl
  | cons entry rest ih => rw [sortAllEntries, ih, List.map_cons]

/-- Only the keys decide where an entry goes. -/
theorem sortAllEntries_sortEntries (entries : List (String × Json)) :
    sortAllEntries (sortEntries entries) = sortEntries (sortAllEntries entries) := by
  rw [sortAllEntries_eq_map, sortAllEntries_eq_map]
  exact List.map_insertionSort _ _ _ _ (fun _ _ _ _ => Iff.rfl)

theorem sortEntries_sortEntries (entries : List (String × Json)) :
    sortEntries (sortEntries entries) = sortEntries entries := by
  have : Std.Total (fun a b : String × Json => a.1 ≤ b.1) := ⟨fun a b => String.le_total a.1 b.1⟩
  have : IsTrans (String × Json) (fun a b => a.1 ≤ b.1) := ⟨fun _ _ _ => String.le_trans⟩
  exact (List.pairwise_insertionSort _ entries).insertionSort_eq

mutual

/-- The form that also sorts lists depends on the document up to key order
only. -/
theorem sortAll_sortKeys : (j : Json) → sortAll (sortKeys j) = sortAll j
  | .null | .bool _ | .int _ | .float _ | .str _ => rfl
  | .list items => by rw [sortKeys, sortAll, sortAll, sortAllItems_sortKeys items]
  | .dict entries => by
      rw [sortKeys, sortAll, sortAll, sortAllEntries_sortEntries, sortEntries_sortEntries,
        sortAllEntries_sortKeys entries]

theorem sortAllItems_sortKeys : (items : List Json) →
    sortAllItems (sortKeysItems items) = sortAllItems items
  | [] => rfl
  | x :: rest => by
      rw [sortKeysItems, sortAllItems, sortAllItems, sortAll_sortKeys x, sortAllItems_sortKeys rest]

theorem sortAllEntries_sortKeys : (entries : List (String × Json)) →
    sortAllEntries (sortKeysEntries entries) = sortAllEntries entries
  | [] => rfl
  | (k, v) :: rest => by
      rw [sortKeysEntries, sortAllEntries, sortAllEntries, sortAll_sortKeys v,
        sortAllEntries_sortKeys rest]

end

theorem sortAll_eq_of_sortKeys_eq {a b : Json} (h : sortKeys a = sortKeys b) :
    sortAll a = sortAll b := by
  rw [← sortAll_sortKeys a, h, sortAll_sortKeys]

example : sortAll (.dict [("b", .list [.int 2, .int 1]), ("a", .null)]) =
    .dict [("a", .null), ("b", .list [.int 1, .int 2])] := by decide +kernel

end Json

end Graveboards.Library
