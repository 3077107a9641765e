import Mathlib.Data.String.Basic
import Graveboards.Compression.Documents
import Graveboards.Rules.Crud
import Graveboards.Rules.Normalization

/-!
The key of the duplicate check is a sorted document in the model of the rule
operations, and the text of a sorted value in the model of `_normalize_config`.
Within the limits of the text they are one: the text is that of the sorted
document, so they tell the same configs apart.
-/

namespace Graveboards.Rules

open Library Sorting Search Compression

/-! Orders. -/

theorem map_toNat_lt_iff {l l' : List Char} : l.map Char.toNat < l'.map Char.toNat ↔ l < l' := by
  induction l generalizing l' with
  | nil =>
      cases l' with
      | nil => exact iff_of_false (List.not_lt_nil _) (List.not_lt_nil _)
      | cons c' rest' => exact iff_of_true (List.nil_lt_cons _ _) (List.nil_lt_cons _ _)
  | cons c rest ih =>
      cases l' with
      | nil => exact iff_of_false (List.not_lt_nil _) (List.not_lt_nil _)
      | cons c' rest' =>
          rw [List.map_cons, List.map_cons, List.cons_lt_cons_iff, List.cons_lt_cons_iff, ih,
            Char.toNat_inj]
          exact Iff.rfl

theorem map_toNat_le_iff {l l' : List Char} : l.map Char.toNat ≤ l'.map Char.toNat ↔ l ≤ l' := by
  rw [← not_lt, ← not_lt]
  exact map_toNat_lt_iff.not

/-- The entries of a document are sorted as those of its value. -/
theorem entryKey_le_iff {a b : String × Json} :
    a.1 ≤ b.1 ↔ Normalization.entryKey (PyStr.ofString a.1, toValue a.2) ≤
      Normalization.entryKey (PyStr.ofString b.1, toValue b.2) := by
  have hkey (s : String) : (PyStr.ofString s).map PyStr.codePoint = s.toList.map Char.toNat := by
    rw [PyStr.ofString, List.map_map]
    rfl
  rw [Normalization.entryKey, Normalization.entryKey, hkey, hkey, map_toNat_le_iff,
    String.le_iff_toList_le]

theorem toEntries_sortEntries (entries : List (String × Json)) :
    toEntries (Json.sortEntries entries) = Normalization.sortEntries (toEntries entries) := by
  rw [toEntries_eq_map, toEntries_eq_map]
  exact List.map_insertionSort _ _ _ _ fun a _ b _ => entryKey_le_iff

/-! Canonical forms. -/

theorem textOf_toValue {depth : Nat} {j : Json} (h : Normalization.Canonical depth (toValue j)) :
    Normalization.textOf depth (toValue j) = (Text.dumps j).toList := by
  rw [Normalization.textOf, Normalization.dumpsSorted, h.2, dumps_toValue j h.1]

theorem toValues_sortItems {depth : Nat} {items : List Json}
    (h : ∀ x ∈ items, Normalization.Canonical depth (toValue x)) :
    toValues (Json.sortItems items) = sortOn (Normalization.textOf depth) (toValues items) := by
  rw [toValues_eq_map, toValues_eq_map]
  refine List.map_insertionSort _ _ _ _ fun a ha b hb => ?_
  rw [textOf_toValue (h a ha), textOf_toValue (h b hb), String.le_iff_toList_le]

theorem sortAllItems_eq_map (items : List Json) :
    Json.sortAllItems items = items.map Json.sortAll := by
  induction items with
  | nil => rfl
  | cons x rest ih => rw [Json.sortAllItems, ih, List.map_cons]

/-- The sorted document is the canonical form of the value. -/
theorem toValue_sortAll {depth : Nat} {j : Json} (h : Portable depth (toValue j)) :
    toValue j.sortAll = Normalization.canonical depth (toValue j) := by
  induction depth generalizing j with
  | zero =>
      cases j with
      | list items => cases h
      | dict entries => cases h
      | _ => rfl
  | succ depth ih =>
      cases j with
      | list items =>
          have hportable : ∀ x ∈ items, Portable depth (toValue x) := by
            intro x hx
            have hitems : PortableItems depth (toValues items) := h
            rw [toValues_eq_map, Normalization.portableItems_iff] at hitems
            exact hitems _ (List.mem_map_of_mem hx)
          have hforms : toValues (Json.sortAllItems items) =
              (toValues items).map (Normalization.canonical depth) := by
            rw [sortAllItems_eq_map, toValues_eq_map, toValues_eq_map, List.map_map, List.map_map]
            exact List.map_congr_left fun x hx => ih (hportable x hx)
          have hcanonical :
              ∀ x ∈ Json.sortAllItems items, Normalization.Canonical depth (toValue x) := by
            intro x hx
            rw [sortAllItems_eq_map] at hx
            obtain ⟨y, hy, rfl⟩ := List.mem_map.mp hx
            rw [ih (hportable y hy)]
            exact Normalization.canonical_canonical (hportable y hy)
          rw [Json.sortAll, toValue, toValues_sortItems hcanonical, hforms]
          rfl
      | dict entries =>
          have hportable : ∀ entry ∈ entries, Portable depth (toValue entry.2) := by
            intro entry hentry
            have hentries : PortableEntries depth (toEntries entries) := h.2
            rw [toEntries_eq_map, Normalization.portableEntries_iff] at hentries
            exact (hentries _ (List.mem_map_of_mem hentry)).2
          have hforms : toEntries (Json.sortAllEntries entries) =
              (toEntries entries).map fun entry =>
                (entry.1, Normalization.canonical depth entry.2) := by
            rw [Json.sortAllEntries_eq_map, toEntries_eq_map, toEntries_eq_map,
              List.map_map, List.map_map]
            refine List.map_congr_left fun entry hentry => ?_
            exact congrArg (Prod.mk (PyStr.ofString entry.1)) (ih (hportable entry hentry))
          rw [Json.sortAll, toValue, toEntries_sortEntries, hforms, Normalization.sortEntries_map]
          rfl
      | _ => rfl

theorem canonical_sortAll {depth : Nat} {j : Json} (h : Portable depth (toValue j)) :
    Normalization.Canonical depth (toValue j.sortAll) := by
  rw [toValue_sortAll h]
  exact Normalization.canonical_canonical h

/-- The text is that of the sorted document. -/
theorem normalizeConfig_text {depth : Nat} {config : Json} (h : Portable depth (toValue config)) :
    Normalization.normalizeConfig depth (toValue config) =
      .ok (Text.dumps (normalizeConfig config)).toList := by
  rw [Normalization.normalizeConfig_eq h, ← toValue_sortAll h, textOf_toValue (canonical_sortAll h)]
  rfl

/-- The two keys tell the same configs apart. -/
theorem normalizeConfig_agree {depth : Nat} {a b : Json} (ha : Portable depth (toValue a))
    (hb : Portable depth (toValue b)) :
    normalizeConfig a = normalizeConfig b ↔
      Normalization.normalizeConfig depth (toValue a) =
        Normalization.normalizeConfig depth (toValue b) := by
  rw [normalizeConfig_text ha, normalizeConfig_text hb, Except.ok.injEq]
  constructor
  · intro hsame
    rw [hsame]
  · intro htext
    have hforms := (canonical_sortAll ha).eq_of_textOf (canonical_sortAll hb) (by
      rw [textOf_toValue (canonical_sortAll ha), textOf_toValue (canonical_sortAll hb)]
      exact htext)
    exact toValue_injective _ _ hforms

example : Normalization.normalizeConfig 2 (toValue (.dict [("tag_ids", .list [.int 7, .int 5])])) =
    .ok "\x7b\"tag_ids\": [5, 7]\x7d".toList := by decide +kernel

end Graveboards.Rules
