import Mathlib.Data.List.Nodup

/-!
Dictionaries as lists of entries: the entries that a loop over a dictionary keeps, and what
is then found under a key.
-/

namespace Graveboards.Library.Dictionary

variable {κ α β : Type}

def keys (entries : List (κ × α)) : List κ := entries.map Prod.fst

/-- The entries that `f` keeps, under their keys, with the values it gives them. -/
def select (f : κ → α → Option β) (entries : List (κ × α)) : List (κ × β) :=
  entries.filterMap fun entry => (f entry.1 entry.2).map (Prod.mk entry.1)

@[simp] theorem keys_nil : keys ([] : List (κ × α)) = [] := rfl

@[simp] theorem keys_cons (entry : κ × α) (rest : List (κ × α)) :
    keys (entry :: rest) = entry.1 :: keys rest := rfl

@[simp] theorem select_nil (f : κ → α → Option β) : select f [] = [] := rfl

theorem select_cons (f : κ → α → Option β) (entry : κ × α) (rest : List (κ × α)) :
    select f (entry :: rest) =
      ((f entry.1 entry.2).map (Prod.mk entry.1)).toList ++ select f rest := by
  cases h : f entry.1 entry.2 with
  | none => simp [select, h]
  | some b => simp [select, h]

theorem mem_keys {entries : List (κ × α)} {key : κ} :
    key ∈ keys entries ↔ ∃ value, (key, value) ∈ entries := by
  simp [keys]

theorem keys_select_sublist (f : κ → α → Option β) (entries : List (κ × α)) :
    (keys (select f entries)).Sublist (keys entries) := by
  induction entries with
  | nil => simp
  | cons entry rest ih =>
      rw [select_cons, keys_cons]
      cases f entry.1 entry.2 with
      | none => exact ih.cons entry.1
      | some b => exact ih.cons_cons entry.1

variable [BEq κ] [LawfulBEq κ]

theorem mem_of_lookup {entries : List (κ × α)} {key : κ} {a : α}
    (h : entries.lookup key = some a) : (key, a) ∈ entries := by
  obtain ⟨before, after, rfl, -⟩ := List.lookup_eq_some_iff.mp h
  simp

theorem lookup_of_not_mem {entries : List (κ × α)} {key : κ} (h : key ∉ keys entries) :
    entries.lookup key = none := by
  rw [List.lookup_eq_none_iff]
  intro entry hentry
  rw [bne_iff_ne]
  rintro rfl
  exact h (List.mem_map_of_mem hentry)

/-- Where no key is repeated, what stands under a key is what is found there. -/
theorem lookup_of_mem {entries : List (κ × α)} (hkeys : (keys entries).Nodup) {key : κ} {a : α}
    (h : (key, a) ∈ entries) : entries.lookup key = some a := by
  induction entries with
  | nil => cases h
  | cons entry rest ih =>
      obtain ⟨hnot, hrest⟩ := List.nodup_cons.mp hkeys
      rcases List.mem_cons.mp h with rfl | h
      · simp
      · have hne : key ≠ entry.1 := by
          rintro rfl
          exact hnot (mem_keys.mpr ⟨a, h⟩)
        rw [List.lookup_cons, beq_false_of_ne hne]
        exact ih hrest h

/-- Two dictionaries with the same keys in one order, under each of which the same is found. -/
theorem ext_of_lookup {entries entries' : List (κ × α)} (hkeys : (keys entries).Nodup)
    (hsame : keys entries = keys entries') (h : ∀ key, entries.lookup key = entries'.lookup key) :
    entries = entries' := by
  induction entries generalizing entries' with
  | nil =>
      cases entries' with
      | nil => rfl
      | cons entry' rest' => cases hsame
  | cons entry rest ih =>
      cases entries' with
      | nil => cases hsame
      | cons entry' rest' =>
          rw [keys_cons, keys_cons] at hsame
          obtain ⟨hkey, hrest⟩ := List.cons.inj hsame
          obtain ⟨hnot, hnodup⟩ := List.nodup_cons.mp hkeys
          have hvalue := h entry.1
          rw [List.lookup_cons, List.lookup_cons, ← hkey, beq_self_eq_true] at hvalue
          have hentry : entry = entry' := Prod.ext hkey (Option.some.inj hvalue)
          rw [hentry, ih hnodup hrest]
          intro key
          by_cases hmem : key ∈ keys rest
          · have hne : key ≠ entry.1 := by
              rintro rfl
              exact hnot hmem
            have hrest := h key
            rw [List.lookup_cons, List.lookup_cons, ← hkey, beq_false_of_ne hne] at hrest
            exact hrest
          · rw [lookup_of_not_mem hmem, lookup_of_not_mem (hrest ▸ hmem)]

/-- A loop that keeps or drops each entry gives under a key what it makes of the entry there. -/
theorem lookup_select (f : κ → α → Option β) {entries : List (κ × α)} (hkeys : (keys entries).Nodup)
    (key : κ) : (select f entries).lookup key = (entries.lookup key).bind (f key) := by
  induction entries with
  | nil => rfl
  | cons entry rest ih =>
      obtain ⟨hnot, hrest⟩ := List.nodup_cons.mp hkeys
      rw [select_cons, List.lookup_cons]
      by_cases hkey : key = entry.1
      · subst hkey
        have hdropped : (select f rest).lookup entry.1 = none :=
          lookup_of_not_mem fun hmem => hnot ((keys_select_sublist f rest).subset hmem)
        cases hf : f entry.1 entry.2 with
        | none => simp [hf, hdropped]
        | some b => simp [hf]
      · have hne : (key == entry.1) = false := beq_false_of_ne hkey
        cases f entry.1 entry.2 with
        | none => simp [hne, ih hrest]
        | some b => simp [List.lookup_cons, hne, ih hrest]

end Graveboards.Library.Dictionary
