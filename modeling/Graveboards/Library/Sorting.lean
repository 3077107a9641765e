import Mathlib.Data.List.Sort
import Mathlib.Data.Multiset.MapFold

/-!
Stable sorting by a key. Where the key tells the elements apart, the sorted
list is a canonical form of the bag: two lists are sorted to the same list if
and only if they are permutations of each other. If elements have canonical
forms of their own, the same holds for bags up to equal forms.
-/

namespace Graveboards.Library

namespace Sorting

variable {α β κ : Type} [LinearOrder κ]

/-- `sorted(xs, key=key)`. -/
def sortOn (key : α → κ) (xs : List α) : List α := xs.insertionSort fun a b => key a ≤ key b

section

variable (key : α → κ)

theorem sortOn_perm (xs : List α) : (sortOn key xs).Perm xs := List.perm_insertionSort _ xs

@[simp] theorem mem_sortOn {a : α} {xs : List α} : a ∈ sortOn key xs ↔ a ∈ xs :=
  (sortOn_perm key xs).mem_iff

theorem pairwise_sortOn (xs : List α) : (sortOn key xs).Pairwise fun a b => key a ≤ key b := by
  have : Std.Total (fun a b : α => key a ≤ key b) := ⟨fun a b => le_total (key a) (key b)⟩
  have : IsTrans α (fun a b => key a ≤ key b) := ⟨fun _ _ _ => le_trans⟩
  exact List.pairwise_insertionSort _ xs

theorem sortOn_sortOn (xs : List α) : sortOn key (sortOn key xs) = sortOn key xs :=
  (pairwise_sortOn key xs).insertionSort_eq

/-- Sorting commutes with a function that keeps the key. -/
theorem sortOn_map (f : β → α) (xs : List β) :
    sortOn key (xs.map f) = (sortOn (key ∘ f) xs).map f :=
  (List.map_insertionSort _ _ f xs fun _ _ _ _ => Iff.rfl).symm

/-- The keys may be computed first. -/
theorem map_sortOn_zip (xs : List α) :
    (sortOn Prod.fst ((xs.map key).zip xs)).map Prod.snd = sortOn key xs := by
  rw [← List.map_prod_right_eq_zip, sortOn_map, List.map_map]
  exact List.map_id _

variable {key}

theorem sortOn_eq_iff_perm {xs ys : List α} (hkey : ∀ a ∈ xs, ∀ b ∈ ys, key a = key b → a = b) :
    sortOn key xs = sortOn key ys ↔ xs.Perm ys := by
  constructor
  · intro hsorted
    have hleft := sortOn_perm key xs
    rw [hsorted] at hleft
    exact hleft.symm.trans (sortOn_perm key ys)
  · intro hperm
    refine List.Perm.eq_of_pairwise ?_ (pairwise_sortOn key xs) (pairwise_sortOn key ys) ?_
    · intro a b ha hb hle hge
      exact hkey a ((mem_sortOn key).mp ha) b ((mem_sortOn key).mp hb) (le_antisymm hle hge)
    · exact (sortOn_perm key xs).trans (hperm.trans (sortOn_perm key ys).symm)

end

/-- Lists are related as bags by having the same form if and only if their forms are a permutation
of each other. -/
theorem rel_iff_perm_map {γ : Type} {R : α → β → Prop} {f : α → γ} {g : β → γ}
    {xs : List α} {ys : List β} (h : ∀ a ∈ xs, ∀ b ∈ ys, (R a b ↔ f a = g b)) :
    Multiset.Rel R (xs : Multiset α) (ys : Multiset β) ↔ (xs.map f).Perm (ys.map g) := by
  rw [← Multiset.coe_eq_coe, ← Multiset.map_coe, ← Multiset.map_coe, ← Multiset.rel_eq,
    Multiset.rel_map]
  constructor
  · exact fun hrel => hrel.mono fun a ha b hb =>
      (h a (Multiset.mem_coe.mp ha) b (Multiset.mem_coe.mp hb)).mp
  · exact fun hrel => hrel.mono fun a ha b hb =>
      (h a (Multiset.mem_coe.mp ha) b (Multiset.mem_coe.mp hb)).mpr

/-- A bag that starts with an element is related to the bags that have a partner for it. -/
theorem rel_cons_iff {R : α → β → Prop} {a : α} {xs : List α} {ys : List β} :
    Multiset.Rel R ((a :: xs : List α) : Multiset α) (ys : Multiset β) ↔
      ∃ before b after, ys = before ++ b :: after ∧ R a b ∧
        Multiset.Rel R (xs : Multiset α) ((before ++ after : List β) : Multiset β) := by
  rw [← Multiset.cons_coe, Multiset.rel_cons_left]
  constructor
  · rintro ⟨b, rest, hrelated, hrest, hys⟩
    have hmem : b ∈ ys := by
      rw [← Multiset.mem_coe, hys]
      exact Multiset.mem_cons_self b rest
    obtain ⟨before, after, rfl⟩ := List.append_of_mem hmem
    refine ⟨before, b, after, rfl, hrelated, ?_⟩
    have hbag : b ::ₘ ((before ++ after : List β) : Multiset β) = b ::ₘ rest := by
      rw [← hys, Multiset.cons_coe, Multiset.coe_eq_coe]
      exact List.perm_middle.symm
    rw [(Multiset.cons_inj_right b).mp hbag]
    exact hrest
  · rintro ⟨before, b, after, rfl, hrelated, hrest⟩
    refine ⟨b, _, hrelated, hrest, ?_⟩
    rw [Multiset.cons_coe, Multiset.coe_eq_coe]
    exact List.perm_middle

end Sorting

end Graveboards.Library
