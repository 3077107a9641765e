import Mathlib.Algebra.BigOperators.Group.Finset.Basic
import Mathlib.Algebra.BigOperators.Group.Finset.Piecewise
import Mathlib.Algebra.Order.BigOperators.Group.Finset
import Mathlib.Algebra.Order.Ring.Int
import Mathlib.Data.List.MinMax
import Graveboards.Library.Relational

/-!
The best entry for each key, and the sum of the best scores. The sum depends only on which
entries there are, not on how often; for entries that are not negative it lies between what
one part has and what the parts have together.
-/

namespace Graveboards.Library

variable {α β κ : Type} {key : α → κ} {score : α → ℤ}

/-- `ROW_NUMBER() … ORDER BY score DESC` in a partition: a row with the highest score is the
first. Which one that is among equals is not determined. -/
structure Ranking (α : Type) (score : α → ℤ) where
  first : List α → Option α
  first_nil : first [] = none
  exists_first : ∀ rows, rows ≠ [] → ∃ a ∈ rows, first rows = some a
  le_first : ∀ rows a, first rows = some a → ∀ b ∈ rows, score b ≤ score a

namespace Ranking

/-- The earliest of the highest. -/
def earliest (score : α → ℤ) : Ranking α score where
  first := @List.argmax α ℤ Int.instLinearOrder.toPreorder Int.instLinearOrder.toDecidableLT score
  first_nil := List.argmax_nil score
  exists_first rows h := by
    obtain ⟨a, ha⟩ := Option.ne_none_iff_exists'.mp fun hnone : rows.argmax score = none =>
      h (List.argmax_eq_none.mp hnone)
    exact ⟨a, List.argmax_mem ha, ha⟩
  le_first _ _ ha _ hb := List.le_of_mem_argmax hb ha

theorem mem_of_first (r : Ranking α score) {rows : List α} {a : α} (h : r.first rows = some a) :
    a ∈ rows := by
  have hne : rows ≠ [] := by
    rintro rfl
    rw [r.first_nil] at h
    cases h
  obtain ⟨b, hb, hfirst⟩ := r.exists_first rows hne
  obtain rfl := Option.some.inj (h.symm.trans hfirst)
  exact hb

end Ranking

/-- The highest score, zero if there is none. -/
def best (score : α → ℤ) (rows : List α) : ℤ := ((rows.map score).max?).getD 0

theorem best_eq {rows : List α} {a : α} (ha : a ∈ rows) (hle : ∀ b ∈ rows, score b ≤ score a) :
    best score rows = score a := by
  have hmax : (rows.map score).max? = some (score a) := by
    rw [List.max?_eq_some_iff]
    refine ⟨List.mem_map_of_mem ha, ?_⟩
    intro n hn
    obtain ⟨b, hb, rfl⟩ := List.mem_map.mp hn
    exact hle b hb
  rw [best, hmax, Option.getD_some]

theorem exists_best (score : α → ℤ) {rows : List α} (h : rows ≠ []) :
    ∃ a ∈ rows, best score rows = score a ∧ ∀ b ∈ rows, score b ≤ score a := by
  obtain ⟨a, ha, hfirst⟩ := (Ranking.earliest score).exists_first rows h
  have hle : ∀ b ∈ rows, score b ≤ score a := (Ranking.earliest score).le_first rows a hfirst
  exact ⟨a, ha, best_eq ha hle, hle⟩

theorem le_best {rows : List α} {a : α} (ha : a ∈ rows) : score a ≤ best score rows := by
  obtain ⟨b, -, hbest, hle⟩ := exists_best score (List.ne_nil_of_mem ha)
  rw [hbest]
  exact hle a ha

theorem best_nonneg {rows : List α} (h : ∀ a ∈ rows, 0 ≤ score a) : 0 ≤ best score rows := by
  by_cases hnil : rows = []
  · rw [hnil]
    exact le_refl 0
  · obtain ⟨a, ha, hbest, -⟩ := exists_best score hnil
    rw [hbest]
    exact h a ha

theorem score_first (r : Ranking α score) {rows : List α} {a : α} (h : r.first rows = some a) :
    score a = best score rows := by
  rw [best_eq (r.mem_of_first h) (r.le_first rows a h)]

theorem Ranking.map_score_first (r : Ranking α score) (rows : List α) :
    (r.first rows).map score = (rows.map score).max? := by
  by_cases hnil : rows = []
  · rw [hnil, r.first_nil]
    rfl
  · obtain ⟨a, ha, hfirst⟩ := r.exists_first rows hnil
    rw [hfirst, Option.map_some, eq_comm, List.max?_eq_some_iff]
    refine ⟨List.mem_map_of_mem ha, ?_⟩
    intro n hn
    obtain ⟨b, hb, rfl⟩ := List.mem_map.mp hn
    exact r.le_first rows a hfirst b hb

theorem filterMap_eq_map_of_forall {keys : List κ} {f : κ → Option β} {g : κ → β}
    (h : ∀ k ∈ keys, f k = some (g k)) :
    keys.filterMap f = keys.map g := by
  rw [← List.filterMap_eq_map', List.filterMap_congr h]

section Keyed

variable [DecidableEq κ]

/-- The rows of a key. -/
def ofKey (key : α → κ) (rows : List α) (k : κ) : List α := rows.filter fun a => key a = k

theorem mem_ofKey {rows : List α} {k : κ} {a : α} :
    a ∈ ofKey key rows k ↔ a ∈ rows ∧ key a = k := by
  simp [ofKey]

theorem ofKey_ne_nil {rows : List α} {k : κ} :
    ofKey key rows k ≠ [] ↔ k ∈ (rows.map key).toFinset := by
  simp [ofKey, List.filter_eq_nil_iff]

/-- The sum over the keys of the highest score. -/
def total (key : α → κ) (score : α → ℤ) (rows : List α) : ℤ :=
  ((rows.map key).dedup.map fun k => best score (ofKey key rows k)).sum

theorem total_eq_sum (rows : List α) :
    total key score rows = ∑ k ∈ (rows.map key).toFinset, best score (ofKey key rows k) := by
  rw [total, ← List.sum_toFinset _ (List.nodup_dedup _)]
  congr 1
  ext k
  rw [List.mem_toFinset, List.mem_toFinset, List.mem_dedup]

/-- Keys without rows add nothing. -/
theorem total_eq_sum_of_mem {rows : List α} {keys : Finset κ} (h : ∀ a ∈ rows, key a ∈ keys) :
    total key score rows = ∑ k ∈ keys, best score (ofKey key rows k) := by
  rw [total_eq_sum]
  apply Finset.sum_subset
  · intro k hk
    obtain ⟨a, ha, rfl⟩ := List.mem_map.mp (List.mem_toFinset.mp hk)
    exact h a ha
  · intro k _ hk
    rw [not_ne_iff.mp fun hne => hk (ofKey_ne_nil.mp hne)]
    rfl

/-- Entries that keep all keys and do not fall below the best for any of them do not lower the
sum, if the entries of new keys are not negative. -/
theorem total_le_total {rows others : List α} (hsub : ∀ a ∈ rows, a ∈ others)
    (hnew : ∀ a ∈ others, a ∈ rows ∨ 0 ≤ score a) :
    total key score rows ≤ total key score others := by
  rw [total_eq_sum, total_eq_sum]
  have hkeys : (rows.map key).toFinset ⊆ (others.map key).toFinset := by
    intro k hk
    obtain ⟨a, ha, rfl⟩ := List.mem_map.mp (List.mem_toFinset.mp hk)
    exact List.mem_toFinset.mpr (List.mem_map_of_mem (hsub a ha))
  calc ∑ k ∈ (rows.map key).toFinset, best score (ofKey key rows k)
      ≤ ∑ k ∈ (rows.map key).toFinset, best score (ofKey key others k) := by
        apply Finset.sum_le_sum
        intro k hk
        obtain ⟨a, ha, hbest, -⟩ := exists_best score (ofKey_ne_nil.mpr hk)
        obtain ⟨hmem, hkey⟩ := mem_ofKey.mp ha
        rw [hbest]
        exact le_best (mem_ofKey.mpr ⟨hsub a hmem, hkey⟩)
    _ ≤ ∑ k ∈ (others.map key).toFinset, best score (ofKey key others k) := by
        apply Finset.sum_le_sum_of_subset_of_nonneg hkeys
        intro k _ hk
        apply best_nonneg
        intro a ha
        obtain ⟨hmem, rfl⟩ := mem_ofKey.mp ha
        refine (hnew a hmem).resolve_left fun hold => hk ?_
        exact List.mem_toFinset.mpr (List.mem_map_of_mem hold)

/-- How often an entry stands there does not matter. -/
theorem total_congr {rows others : List α} (h : ∀ a, a ∈ rows ↔ a ∈ others) :
    total key score rows = total key score others := by
  apply le_antisymm
  · exact total_le_total (fun a ha => (h a).mp ha) fun a ha => .inl ((h a).mpr ha)
  · exact total_le_total (fun a ha => (h a).mpr ha) fun a ha => .inl ((h a).mp ha)

/-- Two parts have at most what each has alone. -/
theorem total_append_le {rows others : List α} (hrows : ∀ a ∈ rows, 0 ≤ score a)
    (hothers : ∀ a ∈ others, 0 ≤ score a) :
    total key score (rows ++ others) ≤ total key score rows + total key score others := by
  have hkey : ∀ a ∈ rows ++ others, key a ∈ ((rows ++ others).map key).toFinset :=
    fun a ha => List.mem_toFinset.mpr (List.mem_map_of_mem ha)
  rw [total_eq_sum_of_mem fun a ha => hkey a (List.mem_append_left _ ha),
    total_eq_sum_of_mem fun a ha => hkey a (List.mem_append_right _ ha), total_eq_sum,
    ← Finset.sum_add_distrib]
  apply Finset.sum_le_sum
  intro k hk
  obtain ⟨a, ha, hbest, -⟩ := exists_best score (ofKey_ne_nil.mpr hk)
  obtain ⟨hmem, hkey⟩ := mem_ofKey.mp ha
  have hrowsBest : 0 ≤ best score (ofKey key rows k) :=
    best_nonneg fun b hb => hrows b (mem_ofKey.mp hb).1
  have hothersBest : 0 ≤ best score (ofKey key others k) :=
    best_nonneg fun b hb => hothers b (mem_ofKey.mp hb).1
  rw [hbest]
  rcases List.mem_append.mp hmem with h | h
  · have hle : score a ≤ best score (ofKey key rows k) := le_best (mem_ofKey.mpr ⟨h, hkey⟩)
    omega
  · have hle : score a ≤ best score (ofKey key others k) := le_best (mem_ofKey.mpr ⟨h, hkey⟩)
    omega

theorem total_flatMap_le (parts : List β) (f : β → List α)
    (h : ∀ b ∈ parts, ∀ a ∈ f b, 0 ≤ score a) :
    total key score (parts.flatMap f) ≤ (parts.map fun b => total key score (f b)).sum := by
  induction parts with
  | nil => exact le_refl 0
  | cons b rest ih =>
      have hrest : ∀ b ∈ rest, ∀ a ∈ f b, 0 ≤ score a := fun b hb => h b (List.mem_cons_of_mem _ hb)
      rw [List.flatMap_cons, List.map_cons, List.sum_cons]
      calc total key score (f b ++ rest.flatMap f)
          ≤ total key score (f b) + total key score (rest.flatMap f) := by
            apply total_append_le (h b List.mem_cons_self)
            intro a ha
            obtain ⟨c, hc, hmem⟩ := List.mem_flatMap.mp ha
            exact hrest c hc a hmem
        _ ≤ _ := Int.add_le_add_left (ih hrest) _

/-- Renaming the keys one to one changes nothing. -/
theorem total_map {γ δ : Type} [DecidableEq γ] [DecidableEq δ] (f : β → α) {key : α → δ}
    {key' : β → γ} {g : γ → δ} (hg : Function.Injective g) (hkey : ∀ b, key (f b) = g (key' b))
    (rows : List β) :
    total key score (rows.map f) = total key' (fun b => score (f b)) rows := by
  have hkeys : (rows.map f).map key = (rows.map key').map g := by
    rw [List.map_map, List.map_map]
    exact List.map_congr_left fun b _ => hkey b
  rw [total, hkeys, List.dedup_map_of_injective hg, List.map_map, total]
  congr 1
  apply List.map_congr_left
  intro k _
  have hpartition : ofKey key (rows.map f) (g k) = (ofKey key' rows k).map f := by
    rw [ofKey, List.filter_map, ofKey]
    congr 1
    apply List.filter_congr
    intro b _
    rw [Function.comp_apply, hkey, decide_eq_decide, hg.eq_iff]
  rw [Function.comp_apply, hpartition, best, List.map_map, best]
  rfl

/-- What the entries have beyond the best for each key. -/
def surplus (key : α → κ) (score : α → ℤ) (rows : List α) : ℤ :=
  (rows.map score).sum - total key score rows

/-- All scores but one of the highest. -/
def further (scores : List ℤ) : List ℤ := scores.erase (scores.max?.getD 0)

theorem sum_further (scores : List ℤ) : (further scores).sum = scores.sum - scores.max?.getD 0 := by
  cases hmax : scores.max? with
  | none =>
      rw [List.max?_eq_none_iff.mp hmax]
      rfl
  | some top =>
      have hmem : top ∈ scores := (List.max?_eq_some_iff.mp hmax).1
      have hsum := (List.perm_cons_erase hmem).sum_eq
      rw [List.sum_cons] at hsum
      rw [further, hmax, Option.getD_some]
      omega

theorem max?_perm {scores others : List ℤ} (h : scores.Perm others) :
    scores.max? = others.max? := by
  cases hmax : others.max? with
  | none =>
      rw [List.max?_eq_none_iff] at hmax ⊢
      exact List.Perm.eq_nil (hmax ▸ h)
  | some top =>
      obtain ⟨hmem, hle⟩ := List.max?_eq_some_iff.mp hmax
      exact List.max?_eq_some_iff.mpr
        ⟨h.mem_iff.mpr hmem, fun score hscore => hle score (h.mem_iff.mp hscore)⟩

theorem sum_further_perm {scores others : List ℤ} (h : scores.Perm others) :
    (further scores).sum = (further others).sum := by
  rw [sum_further, sum_further, h.sum_eq, max?_perm h]

theorem sum_eq_sum_ofKey {keys : Finset κ} (rows : List α) (h : ∀ a ∈ rows, key a ∈ keys) :
    (rows.map score).sum = ∑ k ∈ keys, ((ofKey key rows k).map score).sum := by
  induction rows with
  | nil => simp [ofKey]
  | cons a rest ih =>
      have hpart : ∀ k ∈ keys, ((ofKey key (a :: rest) k).map score).sum =
          (if key a = k then score a else 0) + ((ofKey key rest k).map score).sum := by
        intro k _
        rw [ofKey, List.filter_cons]
        by_cases hk : key a = k
        · rw [if_pos hk, if_pos (decide_eq_true hk), List.map_cons, List.sum_cons]
          rfl
        · rw [if_neg hk, if_neg (mt of_decide_eq_true hk), zero_add]
          rfl
      rw [Finset.sum_congr rfl hpart, Finset.sum_add_distrib, Finset.sum_ite_eq,
        if_pos (h a List.mem_cons_self), ← ih fun b hb => h b (List.mem_cons_of_mem _ hb),
        List.map_cons, List.sum_cons]

/-- What is beyond the best, key by key. -/
theorem surplus_eq_sum {keys : Finset κ} {rows : List α} (h : ∀ a ∈ rows, key a ∈ keys) :
    surplus key score rows = ∑ k ∈ keys, (further ((ofKey key rows k).map score)).sum := by
  rw [surplus, sum_eq_sum_ofKey rows h, total_eq_sum_of_mem h, ← Finset.sum_sub_distrib]
  apply Finset.sum_congr rfl
  intro k _
  rw [sum_further, best]

/-- With one entry for each key there is nothing beyond the best. -/
theorem surplus_eq_zero {rows : List α} (hnodup : (rows.map key).Nodup) :
    surplus key score rows = 0 := by
  have hbest : ∀ a ∈ rows, best score (ofKey key rows (key a)) = score a := by
    intro a ha
    apply best_eq (mem_ofKey.mpr ⟨ha, rfl⟩)
    intro b hb
    obtain ⟨hmem, hkey⟩ := mem_ofKey.mp hb
    rw [List.inj_on_of_nodup_map hnodup hmem ha hkey]
  have hmap : ((rows.map key).map fun k => best score (ofKey key rows k)) = rows.map score := by
    rw [List.map_map]
    exact List.map_congr_left hbest
  rw [surplus, total, hnodup.dedup, hmap, sub_self]

/-! One row, or one score, for each key. -/

/-- The rows of rank one in the partitions by the key. -/
def rankFirst (r : Ranking α score) (key : α → κ) (rows : List α) : List α :=
  (rows.map key).dedup.filterMap fun k => r.first (ofKey key rows k)

/-- `MAX(score) … GROUP BY` the key. -/
def bestByKey (key : α → κ) (score : α → ℤ) (rows : List α) : List (κ × ℤ) :=
  (rows.map key).dedup.map fun k => (k, best score (ofKey key rows k))

theorem exists_first_ofKey (r : Ranking α score) {rows : List α} {k : κ}
    (hk : k ∈ (rows.map key).dedup) :
    ∃ a ∈ rows, key a = k ∧ r.first (ofKey key rows k) = some a := by
  obtain ⟨a, ha, hfirst⟩ :=
    r.exists_first _ (ofKey_ne_nil.mpr (List.mem_toFinset.mpr (List.mem_dedup.mp hk)))
  obtain ⟨hmem, hkey⟩ := mem_ofKey.mp ha
  exact ⟨a, hmem, hkey, hfirst⟩

theorem mem_rankFirst (r : Ranking α score) {rows : List α} {a : α} (h : a ∈ rankFirst r key rows) :
    a ∈ rows := by
  obtain ⟨k, -, hfirst⟩ := List.mem_filterMap.mp h
  exact (mem_ofKey.mp (r.mem_of_first hfirst)).1

/-- The rows of rank one make up the total. -/
theorem sum_rankFirst (r : Ranking α score) (rows : List α) :
    ((rankFirst r key rows).map score).sum = total key score rows := by
  have hmap : (rankFirst r key rows).map score = (rows.map key).dedup.map fun k =>
      best score (ofKey key rows k) := by
    rw [rankFirst, List.map_filterMap]
    apply filterMap_eq_map_of_forall
    intro k hk
    obtain ⟨a, -, -, hfirst⟩ := exists_first_ofKey r hk
    rw [hfirst, Option.map_some, score_first r hfirst]
  rw [hmap, total]

/-- One row for each key. -/
theorem keys_rankFirst (r : Ranking α score) (rows : List α) :
    (rankFirst r key rows).map key = (rows.map key).dedup := by
  have hmap : (rankFirst r key rows).map key = (rows.map key).dedup.map fun k => k := by
    rw [rankFirst, List.map_filterMap]
    apply filterMap_eq_map_of_forall
    intro k hk
    obtain ⟨a, -, hkey, hfirst⟩ := exists_first_ofKey r hk
    rw [hfirst, Option.map_some, hkey]
  rw [hmap, List.map_id']

theorem nodup_rankFirst (r : Ranking α score) (rows : List α) :
    ((rankFirst r key rows).map key).Nodup := by
  rw [keys_rankFirst]
  exact List.nodup_dedup _

theorem rankFirst_eq_nil_iff (r : Ranking α score) {rows : List α} :
    rankFirst r key rows = [] ↔ rows = [] := by
  rw [← List.map_eq_nil_iff (f := key), keys_rankFirst, List.dedup_eq_nil, List.map_eq_nil_iff]

/-- Keys that give nothing can be left out. -/
theorem filterMap_dedup_filter {p : α → Bool} (hp : ∀ a b, key a = key b → p a = p b)
    (g : κ → Option β) (rows : List α) (hg : ∀ a ∈ rows, p a = false → g (key a) = none) :
    (rows.map key).dedup.filterMap g = ((rows.filter p).map key).dedup.filterMap g := by
  induction rows with
  | nil => rfl
  | cons a rest ih =>
      have ih := ih fun b hb => hg b (List.mem_cons_of_mem _ hb)
      have hfiltered : p a = true → (key a ∈ (rest.filter p).map key ↔ key a ∈ rest.map key) := by
        intro hpa
        rw [List.mem_map, List.mem_map]
        constructor
        · rintro ⟨b, hb, hkey⟩
          exact ⟨b, List.mem_of_mem_filter hb, hkey⟩
        · rintro ⟨b, hb, hkey⟩
          exact ⟨b, List.mem_filter.mpr ⟨hb, (hp b a hkey).trans hpa⟩, hkey⟩
      cases hpa : p a with
      | true =>
          rw [List.filter_cons_of_pos hpa, List.map_cons, List.map_cons]
          by_cases hmem : key a ∈ rest.map key
          · rw [List.dedup_cons_of_mem hmem, List.dedup_cons_of_mem ((hfiltered hpa).mpr hmem), ih]
          · rw [List.dedup_cons_of_notMem hmem,
              List.dedup_cons_of_notMem fun h => hmem ((hfiltered hpa).mp h),
              List.filterMap_cons, List.filterMap_cons, ih]
      | false =>
          rw [List.filter_cons_of_neg (by rw [hpa]; decide), List.map_cons, ← ih]
          by_cases hmem : key a ∈ rest.map key
          · rw [List.dedup_cons_of_mem hmem]
          · rw [List.dedup_cons_of_notMem hmem,
              List.filterMap_cons_none (hg a List.mem_cons_self hpa)]

theorem ofKey_filter_of_pos {p : α → Bool} (hp : ∀ a b, key a = key b → p a = p b)
    (rows : List α) {a : α} (ha : p a = true) :
    ofKey key (rows.filter p) (key a) = ofKey key rows (key a) := by
  rw [ofKey, ofKey, List.filter_filter]
  apply List.filter_congr
  intro b _
  by_cases h : key b = key a
  · rw [hp b a h, ha, Bool.and_true]
  · rw [decide_eq_false h, Bool.false_and]

theorem ofKey_filter_of_neg {p : α → Bool} (hp : ∀ a b, key a = key b → p a = p b)
    (rows : List α) {a : α} (ha : p a = false) : ofKey key (rows.filter p) (key a) = [] := by
  rw [ofKey, List.filter_eq_nil_iff]
  intro b hb
  have hpb : p b = true := (List.mem_filter.mp hb).2
  intro h
  rw [hp b a (of_decide_eq_true h), ha] at hpb
  cases hpb

/-- Ranks are given partition by partition. -/
theorem filter_rankFirst (r : Ranking α score) {p : α → Bool}
    (hp : ∀ a b, key a = key b → p a = p b) (rows : List α) :
    (rankFirst r key rows).filter p = rankFirst r key (rows.filter p) := by
  have hfirst : ∀ k ∈ (rows.map key).dedup,
      (r.first (ofKey key rows k)).filter p = r.first (ofKey key (rows.filter p) k) := by
    intro k hk
    obtain ⟨a, -, rfl, hfirst⟩ := exists_first_ofKey r hk
    cases hpa : p a with
    | true => rw [ofKey_filter_of_pos hp rows hpa, hfirst, Option.filter_some, if_pos hpa]
    | false =>
        rw [ofKey_filter_of_neg hp rows hpa, hfirst, r.first_nil, Option.filter_some,
          if_neg (by rw [hpa]; decide)]
  rw [rankFirst, List.filter_filterMap, List.filterMap_congr hfirst, rankFirst]
  apply filterMap_dedup_filter hp
  intro a _ hpa
  rw [ofKey_filter_of_neg hp rows hpa, r.first_nil]

/-- Groups are formed key by key. -/
theorem filter_bestByKey {p : α → Bool} {q : κ → Bool} (hq : ∀ a, q (key a) = p a) (rows : List α) :
    (bestByKey key score rows).filter (fun g => q g.1) = bestByKey key score (rows.filter p) := by
  have hp : ∀ a b, key a = key b → p a = p b := by
    intro a b h
    rw [← hq, ← hq, h]
  have hfilter : (bestByKey key score rows).filter (fun g => q g.1) = (rows.map key).dedup.filterMap
      fun k => if q k then some (k, best score (ofKey key (rows.filter p) k)) else none := by
    rw [bestByKey, List.filter_map, ← List.filterMap_eq_map', List.filterMap_filter]
    apply List.filterMap_congr
    intro k hk
    obtain ⟨a, -, rfl⟩ := List.mem_map.mp (List.mem_dedup.mp hk)
    rw [Function.comp_apply, hq]
    cases hpa : p a with
    | true => rw [ofKey_filter_of_pos hp rows hpa]
    | false => rfl
  rw [hfilter, filterMap_dedup_filter hp, bestByKey]
  · apply filterMap_eq_map_of_forall
    intro k hk
    obtain ⟨a, ha, rfl⟩ := List.mem_map.mp (List.mem_dedup.mp hk)
    rw [hq, (List.mem_filter.mp ha).2, if_pos rfl]
  · intro a _ hpa
    rw [hq, hpa]
    rfl

/-- A partition of its own. -/
theorem rankFirst_eq (r : Ranking α score) {rows : List α} {k : κ} (h : ∀ a ∈ rows, key a = k) :
    rankFirst r key rows = (r.first rows).toList := by
  have hkeys : rows.map key = List.replicate rows.length k := by
    rw [List.eq_replicate_iff, List.length_map]
    refine ⟨rfl, ?_⟩
    intro k' hk'
    obtain ⟨a, ha, rfl⟩ := List.mem_map.mp hk'
    exact h a ha
  by_cases hnil : rows = []
  · rw [hnil, r.first_nil]
    rfl
  · have hpartition : ofKey key rows k = rows :=
      List.filter_eq_self.mpr fun a ha => decide_eq_true (h a ha)
    obtain ⟨a, -, hfirst⟩ := r.exists_first rows hnil
    rw [rankFirst, hkeys, List.replicate_dedup (mt List.eq_nil_of_length_eq_zero hnil),
      List.filterMap_cons, hpartition, hfirst]
    rfl

end Keyed

end Graveboards.Library
