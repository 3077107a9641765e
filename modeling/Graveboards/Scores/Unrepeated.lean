import Graveboards.Scores.Statements

/-!
Searches whose entities have one entry for each field and term: no term is repeated, and the
fields of a group match a term by one pattern.
-/

namespace Graveboards.Scores

open Graveboards.Library Graveboards.Search

section Unrepeated

variable (db : Database) (search : SearchTermsSchema)
  (category : SearchableFieldCategory) (id : Int)

theorem of_mem_matched {field : String} {weight : Int8} {term : PyStr} {row : Row}
    (h : row ∈ matched db search category id field weight term) :
    row.1 = id ∧ row.2.key = (field, term) := by
  obtain ⟨p, -, h⟩ := List.mem_filterMap.mp h
  obtain ⟨multiplier, -, h⟩ := Option.bind_eq_some_iff.mp h
  split at h
  · cases h
    exact ⟨rfl, rfl⟩
  · cases h

theorem names_ofCategory_nodup (w : FieldWeights) :
    ((w.ofCategory category).map Prod.fst).Nodup := by
  cases category <;> simp [FieldWeights.ofCategory]

theorem map_filterMap_sublist {α β γ : Type} {f : α → Option β} {g : β → γ} {h : α → γ}
    (hf : ∀ a b, f a = some b → g b = h a) (l : List α) :
    List.Sublist ((l.filterMap f).map g) (l.map h) := by
  induction l with
  | nil => exact List.Sublist.refl _
  | cons a rest ih =>
      rw [List.filterMap_cons, List.map_cons]
      cases hfa : f a with
      | none => exact ih.cons _
      | some b =>
          dsimp only
          rw [List.map_cons, hf a b hfa]
          exact ih.cons_cons _

/-- At most one row for each field and occurrence of a term. -/
theorem keys_kept_sublist (ranks : Ranks) (copy : Nat) :
    List.Sublist ((kept db search category id ranks copy).map fun row => row.2.key)
      (((search.fieldWeights.ofCategory category).map Prod.fst).product search.terms) := by
  rw [kept, List.map_flatMap, List.product, List.flatMap_map]
  induction search.fieldWeights.ofCategory category with
  | nil => exact List.Sublist.refl _
  | cons x rest ih =>
      rw [List.flatMap_cons, List.flatMap_cons]
      apply List.Sublist.append ?_ ih
      cases x.2 with
      | none => exact List.nil_sublist _
      | some weight =>
          have hterms :
              search.terms.map (Prod.mk x.1) = search.terms.zipIdx.map fun t => (x.1, t.1) := by
            conv_lhs => rw [← List.zipIdx_map_fst 0 search.terms, List.map_map]
            rfl
          rw [hterms]
          apply map_filterMap_sublist
          intro t row hrow
          exact (of_mem_matched db search category id (Ranking.mem_of_first _ hrow)).2

theorem id_of_mem_kept {ranks : Ranks} {copy : Nat} {row : Row}
    (h : row ∈ kept db search category id ranks copy) : row.1 = id := by
  rw [← filter_unioned] at h
  exact of_decide_eq_true (List.mem_filter.mp h).2

/-- In a group, all fields that match a term match it by the same pattern. -/
def OnePattern (rows : List Row) (group : String × List String) : Prop :=
  ∀ row ∈ rows, ∀ other ∈ rows, row.2.field ∈ group.2 → other.2.field ∈ group.2 →
    row.2.term = other.2.term →
    row.2.pattern = other.2.pattern

theorem keys_groupQuery_nodup {rows : List Row} (hid : ∀ row ∈ rows, row.1 = id)
    {group : String × List String} (hpattern : OnePattern rows group) :
    ((groupQuery rows group).map fun row => row.2.key).Nodup := by
  rw [groupQuery, bestByKey, List.map_map, List.map_map]
  apply (List.nodup_dedup _).map_on
  intro k hk k' hk' heq
  obtain ⟨row, hrow, rfl⟩ := List.mem_map.mp (List.mem_dedup.mp hk)
  obtain ⟨other, hother, rfl⟩ := List.mem_map.mp (List.mem_dedup.mp hk')
  obtain ⟨hrow, hfield⟩ := List.mem_filter.mp hrow
  obtain ⟨hother, hfield'⟩ := List.mem_filter.mp hother
  have hterm : row.2.term = other.2.term := (Prod.mk.inj heq).2
  rw [hid row hrow, hid other hother, hterm,
    hpattern row hrow other hother (List.contains_iff_mem.mp hfield)
    (List.contains_iff_mem.mp hfield') hterm]

/-- No group has the name of another group or of a field outside the groups. -/
structure NamesApart (groups : List (String × List String)) : Prop where
  nodup : (groups.map Prod.fst).Nodup
  apart : ∀ group ∈ groups, group.1 ∈ groups.flatMap Prod.snd ∨
    ∀ w : FieldWeights, group.1 ∉ (w.ofCategory category).map Prod.fst

theorem field_groupQuery {rows : List Row} {group : String × List String} {row : Row}
    (h : row ∈ groupQuery rows group) :
    row.2.field = group.1 := by
  obtain ⟨x, -, rfl⟩ := List.mem_map.mp h
  rfl

/-- With different terms and one pattern for each term in a group there is one entry for each
field and term. -/
theorem keys_entriesOf_nodup {ranks : Ranks} {config : FieldGroups} (hterms : search.terms.Nodup)
    (hnames : NamesApart category (config category))
    (hpattern : ∀ x ∈ (config category).zipIdx 1,
      OnePattern (kept db search category id ranks x.2) x.1) :
    ((entriesOf db search category id ranks config).map Entry.key).Nodup := by
  have hkept : ((kept db search category id ranks 0).map fun row => row.2.key).Nodup :=
    ((names_ofCategory_nodup category search.fieldWeights).product hterms).sublist
      (keys_kept_sublist db search category id ranks 0)
  rw [entriesOf, List.map_map]
  change (List.map (fun row : Row => row.2.key) _).Nodup
  rw [processFieldGroups]
  split
  · exact hkept
  · dsimp only
    rw [List.map_append, List.nodup_append]
    refine ⟨hkept.sublist (List.filter_sublist.map _), ?_, ?_⟩
    · rw [List.map_flatMap, List.nodup_flatMap]
      constructor
      · intro x hx
        exact keys_groupQuery_nodup id (fun row => id_of_mem_kept db search category id)
          (hpattern x hx)
      · have hdistinct : ((config category).zipIdx 1).Pairwise fun x y => x.1.1 ≠ y.1.1 := by
          have hfst := hnames.nodup
          rw [← List.zipIdx_map_fst 1 (config category), List.map_map] at hfst
          exact List.pairwise_map.mp hfst
        apply hdistinct.imp
        intro x y hne key hx hy
        obtain ⟨row, hrow, rfl⟩ := List.mem_map.mp hx
        obtain ⟨other, hother, heq⟩ := List.mem_map.mp hy
        apply hne
        rw [← field_groupQuery hrow, ← field_groupQuery hother]
        exact (Prod.mk.inj heq).1.symm
    · -- a field outside the groups is a field of the category,
      -- a group with such a name is not there
      intro key hkey key' hkey' heq
      obtain ⟨row, hrow, rfl⟩ := List.mem_map.mp hkey
      obtain ⟨other, hother, rfl⟩ := List.mem_map.mp hkey'
      obtain ⟨x, hx, hother⟩ := List.mem_flatMap.mp hother
      obtain ⟨hrow, houtside⟩ := List.mem_filter.mp hrow
      have hname : row.2.field = x.1.1 := (Prod.mk.inj heq).1.trans (field_groupQuery hother)
      have hgroup : x.1 ∈ config category := List.fst_mem_of_mem_zipIdx hx
      rcases hnames.apart x.1 hgroup with h | h
      · rw [← hname] at h
        rw [List.contains_iff_mem.mpr h] at houtside
        cases houtside
      · have hmem :=
          (keys_kept_sublist db search category id ranks 0).subset (List.mem_map_of_mem hrow)
        apply h search.fieldWeights
        rw [← hname]
        exact (List.mem_product.mp hmem).1

end Unrepeated

theorem namesApart_categoryFieldGroups (category : SearchableFieldCategory) :
    NamesApart category (categoryFieldGroups category) := by
  cases category with
  | beatmapset =>
      constructor
      · decide
      · intro group hgroup
        left
        revert group
        decide
  | profile | beatmap | queue | request =>
      exact ⟨List.nodup_nil, fun group hgroup => absurd hgroup List.not_mem_nil⟩

end Graveboards.Scores
