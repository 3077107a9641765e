import Graveboards.Engine.Search

/-!
What sorting does to a search: it leaves the entities that keep a row for each
option, and every answer lists them by their first values in the order of the
options. NULL is the largest value.
-/

namespace Graveboards.Engine

open Std
open Library Library.Relational Library.Selection Search

variable {α : Type} [LinearOrder α]

/-- The clauses of the options on a value of each entity. -/
def valueClauses (options : SortingSchema) (value : SortingOption → Int → Option α) :
    List (Paging.Clause Int) :=
  options.map fun option => clauseOn (sortFunc (option.order.getD .ascending)) (value option)

section Ordered

variable {db : Backend α} {se : SearchEngine α} {tables : List (Joined Int (Columns α))}
  {rows : List (Found α)}

/-- The position of the first table of the sorting options. -/
def sortingStart (se : SearchEngine α) : Nat := se.searchTerms.toList.length

theorem orderBy_eq (hsorting : se.sorting ≠ []) :
    orderBy se = sortingClauses se.sorting (sortingStart se) := by
  rw [orderBy, sortingStart]
  cases se.searchTerms with
  | none => rfl
  | some search => simp [hsorting]

theorem length_applySearchTerms {terms : List (Joined Int (Columns α))}
    (h : applySearchTerms db se = .ok terms) :
    terms.length = sortingStart se := by
  rw [applySearchTerms] at h
  rw [sortingStart]
  cases hsearch : se.searchTerms with
  | none =>
      rw [hsearch] at h
      obtain rfl := Except.ok.inj h
      rfl
  | some search =>
      rw [hsearch] at h
      obtain ⟨filterCte, -, h⟩ := bind_eq_ok h
      obtain rfl := Except.ok.inj h
      rfl

/-- The column of an option holds the first of the values of the entity. -/
theorem best_column (h : composeQuery db se = .ok tables) {root : Int} {columns : List (Columns α)}
    (hfound : columns ∈ found root tables) {option : SortingOption} {i : Nat}
    (hoption : (option, i) ∈ se.sorting.zipIdx (sortingStart se)) {order : SortingOrder}
    (horder : option.order = some order) :
    Best order (sortValues db.world se.scope option.field root) (columns.getD i .key).value := by
  obtain ⟨terms, sorting, filters, hterms, hsorting, -, rfl⟩ := composeQuery_eq_ok h
  have hstart := length_applySearchTerms hterms
  obtain ⟨hle, hlt, hget⟩ := List.mem_zipIdx hoption
  obtain ⟨hlength, htable⟩ := List.forall₂_iff_get.mp (Pages.mapM_eq_ok_iff.mp hsorting)
  obtain ⟨hcolumns, hrow⟩ := List.forall₂_iff_get.mp (mem_found.mp hfound)
  have hi : i - sortingStart se < se.sorting.length := by omega
  have hisorting : i - sortingStart se < sorting.length := by omega
  have hitables : i < (terms ++ sorting ++ filters).length := by
    rw [List.length_append, List.length_append]
    omega
  have hicolumns : i < columns.length := by omega
  have heq : (terms ++ sorting ++ filters).get ⟨i, hitables⟩ =
      sorting.get ⟨i - sortingStart se, hisorting⟩ := by
    have hibefore : i < (terms ++ sorting).length := by
      rw [List.length_append]
      omega
    have hiafter : terms.length ≤ i := by omega
    simp only [List.get_eq_getElem, List.getElem_append_left hibefore,
      List.getElem_append_right hiafter, hstart]
  obtain ⟨hmem, hpasses⟩ := hrow i hitables hicolumns
  have hoptiontable := htable (i - sortingStart se) hi hisorting
  rw [heq] at hmem hpasses
  rw [List.get_eq_getElem, ← hget] at hoptiontable
  rw [List.getD_eq_getElem _ _ hicolumns]
  exact best_of_passes hoptiontable horder hmem hpasses

/-- Two values that come first are in the same place. -/
theorem Best.sortFunc_eq {order : SortingOrder} {values : List (Option α)} {a b : Option α}
    (ha : Best order values a) (hb : Best order values b) : sortFunc order a b = .eq :=
  OrientedCmp.isLE_antisymm (ha.2 b hb.1) (hb.2 a ha.1)

/-- The order of the columns is that of any values that come first. -/
theorem order_sortingClauses {options : SortingSchema} {i : Nat}
    {value : SortingOption → Int → Option α} {a b : Found α}
    (ha : ∀ x ∈ options.zipIdx i,
      sortFunc (x.1.order.getD .ascending) (a.columns.getD x.2 .key).value
      (value x.1 a.root) = .eq)
    (hb : ∀ x ∈ options.zipIdx i,
      sortFunc (x.1.order.getD .ascending) (b.columns.getD x.2 .key).value
      (value x.1 b.root) = .eq) :
    Paging.Clause.order (sortingClauses options i) a b =
      Paging.Clause.order (valueClauses options value) a.root b.root := by
  induction options generalizing i with
  | nil => rfl
  | cons option rest ih =>
      rw [List.zipIdx_cons, List.forall_mem_cons] at ha hb
      have hfirst : sortFunc (option.order.getD .ascending) (a.columns.getD i .key).value
          (b.columns.getD i .key).value =
          sortFunc (option.order.getD .ascending) (value option a.root) (value option b.root) :=
        (TransCmp.congr_left ha.1).trans (TransCmp.congr_right hb.1)
      have hrest := ih ha.2 hb.2
      simp only [sortingClauses, valueClauses, List.zipIdx_cons, List.map_cons, Paging.Clause.order,
        compareLex] at hrest ⊢
      rw [hrest]
      exact congrArg₂ Ordering.then hfirst rfl

/-- Each option of a composed query has an order. -/
theorem exists_order (h : composeQuery db se = .ok tables) :
    ∀ option ∈ se.sorting, ∃ order, option.order = some order := by
  obtain ⟨-, sorting, -, -, hsorting, -, -⟩ := composeQuery_eq_ok h
  have hforall := Pages.mapM_eq_ok_iff.mp hsorting
  clear hsorting
  generalize se.sorting = options at hforall ⊢
  induction hforall with
  | nil => exact List.forall_mem_nil _
  | cons htable _ ih =>
      obtain ⟨order, horder, -⟩ := applySortingOption_rows htable
      exact List.forall_mem_cons.mpr ⟨⟨order, horder⟩, ih⟩

/-- The column of an option holds a value in the place of any that comes first. -/
theorem column_eq_value (h : searchRows db se = .ok rows) {value : SortingOption → Int → Option α}
    (hvalue : ∀ option ∈ se.sorting, ∀ order ∈ option.order, ∀ root,
      sortValues db.world se.scope option.field root ≠ [] →
        Best order (sortValues db.world se.scope option.field root) (value option root))
    {row : Found α} (hrow : row ∈ rows) :
    ∀ x ∈ se.sorting.zipIdx (sortingStart se),
      sortFunc (x.1.order.getD .ascending) (row.columns.getD x.2 .key).value (value x.1 row.root) =
        .eq := by
  obtain ⟨tables, hcompose, rfl⟩ := searchRows_eq_ok h
  obtain ⟨⟨root, columns⟩, hselect, rfl⟩ := List.mem_map.mp hrow
  rintro ⟨option, i⟩ hoption
  have hmem : option ∈ se.sorting := List.fst_mem_of_mem_zipIdx hoption
  obtain ⟨order, horder⟩ := exists_order hcompose option hmem
  have hbest := best_column hcompose (mem_select.mp hselect).2 hoption horder
  have hfirst := hvalue option hmem order horder root (List.ne_nil_of_mem hbest.1)
  simp only [horder, Option.getD_some]
  exact hbest.sortFunc_eq hfirst

/-- The entities that match with the sorting. -/
theorem matches_sorting_iff {root : Int} :
    Matches db se root ↔ Matches db { se with sorting := [] } root ∧
    ∀ option ∈ se.sorting, ∀ order ∈ option.order,
    Kept db.plan db.world se.scope option.field order root := by
  constructor
  · rintro ⟨hlisted, hterms, hsorting, hfilters⟩
    exact ⟨⟨hlisted, hterms, List.forall_mem_nil _, hfilters⟩, hsorting⟩
  · rintro ⟨⟨hlisted, hterms, -, hfilters⟩, hsorting⟩
    exact ⟨hlisted, hterms, hsorting, hfilters⟩

/-- Sorting finds the entities that are found without it and keep a row of rank one for each
option. Every answer is in the order of their first values, whichever they are. -/
theorem sorting_orders (hw : db.world.Constrained) (h : searchRows db se = .ok rows)
    {unsorted : List (Found α)}
    (hunsorted : searchRows db { se with sorting := [] } = .ok unsorted) :
    (∀ root, root ∈ rows.map Found.root ↔ root ∈ unsorted.map Found.root ∧
      ∀ option ∈ se.sorting, ∀ order ∈ option.order,
      Kept db.plan db.world se.scope option.field order root) ∧
    (db.plan.KeepsFirst → ∀ root, root ∈ rows.map Found.root ↔ root ∈ unsorted.map Found.root ∧
      ∀ option ∈ se.sorting, sortValues db.world se.scope option.field root ≠ []) ∧
    (∀ root ∈ rows.map Found.root,
      (rows.map Found.root).count root = (unsorted.map Found.root).count root) ∧
    ∀ answer, Answers.Answer (Paging.Clause.order (orderBy se)) rows answer →
      ∀ value :
      SortingOption → Int → Option α, (∀ option ∈ se.sorting, ∀ order ∈ option.order, ∀ root,
        sortValues db.world se.scope option.field root ≠ [] →
          Best order (sortValues db.world se.scope option.field root) (value option root)) →
        (answer.map Found.root).Pairwise fun a b =>
          (Paging.Clause.order (valueClauses se.sorting value) a b).isLE = true := by
  have hmem (root : Int) : root ∈ rows.map Found.root ↔ root ∈ unsorted.map Found.root ∧
      ∀ option ∈ se.sorting, ∀ order ∈ option.order,
      Kept db.plan db.world se.scope option.field order root := by
    rw [mem_searchRows h, mem_searchRows hunsorted]
    exact matches_sorting_iff
  refine ⟨hmem, fun hfirst root => ?_, fun root hroot => ?_, fun answer hanswer value hvalue => ?_⟩
  · obtain ⟨tables, hcompose, -⟩ := searchRows_eq_ok h
    rw [hmem root]
    refine and_congr_right (fun _ => forall₂_congr (fun option hoption => ?_))
    obtain ⟨order, horder⟩ := exists_order hcompose option hoption
    simp only [horder, Option.mem_def, Option.some.injEq, forall_eq']
    exact kept_iff hfirst
  · rw [count_searchRows hw h ((mem_searchRows h root).mp hroot),
      count_searchRows hw hunsorted ((mem_searchRows hunsorted root).mp ((hmem root).mp hroot).1)]
    rfl
  · rw [List.pairwise_map]
    by_cases hsorting : se.sorting = []
    · rw [hsorting]
      exact List.pairwise_of_forall (fun _ _ => rfl)
    · refine List.Pairwise.imp_of_mem (fun {a b} ha hb hle => ?_) hanswer.sorted
      rw [orderBy_eq hsorting,
        order_sortingClauses (column_eq_value h hvalue (hanswer.perm.mem_iff.mp ha))
        (column_eq_value h hvalue (hanswer.perm.mem_iff.mp hb))] at hle
      exact hle

end Ordered

/-- All queues, by the status of their requests. -/
def queuesByRequest : SearchEngine Int where
  scope := .queues
  searchTerms := none
  sorting := [⟨⟨98, by decide⟩, some .descending⟩]
  filters := []

/-- The queue without requests is lost by the sorting. -/
theorem sorting_orders_requested :
    ∃ rows unsorted, searchRows sampleBackend queuesByRequest = .ok rows ∧
    searchRows sampleBackend { queuesByRequest with sorting := [] } = .ok unsorted ∧
    rows.map Found.root = [1] ∧ unsorted.map Found.root = [1, 2] ∧
    (∀ root, root ∈ rows.map Found.root ↔ root ∈ unsorted.map Found.root ∧
      ∀ option ∈ queuesByRequest.sorting,
      sortValues sampleWorld .queues option.field root ≠ []) := by
  have hrows : searchRows sampleBackend queuesByRequest = .ok [⟨1, [.ranked (some 6) 1], []⟩] := rfl
  have hunsorted : searchRows sampleBackend { queuesByRequest with sorting := [] } =
      .ok [⟨1, [], []⟩, ⟨2, [], []⟩] := rfl
  have horders := sorting_orders constrained_sampleWorld hrows hunsorted
  exact ⟨_, _, hrows, hunsorted, rfl, rfl, horders.2.1 (fun _ _ => Choice.keepsFirst_first)⟩

end Graveboards.Engine
