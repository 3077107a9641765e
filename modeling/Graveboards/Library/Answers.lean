import Mathlib.Data.List.Basic
import Graveboards.Library.Pages

/-!
What a database may answer to an ordered query: the matching rows in any order that the
clauses allow, chosen anew for each query. The pages of different answers cover the rows
exactly if no page boundary falls between different rows that tie.
-/

namespace Graveboards.Library.Answers

open Std

variable {α : Type} {cmp : α → α → Ordering}

structure Answer (cmp : α → α → Ordering) (rows out : List α) : Prop where
  perm : out.Perm rows
  sorted : out.Pairwise fun a b => (cmp a b).isLE = true

/-- The rows that come before `x` in every answer. -/
def below (cmp : α → α → Ordering) (rows : List α) (x : α) : Nat :=
  (rows.filter fun y => cmp y x = .lt).length

/-- The rows that tie with `x`, itself included. -/
def ties (cmp : α → α → Ordering) (rows : List α) (x : α) : Nat :=
  (rows.filter fun y => cmp y x = .eq).length

/-- The boundary after `m` rows lies between different rows that tie. -/
def Splits (cmp : α → α → Ordering) (rows : List α) (m : Nat) : Prop :=
  ∃ x ∈ rows, ∃ y ∈ rows, x ≠ y ∧ cmp y x = .eq ∧ below cmp rows x < m ∧
    m < below cmp rows x + ties cmp rows x

/-- The first pages, each of an answer of its own. -/
def walk (limit count : Nat) (answers : Nat → List α) : List α :=
  (List.range count).flatMap fun i => Pages.page limit (i * limit) (answers i)

/-- The pages at the offsets `0`, `limit`, `2 * limit`, … below the total. -/
def pageCount (limit total : Nat) : Nat := (total + limit - 1) / limit

theorem below_of_perm {l l' : List α} (h : l.Perm l') (x : α) : below cmp l x = below cmp l' x :=
  (h.filter _).length_eq

theorem walk_succ (limit count : Nat) (answers : Nat → List α) :
    walk limit (count + 1) answers = walk limit count answers ++
    Pages.page limit (count * limit) (answers count) := by
  rw [walk, List.range_succ, List.flatMap_append, List.flatMap_singleton]
  rfl

theorem le_pageCount_mul {limit : Nat} (total : Nat) (h : 0 < limit) :
    total ≤ pageCount limit total * limit := by
  have hdiv := Nat.div_add_mod (total + limit - 1) limit
  have hmod := Nat.mod_lt (total + limit - 1) h
  have hcomm := Nat.mul_comm limit ((total + limit - 1) / limit)
  rw [pageCount]
  omega

/-- Rows that are told apart by their order are never split. -/
theorem not_splits_of_injective {rows : List α}
    (h : ∀ x ∈ rows, ∀ y ∈ rows, cmp y x = .eq → x = y) (m : Nat) :
    ¬ Splits cmp rows m := by
  rintro ⟨x, hx, y, hy, hne, htie, -⟩
  exact hne (h x hx y hy htie)

section Order

variable [TransCmp cmp] {rows l l' : List α}

/-- A sorted list is what lies before `x`, what ties with it and what comes after. -/
theorem eq_append_of_sorted (h : l.Pairwise fun a b => (cmp a b).isLE = true) (x : α) :
    l = (l.filter fun y => cmp y x = .lt) ++
      ((l.filter fun y => cmp y x = .eq) ++ l.filter fun y => cmp y x = .gt) := by
  induction l with
  | nil => rfl
  | cons a rest ih =>
      rw [List.pairwise_cons] at h
      have hrest := ih h.2
      cases hcmp : cmp a x with
      | lt =>
          simp only [List.filter_cons, hcmp, reduceCtorEq, decide_false, decide_true, if_true,
            Bool.false_eq_true, if_false, List.cons_append]
          rw [← hrest]
      | eq =>
          have hlt : (rest.filter fun y => cmp y x = .lt) = [] := by
            rw [List.filter_eq_nil_iff]
            intro b hb
            have hle := h.1 b hb
            rw [decide_eq_true_eq]
            intro hbx
            have hba : cmp b a = .lt := TransCmp.lt_of_lt_of_eq hbx (OrientedCmp.eq_symm hcmp)
            exact OrientedCmp.not_isLE_of_lt hba hle
          rw [hlt, List.nil_append] at hrest
          simp only [List.filter_cons, hcmp, reduceCtorEq, decide_false, decide_true, if_true,
            Bool.false_eq_true, if_false, hlt, List.nil_append, List.cons_append]
          rw [← hrest]
      | gt =>
          have hgt (b : α) (hb : b ∈ rest) : cmp b x = .gt := by
            have hle := h.1 b hb
            exact OrientedCmp.gt_of_lt (TransCmp.lt_of_lt_of_isLE (OrientedCmp.lt_of_gt hcmp) hle)
          have hlt : (rest.filter fun y => cmp y x = .lt) = [] := by
            rw [List.filter_eq_nil_iff]
            exact fun b hb => by simp [hgt b hb]
          have heq : (rest.filter fun y => cmp y x = .eq) = [] := by
            rw [List.filter_eq_nil_iff]
            exact fun b hb => by simp [hgt b hb]
          rw [hlt, heq, List.nil_append, List.nil_append] at hrest
          simp only [List.filter_cons, hcmp, reduceCtorEq, decide_false, decide_true, if_true,
            Bool.false_eq_true, if_false, hlt, heq, List.nil_append]
          rw [← hrest]

/-- How often a row is among the first `m` of an answer depends on its ties only. -/
theorem count_take [DecidableEq α] (h : l.Pairwise fun a b => (cmp a b).isLE = true)
    (x : α) (m : Nat) :
    (l.take m).count x = ((l.filter fun y => cmp y x = .eq).take (m - below cmp l x)).count x := by
  have hself : cmp x x = .eq := ReflCmp.compare_self
  have hlt : ((l.filter fun y => cmp y x = .lt).take m).count x = 0 := by
    rw [List.count_eq_zero]
    intro hx
    have := List.of_mem_filter (List.mem_of_mem_take hx)
    simp [hself] at this
  have hgt (n : Nat) : ((l.filter fun y => cmp y x = .gt).take n).count x = 0 := by
    rw [List.count_eq_zero]
    intro hx
    have := List.of_mem_filter (List.mem_of_mem_take hx)
    simp [hself] at this
  conv_lhs => rw [eq_append_of_sorted h x]
  rw [List.take_append, List.take_append, List.count_append, List.count_append, hlt, hgt,
    Nat.zero_add, Nat.add_zero]
  rfl

/-- Two answers agree on the rows before a boundary that splits no ties. -/
theorem perm_take (hl : Answer cmp rows l) (hl' : Answer cmp rows l') {m : Nat}
    (h : ¬ Splits cmp rows m) :
    (l.take m).Perm (l'.take m) := by
  classical
  rw [List.perm_iff_count]
  intro x
  by_cases hx : x ∈ rows
  · rw [count_take hl.sorted, count_take hl'.sorted, below_of_perm hl.perm, below_of_perm hl'.perm]
    have htied (l : List α) (hperm : l.Perm rows) :
        (l.filter fun y => cmp y x = .eq).length = ties cmp rows x := (hperm.filter _).length_eq
    rcases Nat.lt_or_ge (below cmp rows x) m with hbelow | hbelow
    · rcases Nat.lt_or_ge m (below cmp rows x + ties cmp rows x) with habove | habove
      · -- Everything that ties with `x` is `x`, as no tie is split here.
        have hsame (l : List α) (hperm : l.Perm rows) :
            (l.filter fun y => cmp y x = .eq) = List.replicate (ties cmp rows x) x := by
          rw [List.eq_replicate_iff]
          constructor
          · exact htied l hperm
          · intro y hy
            obtain ⟨hmem, hcmp⟩ := List.mem_filter.mp hy
            by_contra hne
            exact h ⟨x, hx, y, hperm.subset hmem, fun heq => hne heq.symm, by simpa using hcmp,
              hbelow, habove⟩
        rw [hsame l hl.perm, hsame l' hl'.perm]
      · rw [List.take_of_length_le (by rw [htied l hl.perm]; omega),
          List.take_of_length_le (by rw [htied l' hl'.perm]; omega)]
        exact ((hl.perm.trans hl'.perm.symm).filter _).count_eq x
    · rw [show m - below cmp rows x = 0 by omega, List.take_zero, List.take_zero]
  · have hcount {l : List α} (hperm : l.Perm rows) : (l.take m).count x = 0 := by
      rw [List.count_eq_zero]
      exact fun hmem => hx (hperm.subset (List.mem_of_mem_take hmem))
    rw [hcount hl.perm, hcount hl'.perm]

/-- What comes before a boundary in one answer is not after what comes behind it in another. -/
theorem isLE_of_take_of_drop (hl : Answer cmp rows l) (hl' : Answer cmp rows l') {m : Nat} {x y : α}
    (hx : x ∈ l.take m) (hy : y ∈ l'.drop m) : (cmp x y).isLE = true := by
  by_contra hnot
  have hyx : cmp y x = .lt := OrientedCmp.lt_of_not_isLE hnot
  -- Fewer than `m` rows lie before `x` in the first answer.
  have hfew : below cmp rows x < m := by
    rw [← below_of_perm hl.perm, below]
    have hsplit := List.pairwise_append.mp ((List.take_append_drop m l).symm ▸ hl.sorted)
    have hnone : ((l.drop m).filter fun z => cmp z x = .lt) = [] := by
      rw [List.filter_eq_nil_iff]
      intro z hz
      rw [decide_eq_true_eq]
      exact fun hzx => OrientedCmp.not_isLE_of_lt hzx (hsplit.2.2 x hx z hz)
    have hlength : ((l.take m).filter fun z => cmp z x = .lt).length < (l.take m).length := by
      apply List.length_filter_lt_length_iff_exists.mpr
      have hself : cmp x x = .eq := ReflCmp.compare_self
      exact ⟨x, hx, by simp [hself]⟩
    rw [← List.take_append_drop m l, List.filter_append, hnone, List.append_nil]
    exact Nat.lt_of_lt_of_le hlength (List.length_take_le m l)
  -- All of the first `m` rows of the second lie before it.
  have hmany : m ≤ below cmp rows x := by
    rw [← below_of_perm hl'.perm, below]
    have hsplit := List.pairwise_append.mp ((List.take_append_drop m l').symm ▸ hl'.sorted)
    have hlength : m < l'.length := by
      have := List.length_pos_of_mem hy
      rw [List.length_drop] at this
      omega
    have hall : ((l'.take m).filter fun z => cmp z x = .lt) = l'.take m := by
      rw [List.filter_eq_self]
      intro z hz
      rw [decide_eq_true_eq]
      exact TransCmp.lt_of_isLE_of_lt (hsplit.2.2 z hz y hy) hyx
    rw [← List.take_append_drop m l', List.filter_append, hall, List.length_append,
      List.length_take]
    omega
  omega

/-- If no boundary splits ties, pages of different answers make up a beginning of each answer. -/
theorem walk_perm {limit : Nat} (count : Nat) {answers : Nat → List α}
    (hanswers : ∀ i, Answer cmp rows (answers i)) (h : ∀ k, ¬ Splits cmp rows (k * limit))
    (hl : Answer cmp rows l) :
    (walk limit count answers).Perm (l.take (count * limit)) := by
  induction count generalizing l with
  | zero =>
      rw [Nat.zero_mul, List.take_zero]
      exact List.Perm.refl []
  | succ count ih =>
      have hprefix :
          (walk limit (count + 1) answers).Perm ((answers count).take ((count + 1) * limit)) := by
        rw [walk_succ, Nat.succ_mul, List.take_add]
        exact (ih (hanswers count)).append_right _
      exact hprefix.trans (perm_take (hanswers count) hl (h (count + 1)))

theorem mem_take_of_mem_walk {limit count : Nat} {answers : Nat → List α} {x : α}
    (hx : x ∈ walk limit count answers) : ∃ i < count, x ∈ (answers i).take ((i + 1) * limit) := by
  obtain ⟨i, hi, hmem⟩ := List.mem_flatMap.mp hx
  refine ⟨i, List.mem_range.mp hi, ?_⟩
  rw [Nat.succ_mul, List.take_add]
  exact List.mem_append_right _ hmem

/-- The pages follow each other in the requested order, whatever the answers. -/
theorem walk_sorted {limit count : Nat} {answers : Nat → List α}
    (hanswers : ∀ i, Answer cmp rows (answers i)) :
    (walk limit count answers).Pairwise fun a b => (cmp a b).isLE = true := by
  induction count with
  | zero => exact List.Pairwise.nil
  | succ count ih =>
      rw [walk_succ, List.pairwise_append]
      refine ⟨ih, ?_, ?_⟩
      · exact (hanswers count).sorted.sublist
          ((List.take_sublist _ _).trans (List.drop_sublist _ _))
      · intro x hx y hy
        obtain ⟨i, hi, hx⟩ := mem_take_of_mem_walk hx
        have hle : (i + 1) * limit ≤ count * limit := Nat.mul_le_mul_right limit hi
        exact isLE_of_take_of_drop (hanswers i) (hanswers count)
          (List.take_subset_take_left _ hle hx)
          (List.mem_of_mem_take hy)

theorem exists_answer (cmp : α → α → Ordering) [TransCmp cmp] (rows : List α) :
    ∃ l, Answer cmp rows l := by
  refine ⟨rows.mergeSort fun a b => (cmp a b).isLE, List.mergeSort_perm _ _, ?_⟩
  apply List.pairwise_mergeSort
  · exact fun a b c hab hbc => TransCmp.isLE_trans hab hbc
  · intro a b
    rw [Bool.or_eq_true]
    cases hcmp : cmp a b with
    | gt => exact .inr (Ordering.isLE_of_eq_lt (OrientedCmp.lt_of_gt hcmp))
    | _ => exact .inl rfl

/-- Where ties are split, an answer can have either of two rows behind the boundary. -/
theorem exists_answers_of_splits {m : Nat} (h : Splits cmp rows m) :
    ∃ before after x y, before.length + 1 = m ∧ x ≠ y ∧
      Answer cmp rows (before ++ x :: y :: after) ∧
      Answer cmp rows (before ++ y :: x :: after) := by
  classical
  obtain ⟨x, hx, y, hy, hne, htie, hbelow, habove⟩ := h
  obtain ⟨l, hl⟩ := exists_answer cmp rows
  have hself : cmp x x = .eq := ReflCmp.compare_self
  set low := l.filter fun z => cmp z x = .lt with hlow
  set tied := l.filter fun z => cmp z x = .eq with htied
  set high := l.filter fun z => cmp z x = .gt with hhigh
  have hdecomposed : l = low ++ (tied ++ high) := eq_append_of_sorted hl.sorted x
  have hlow_length : low.length = below cmp rows x := below_of_perm hl.perm x
  have htied_length : tied.length = ties cmp rows x := (hl.perm.filter _).length_eq
  -- The tied rows can stand in any order.
  have hreorder {tied' : List α} (hperm : tied'.Perm tied) :
      Answer cmp rows (low ++ (tied' ++ high)) := by
    have hl' := hl.sorted
    rw [hdecomposed, List.pairwise_append, List.pairwise_append] at hl'
    have htie_of_mem {z : α} (hz : z ∈ tied') : cmp z x = .eq := by
      simpa using List.of_mem_filter (hperm.subset hz)
    constructor
    · exact (((hperm.append_right high).append_left low).trans
        (List.Perm.of_eq hdecomposed.symm)).trans hl.perm
    · rw [List.pairwise_append, List.pairwise_append]
      refine ⟨hl'.1, ⟨?_, hl'.2.1.2.1, ?_⟩, ?_⟩
      · apply List.pairwise_iff_forall_sublist.mpr
        intro a b hab
        have ha := htie_of_mem (hab.subset List.mem_cons_self)
        have hb := htie_of_mem (hab.subset (List.mem_cons_of_mem a List.mem_cons_self))
        exact Ordering.isLE_of_eq_eq (TransCmp.eq_trans ha (OrientedCmp.eq_symm hb))
      · exact fun a ha b hb => hl'.2.1.2.2 a (hperm.subset ha) b hb
      · intro a ha b hb
        apply hl'.2.2 a ha b
        rcases List.mem_append.mp hb with hb | hb
        · exact List.mem_append_left _ (hperm.subset hb)
        · exact List.mem_append_right _ hb
  have hxm : x ∈ tied := List.mem_filter.mpr ⟨hl.perm.symm.subset hx, by simp [hself]⟩
  have hym : y ∈ tied.erase x :=
    (List.mem_erase_of_ne hne.symm).mpr
      (List.mem_filter.mpr ⟨hl.perm.symm.subset hy, by simp [htie]⟩)
  have hperm : (x :: y :: (tied.erase x).erase y).Perm tied :=
    ((List.perm_cons_erase hym).symm.cons x).trans (List.perm_cons_erase hxm).symm
  set others := (tied.erase x).erase y with hothers
  have hothers_length : others.length + 2 = ties cmp rows x := by
    rw [← htied_length, ← hperm.length_eq]
    rfl
  set j := m - 1 - below cmp rows x with hj
  have hplace (a b : α) (hab : [a, b].Perm [x, y]) :
      Answer cmp rows ((low ++ others.take j) ++ a :: b :: (others.drop j ++ high)) := by
    have hmiddle : (others.take j ++ a :: b :: others.drop j).Perm tied := by
      refine List.Perm.trans ?_ hperm
      have hfront :
          (others.take j ++ a :: b :: others.drop j).Perm
          ([a, b] ++ (others.take j ++ others.drop j)) :=
        List.perm_append_comm_assoc (others.take j) [a, b] (others.drop j)
      rw [List.take_append_drop] at hfront
      exact hfront.trans (hab.append_right others)
    have hanswer := hreorder hmiddle
    simpa [List.append_assoc] using hanswer
  refine ⟨low ++ others.take j, others.drop j ++ high, x, y, ?_, hne, ?_, ?_⟩
  · rw [List.length_append, List.length_take, hlow_length]
    omega
  · exact hplace x y (List.Perm.refl _)
  · exact hplace y x (List.Perm.swap x y [])

omit [TransCmp cmp] in
theorem walk_length {limit count : Nat} {answers : Nat → List α}
    (hanswers : ∀ i, Answer cmp rows (answers i)) :
    (walk limit count answers).length = min (count * limit) rows.length := by
  induction count with
  | zero => rw [Nat.zero_mul, Nat.zero_min]; rfl
  | succ count ih =>
      rw [walk_succ, List.length_append, ih, Pages.page, List.length_take, List.length_drop,
        (hanswers count).perm.length_eq, Nat.succ_mul]
      omega

/-- The pages make up the rows, in order, exactly if no boundary splits ties. -/
theorem walk_iff {limit : Nat} (hlimit : 0 < limit) :
    (∀ answers, (∀ i, Answer cmp rows (answers i)) →
      (walk limit (pageCount limit rows.length) answers).Perm rows ∧
        (walk limit (pageCount limit rows.length) answers).Pairwise fun a b =>
          (cmp a b).isLE = true) ↔
      ∀ k, ¬ Splits cmp rows (k * limit) := by
  constructor
  · intro hvisits k hsplit
    obtain ⟨before, after, x, y, hlength, hne, hfirst, hsecond⟩ := exists_answers_of_splits hsplit
    have hk : k < pageCount limit rows.length := by
      have hrows := hfirst.perm.length_eq
      have hcount := le_pageCount_mul rows.length hlimit
      rw [List.length_append, List.length_cons, List.length_cons] at hrows
      by_contra hge
      have := Nat.mul_le_mul_right limit (Nat.le_of_not_lt hge)
      omega
    have hpage (a b : α) :
        Pages.page limit (k * limit) (before ++ a :: b :: after) = b :: after.take (limit - 1) := by
      obtain ⟨n, rfl⟩ := Nat.exists_eq_add_of_lt hlimit
      have hdrop : (before ++ a :: b :: after).drop (k * (0 + n + 1)) = b :: after := by
        rw [← hlength, List.drop_append, List.drop_of_length_le (Nat.le_succ _),
          Nat.add_sub_cancel_left]
        rfl
      rw [Pages.page, hdrop, Nat.zero_add, List.take_succ_cons, Nat.add_sub_cancel]
    -- The pages before and after are the same in both walks.
    obtain ⟨front, back, hrange⟩ := List.append_of_mem (List.mem_range.mpr hk)
    have hnodup := List.nodup_range (n := pageCount limit rows.length)
    rw [hrange] at hnodup
    have hnotin : k ∉ front ∧ k ∉ back := by
      rw [List.nodup_append] at hnodup
      constructor
      · exact fun hmem => hnodup.2.2 k hmem k List.mem_cons_self rfl
      · exact (List.nodup_cons.mp hnodup.2.1).1
    set constant : Nat → List α := fun _ => before ++ x :: y :: after with hconstant
    set changed : Nat → List α :=
      fun i => if i = k then before ++ y :: x :: after else before ++ x :: y :: after
      with hchanged
    have hwalk := (hvisits constant fun _ => hfirst).1
    have hwalk' := (hvisits changed fun i => by
      dsimp only [changed]
      split
      · exact hsecond
      · exact hfirst).1
    have hagree {is : List Nat} (hnot : k ∉ is) :
        (is.flatMap fun i => Pages.page limit (i * limit) (changed i)) =
          is.flatMap fun i => Pages.page limit (i * limit) (constant i) := by
      apply List.flatMap_congr
      intro i hi
      have hik : i ≠ k := fun heq => hnot (heq ▸ hi)
      dsimp only [changed, constant]
      rw [if_neg hik]
    have hboth := hwalk.trans hwalk'.symm
    rw [walk, walk, hrange, List.flatMap_append, List.flatMap_append, List.flatMap_cons,
      List.flatMap_cons, hagree hnotin.1, hagree hnotin.2, List.perm_append_left_iff,
      List.perm_append_right_iff] at hboth
    have hself : changed k = before ++ y :: x :: after := if_pos rfl
    rw [hself, hpage, hpage] at hboth
    have hcons : ([y] ++ after.take (limit - 1)).Perm ([x] ++ after.take (limit - 1)) := hboth
    rw [List.perm_append_right_iff, List.singleton_perm_singleton] at hcons
    exact hne hcons.symm
  · intro hsplits answers hanswers
    constructor
    · have hperm := walk_perm (pageCount limit rows.length) hanswers hsplits (hanswers 0)
      rw [List.take_of_length_le] at hperm
      · exact hperm.trans (hanswers 0).perm
      · rw [(hanswers 0).perm.length_eq]
        exact le_pageCount_mul rows.length hlimit
    · exact walk_sorted hanswers

/-- The pages have every row exactly once, in order, exactly if no row is repeated and no
boundary splits ties. -/
theorem walk_once_iff {limit : Nat} (hlimit : 0 < limit) :
    (∀ answers, (∀ i, Answer cmp rows (answers i)) →
      (walk limit (pageCount limit rows.length) answers).Nodup ∧
        (∀ x, x ∈ walk limit (pageCount limit rows.length) answers ↔ x ∈ rows) ∧
        (walk limit (pageCount limit rows.length) answers).Pairwise fun a b =>
          (cmp a b).isLE = true) ↔
      rows.Nodup ∧ ∀ k, ¬ Splits cmp rows (k * limit) := by
  rw [← walk_iff hlimit]
  constructor
  · intro honce
    have hperm {answers : Nat → List α} (hanswers : ∀ i, Answer cmp rows (answers i)) :
        (walk limit (pageCount limit rows.length) answers).Perm rows := by
      obtain ⟨hnodup, hmem, -⟩ := honce answers hanswers
      -- There are as many of them as rows.
      refine (hnodup.subperm fun x hx => (hmem x).mp hx).perm_of_length_le ?_
      have hcount := le_pageCount_mul rows.length hlimit
      rw [walk_length hanswers, Nat.min_eq_right hcount]
    obtain ⟨l, hl⟩ := exists_answer cmp rows
    have hsame : ∀ i : Nat, Answer cmp rows ((fun _ => l) i) := fun _ => hl
    refine ⟨(hperm hsame).nodup_iff.mp (honce _ hsame).1,
      fun answers hanswers => ⟨hperm hanswers, ?_⟩⟩
    exact (honce answers hanswers).2.2
  · rintro ⟨hnodup, hwalk⟩ answers hanswers
    obtain ⟨hperm, hsorted⟩ := hwalk answers hanswers
    exact ⟨hperm.nodup_iff.mpr hnodup, fun x => hperm.mem_iff, hsorted⟩

end Order

end Graveboards.Library.Answers
