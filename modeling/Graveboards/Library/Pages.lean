import Mathlib.Data.List.Forall2
import Graveboards.Library.Text

/-!
Reading a list page by page, and decoding what was read. The pages at the
multiples of the limit cover the list, and a page can be decoded only if all of
its entries can.
-/

namespace Graveboards.Library

namespace Pages

variable {α β ε : Type}

/-- `limit` entries after the first `offset` ones. -/
def page (limit offset : Nat) (l : List α) : List α := (l.drop offset).take limit

theorem mem_of_mem_page {limit offset : Nat} {l : List α} {x : α} (h : x ∈ page limit offset l) :
    x ∈ l :=
  List.mem_of_mem_drop (List.mem_of_mem_take h)

theorem map_page (f : α → β) (limit offset : Nat) (l : List α) :
    (page limit offset l).map f = page limit offset (l.map f) := by
  rw [page, page, List.map_take, List.map_drop]

/-- The first `count` pages, one after the other. -/
theorem flatten_pages (limit count : Nat) (l : List α) :
    ((List.range count).map (fun i => page limit (i * limit) l)).flatten =
      l.take (count * limit) := by
  induction count with
  | zero => simp
  | succ count ih =>
      rw [List.range_succ, List.map_append, List.flatten_append, ih, Nat.succ_mul, List.take_add]
      simp [page]

/-- A list is decoded when its entries are. -/
theorem mapM_of_forall {f : α → Except ε β} {g : α → β} {l : List α}
    (h : ∀ x ∈ l, f x = .ok (g x)) : l.mapM f = .ok (l.map g) := by
  induction l with
  | nil => rfl
  | cons x rest ih =>
      rw [List.mapM_cons, h x List.mem_cons_self,
        ih (fun y hy => h y (List.mem_cons_of_mem x hy))]
      rfl

theorem forall_of_mapM {f : α → Except ε β} {l : List α} {ys : List β} (h : l.mapM f = .ok ys) :
    ∀ x ∈ l, ∃ y, f x = .ok y := by
  induction l generalizing ys with
  | nil => simp
  | cons x rest ih =>
      rw [List.mapM_cons] at h
      obtain ⟨y, hy, h⟩ := bind_eq_ok h
      obtain ⟨others, hothers, -⟩ := bind_eq_ok h
      exact List.forall_mem_cons.mpr ⟨⟨y, hy⟩, ih hothers⟩

theorem mapM_eq_some_iff {f : α → Option β} {l : List α} {ys : List β} :
    l.mapM f = some ys ↔ List.Forall₂ (fun x y => f x = some y) l ys := by
  induction l generalizing ys with
  | nil =>
      rw [List.mapM_nil, List.forall₂_nil_left_iff]
      constructor
      · intro h
        cases h
        rfl
      · rintro rfl
        rfl
  | cons x rest ih =>
      rw [List.mapM_cons, List.forall₂_cons_left_iff]
      constructor
      · intro h
        obtain ⟨y, hy, h⟩ := Option.bind_eq_some_iff.mp h
        obtain ⟨others, hothers, h⟩ := Option.bind_eq_some_iff.mp h
        cases h
        exact ⟨y, others, hy, ih.mp hothers, rfl⟩
      · rintro ⟨y, others, hy, hothers, rfl⟩
        rw [hy, ih.mpr hothers]
        rfl

theorem mapM_eq_ok_iff {f : α → Except ε β} {l : List α} {ys : List β} :
    l.mapM f = .ok ys ↔ List.Forall₂ (fun x y => f x = .ok y) l ys := by
  induction l generalizing ys with
  | nil =>
      rw [List.mapM_nil, List.forall₂_nil_left_iff]
      constructor
      · intro h
        exact (Except.ok.inj h).symm
      · rintro rfl
        rfl
  | cons x rest ih =>
      rw [List.mapM_cons, List.forall₂_cons_left_iff]
      constructor
      · intro h
        obtain ⟨y, hy, h⟩ := bind_eq_ok h
        obtain ⟨others, hothers, h⟩ := bind_eq_ok h
        cases h
        exact ⟨y, others, hy, ih.mp hothers, rfl⟩
      · rintro ⟨y, others, hy, hothers, rfl⟩
        rw [hy, ih.mpr hothers]
        rfl

theorem exists_of_mem_mapM {f : α → Option β} {l : List α} {ys : List β}
    (h : l.mapM f = some ys) {y : β} (hy : y ∈ ys) : ∃ x ∈ l, f x = some y := by
  rw [mapM_eq_some_iff] at h
  induction h with
  | nil => cases hy
  | cons hfirst hrest ih =>
      rcases List.mem_cons.mp hy with rfl | hy
      · exact ⟨_, List.mem_cons_self, hfirst⟩
      · obtain ⟨x, hx, hfx⟩ := ih hy
        exact ⟨x, List.mem_cons_of_mem _ hx, hfx⟩

end Pages

end Graveboards.Library
