import Mathlib.Data.List.Chain
import Mathlib.Data.List.DropRight
import Mathlib.Data.List.TakeWhile
import Graveboards.Library.Pattern

/-!
Spaces in texts: `re.sub` puts one character in the place of every run of them,
and `strip` takes them off both ends. Neither loses another character, and a
part of what comes out is what a part of the text becomes.
-/

namespace Graveboards.Library

namespace Spacing

open Pattern

variable {α : Type}

/-- One character in the place of every run of the class. -/
def squeeze (p : α → Bool) (y : α) (xs : List α) : List α := (seq (set p) (many p)).sub [y] 0 xs

variable {p : α → Bool} {y : α}

@[simp] theorem squeeze_nil : squeeze p y [] = [] := rfl

theorem squeeze_cons_of_false {x : α} (h : p x = false) (xs : List α) :
    squeeze p y (x :: xs) = x :: squeeze p y xs := by
  rw [squeeze, sub, first, rests, rests, if_neg (by simp [h])]
  rfl

theorem squeeze_cons_of_true {x : α} (h : p x = true) (xs : List α) :
    squeeze p y (x :: xs) = y :: squeeze p y (xs.dropWhile p) := by
  have hfirst : (seq (set p) (many p)).first (x :: xs) = some (xs.dropWhile p) := by
    rw [first, rests, rests, if_pos h, List.flatMap_singleton, rests, head?_manyRests]
  rw [squeeze, sub, hfirst]
  dsimp only
  rw [sub_eq_drop, ← List.suffix_iff_eq_drop.mp (List.dropWhile_suffix p)]
  rfl

/-- Induction over the runs of a text. -/
theorem runs_induction (p : α → Bool) {motive : List α → Prop} (nil : motive [])
    (other : ∀ x xs, p x = false → motive xs → motive (x :: xs))
    (run : ∀ x xs, p x = true → motive (xs.dropWhile p) → motive (x :: xs)) (xs : List α) :
    motive xs := by
  match xs with
  | [] => exact nil
  | x :: xs =>
      cases hx : p x with
      | false => exact other x xs hx (runs_induction p nil other run xs)
      | true =>
          have hlength := List.length_dropWhile_le p xs
          exact run x xs hx (runs_induction p nil other run (xs.dropWhile p))
termination_by xs.length

/-- Nothing else is lost. -/
theorem filter_squeeze (hy : p y = true) (xs : List α) :
    (squeeze p y xs).filter (fun x => !p x) = xs.filter fun x => !p x := by
  have hdrop (xs : List α) : (xs.dropWhile p).filter (fun x => !p x) = xs.filter fun x => !p x := by
    induction xs with
    | nil => rfl
    | cons x xs ih =>
        cases hx : p x with
        | false => rw [List.dropWhile_cons_of_neg (by simp [hx])]
        | true => rw [List.dropWhile_cons_of_pos hx, ih, List.filter_cons_of_neg (by simp [hx])]
  induction xs using runs_induction p with
  | nil => rfl
  | other x xs hx ih =>
      rw [squeeze_cons_of_false hx, List.filter_cons_of_pos (by simp [hx]),
        List.filter_cons_of_pos (by simp [hx]), ih]
  | run x xs hx ih =>
      rw [squeeze_cons_of_true hx, List.filter_cons_of_neg (by simp [hy]), ih, hdrop,
        List.filter_cons_of_neg (by simp [hx])]

theorem mem_squeeze_of_mem (hy : p y = true) {x : α} {xs : List α} (hx : x ∈ xs)
    (hother : p x = false) :
    x ∈ squeeze p y xs := by
  have hkept : x ∈ xs.filter fun x => !p x := List.mem_filter.mpr ⟨hx, by simp [hother]⟩
  rw [← filter_squeeze hy] at hkept
  exact (List.mem_filter.mp hkept).1

theorem mem_squeeze {x : α} {xs : List α} (h : x ∈ squeeze p y xs) : x = y ∨ x ∈ xs := by
  induction xs using runs_induction p with
  | nil => cases h
  | other z xs hz ih =>
      rw [squeeze_cons_of_false hz] at h
      rcases List.mem_cons.mp h with rfl | h
      · exact .inr List.mem_cons_self
      · exact (ih h).imp_right (List.mem_cons_of_mem z)
  | run z xs hz ih =>
      rw [squeeze_cons_of_true hz] at h
      rcases List.mem_cons.mp h with rfl | h
      · exact .inl rfl
      · exact (ih h).imp_right fun hx =>
          List.mem_cons_of_mem z ((List.dropWhile_suffix p).subset hx)

/-- A text in which every run is the one character. -/
def Squeezed (p : α → Bool) (y : α) (xs : List α) : Prop :=
  (∀ x ∈ xs, p x = true → x = y) ∧ xs.IsChain fun a b => ¬ (p a = true ∧ p b = true)

theorem head?_squeeze_dropWhile (xs : List α) :
    ∀ x ∈ (squeeze p y (xs.dropWhile p)).head?, p x = false := by
  intro x hx
  cases hdrop : xs.dropWhile p with
  | nil =>
      rw [hdrop] at hx
      cases hx
  | cons z zs =>
      have hz : p z = false := by
        have hhead := List.head?_dropWhile_not p xs
        rw [hdrop] at hhead
        simpa using hhead
      rw [hdrop, squeeze_cons_of_false hz] at hx
      obtain rfl := Option.some.inj hx
      exact hz

theorem squeezed_squeeze (xs : List α) : Squeezed p y (squeeze p y xs) := by
  induction xs using runs_induction p with
  | nil => exact ⟨by simp, .nil⟩
  | other x xs hx ih =>
      rw [squeeze_cons_of_false hx]
      refine ⟨List.forall_mem_cons.mpr ⟨?_, ih.1⟩, ih.2.cons ?_⟩
      · intro htrue
        rw [hx] at htrue
        cases htrue
      · rintro z - ⟨htrue, -⟩
        rw [hx] at htrue
        cases htrue
  | run x xs hx ih =>
      rw [squeeze_cons_of_true hx]
      refine ⟨List.forall_mem_cons.mpr ⟨fun _ => rfl, ih.1⟩, ih.2.cons ?_⟩
      rintro z hz ⟨-, htrue⟩
      rw [head?_squeeze_dropWhile xs z hz] at htrue
      cases htrue

theorem squeeze_of_squeezed {xs : List α} (h : Squeezed p y xs) : squeeze p y xs = xs := by
  induction xs using runs_induction p with
  | nil => rfl
  | other x xs hx ih =>
      rw [squeeze_cons_of_false hx, ih ⟨(List.forall_mem_cons.mp h.1).2, h.2.tail⟩]
  | run x xs hx ih =>
      have hdrop : xs.dropWhile p = xs := by
        cases xs with
        | nil => rfl
        | cons z zs =>
            exact List.dropWhile_cons_of_neg fun hz => (List.isChain_cons_cons.mp h.2).1 ⟨hx, hz⟩
      rw [hdrop] at ih
      rw [squeeze_cons_of_true hx, hdrop, ih ⟨(List.forall_mem_cons.mp h.1).2, h.2.tail⟩,
        (List.forall_mem_cons.mp h.1).1 hx]

theorem dropWhile_append_cons {x : α} (hx : p x = false) (xs ys : List α) :
    (xs ++ x :: ys).dropWhile p = xs.dropWhile p ++ x :: ys := by
  rw [List.dropWhile_append]
  split
  · next hempty =>
      rw [List.isEmpty_iff.mp hempty, List.dropWhile_cons_of_neg (by simp [hx]), List.nil_append]
  · rfl

/-- Where the second part begins with another character, the parts do not meet in a run. -/
theorem squeeze_append_cons {x : α} (hx : p x = false) (xs ys : List α) :
    squeeze p y (xs ++ x :: ys) = squeeze p y xs ++ squeeze p y (x :: ys) := by
  induction xs using runs_induction p with
  | nil => rfl
  | other z xs hz ih =>
      rw [List.cons_append, squeeze_cons_of_false hz, ih, squeeze_cons_of_false hz,
        List.cons_append]
  | run z xs hz ih =>
      rw [List.cons_append, squeeze_cons_of_true hz, dropWhile_append_cons hx, ih,
        squeeze_cons_of_true hz, List.cons_append]

/-- A part of the squeezed text is what a part of the text becomes. -/
theorem split_of_squeeze_eq_append {xs as bs : List α} (h : squeeze p y xs = as ++ bs) :
    ∃ front back, xs = front ++ back ∧ squeeze p y front = as ∧ squeeze p y back = bs := by
  induction xs using runs_induction p generalizing as with
  | nil =>
      obtain ⟨rfl, rfl⟩ := List.append_eq_nil_iff.mp h.symm
      exact ⟨[], [], rfl, rfl, rfl⟩
  | other x xs hx ih =>
      rw [squeeze_cons_of_false hx] at h
      cases as with
      | nil => exact ⟨[], x :: xs, rfl, rfl, (squeeze_cons_of_false hx xs).trans h⟩
      | cons a as =>
          obtain ⟨rfl, hrest⟩ := List.cons_eq_cons.mp h
          obtain ⟨front, back, rfl, hfront, hback⟩ := ih hrest
          exact ⟨x :: front, back, rfl, by rw [squeeze_cons_of_false hx, hfront], hback⟩
  | run x xs hx ih =>
      rw [squeeze_cons_of_true hx] at h
      cases as with
      | nil => exact ⟨[], x :: xs, rfl, rfl, (squeeze_cons_of_true hx xs).trans h⟩
      | cons a as =>
          obtain ⟨rfl, hrest⟩ := List.cons_eq_cons.mp h
          obtain ⟨front, back, hdrop, hfront, hback⟩ := ih hrest
          refine ⟨x :: (xs.takeWhile p ++ front), back, ?_, ?_, hback⟩
          · rw [List.cons_append, List.append_assoc, ← hdrop, List.takeWhile_append_dropWhile]
          · have hkept : (xs.takeWhile p ++ front).dropWhile p = front := by
              rw [List.dropWhile_append_of_pos fun z hz => List.mem_takeWhile_imp hz]
              cases front with
              | nil => rfl
              | cons z zs =>
                  have hhead := List.head?_dropWhile_not p xs
                  rw [hdrop] at hhead
                  exact List.dropWhile_cons_of_neg (by simpa using hhead)
            rw [squeeze_cons_of_true hx, hkept, hfront]

/-- What becomes of a run. -/
theorem squeeze_of_forall {xs : List α} (hne : xs ≠ []) (h : ∀ x ∈ xs, p x = true) :
    squeeze p y xs = [y] := by
  obtain ⟨x, rest, rfl⟩ := List.exists_cons_of_ne_nil hne
  obtain ⟨hx, hrest⟩ := List.forall_mem_cons.mp h
  rw [squeeze_cons_of_true hx, List.dropWhile_eq_nil_iff.mpr hrest, squeeze_nil]

/-- A run at the end adds nothing else. -/
theorem squeeze_append_of_forall (hy : p y = true) (xs : List α) {zs : List α}
    (h : ∀ x ∈ zs, p x = true) :
    ∃ tail, (∀ x ∈ tail, p x = true) ∧ squeeze p y (xs ++ zs) = squeeze p y xs ++ tail := by
  induction xs using runs_induction p with
  | nil =>
      by_cases hne : zs = []
      · exact ⟨[], by simp, by rw [hne]; rfl⟩
      · refine ⟨[y], by simpa using hy, ?_⟩
        rw [List.nil_append, squeeze_of_forall hne h, squeeze_nil, List.nil_append]
  | other x xs hx ih =>
      obtain ⟨tail, htail, heq⟩ := ih
      refine ⟨tail, htail, ?_⟩
      rw [List.cons_append, squeeze_cons_of_false hx, heq, squeeze_cons_of_false hx,
        List.cons_append]
  | run x xs hx ih =>
      obtain ⟨tail, htail, heq⟩ := ih
      by_cases hempty : xs.dropWhile p = []
      · refine ⟨[], by simp, ?_⟩
        have hall : ∀ z ∈ xs ++ zs, p z = true := by
          intro z hz
          rcases List.mem_append.mp hz with hz | hz
          · exact List.dropWhile_eq_nil_iff.mp hempty z hz
          · exact h z hz
        rw [List.cons_append, squeeze_cons_of_true hx, List.dropWhile_eq_nil_iff.mpr hall,
          squeeze_cons_of_true hx, hempty, List.append_nil]
      · refine ⟨tail, htail, ?_⟩
        have hdrop : (xs ++ zs).dropWhile p = xs.dropWhile p ++ zs := by
          rw [List.dropWhile_append, if_neg]
          rwa [List.isEmpty_iff]
        rw [List.cons_append, squeeze_cons_of_true hx, hdrop, heq, squeeze_cons_of_true hx,
          List.cons_append]

/-! Spaces at the ends. -/

/-- `str.strip()`. -/
def trim (p : α → Bool) (xs : List α) : List α := (xs.dropWhile p).rdropWhile p

theorem exists_trim (p : α → Bool) (xs : List α) : ∃ lead trail, xs = lead ++ trim p xs ++ trail ∧
    (∀ x ∈ lead, p x = true) ∧ ∀ x ∈ trail, p x = true := by
  refine ⟨xs.takeWhile p, (xs.dropWhile p).rtakeWhile p, ?_, ?_, ?_⟩
  · rw [trim, List.append_assoc, List.rdropWhile_append_rtakeWhile, List.takeWhile_append_dropWhile]
  · exact fun x hx => List.mem_takeWhile_imp hx
  · exact fun x hx => List.mem_rtakeWhile_imp hx

theorem filter_trim (p : α → Bool) (xs : List α) :
    (trim p xs).filter (fun x => !p x) = xs.filter fun x => !p x := by
  obtain ⟨lead, trail, heq, hlead, htrail⟩ := exists_trim p xs
  have hnone (zs : List α) (h : ∀ x ∈ zs, p x = true) : zs.filter (fun x => !p x) = [] :=
    List.filter_eq_nil_iff.mpr fun x hx => by simp [h x hx]
  conv_rhs => rw [heq]
  rw [List.filter_append, List.filter_append, hnone lead hlead, hnone trail htrail, List.nil_append,
    List.append_nil]

theorem rdropWhile_append_of_forall {xs zs : List α} (h : ∀ x ∈ zs, p x = true) :
    (xs ++ zs).rdropWhile p = xs.rdropWhile p := by
  rw [List.rdropWhile, List.reverse_append, List.dropWhile_append_of_pos fun x hx =>
    h x (List.mem_reverse.mp hx)]
  rfl

theorem rdropWhile_append_of_ne_nil {ys : List α} (h : ys.rdropWhile p ≠ []) (xs : List α) :
    (xs ++ ys).rdropWhile p = xs ++ ys.rdropWhile p := by
  rw [List.rdropWhile, List.rdropWhile, List.reverse_append, List.dropWhile_append, if_neg,
    List.reverse_append, List.reverse_reverse]
  intro hempty
  exact h (List.reverse_eq_nil_iff.mpr (List.isEmpty_iff.mp hempty))

theorem rdropWhile_append_cons {x : α} (hx : p x = false) (xs ys : List α) :
    (xs ++ x :: ys).rdropWhile p = xs ++ (x :: ys).rdropWhile p := by
  apply rdropWhile_append_of_ne_nil
  intro hnil
  have htrue := List.rdropWhile_eq_nil_iff.mp hnil x List.mem_cons_self
  rw [hx] at htrue
  cases htrue

theorem map_rdropWhile {f : α → α} (hf : ∀ x, p (f x) = p x) (xs : List α) :
    (xs.rdropWhile p).map f = (xs.map f).rdropWhile p := by
  have hp : p ∘ f = p := funext hf
  rw [List.rdropWhile, List.rdropWhile, List.map_reverse, ← List.map_reverse (l := xs),
    List.dropWhile_map, hp]

/-- Nothing is lost in front of what begins with another character but what leads the text. -/
theorem trim_append_cons {x : α} (hx : p x = false) (xs ys : List α) :
    trim p (xs ++ x :: ys) = xs.dropWhile p ++ (x :: ys).rdropWhile p := by
  rw [trim, dropWhile_append_cons hx, rdropWhile_append_cons hx]

theorem trim_append_of_forall {xs zs : List α} (h : ∀ x ∈ zs, p x = true) :
    trim p (xs ++ zs) = trim p xs := by
  rw [trim, trim, List.dropWhile_append]
  split
  · next hempty =>
      rw [List.isEmpty_iff.mp hempty, List.dropWhile_eq_nil_iff.mpr h]
  · exact rdropWhile_append_of_forall h

theorem trim_map {f : α → α} (hf : ∀ x, p (f x) = p x) (xs : List α) :
    trim p (xs.map f) = (trim p xs).map f := by
  have hp : p ∘ f = p := funext hf
  rw [trim, trim, List.dropWhile_map, hp, map_rdropWhile hf]

theorem trim_trim (p : α → Bool) (xs : List α) : trim p (trim p xs) = trim p xs := by
  have hfront : (trim p xs).dropWhile p = trim p xs := by
    obtain ⟨back, heq⟩ := List.rdropWhile_prefix p (xs.dropWhile p)
    change (trim p xs) ++ back = _ at heq
    cases hkept : trim p xs with
    | nil => rfl
    | cons x kept =>
        have hhead := List.head?_dropWhile_not p xs
        rw [← heq, hkept] at hhead
        exact List.dropWhile_cons_of_neg (by simpa using hhead)
  conv_lhs => rw [trim, hfront, trim]
  exact List.rdropWhile_idempotent p _

theorem getLast?_trim (p : α → Bool) (xs : List α) : ∀ x ∈ (trim p xs).getLast?, p x = false := by
  intro x hx
  obtain ⟨hne, hlast⟩ := List.mem_getLast?_eq_getLast hx
  rw [hlast]
  exact Bool.eq_false_iff.mpr (List.rdropWhile_last_not p (xs.dropWhile p) hne)

theorem squeezed_trim {xs : List α} (h : Squeezed p y xs) : Squeezed p y (trim p xs) := by
  obtain ⟨lead, trail, heq, -, -⟩ := exists_trim p xs
  have hpart : trim p xs <:+: xs := ⟨lead, trail, heq.symm⟩
  have hchain := h.2
  rw [heq] at hchain
  exact ⟨fun x hx => h.1 x (hpart.subset hx), hchain.left_of_append.right_of_append⟩

end Spacing

end Graveboards.Library
