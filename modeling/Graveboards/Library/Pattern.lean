import Mathlib.Data.List.Forall2

/-!
Regular expressions as a backtracking engine runs them: a pattern reads the
front of a text and leaves the rest, and the possible rests come in the order
in which they are tried. `sub` replaces the leftmost matches, one after the
other. A pattern that always leaves nothing first cuts the text at the
leftmost place where it matches.
-/

namespace Graveboards.Library

/-- Patterns without groups. Every character class is a set of characters. -/
inductive Pattern (α : Type) where
  | empty
  | set (p : α → Bool)
  | seq (r s : Pattern α)
  | alt (r s : Pattern α)
  | maybe (r : Pattern α)
  /-- Greedy: as many as there are, then one less each time. -/
  | many (p : α → Bool)
  /-- `$`: at the end of the text, or before a line break that ends it. -/
  | atEnd (lineBreak : α → Bool)

namespace Pattern

variable {α : Type}

/-- What `many` may leave, the shortest first. -/
def manyRests (p : α → Bool) : List α → List (List α)
  | [] => [[]]
  | x :: xs => if p x then manyRests p xs ++ [x :: xs] else [x :: xs]

/-- What the pattern may leave of the text, in the order in which it is tried. -/
def rests : Pattern α → List α → List (List α)
  | empty, xs => [xs]
  | set _, [] => []
  | set p, x :: xs => if p x then [xs] else []
  | seq r s, xs => (r.rests xs).flatMap s.rests
  | alt r s, xs => r.rests xs ++ s.rests xs
  | maybe r, xs => r.rests xs ++ [xs]
  | many p, xs => manyRests p xs
  | atEnd _, [] => [[]]
  | atEnd lineBreak, [x] => if lineBreak x then [[x]] else []
  | atEnd _, _ :: _ :: _ => []

/-- `re.match`: what is left after the match that is found first. -/
def first (r : Pattern α) (xs : List α) : Option (List α) := (r.rests xs).head?

/-- `re.sub` for a pattern that reads something whenever it matches; the next `skip` characters have
been read. -/
def sub (r : Pattern α) (replacement : List α) (skip : Nat) : List α → List α
  | [] => []
  | x :: xs =>
      match skip with
      | skip + 1 => sub r replacement skip xs
      | 0 =>
          match r.first (x :: xs) with
          | some rest => replacement ++ sub r replacement (xs.length - rest.length) xs
          | none => x :: sub r replacement 0 xs

/-- The characters of the list in their order, each as one of the class that is made for it. -/
def spell {β : Type} (same : β → α → Bool) : List β → Pattern α
  | [] => empty
  | c :: rest => seq (set (same c)) (spell same rest)

def oneOf : List (Pattern α) → Pattern α
  | [] => set fun _ => false
  | r :: rest => alt r (oneOf rest)

attribute [local simp] manyRests rests sub spell oneOf

/-! What patterns may leave. -/

theorem mem_manyRests {p : α → Bool} {xs rest : List α} :
    rest ∈ manyRests p xs ↔ ∃ read, xs = read ++ rest ∧ ∀ x ∈ read, p x = true := by
  induction xs with
  | nil => simp [manyRests]
  | cons x xs ih =>
      rw [manyRests]
      split
      · next hx =>
          rw [List.mem_append, ih, List.mem_singleton]
          constructor
          · rintro (⟨read, rfl, hread⟩ | rfl)
            · exact ⟨x :: read, rfl, List.forall_mem_cons.mpr ⟨hx, hread⟩⟩
            · exact ⟨[], rfl, by simp⟩
          · rintro ⟨read, heq, hread⟩
            cases read with
            | nil => exact .inr heq.symm
            | cons y read =>
                obtain ⟨rfl, rfl⟩ := List.cons_eq_cons.mp heq
                exact .inl ⟨read, rfl, (List.forall_mem_cons.mp hread).2⟩
      · next hx =>
          rw [List.mem_singleton]
          constructor
          · rintro rfl
            exact ⟨[], rfl, by simp⟩
          · rintro ⟨read, heq, hread⟩
            cases read with
            | nil => exact heq.symm
            | cons y read =>
                obtain ⟨rfl, -⟩ := List.cons_eq_cons.mp heq
                exact absurd (List.forall_mem_cons.mp hread).1 hx

theorem mem_rests_set {p : α → Bool} {xs rest : List α} :
    rest ∈ (set p).rests xs ↔ ∃ x, xs = x :: rest ∧ p x = true := by
  cases xs with
  | nil => simp [rests]
  | cons x xs =>
      rw [rests]
      split
      · next hx =>
          rw [List.mem_singleton]
          constructor
          · rintro rfl
            exact ⟨x, rfl, hx⟩
          · rintro ⟨y, heq, -⟩
            exact (List.cons_eq_cons.mp heq).2.symm
      · next hx =>
          refine iff_of_false List.not_mem_nil ?_
          rintro ⟨y, heq, hy⟩
          obtain ⟨rfl, -⟩ := List.cons_eq_cons.mp heq
          exact hx hy

theorem mem_rests_seq {r s : Pattern α} {xs rest : List α} :
    rest ∈ (seq r s).rests xs ↔ ∃ middle ∈ r.rests xs, rest ∈ s.rests middle := by
  rw [rests, List.mem_flatMap]

theorem mem_rests_maybe {r : Pattern α} {xs rest : List α} :
    rest ∈ (maybe r).rests xs ↔ rest ∈ r.rests xs ∨ rest = xs := by
  rw [rests, List.mem_append, List.mem_singleton]

theorem mem_rests_many {p : α → Bool} {xs rest : List α} :
    rest ∈ (many p).rests xs ↔ ∃ read, xs = read ++ rest ∧ ∀ x ∈ read, p x = true := mem_manyRests

theorem mem_rests_spell {β : Type} {same : β → α → Bool} {text : List β} {xs rest : List α} :
    rest ∈ (spell same text).rests xs ↔
      ∃ read, xs = read ++ rest ∧ List.Forall₂ (fun c x => same c x = true) text read := by
  induction text generalizing xs with
  | nil =>
      rw [spell, rests, List.mem_singleton]
      constructor
      · rintro rfl
        exact ⟨[], rfl, .nil⟩
      · rintro ⟨read, rfl, hread⟩
        rw [List.forall₂_nil_left_iff.mp hread, List.nil_append]
  | cons c text ih =>
      rw [spell, mem_rests_seq]
      constructor
      · rintro ⟨middle, hmiddle, hrest⟩
        obtain ⟨x, rfl, hx⟩ := mem_rests_set.mp hmiddle
        obtain ⟨read, rfl, hread⟩ := ih.mp hrest
        exact ⟨x :: read, rfl, .cons hx hread⟩
      · rintro ⟨_, rfl, hspelled⟩
        obtain ⟨x, read, hx, hread, rfl⟩ := List.forall₂_cons_left_iff.mp hspelled
        exact ⟨read ++ rest, mem_rests_set.mpr ⟨x, rfl, hx⟩, ih.mpr ⟨read, rfl, hread⟩⟩

theorem mem_rests_oneOf {rs : List (Pattern α)} {xs rest : List α} :
    rest ∈ (oneOf rs).rests xs ↔ ∃ r ∈ rs, rest ∈ r.rests xs := by
  induction rs with
  | nil =>
      rw [oneOf, mem_rests_set]
      simp
  | cons r rs ih => rw [oneOf, rests, List.mem_append, ih, List.exists_mem_cons_iff]

/-! Patterns that leave nothing first. -/

/-- If the pattern matches at all, it reads the whole text first. -/
def ReadsAll (r : Pattern α) : Prop := ∀ xs rest, r.first xs = some rest → rest = []

/-- The part that is tried last decides what is left first. -/
theorem ReadsAll.seq {s : Pattern α} (h : ReadsAll s) (r : Pattern α) : ReadsAll (seq r s) := by
  intro xs rest hfirst
  rw [first, rests] at hfirst
  generalize r.rests xs = middles at hfirst
  induction middles with
  | nil => cases hfirst
  | cons middle others ih =>
      rw [List.flatMap_cons] at hfirst
      cases hmiddle : s.rests middle with
      | nil =>
          rw [hmiddle, List.nil_append] at hfirst
          exact ih hfirst
      | cons found more =>
          rw [hmiddle] at hfirst
          obtain rfl := Option.some.inj hfirst
          exact h middle found (by rw [first, hmiddle, List.head?_cons])

/-- Before the end there is nothing, or a line break. -/
theorem mem_rests_atEnd {lineBreak : α → Bool} {xs rest : List α} :
    rest ∈ (atEnd lineBreak).rests xs ↔
      rest = xs ∧ (xs = [] ∨ ∃ x, xs = [x] ∧ lineBreak x = true) := by
  match xs with
  | [] => simp [rests]
  | [x] =>
      rw [rests]
      split
      · next hx => simp [hx]
      · next hx => simp [hx]
  | x :: y :: xs => simp [rests]

/-- Where line breaks belong to the class, `$` after the class reads the text to its end. -/
theorem readsAll_many_atEnd {p lineBreak : α → Bool} (h : ∀ x, lineBreak x = true → p x = true) :
    ReadsAll (seq (many p) (atEnd lineBreak)) := by
  intro xs rest hfirst
  rw [first, rests, rests] at hfirst
  induction xs with
  | nil =>
      obtain rfl := Option.some.inj hfirst
      rfl
  | cons x xs ih =>
      have hatEnd (hrest : rest ∈ (atEnd lineBreak).rests (x :: xs)) : xs = [] ∧ p x = true := by
        obtain ⟨-, hnil | ⟨y, heq, hy⟩⟩ := mem_rests_atEnd.mp hrest
        · cases hnil
        · obtain ⟨rfl, rfl⟩ := List.cons_eq_cons.mp heq
          exact ⟨rfl, h x hy⟩
      rw [manyRests] at hfirst
      split at hfirst
      · rw [List.flatMap_append] at hfirst
        cases hlater : (manyRests p xs).flatMap (atEnd lineBreak).rests with
        | nil =>
            rw [hlater, List.nil_append, List.flatMap_singleton] at hfirst
            obtain ⟨rfl, -⟩ := hatEnd (List.mem_of_head? hfirst)
            cases hlater
        | cons found more =>
            rw [hlater] at hfirst ih
            exact ih hfirst
      · next hx =>
          rw [List.flatMap_singleton] at hfirst
          exact absurd (hatEnd (List.mem_of_head? hfirst)).2 hx

/-- A text that the pattern matches. -/
def Matches (r : Pattern α) (xs : List α) : Prop := ∃ rest, rest ∈ r.rests xs

theorem matches_seq_iff {r s : Pattern α} {xs : List α} :
    (seq r s).Matches xs ↔ ∃ middle ∈ r.rests xs, s.Matches middle := by
  constructor
  · rintro ⟨rest, hrest⟩
    obtain ⟨middle, hmiddle, hlater⟩ := mem_rests_seq.mp hrest
    exact ⟨middle, hmiddle, rest, hlater⟩
  · rintro ⟨middle, hmiddle, rest, hrest⟩
    exact ⟨rest, mem_rests_seq.mpr ⟨middle, hmiddle, hrest⟩⟩

theorem matches_many_atEnd_iff {p lineBreak : α → Bool} (h : ∀ x, lineBreak x = true → p x = true)
    {xs : List α} :
    (seq (many p) (atEnd lineBreak)).Matches xs ↔ ∀ x ∈ xs, p x = true := by
  constructor
  · rintro ⟨rest, hrest⟩
    obtain ⟨middle, hmiddle, hend⟩ := mem_rests_seq.mp hrest
    obtain ⟨read, rfl, hread⟩ := mem_rests_many.mp hmiddle
    intro x hx
    rcases List.mem_append.mp hx with hx | hx
    · exact hread x hx
    · obtain ⟨-, rfl | ⟨y, rfl, hy⟩⟩ := mem_rests_atEnd.mp hend
      · cases hx
      · rw [List.mem_singleton.mp hx]
        exact h y hy
  · intro hall
    refine ⟨[],
      mem_rests_seq.mpr ⟨[], mem_rests_many.mpr ⟨xs, (List.append_nil xs).symm, hall⟩, ?_⟩⟩
    exact mem_rests_atEnd.mpr ⟨rfl, .inl rfl⟩

theorem ReadsAll.first_eq {r : Pattern α} (h : ReadsAll r) {xs : List α} (hmatches : r.Matches xs) :
    r.first xs = some [] := by
  obtain ⟨rest, hrest⟩ := hmatches
  obtain ⟨found, hfound⟩ :=
    Option.isSome_iff_exists.mp (List.isSome_head?.mpr (List.ne_nil_of_mem hrest))
  have hfirst : r.first xs = some found := hfound
  rw [hfirst, h xs found hfirst]

theorem first_eq_none {r : Pattern α} {xs : List α} (h : ¬ r.Matches xs) : r.first xs = none := by
  rw [first, List.head?_eq_none_iff]
  exact List.eq_nil_iff_forall_not_mem.mpr fun rest hrest => h ⟨rest, hrest⟩

theorem sub_skip (r : Pattern α) (replacement xs : List α) :
    r.sub replacement xs.length xs = [] := by
  induction xs with
  | nil => rfl
  | cons x xs ih => exact ih

/-- What no end of the text matches stays. -/
theorem sub_of_not_matches {r : Pattern α} (replacement : List α) {xs : List α}
    (h : ∀ before rest, xs = before ++ rest → ¬ r.Matches rest) : r.sub replacement 0 xs = xs := by
  induction xs with
  | nil => rfl
  | cons x xs ih =>
      rw [sub, first_eq_none (h [] _ rfl)]
      dsimp only
      rw [ih fun before rest heq => h (x :: before) rest (by rw [heq, List.cons_append])]

/-- The text is cut where it matches first. -/
theorem ReadsAll.sub_eq {r : Pattern α} (h : ReadsAll r) (replacement : List α) {before xs : List α}
    (hne : xs ≠ []) (hmatches : r.Matches xs)
    (hfirst : ∀ front back, before = front ++ back → back ≠ [] → ¬ r.Matches (back ++ xs)) :
    r.sub replacement 0 (before ++ xs) = before ++ replacement := by
  induction before with
  | nil =>
      obtain ⟨x, rest, rfl⟩ := List.exists_cons_of_ne_nil hne
      rw [List.nil_append, List.nil_append, sub, h.first_eq hmatches]
      dsimp only
      rw [List.length_nil, Nat.sub_zero, sub_skip, List.append_nil]
  | cons x before ih =>
      rw [List.cons_append, sub, first_eq_none]
      · dsimp only
        rw [ih fun front back heq => hfirst (x :: front) back (by rw [heq, List.cons_append])]
        rfl
      · exact hfirst [] (x :: before) rfl (List.cons_ne_nil x before)

/-! Single characters, and runs of them. -/

/-- Taking out a class. -/
theorem sub_set (p : α → Bool) (xs : List α) : (set p).sub [] 0 xs = xs.filter fun x => !p x := by
  induction xs with
  | nil => rfl
  | cons x xs ih =>
      rw [sub, first, rests]
      cases hx : p x with
      | true =>
          rw [if_pos rfl, List.head?_cons]
          dsimp only
          rw [Nat.sub_self, List.nil_append, ih, List.filter_cons_of_neg (by simp [hx])]
      | false =>
          rw [if_neg Bool.false_ne_true, List.head?_nil]
          dsimp only
          rw [ih, List.filter_cons_of_pos (by simp [hx])]

theorem head?_manyRests (p : α → Bool) (xs : List α) :
    (manyRests p xs).head? = some (xs.dropWhile p) := by
  induction xs with
  | nil => rfl
  | cons x xs ih =>
      rw [manyRests]
      split
      · next hx => rw [List.head?_append, ih, List.dropWhile_cons_of_pos hx, Option.some_or]
      · next hx => rw [List.dropWhile_cons_of_neg hx, List.head?_cons]

theorem sub_eq_drop (r : Pattern α) (replacement : List α) (skip : Nat) (xs : List α) :
    r.sub replacement skip xs = r.sub replacement 0 (xs.drop skip) := by
  induction xs generalizing skip with
  | nil => rw [List.drop_nil, sub, sub]
  | cons x xs ih =>
      cases skip with
      | zero => rw [List.drop_zero]
      | succ skip =>
          rw [sub, ih, List.drop_succ_cons]

end Pattern

end Graveboards.Library
