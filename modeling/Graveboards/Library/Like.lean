import Mathlib.Data.List.Forall2
import Mathlib.Data.List.Infix

/-!
SQL's `LIKE`. A pattern is read as tokens: any text, any one character, or a
character that is compared with the text; an escape character takes the next one
as it stands, and a pattern that ends with it matches nothing. The pattern is
compared with the whole text.
-/

namespace Graveboards.Library.Like

variable {β : Type}

/-- The characters with a meaning of their own. -/
structure Symbols (β : Type) where
  any : β
  one : β
  escape : β

inductive Token (β : Type) where
  | any
  | one
  | char (c : β)

section Tokens

variable [DecidableEq β] (s : Symbols β)

/-- The tokens of a pattern, of which `escaped` characters stand for themselves. -/
def tokens (escaped : Bool) : List β → Option (List (Token β))
  | [] => if escaped then none else some []
  | c :: pattern =>
      if escaped then (tokens false pattern).map (.char c :: ·)
      else if c = s.escape then tokens true pattern
      else if c = s.any then (tokens false pattern).map (.any :: ·)
      else if c = s.one then (tokens false pattern).map (.one :: ·)
      else (tokens false pattern).map (.char c :: ·)

/-- A text that only stands for itself. -/
def Plain (text : List β) : Prop := ∀ c ∈ text, c ≠ s.any ∧ c ≠ s.one ∧ c ≠ s.escape

variable {s}

theorem tokens_append {escaped : Bool} {pattern : List β} {ts : List (Token β)}
    (h : tokens s escaped pattern = some ts) (rest : List β) :
    tokens s escaped (pattern ++ rest) = (tokens s false rest).map (ts ++ ·) := by
  induction pattern generalizing escaped ts with
  | nil =>
      cases escaped with
      | true => cases h
      | false =>
          obtain rfl := Option.some.inj h
          simp
  | cons c pattern ih =>
      have hcons {t : Token β} (h : (tokens s false pattern).map (t :: ·) = some ts) :
          (tokens s false (pattern ++ rest)).map (t :: ·) =
            (tokens s false rest).map (ts ++ ·) := by
        obtain ⟨others, hothers, rfl⟩ := Option.map_eq_some_iff.mp h
        rw [ih hothers, Option.map_map]
        rfl
      rw [List.cons_append, tokens]
      rw [tokens] at h
      split at h
      · rw [if_pos ‹_›]
        exact hcons h
      · rw [if_neg ‹_›]
        split at h
        · rw [if_pos ‹_›]
          exact ih h
        · rw [if_neg ‹_›]
          split at h
          · rw [if_pos ‹_›]
            exact hcons h
          · rw [if_neg ‹_›]
            split at h
            · rw [if_pos ‹_›]
              exact hcons h
            · rw [if_neg ‹_›]
              exact hcons h

theorem tokens_plain {text : List β} (h : Plain s text) :
    tokens s false text = some (text.map .char) := by
  induction text with
  | nil => rfl
  | cons c text ih =>
      obtain ⟨⟨hany, hone, hescape⟩, hrest⟩ := List.forall_mem_cons.mp h
      rw [tokens, ih hrest]
      simp [hany, hone, hescape]

end Tokens

variable (same : β → β → Bool)

/-- The tokens take up the whole text. -/
def accepts : List (Token β) → List β → Bool
  | [], text => text.isEmpty
  | .any :: ts, text => text.tails.any (accepts ts)
  | .one :: ts, text =>
      match text with
      | [] => false
      | _ :: rest => accepts ts rest
  | .char c :: ts, text =>
      match text with
      | [] => false
      | d :: rest => same c d && accepts ts rest

variable {same}

theorem accepts_any_iff {ts : List (Token β)} {text : List β} :
    accepts same (.any :: ts) text = true ↔ ∃ front back, text = front ++ back ∧
    accepts same ts back = true := by
  rw [accepts, List.any_eq_true]
  constructor
  · rintro ⟨back, hback, h⟩
    obtain ⟨front, rfl⟩ := (List.mem_tails _ _).mp hback
    exact ⟨front, back, rfl, h⟩
  · rintro ⟨front, back, rfl, h⟩
    exact ⟨back, (List.mem_tails _ _).mpr (List.suffix_append front back), h⟩

/-- Tokens take up a text one part after the other. -/
theorem accepts_append_iff {ts others : List (Token β)} {text : List β} :
    accepts same (ts ++ others) text = true ↔
      ∃ front back, text = front ++ back ∧ accepts same ts front = true ∧
      accepts same others back = true := by
  induction ts generalizing text with
  | nil =>
      constructor
      · exact fun h => ⟨[], text, rfl, rfl, h⟩
      · rintro ⟨front, back, rfl, hfront, hback⟩
        rw [List.isEmpty_iff.mp hfront]
        exact hback
  | cons t ts ih =>
      cases t with
      | any =>
          rw [List.cons_append, accepts_any_iff]
          constructor
          · rintro ⟨skipped, rest, rfl, hrest⟩
            obtain ⟨front, back, rfl, hfront, hback⟩ := ih.mp hrest
            refine ⟨skipped ++ front, back, (List.append_assoc ..).symm, ?_, hback⟩
            exact accepts_any_iff.mpr ⟨skipped, front, rfl, hfront⟩
          · rintro ⟨front, back, rfl, hfront, hback⟩
            obtain ⟨skipped, rest, rfl, hrest⟩ := accepts_any_iff.mp hfront
            exact ⟨skipped, rest ++ back, List.append_assoc ..,
              ih.mpr ⟨rest, back, rfl, hrest, hback⟩⟩
      | one =>
          cases text with
          | nil =>
              refine iff_of_false Bool.false_ne_true ?_
              rintro ⟨front, back, htext, hfront, -⟩
              rw [(List.append_eq_nil_iff.mp htext.symm).1] at hfront
              cases hfront
          | cons d text =>
              rw [List.cons_append, accepts, ih]
              constructor
              · rintro ⟨front, back, rfl, hfront, hback⟩
                exact ⟨d :: front, back, rfl, hfront, hback⟩
              · rintro ⟨front, back, htext, hfront, hback⟩
                cases front with
                | nil => cases hfront
                | cons e front =>
                    obtain ⟨-, rfl⟩ := List.cons.inj htext
                    exact ⟨front, back, rfl, hfront, hback⟩
      | char c =>
          cases text with
          | nil =>
              refine iff_of_false Bool.false_ne_true ?_
              rintro ⟨front, back, htext, hfront, -⟩
              rw [(List.append_eq_nil_iff.mp htext.symm).1] at hfront
              cases hfront
          | cons d text =>
              rw [List.cons_append, accepts, Bool.and_eq_true, ih]
              constructor
              · rintro ⟨hsame, front, back, rfl, hfront, hback⟩
                exact ⟨d :: front, back, rfl, Bool.and_eq_true_iff.mpr ⟨hsame, hfront⟩, hback⟩
              · rintro ⟨front, back, htext, hfront, hback⟩
                cases front with
                | nil => cases hfront
                | cons e front =>
                    obtain ⟨rfl, rfl⟩ := List.cons.inj htext
                    obtain ⟨hsame, hfront⟩ := Bool.and_eq_true_iff.mp hfront
                    exact ⟨hsame, front, back, rfl, hfront, hback⟩

theorem accepts_chars_iff {text other : List β} :
    accepts same (text.map .char) other = true ↔
      List.Forall₂ (fun c d => same c d = true) text other := by
  induction text generalizing other with
  | nil => rw [List.forall₂_nil_left_iff, List.map_nil, accepts, List.isEmpty_iff]
  | cons c text ih =>
      rw [List.map_cons, List.forall₂_cons_left_iff]
      cases other with
      | nil => simp [accepts]
      | cons d other => simp [accepts, ih]

section Like

variable [DecidableEq β] (s : Symbols β) (same)

def like (text pattern : List β) : Bool :=
  (tokens s false pattern).any fun ts => accepts same ts text

variable {s same}

/-- A wildcard more before a pattern. -/
theorem like_any_append (hescape : s.any ≠ s.escape) {text pattern : List β}
    (h : like same s text pattern = true) :
    like same s text ([s.any] ++ pattern) = true := by
  obtain ⟨ts, hts, haccepts⟩ := (Option.any_eq_true _ _).mp h
  refine (Option.any_eq_true _ _).mpr
    ⟨.any :: ts, ?_, accepts_any_iff.mpr ⟨[], text, rfl, haccepts⟩⟩
  simp [tokens, hescape, hts]

/-- And after it. -/
theorem like_append_any (hescape : s.any ≠ s.escape) {text pattern : List β}
    (h : like same s text pattern = true) :
    like same s text (pattern ++ [s.any]) = true := by
  obtain ⟨ts, hts, haccepts⟩ := (Option.any_eq_true _ _).mp h
  refine (Option.any_eq_true _ _).mpr ⟨ts ++ [.any], ?_, ?_⟩
  · rw [tokens_append hts]
    simp [tokens, hescape]
  · exact accepts_append_iff.mpr ⟨text, [], (List.append_nil text).symm, haccepts, rfl⟩

/-- Between wildcards a plain text matches where it occurs. -/
theorem like_infix_iff (hescape : s.any ≠ s.escape) {text part : List β} (hplain : Plain s part) :
    like same s text ([s.any] ++ (part ++ [s.any])) = true ↔
      ∃ front middle back, text = front ++ (middle ++ back) ∧
      List.Forall₂ (fun c d => same c d = true) part middle := by
  have htokens : tokens s false ([s.any] ++ (part ++ [s.any])) =
      some (.any :: (part.map .char ++ [.any])) := by
    have hrest : tokens s false (part ++ [s.any]) = some (part.map .char ++ [.any]) := by
      rw [tokens_append (tokens_plain hplain)]
      simp [tokens, hescape]
    rw [List.singleton_append, tokens, hrest]
    simp [hescape]
  rw [like, htokens, Option.any_some, accepts_any_iff]
  constructor
  · rintro ⟨front, rest, rfl, hrest⟩
    obtain ⟨middle, back, rfl, hmiddle, -⟩ := accepts_append_iff.mp hrest
    exact ⟨front, middle, back, rfl, accepts_chars_iff.mp hmiddle⟩
  · rintro ⟨front, middle, back, rfl, hmiddle⟩
    refine ⟨front, middle ++ back, rfl,
      accepts_append_iff.mpr ⟨middle, back, rfl, accepts_chars_iff.mpr hmiddle, ?_⟩⟩
    exact accepts_any_iff.mpr ⟨back, [], (List.append_nil back).symm, rfl⟩

end Like

end Graveboards.Library.Like
