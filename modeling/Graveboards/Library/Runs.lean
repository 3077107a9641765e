import Mathlib.Tactic

/-!
Runs of a step function over labels, what became of the commands in them, the
invariant rule for the runs whose steps all meet a condition, and counting in a
list of processes of which one moves at a time.
-/

namespace Graveboards.Library

/-- What became of a command to another server. `lost`: it was executed, but the
caller got an exception; `failed`: it was not executed. -/
inductive Delivery where
  | done | lost | failed
  deriving DecidableEq

namespace Runs

variable {α σ : Type}

/-- The state after the labels in order, if each was enabled. -/
def run (step : α → σ → Option σ) : List α → σ → Option σ
  | [], s => some s
  | a :: rest, s => (step a s).bind (run step rest)

/-- Every step of the run meets the condition in the state before it. -/
def Meets (step : α → σ → Option σ) (condition : α → σ → Prop) : List α → σ → Prop
  | [], _ => True
  | a :: rest, s => condition a s ∧ ∀ s', step a s = some s' → Meets step condition rest s'

variable {step : α → σ → Option σ} {condition : α → σ → Prop} (invariant : σ → Prop)

/-- What every step that meets the condition preserves holds at the end of
every run whose steps meet it. -/
theorem invariant_of_run
    (hstep : ∀ a s s', invariant s → condition a s → step a s = some s' → invariant s')
    {labels : List α} {s s' : σ} (hs : invariant s) (hmeets : Meets step condition labels s)
    (hrun : run step labels s = some s') : invariant s' := by
  induction labels generalizing s with
  | nil =>
      obtain rfl := Option.some.inj hrun
      exact hs
  | cons a rest ih =>
      obtain ⟨next, hnext, hrest⟩ := Option.bind_eq_some_iff.mp hrun
      exact ih (hstep a s next hs hmeets.1 hnext) (hmeets.2 next hnext) hrest

/-- The rule for unconditional invariants. -/
theorem invariant_of_steps (hstep : ∀ a s s', invariant s → step a s = some s' → invariant s')
    {labels : List α} {s s' : σ} (hs : invariant s) (hrun : run step labels s = some s') :
    invariant s' := by
  have htrue (labels : List α) (s : σ) : Meets step (fun _ _ => True) labels s := by
    induction labels generalizing s with
    | nil => trivial
    | cons a rest ih => exact ⟨trivial, fun s' _ => ih s'⟩
  exact invariant_of_run invariant (fun a s s' h _ => hstep a s s' h) hs (htrue labels s) hrun

/-- A run can be checked step by step. -/
instance decidableMeets [∀ a s, Decidable (condition a s)] :
    (labels : List α) → (s : σ) → Decidable (Meets step condition labels s)
  | [], _ => isTrue trivial
  | a :: rest, s =>
      match hstep : step a s with
      | none => decidable_of_iff (condition a s) (by simp [Meets, hstep])
      | some s' =>
          have := decidableMeets rest s'
          decidable_of_iff (condition a s ∧ Meets step condition rest s') (by simp [Meets, hstep])

theorem meets_cons_iff {a : α} {rest : List α} {s s' : σ} (h : step a s = some s') :
    Meets step condition (a :: rest) s ↔ condition a s ∧ Meets step condition rest s' := by
  simp [Meets, h]

theorem Meets.and {condition' : α → σ → Prop} {labels : List α} {s : σ}
    (hmeets : Meets step condition labels s) (hmeets' : Meets step condition' labels s) :
    Meets step (fun a s => condition a s ∧ condition' a s) labels s := by
  induction labels generalizing s with
  | nil => trivial
  | cons a rest ih =>
      exact ⟨⟨hmeets.1, hmeets'.1⟩, fun s' hs' => ih (hmeets.2 s' hs') (hmeets'.2 s' hs')⟩

/-- A restriction of the labels can be read as part of the condition. -/
theorem Meets.and_forall {restriction : α → Prop} {labels : List α} {s : σ}
    (hlabels : ∀ a ∈ labels, restriction a) (hmeets : Meets step condition labels s) :
    Meets step (fun a s => restriction a ∧ condition a s) labels s := by
  induction labels generalizing s with
  | nil => trivial
  | cons a rest ih =>
      exact ⟨⟨hlabels a List.mem_cons_self, hmeets.1⟩, fun s' hs' =>
        ih (fun b hb => hlabels b (List.mem_cons_of_mem a hb)) (hmeets.2 s' hs')⟩

/-- What is still good at the end of a run, if a step keeps it good exactly when
it meets the condition, and no step makes good again. -/
theorem good_iff_meets {good : σ → Prop} (hkept : ∀ a s s', step a s = some s' → good s' → good s)
    (hstep : ∀ a s s', invariant s → good s → step a s = some s' → (good s' ↔ condition a s))
    (hinvariant : ∀ a s s', invariant s → good s → condition a s → step a s = some s' →
      invariant s')
    {labels : List α} {s s' : σ} (hs : invariant s) (hgood : good s)
    (hrun : run step labels s = some s') : good s' ↔ Meets step condition labels s := by
  induction labels generalizing s with
  | nil =>
      obtain rfl := Option.some.inj hrun
      exact ⟨fun _ => trivial, fun _ => hgood⟩
  | cons a rest ih =>
      obtain ⟨next, hnext, hrest⟩ := Option.bind_eq_some_iff.mp hrun
      rw [meets_cons_iff hnext]
      by_cases hcondition : condition a s
      · have hgood' := (hstep a s next hs hgood hnext).mpr hcondition
        rw [ih (hinvariant a s next hs hgood hcondition hnext) hgood' hrest]
        exact ⟨fun h => ⟨hcondition, h⟩, fun h => h.2⟩
      · refine ⟨fun hend => ?_, fun h => absurd h.1 hcondition⟩
        have hback : good next := invariant_of_steps (fun x => good x → good next)
          (fun b x x' hx hb hx' => hx (hkept b x x' hb hx')) id hrest hend
        exact absurd ((hstep a s next hs hgood hnext).mp hback) hcondition

theorem run_append (labels later : List α) (s : σ) :
    run step (labels ++ later) s = (run step labels s).bind (run step later) := by
  induction labels generalizing s with
  | nil => rfl
  | cons a rest ih =>
      rw [List.cons_append, run, run, Option.bind_assoc]
      exact congrArg _ (funext ih)

theorem run_append_of {labels later : List α} {s next s' : σ}
    (hfirst : run step labels s = some next) (hlater : run step later next = some s') :
    run step (labels ++ later) s = some s' := by
  rw [run_append, hfirst]
  exact hlater

theorem meets_append_iff {labels later : List α} {s : σ} :
    Meets step condition (labels ++ later) s ↔ Meets step condition labels s ∧
      ∀ next, run step labels s = some next → Meets step condition later next := by
  induction labels generalizing s with
  | nil =>
      constructor
      · rintro hmeets
        exact ⟨trivial, fun next hnext => Option.some.inj hnext ▸ hmeets⟩
      · rintro ⟨-, hlater⟩
        exact hlater s rfl
  | cons a rest ih =>
      constructor
      · rintro ⟨hcondition, hmeets⟩
        refine ⟨⟨hcondition, fun s' hs' => (ih.mp (hmeets s' hs')).1⟩, ?_⟩
        intro next hnext
        obtain ⟨s', hs', hrest⟩ := Option.bind_eq_some_iff.mp hnext
        exact (ih.mp (hmeets s' hs')).2 next hrest
      · rintro ⟨⟨hcondition, hmeets⟩, hlater⟩
        refine ⟨hcondition, fun s' hs' => ih.mpr ⟨hmeets s' hs', ?_⟩⟩
        intro next hnext
        apply hlater
        rw [run, hs']
        exact hnext

/-- Leaving out the labels that do not touch what the relation relates. -/
theorem run_filter {R : σ → σ → Prop} (keep : α → Bool)
    (hkeep : ∀ a s t s', keep a = true → R s t → step a s = some s' →
      ∃ t', step a t = some t' ∧ R s' t')
    (hskip : ∀ a s t s', keep a = false → R s t → step a s = some s' → R s' t)
    {labels : List α} {s t s' : σ} (hst : R s t) (hrun : run step labels s = some s') :
    ∃ t', run step (labels.filter keep) t = some t' ∧ R s' t' := by
  induction labels generalizing s t with
  | nil =>
      obtain rfl := Option.some.inj hrun
      exact ⟨t, rfl, hst⟩
  | cons a rest ih =>
      obtain ⟨next, hnext, hrest⟩ := Option.bind_eq_some_iff.mp hrun
      cases ha : keep a with
      | true =>
          obtain ⟨next', hnext', hrelated⟩ := hkeep a s t next ha hst hnext
          obtain ⟨t', ht', hs'⟩ := ih hrelated hrest
          refine ⟨t', ?_, hs'⟩
          rw [List.filter_cons_of_pos ha, run, hnext', Option.bind_some, ht']
      | false =>
          rw [List.filter_cons_of_neg (by simp [ha])]
          exact ih (hskip a s t next ha hst hnext) hrest

/-! A list of processes. -/

/-- Counting after one process has moved. -/
theorem countP_set_add {π : Type} (p : π → Bool) {l : List π} {i : Nat} {a : π}
    (h : l[i]? = some a) (b : π) :
    (l.set i b).countP p + (p a).toNat = l.countP p + (p b).toNat := by
  induction l generalizing i with
  | nil => simp at h
  | cons x rest ih =>
      cases i with
      | zero =>
          obtain rfl : x = a := by simpa using h
          rw [List.set_cons_zero, List.countP_cons, List.countP_cons]
          cases p x <;> cases p b <;> simp
      | succ i =>
          have hrest := ih (i := i) (by simpa using h)
          rw [List.set_cons_succ, List.countP_cons, List.countP_cons]
          omega

/-- A process that moves without changing what is counted. -/
theorem countP_set_of_eq {π : Type} {p : π → Bool} {l : List π} {i : Nat} {a b : π}
    (h : l[i]? = some a) (hsame : p b = p a) : (l.set i b).countP p = l.countP p := by
  have hcount := countP_set_add p h b
  rw [hsame] at hcount
  omega

/-- A process that is not counted after its move unless it was before. -/
theorem countP_set_le {π : Type} {p : π → Bool} {l : List π} {i : Nat} {a b : π}
    (h : l[i]? = some a) (hcounted : p b = true → p a = true) :
    (l.set i b).countP p ≤ l.countP p := by
  have hcount := countP_set_add p h b
  cases hb : p b with
  | false =>
      rw [hb, Bool.toNat_false] at hcount
      omega
  | true =>
      rw [hb, hcounted hb] at hcount
      omega

/-- The only process that was counted has moved on. -/
theorem uncounted_of_set {π : Type} {p : π → Bool} {l : List π} {i : Nat} {a b : π}
    (h : l[i]? = some a) (hone : l.countP p ≤ 1) (ha : p a = true) (hb : p b = false) :
    ∀ x ∈ l.set i b, p x = false := by
  have hcount := countP_set_add p h b
  rw [ha, hb, Bool.toNat_true, Bool.toNat_false] at hcount
  intro x hx
  have hzero := List.countP_eq_zero.mp (show (l.set i b).countP p = 0 by omega) x hx
  simpa using hzero

/-- Where the processes of a list come from after one has moved. -/
theorem getElem?_set_cases {π : Type} {l : List π} {i j : Nat} {b x : π}
    (h : (l.set i b)[j]? = some x) : j = i ∧ x = b ∨ j ≠ i ∧ l[j]? = some x := by
  by_cases hij : i = j
  · subst hij
    have hi : i < l.length := by simpa using (List.getElem?_eq_some_iff.mp h).1
    rw [List.getElem?_set_self hi] at h
    exact Or.inl ⟨rfl, (Option.some.inj h).symm⟩
  · rw [List.getElem?_set_ne hij] at h
    exact Or.inr ⟨Ne.symm hij, h⟩

theorem getElem?_set_of_some {π : Type} {l : List π} {i j : Nat} {b x : π} (h : l[j]? = some x) :
    ∃ y, (l.set i b)[j]? = some y := by
  have hj : j < (l.set i b).length := by simpa using (List.getElem?_eq_some_iff.mp h).1
  exact ⟨_, List.getElem?_eq_getElem hj⟩

/-- And after one has been added. -/
theorem getElem?_concat_cases {π : Type} {l : List π} {j : Nat} {b x : π}
    (h : (l ++ [b])[j]? = some x) : j = l.length ∧ x = b ∨ l[j]? = some x := by
  rcases Nat.lt_or_ge j l.length with hj | hj
  · rw [List.getElem?_append_left hj] at h
    exact Or.inr h
  · rw [List.getElem?_append_right hj] at h
    obtain ⟨hlast, hx⟩ := List.getElem?_eq_some_iff.mp h
    have hlength : j - l.length < 1 := hlast
    refine Or.inl ⟨by omega, ?_⟩
    simpa using hx.symm

/-- What every process satisfies, if the one that moved does. -/
theorem forall_mem_set {π : Type} {P : π → Prop} {l : List π} {i : Nat} {b : π}
    (h : ∀ x ∈ l, P x) (hb : P b) : ∀ x ∈ l.set i b, P x := by
  intro x hx
  rcases List.mem_or_eq_of_mem_set hx with hold | rfl
  · exact h x hold
  · exact hb

/-- Some process satisfies it, if the one that moved either kept it or made the
alternative true. -/
theorem exists_mem_set {π : Type} {P : π → Prop} {Q : Prop} {l : List π} {i : Nat} {a b : π}
    (h : l[i]? = some a) (hmoved : P a → Q ∨ P b) (hexists : ∃ x ∈ l, P x) :
    Q ∨ ∃ x ∈ l.set i b, P x := by
  obtain ⟨x, hx, hPx⟩ := hexists
  obtain ⟨j, hj⟩ := List.mem_iff_getElem?.mp hx
  have hi : i < l.length := (List.getElem?_eq_some_iff.mp h).1
  by_cases hij : i = j
  · subst hij
    obtain rfl := Option.some.inj (h.symm.trans hj)
    exact (hmoved hPx).imp id (fun hb => ⟨b, List.mem_set hi b, hb⟩)
  · have hsame : (l.set i b)[j]? = some x := by rw [List.getElem?_set_ne hij, hj]
    exact Or.inr ⟨x, List.mem_of_getElem? hsame, hPx⟩

end Runs

end Graveboards.Library
