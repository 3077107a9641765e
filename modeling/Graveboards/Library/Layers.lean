import Mathlib.Tactic

/-!
Layered topological orders of a finite dependency graph. A layering puts every
target behind all it depends on and no later than it must. Taking away, again
and again, the targets that wait for nothing yields one; it is the only one up
to the order within a layer, and it exists exactly where no target depends on
itself.
-/

namespace Graveboards.Library.Layers

variable {α : Type}

/-- `d` is a target that the target `t` depends on. -/
def Needs (dependencies : α → List α) (targets : List α) (d t : α) : Prop :=
  t ∈ targets ∧ d ∈ targets ∧ d ∈ dependencies t

def InLayer (layers : List (List α)) (i : Nat) (t : α) : Prop :=
  ∃ layer, layers[i]? = some layer ∧ t ∈ layer

/-- Every target once, behind what it depends on, in the earliest layer there is. -/
structure Layered (dependencies : α → List α) (targets : List α) (layers : List (List α)) :
    Prop where
  complete : ∀ t, t ∈ layers.flatten ↔ t ∈ targets
  nodup : layers.flatten.Nodup
  nonempty : ∀ layer ∈ layers, layer ≠ []
  after : ∀ i t d, InLayer layers i t → Needs dependencies targets d t →
    ∃ j < i, InLayer layers j d
  tight : ∀ i t, InLayer layers (i + 1) t →
    ∃ d, Needs dependencies targets d t ∧ InLayer layers i d

/-- What is left is taken away layer by layer, each made of the targets that
depend on nothing that is left. -/
inductive Peels (dependencies : α → List α) : List α → List (List α) → Prop where
  | done : Peels dependencies [] []
  | layer {left rest ready : List α} {layers : List (List α)} (hready : ready ≠ [])
      (hnodup : ready.Nodup)
      (hfree : ∀ t, t ∈ ready ↔ t ∈ left ∧ ∀ d ∈ dependencies t, d ∉ left)
      (hrest : ∀ t, t ∈ rest ↔ t ∈ left ∧ t ∉ ready) (hlayers : Peels dependencies rest layers) :
      Peels dependencies left (ready :: layers)

variable {dependencies : α → List α} {targets : List α} {layers : List (List α)}

theorem inLayer_zero {layer : List α} {t : α} : InLayer (layer :: layers) 0 t ↔ t ∈ layer := by
  simp [InLayer]

theorem inLayer_succ {layer : List α} {i : Nat} {t : α} :
    InLayer (layer :: layers) (i + 1) t ↔ InLayer layers i t := by
  simp [InLayer]

theorem exists_inLayer {t : α} : (∃ i, InLayer layers i t) ↔ t ∈ layers.flatten := by
  constructor
  · rintro ⟨i, layer, hlayer, ht⟩
    exact List.mem_flatten.mpr ⟨layer, List.mem_of_getElem? hlayer, ht⟩
  · intro ht
    obtain ⟨layer, hlayer, ht⟩ := List.mem_flatten.mp ht
    obtain ⟨i, hi⟩ := List.getElem?_of_mem hlayer
    exact ⟨i, layer, hi, ht⟩

/-- No target is in two layers. -/
theorem inLayer_unique (hnodup : layers.flatten.Nodup) {i j : Nat} {t : α}
    (hi : InLayer layers i t) (hj : InLayer layers j t) : i = j := by
  induction layers generalizing i j with
  | nil => simp [InLayer] at hi
  | cons layer rest ih =>
      obtain ⟨-, hrest, hdisjoint⟩ := List.nodup_append.mp
        (List.flatten_cons (L := rest) ▸ hnodup)
      cases i with
      | zero =>
          cases j with
          | zero => rfl
          | succ j =>
              have hin := exists_inLayer.mp ⟨j, inLayer_succ.mp hj⟩
              exact absurd rfl (hdisjoint t (inLayer_zero.mp hi) t hin)
      | succ i =>
          cases j with
          | zero =>
              have hin := exists_inLayer.mp ⟨i, inLayer_succ.mp hi⟩
              exact absurd rfl (hdisjoint t (inLayer_zero.mp hj) t hin)
          | succ j => rw [ih hrest (inLayer_succ.mp hi) (inLayer_succ.mp hj)]

theorem Peels.layered (hpeels : Peels dependencies targets layers) :
    Layered dependencies targets layers := by
  induction hpeels with
  | done =>
      exact ⟨fun t => Iff.rfl, List.nodup_nil, fun layer h => absurd h List.not_mem_nil,
        fun i t d h => by simp [InLayer] at h, fun i t h => by simp [InLayer] at h⟩
  | @layer left rest ready layers hready hnodup hfree hrest _ ih =>
      have hleft (t : α) : t ∈ left ↔ t ∈ ready ∨ t ∈ rest := by
        by_cases ht : t ∈ ready
        · simp [ht, ((hfree t).mp ht).1]
        · simp [ht, hrest t]
      refine ⟨fun t => ?_, ?_, ?_, ?_, ?_⟩
      · rw [List.flatten_cons, List.mem_append, ih.complete, hleft]
      · rw [List.flatten_cons, List.nodup_append]
        refine ⟨hnodup, ih.nodup, fun a ha b hb hab => ?_⟩
        exact ((hrest a).mp ((ih.complete a).mp (hab ▸ hb))).2 ha
      · intro layer hlayer
        cases List.mem_cons.mp hlayer with
        | inl h => exact h ▸ hready
        | inr h => exact ih.nonempty layer h
      · intro i t d ht hneeds
        cases i with
        | zero => exact absurd hneeds.2.1 (((hfree t).mp (inLayer_zero.mp ht)).2 d hneeds.2.2)
        | succ i =>
            have ht := inLayer_succ.mp ht
            cases (hleft d).mp hneeds.2.1 with
            | inl hd => exact ⟨0, Nat.succ_pos i, inLayer_zero.mpr hd⟩
            | inr hd =>
                have htrest := (ih.complete t).mp (exists_inLayer.mp ⟨i, ht⟩)
                obtain ⟨j, hj, hd⟩ := ih.after i t d ht ⟨htrest, hd, hneeds.2.2⟩
                exact ⟨j + 1, Nat.succ_lt_succ hj, inLayer_succ.mpr hd⟩
      · intro i t ht
        have ht := inLayer_succ.mp ht
        have htrest := (ih.complete t).mp (exists_inLayer.mp ⟨i, ht⟩)
        obtain ⟨htleft, htready⟩ := (hrest t).mp htrest
        cases i with
        | zero =>
            -- a target of the second layer was not free, and it is once the first is gone
            obtain ⟨d, hd, hdleft⟩ : ∃ d ∈ dependencies t, d ∈ left := by
              by_contra h
              exact htready ((hfree t).mpr ⟨htleft, fun d hd hdleft => h ⟨d, hd, hdleft⟩⟩)
            refine ⟨d, ⟨htleft, hdleft, hd⟩, inLayer_zero.mpr ?_⟩
            refine ((hleft d).mp hdleft).resolve_right (fun hdrest => ?_)
            obtain ⟨j, hj, -⟩ := ih.after 0 t d ht ⟨htrest, hdrest, hd⟩
            exact absurd hj (Nat.not_lt_zero j)
        | succ i =>
            obtain ⟨d, hneeds, hd⟩ := ih.tight i t ht
            have hdleft := ((hrest d).mp hneeds.2.1).1
            exact ⟨d, ⟨htleft, hdleft, hneeds.2.2⟩, inLayer_succ.mpr hd⟩

/-! A layering is unique. -/

section Unique

variable {dependencies' : α → List α} {targets' : List α} {layers' : List (List α)}
  (hdependencies : ∀ t d, d ∈ dependencies t ↔ d ∈ dependencies' t)
  (htargets : ∀ t, t ∈ targets ↔ t ∈ targets')

include hdependencies htargets

private theorem inLayer_of_below (h : Layered dependencies targets layers)
    (h' : Layered dependencies' targets' layers') {i : Nat} {t : α}
    (hbelow : ∀ j < i, ∀ d, InLayer layers j d ↔ InLayer layers' j d) (ht : InLayer layers i t) :
    InLayer layers' i t := by
  have hmem := (htargets t).mp ((h.complete t).mp (exists_inLayer.mp ⟨i, ht⟩))
  obtain ⟨k, hk⟩ := exists_inLayer.mpr ((h'.complete t).mpr hmem)
  rcases Nat.lt_trichotomy k i with hlt | rfl | hlt
  · have heq := inLayer_unique h.nodup ht ((hbelow k hlt t).mpr hk)
    omega
  · exact hk
  · obtain ⟨k, rfl⟩ : ∃ m, k = m + 1 := ⟨k - 1, by omega⟩
    obtain ⟨d, hneeds, hd⟩ := h'.tight k t hk
    have hneeds : Needs dependencies targets d t :=
      ⟨(htargets t).mpr hneeds.1, (htargets d).mpr hneeds.2.1,
        (hdependencies t d).mpr hneeds.2.2⟩
    obtain ⟨j, hj, hdj⟩ := h.after i t d ht hneeds
    have heq := inLayer_unique h'.nodup hd ((hbelow j hj d).mp hdj)
    omega

/-- Two layerings of the same targets under the same dependencies have the same layers. -/
theorem Layered.inLayer_iff (h : Layered dependencies targets layers)
    (h' : Layered dependencies' targets' layers') (i : Nat) (t : α) :
    InLayer layers i t ↔ InLayer layers' i t := by
  induction i using Nat.strong_induction_on generalizing t with
  | _ i ih =>
      constructor
      · exact inLayer_of_below hdependencies htargets h h' ih
      · refine inLayer_of_below (fun t d => (hdependencies t d).symm)
          (fun t => (htargets t).symm) h' h ?_
        exact fun j hj d => (ih j hj d).symm

omit hdependencies htargets in
private theorem eq_of_inLayer_iff {r : α → α → Prop} [Std.Antisymm r]
    (hsorted : ∀ layer ∈ layers, layer.Pairwise r)
    (hsorted' : ∀ layer ∈ layers', layer.Pairwise r)
    (hnonempty : ∀ layer ∈ layers, layer ≠ []) (hnonempty' : ∀ layer ∈ layers', layer ≠ [])
    (hnodup : layers.flatten.Nodup) (hnodup' : layers'.flatten.Nodup)
    (hiff : ∀ i t, InLayer layers i t ↔ InLayer layers' i t) : layers = layers' := by
  induction layers generalizing layers' with
  | nil =>
      cases layers' with
      | nil => rfl
      | cons layer' rest' =>
          obtain ⟨t, ht⟩ := List.exists_mem_of_ne_nil layer' (hnonempty' layer' List.mem_cons_self)
          have hin := (hiff 0 t).mpr (inLayer_zero.mpr ht)
          simp [InLayer] at hin
  | cons layer rest ih =>
      cases layers' with
      | nil =>
          obtain ⟨t, ht⟩ := List.exists_mem_of_ne_nil layer (hnonempty layer List.mem_cons_self)
          have hin := (hiff 0 t).mp (inLayer_zero.mpr ht)
          simp [InLayer] at hin
      | cons layer' rest' =>
          rw [List.flatten_cons, List.nodup_append] at hnodup hnodup'
          have hmem (t : α) : t ∈ layer ↔ t ∈ layer' := by
            simpa only [inLayer_zero] using hiff 0 t
          have hlayer : layer = layer' :=
            ((List.perm_ext_iff_of_nodup hnodup.1 hnodup'.1).mpr hmem).eq_of_pairwise'
              (hsorted layer List.mem_cons_self) (hsorted' layer' List.mem_cons_self)
          have hrest : rest = rest' :=
            ih (fun layer h => hsorted layer (List.mem_cons_of_mem _ h))
              (fun layer h => hsorted' layer (List.mem_cons_of_mem _ h))
              (fun layer h => hnonempty layer (List.mem_cons_of_mem _ h))
              (fun layer h => hnonempty' layer (List.mem_cons_of_mem _ h)) hnodup.2.1 hnodup'.2.1
              (fun i t => by simpa only [inLayer_succ] using hiff (i + 1) t)
          rw [hlayer, hrest]

/-- With sorted layers there is one layering. -/
theorem Layered.eq_of_sorted {r : α → α → Prop} [Std.Antisymm r]
    (h : Layered dependencies targets layers) (h' : Layered dependencies' targets' layers')
    (hsorted : ∀ layer ∈ layers, layer.Pairwise r)
    (hsorted' : ∀ layer ∈ layers', layer.Pairwise r) : layers = layers' :=
  eq_of_inLayer_iff hsorted hsorted' h.nonempty h'.nonempty h.nodup h'.nodup
    (h.inLayer_iff hdependencies htargets h')

end Unique

/-! Where a layering exists. -/

/-- Below a target that is not on a cycle some target waits for nothing. -/
theorem exists_free {t : α} (hacc : Acc (Needs dependencies targets) t) (ht : t ∈ targets) :
    ∃ d ∈ targets, ∀ e ∈ dependencies d, e ∉ targets := by
  induction hacc with
  | intro t _ ih =>
      by_cases hfree : ∀ d ∈ dependencies t, d ∉ targets
      · exact ⟨t, ht, hfree⟩
      · push Not at hfree
        obtain ⟨d, hd, hdtargets⟩ := hfree
        exact ih d ⟨ht, hdtargets, hd⟩ hdtargets

theorem not_transGen_self {r : α → α → Prop} {t : α} (hacc : Acc r t) :
    ¬ Relation.TransGen r t t := by
  have hbelow := hacc.transGen
  clear hacc
  induction hbelow with
  | intro t _ ih => exact fun h => ih t h h

/-- Inside a finite set that is closed downwards and has no cycle every descent ends. -/
theorem acc_of_acyclic_on {r : α → α → Prop} {within : Set α} (hfinite : within.Finite)
    (hclosed : ∀ t d, t ∈ within → r d t → d ∈ within)
    (hcycle : ∀ t ∈ within, ¬ Relation.TransGen r t t) : ∀ t ∈ within, Acc r t := by
  let below (d t : within) : Prop := Relation.TransGen r d.1 t.1
  have : IsTrans _ below := ⟨fun a b c hab hbc => hab.trans hbc⟩
  have : Std.Irrefl below := ⟨fun a => hcycle a.1 a.2⟩
  have : Finite within := hfinite
  have hwf : WellFounded below := Finite.wellFounded_of_trans_of_irrefl below
  have hmem (t : within) : Acc r t.1 := by
    induction hwf.apply t with
    | intro t _ ih =>
        exact Acc.intro t.1 (fun d hd => ih ⟨d, hclosed t.1 d t.2 hd⟩ (.single hd))
  exact fun t ht => hmem ⟨t, ht⟩

/-- Among finitely many targets every descent ends exactly if there is no cycle. -/
theorem acc_iff_acyclic :
    (∀ t, Acc (Needs dependencies targets) t) ↔
      ∀ t, ¬ Relation.TransGen (Needs dependencies targets) t t := by
  constructor
  · exact fun hacc t => not_transGen_self (hacc t)
  · intro hcycle t
    refine Acc.intro t (fun d hneeds => ?_)
    exact acc_of_acyclic_on targets.finite_toSet (fun t d _ hneeds => hneeds.2.1)
      (fun t _ => hcycle t) d hneeds.2.1

end Graveboards.Library.Layers
