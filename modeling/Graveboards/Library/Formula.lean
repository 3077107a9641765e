import Mathlib.Tactic

/-!
Boolean formulas over leaves of any type. Three readings of one formula: its
value when every leaf is decided, its Kleene value when some leaves are not,
and the left-to-right walk that stops at the first deciding leaf and gives up
below a nesting limit.

Two occurrences of a leaf are two leaves here: a completion chooses a value
for each occurrence on its own. For that reading the Kleene value is exact.
-/

namespace Graveboards.Library

inductive Formula (ℓ : Type) where
  | atom (leaf : ℓ)
  | and (parts : List (Formula ℓ))
  | or (parts : List (Formula ℓ))
  | not (part : Formula ℓ)

namespace Formula

variable {ℓ κ ε : Type}

/-- Induction with the hypothesis for every part of a conjunction or a
disjunction. -/
@[elab_as_elim]
theorem partsInduction {motive : Formula ℓ → Prop} (atom : ∀ leaf, motive (.atom leaf))
    (and : ∀ parts, (∀ f ∈ parts, motive f) → motive (.and parts))
    (or : ∀ parts, (∀ f ∈ parts, motive f) → motive (.or parts))
    (not : ∀ f, motive f → motive (.not f)) (f : Formula ℓ) : motive f :=
  @Formula.rec ℓ motive (fun parts => ∀ f ∈ parts, motive f)
    atom and or not (by simp) (by simp +contextual) f

mutual

def map (g : ℓ → κ) : Formula ℓ → Formula κ
  | .atom leaf => .atom (g leaf)
  | .and parts => .and (mapParts g parts)
  | .or parts => .or (mapParts g parts)
  | .not part => .not (map g part)

def mapParts (g : ℓ → κ) : List (Formula ℓ) → List (Formula κ)
  | [] => []
  | f :: rest => map g f :: mapParts g rest

end

theorem mapParts_eq (g : ℓ → κ) (parts : List (Formula ℓ)) :
    mapParts g parts = parts.map (map g) := by
  induction parts with
  | nil => rfl
  | cons f rest ih => simp [mapParts, ih]

mutual

def leaves : Formula ℓ → List ℓ
  | .atom leaf => [leaf]
  | .and parts | .or parts => leavesOf parts
  | .not part => leaves part

def leavesOf : List (Formula ℓ) → List ℓ
  | [] => []
  | f :: rest => leaves f ++ leavesOf rest

end

theorem mem_leavesOf {leaf : ℓ} {parts : List (Formula ℓ)} :
    leaf ∈ leavesOf parts ↔ ∃ f ∈ parts, leaf ∈ leaves f := by
  induction parts with
  | nil => simp [leavesOf]
  | cons f rest ih => simp [leavesOf, ih]

/-- The value of a list of parts joined by `and`, whose unit is true, or by
`or`, whose unit is false. -/
def join (unit a b : Bool) : Bool := if unit then a && b else a || b

mutual

def value (ρ : ℓ → Bool) : Formula ℓ → Bool
  | .atom leaf => ρ leaf
  | .and parts => valueOf ρ true parts
  | .or parts => valueOf ρ false parts
  | .not part => !value ρ part

def valueOf (ρ : ℓ → Bool) (unit : Bool) : List (Formula ℓ) → Bool
  | [] => unit
  | f :: rest => join unit (value ρ f) (valueOf ρ unit rest)

end

/-! Relabelling the leaves. -/

theorem leaves_map (g : ℓ → κ) (f : Formula ℓ) : leaves (f.map g) = (leaves f).map g := by
  have hparts {parts : List (Formula ℓ)} (ih : ∀ f ∈ parts, leaves (f.map g) = (leaves f).map g) :
      leavesOf (mapParts g parts) = (leavesOf parts).map g := by
    induction parts with
    | nil => rfl
    | cons f rest ihrest =>
        rw [mapParts, leavesOf, leavesOf, List.map_append, ih f List.mem_cons_self,
          ihrest (fun h hmem => ih h (List.mem_cons_of_mem _ hmem))]
  induction f using partsInduction with
  | atom leaf => rfl
  | and parts ih | or parts ih => exact hparts ih
  | not f ih => exact ih

theorem value_map (g : ℓ → κ) (ρ : κ → Bool) (f : Formula ℓ) :
    value ρ (f.map g) = value (fun leaf => ρ (g leaf)) f := by
  have hparts (unit : Bool) {parts : List (Formula ℓ)}
      (ih : ∀ f ∈ parts, value ρ (f.map g) = value (fun leaf => ρ (g leaf)) f) :
      valueOf ρ unit (mapParts g parts) = valueOf (fun leaf => ρ (g leaf)) unit parts := by
    induction parts with
    | nil => rfl
    | cons f rest ihrest =>
        rw [mapParts, valueOf, valueOf, ih f List.mem_cons_self,
          ihrest (fun h hmem => ih h (List.mem_cons_of_mem _ hmem))]
  induction f using partsInduction with
  | atom leaf => rfl
  | and parts ih => exact hparts true ih
  | or parts ih => exact hparts false ih
  | not f ih => exact congrArg (!·) ih

/-! Kleene values: `none` is a leaf, or a formula, that is not decided. -/

/-- A part that differs from the unit decides alone. -/
def joinK (unit : Bool) : Option Bool → Option Bool → Option Bool
  | some a, some b => some (join unit a b)
  | some a, none | none, some a => if a = unit then none else some a
  | none, none => none

mutual

def kleene (ρ : ℓ → Option Bool) : Formula ℓ → Option Bool
  | .atom leaf => ρ leaf
  | .and parts => kleeneOf ρ true parts
  | .or parts => kleeneOf ρ false parts
  | .not part => (kleene ρ part).map (!·)

def kleeneOf (ρ : ℓ → Option Bool) (unit : Bool) : List (Formula ℓ) → Option Bool
  | [] => some unit
  | f :: rest => joinK unit (kleene ρ f) (kleeneOf ρ unit rest)

end

/-! Completions. -/

mutual

/-- The values a formula takes when every undecided occurrence of a leaf is
read as true or as false, one choice for each occurrence. -/
def Reads (ρ : ℓ → Option Bool) : Formula ℓ → Bool → Prop
  | .atom leaf, b => ρ leaf = none ∨ ρ leaf = some b
  | .and parts, b => ReadsOf ρ true parts b
  | .or parts, b => ReadsOf ρ false parts b
  | .not part, b => Reads ρ part (!b)

def ReadsOf (ρ : ℓ → Option Bool) (unit : Bool) : List (Formula ℓ) → Bool → Prop
  | [], b => b = unit
  | f :: rest, b => ∃ x y, Reads ρ f x ∧ ReadsOf ρ unit rest y ∧ b = join unit x y

end

/-- The value depends on how the undecided leaves are read. -/
def Undetermined (ρ : ℓ → Option Bool) (f : Formula ℓ) : Prop :=
  Reads ρ f true ∧ Reads ρ f false

/-- `b` is possible for a Kleene value. -/
def Admits (a : Option Bool) (b : Bool) : Prop := a = none ∨ a = some b

theorem admits_not (a : Option Bool) (b : Bool) : Admits (a.map (!·)) b ↔ Admits a (!b) := by
  revert a b
  unfold Admits
  decide

theorem admits_joinK (unit : Bool) (a c : Option Bool) (b : Bool) :
    Admits (joinK unit a c) b ↔ ∃ x y, Admits a x ∧ Admits c y ∧ b = join unit x y := by
  revert unit a b c
  unfold Admits
  decide

theorem joinK_unit (unit b : Bool) : joinK unit (some unit) (some b) = some b := by
  revert unit b
  decide

theorem joinK_of_ne {unit b : Bool} (h : b ≠ unit) (a : Option Bool) :
    joinK unit (some b) a = some b := by
  revert unit b a
  decide

private theorem readsOf_iff_admits {ρ : ℓ → Option Bool} (unit : Bool)
    {parts : List (Formula ℓ)} (hparts : ∀ f ∈ parts, ∀ b, Reads ρ f b ↔ Admits (kleene ρ f) b)
    (b : Bool) : ReadsOf ρ unit parts b ↔ Admits (kleeneOf ρ unit parts) b := by
  induction parts generalizing b with
  | nil => simp [ReadsOf, kleeneOf, Admits, eq_comm]
  | cons f rest ih =>
      have hhead := hparts f List.mem_cons_self
      have htail := ih (fun g hg => hparts g (List.mem_cons_of_mem _ hg))
      simp only [ReadsOf, kleeneOf, admits_joinK, hhead, htail]

/-- The Kleene value is exact: it leaves open precisely what the completions
leave open. -/
theorem reads_iff_admits (ρ : ℓ → Option Bool) (f : Formula ℓ) (b : Bool) :
    Reads ρ f b ↔ Admits (kleene ρ f) b := by
  induction f using partsInduction generalizing b with
  | atom leaf => rfl
  | and parts ih => exact readsOf_iff_admits true ih b
  | or parts ih => exact readsOf_iff_admits false ih b
  | not f ih => rw [Reads, ih, kleene, admits_not]

theorem undetermined_iff (ρ : ℓ → Option Bool) (f : Formula ℓ) :
    Undetermined ρ f ↔ kleene ρ f = none := by
  rw [Undetermined, reads_iff_admits, reads_iff_admits, Admits, Admits]
  rcases kleene ρ f with - | b
  · simp
  · cases b <;> simp

private theorem kleeneOf_decided {ρ : ℓ → Bool} (unit : Bool) {parts : List (Formula ℓ)}
    (hparts : ∀ f ∈ parts, kleene (fun leaf => some (ρ leaf)) f = some (value ρ f)) :
    kleeneOf (fun leaf => some (ρ leaf)) unit parts = some (valueOf ρ unit parts) := by
  induction parts with
  | nil => rfl
  | cons f rest ih =>
      have hhead := hparts f List.mem_cons_self
      have htail := ih (fun g hg => hparts g (List.mem_cons_of_mem _ hg))
      simp only [kleeneOf, valueOf, hhead, htail, joinK]

theorem kleene_decided (ρ : ℓ → Bool) (f : Formula ℓ) :
    kleene (fun leaf => some (ρ leaf)) f = some (value ρ f) := by
  induction f using partsInduction with
  | atom leaf => rfl
  | and parts ih => exact kleeneOf_decided true ih
  | or parts ih => exact kleeneOf_decided false ih
  | not f ih => simp [kleene, value, ih]

/-! The walk. -/

mutual

/-- Evaluate from left to right, stopping as soon as the value is known. A
leaf may end the walk with an exception, and so does a connective nested
deeper than `limit`. Returns the leaves reached with the outcome. -/
def walk (ρ : ℓ → Except ε Bool) (limit : Nat) (tooDeep : ε) (depth : Nat) :
    Formula ℓ → List ℓ × Except ε Bool
  | .atom leaf => ([leaf], ρ leaf)
  | .and parts =>
      if limit < depth then ([], .error tooDeep) else walkOf ρ limit tooDeep (depth + 1) true parts
  | .or parts =>
      if limit < depth then ([], .error tooDeep) else walkOf ρ limit tooDeep (depth + 1) false parts
  | .not part =>
      if limit < depth then ([], .error tooDeep)
      else
        ((walk ρ limit tooDeep (depth + 1) part).1,
          (walk ρ limit tooDeep (depth + 1) part).2.map (!·))

def walkOf (ρ : ℓ → Except ε Bool) (limit : Nat) (tooDeep : ε) (depth : Nat) (unit : Bool) :
    List (Formula ℓ) → List ℓ × Except ε Bool
  | [] => ([], .ok unit)
  | f :: rest =>
      match walk ρ limit tooDeep depth f with
      | (reached, .ok b) =>
          if b = unit then
            let (further, outcome) := walkOf ρ limit tooDeep depth unit rest
            (reached ++ further, outcome)
          else (reached, .ok b)
      | (reached, .error e) => (reached, .error e)

end

mutual

/-- How many connectives are nested in one another. -/
def height : Formula ℓ → Nat
  | .atom _ => 0
  | .and parts | .or parts => heightOf parts + 1
  | .not part => height part + 1

def heightOf : List (Formula ℓ) → Nat
  | [] => 0
  | f :: rest => max (height f) (heightOf rest)

end

theorem height_map (g : ℓ → κ) (f : Formula ℓ) : height (f.map g) = height f := by
  have hparts {parts : List (Formula ℓ)} (ih : ∀ f ∈ parts, height (f.map g) = height f) :
      heightOf (mapParts g parts) = heightOf parts := by
    induction parts with
    | nil => rfl
    | cons f rest ihrest =>
        rw [mapParts, heightOf, heightOf, ih f List.mem_cons_self,
          ihrest (fun h hmem => ih h (List.mem_cons_of_mem _ hmem))]
  induction f using partsInduction with
  | atom leaf => rfl
  | and parts ih | or parts ih => exact congrArg (· + 1) (hparts ih)
  | not f ih => exact congrArg (· + 1) ih

theorem heightOf_le {parts : List (Formula ℓ)} {bound : Nat} (h : ∀ f ∈ parts, height f ≤ bound) :
    heightOf parts ≤ bound := by
  induction parts with
  | nil => exact Nat.zero_le _
  | cons f rest ih =>
      exact max_le (h f List.mem_cons_self) (ih (fun g hg => h g (List.mem_cons_of_mem _ hg)))

section Walk

variable {ρ : ℓ → Except ε Bool} {limit : Nat} {tooDeep : ε}

variable (ρ limit tooDeep) in
/-- What the walk of a list does after its first part. -/
theorem walkOf_cons (depth : Nat) (unit : Bool) (f : Formula ℓ) (rest : List (Formula ℓ)) :
    ((walk ρ limit tooDeep depth f).2 = .ok unit ∧
      walkOf ρ limit tooDeep depth unit (f :: rest) =
        ((walk ρ limit tooDeep depth f).1 ++ (walkOf ρ limit tooDeep depth unit rest).1,
          (walkOf ρ limit tooDeep depth unit rest).2)) ∨
    ((walk ρ limit tooDeep depth f).2 ≠ .ok unit ∧
      walkOf ρ limit tooDeep depth unit (f :: rest) = walk ρ limit tooDeep depth f) := by
  rcases hf : walk ρ limit tooDeep depth f with ⟨reached, e | b⟩
  · exact Or.inr ⟨by simp, by simp only [walkOf, hf]⟩
  · by_cases hb : b = unit
    · exact Or.inl ⟨by rw [hb], by simp only [walkOf, hf, if_pos hb]⟩
    · exact Or.inr ⟨by simpa using hb, by simp only [walkOf, hf, if_neg hb]⟩

private theorem walkOf_subset (depth : Nat) (unit : Bool) {parts : List (Formula ℓ)}
    (hparts : ∀ f ∈ parts, (walk ρ limit tooDeep depth f).1 ⊆ leaves f) :
    (walkOf ρ limit tooDeep depth unit parts).1 ⊆ leavesOf parts := by
  induction parts with
  | nil => simp [walkOf]
  | cons f rest ih =>
      have hhead := hparts f List.mem_cons_self
      have htail := ih (fun g hg => hparts g (List.mem_cons_of_mem _ hg))
      rw [leavesOf]
      obtain ⟨-, hcons⟩ | ⟨-, hcons⟩ :=
        walkOf_cons ρ limit tooDeep depth unit f rest <;>
        rw [hcons]
      · exact List.append_subset.mpr
          ⟨List.subset_append_of_subset_left _ hhead, List.subset_append_of_subset_right _ htail⟩
      · exact List.subset_append_of_subset_left _ hhead

theorem walk_subset (f : Formula ℓ) (depth : Nat) :
    (walk ρ limit tooDeep depth f).1 ⊆ leaves f := by
  induction f using partsInduction generalizing depth with
  | atom leaf => simp [walk, leaves]
  | and parts ih | or parts ih =>
      rw [walk, leaves]
      split
      · simp
      · exact walkOf_subset (depth + 1) _ (fun f hf => ih f hf (depth + 1))
  | not f ih =>
      rw [walk, leaves]
      split
      · simp
      · exact ih (depth + 1)

/-- The reached leaves decide in `σ` as they did in the walk. -/
def Agrees (ρ : ℓ → Except ε Bool) (σ : ℓ → Option Bool) (reached : List ℓ) : Prop :=
  ∀ leaf ∈ reached, ∀ b, ρ leaf = .ok b → σ leaf = some b

private theorem walkOf_kleene {σ : ℓ → Option Bool} (depth : Nat) (unit v : Bool)
    {parts : List (Formula ℓ)}
    (hparts : ∀ f ∈ parts, ∀ w, Agrees ρ σ (walk ρ limit tooDeep depth f).1 →
      (walk ρ limit tooDeep depth f).2 = .ok w → kleene σ f = some w)
    (hagrees : Agrees ρ σ (walkOf ρ limit tooDeep depth unit parts).1)
    (hvalue : (walkOf ρ limit tooDeep depth unit parts).2 = .ok v) :
    kleeneOf σ unit parts = some v := by
  induction parts with
  | nil => simpa [walkOf, kleeneOf] using hvalue
  | cons f rest ih =>
      have hhead := hparts f List.mem_cons_self
      obtain ⟨hf, hcons⟩ | ⟨hf, hcons⟩ :=
        walkOf_cons ρ limit tooDeep depth unit f rest <;>
        rw [hcons] at hagrees hvalue
      · have hk := hhead unit (fun leaf h => hagrees leaf (List.mem_append_left _ h)) hf
        have hrest := ih (fun g hg => hparts g (List.mem_cons_of_mem _ hg))
          (fun leaf h => hagrees leaf (List.mem_append_right _ h)) hvalue
        rw [kleeneOf, hk, hrest, joinK_unit]
      · have hk := hhead v hagrees hvalue
        have hne : v ≠ unit := fun h => hf (h ▸ hvalue)
        rw [kleeneOf, hk, joinK_of_ne hne]

/-- A walk whose reached leaves are all decided has found the Kleene value,
whatever the leaves it did not reach are. -/
theorem walk_kleene {σ : ℓ → Option Bool} (f : Formula ℓ) (depth : Nat) (v : Bool)
    (hagrees : Agrees ρ σ (walk ρ limit tooDeep depth f).1)
    (hvalue : (walk ρ limit tooDeep depth f).2 = .ok v) : kleene σ f = some v := by
  induction f using partsInduction generalizing depth v with
  | atom leaf => exact hagrees leaf (by simp [walk]) v hvalue
  | and parts ih | or parts ih =>
      rw [walk] at hagrees hvalue
      split at hvalue
      · cases hvalue
      · next hdepth =>
          rw [if_neg hdepth] at hagrees
          exact walkOf_kleene (depth + 1) _ v (fun f hf => ih f hf (depth + 1)) hagrees hvalue
  | not f ih =>
      rw [walk] at hagrees hvalue
      split at hvalue
      · cases hvalue
      · next hdepth =>
          rw [if_neg hdepth] at hagrees
          cases hf : (walk ρ limit tooDeep (depth + 1) f).2 with
          | error e => simp [hf, Except.map] at hvalue
          | ok b =>
              rw [kleene, ih (depth + 1) b hagrees hf]
              simpa [hf, Except.map] using hvalue

/-- The value of the formula, when the reached leaves decide as `τ` does. -/
theorem walk_value {τ : ℓ → Bool} (f : Formula ℓ) (depth : Nat) (v : Bool)
    (hagrees : Agrees ρ (fun leaf => some (τ leaf)) (walk ρ limit tooDeep depth f).1)
    (hvalue : (walk ρ limit tooDeep depth f).2 = .ok v) : value τ f = v := by
  have hkleene := walk_kleene f depth v hagrees hvalue
  rw [kleene_decided] at hkleene
  exact Option.some.inj hkleene

/-- Where an exception of a walk comes from. -/
def Blamed (ρ : ℓ → Except ε Bool) (tooDeep e : ε) (reached : List ℓ) (deep : Prop) : Prop :=
  (e = tooDeep ∧ deep) ∨ ∃ leaf ∈ reached, ρ leaf = .error e

theorem Blamed.mono {e : ε} {reached further : List ℓ} {p q : Prop}
    (h : Blamed ρ tooDeep e reached p) (hreached : reached ⊆ further) (hpq : p → q) :
    Blamed ρ tooDeep e further q := by
  obtain ⟨rfl, hp⟩ | ⟨leaf, hmem, hleaf⟩ := h
  · exact Or.inl ⟨rfl, hpq hp⟩
  · exact Or.inr ⟨leaf, hreached hmem, hleaf⟩

private theorem walkOf_error (depth : Nat) (unit : Bool) (e : ε) {parts : List (Formula ℓ)}
    (hparts : ∀ f ∈ parts, (walk ρ limit tooDeep depth f).2 = .error e →
      Blamed ρ tooDeep e (walk ρ limit tooDeep depth f).1 (limit + 1 < depth + height f))
    (h : (walkOf ρ limit tooDeep depth unit parts).2 = .error e) :
    Blamed ρ tooDeep e (walkOf ρ limit tooDeep depth unit parts).1
      (limit + 1 < depth + heightOf parts) := by
  induction parts with
  | nil => simp [walkOf] at h
  | cons f rest ih =>
      have hhead := hparts f List.mem_cons_self
      rw [heightOf]
      obtain ⟨-, hcons⟩ | ⟨-, hcons⟩ :=
        walkOf_cons ρ limit tooDeep depth unit f rest <;>
        rw [hcons] at h ⊢
      · exact (ih (fun g hg => hparts g (List.mem_cons_of_mem _ hg)) h).mono
          (List.subset_append_right _ _) (by omega)
      · exact (hhead h).mono (fun _ h => h) (by omega)

/-- An exception comes from a reached leaf or from nesting. -/
theorem walk_error (f : Formula ℓ) (depth : Nat) (e : ε)
    (h : (walk ρ limit tooDeep depth f).2 = .error e) :
    Blamed ρ tooDeep e (walk ρ limit tooDeep depth f).1 (limit + 1 < depth + height f) := by
  induction f using partsInduction generalizing depth e with
  | atom leaf => exact Or.inr ⟨leaf, by simp [walk], h⟩
  | and parts ih | or parts ih =>
      rw [walk, height] at *
      split at h
      · exact Or.inl ⟨(Except.error.inj h).symm, by omega⟩
      · next hdepth =>
          rw [if_neg hdepth]
          exact (walkOf_error (depth + 1) _ e (fun f hf => ih f hf (depth + 1) e) h).mono
            (fun _ h => h) (by omega)
  | not f ih =>
      rw [walk, height] at *
      split at h
      · exact Or.inl ⟨(Except.error.inj h).symm, by omega⟩
      · next hdepth =>
          rw [if_neg hdepth]
          cases hf : (walk ρ limit tooDeep (depth + 1) f).2 with
          | error e' =>
              have he : e' = e := by simpa [hf, Except.map] using h
              exact (ih (depth + 1) e (he ▸ hf)).mono (fun _ h => h) (by omega)
          | ok b => simp [hf, Except.map] at h

end Walk

end Formula

end Graveboards.Library
