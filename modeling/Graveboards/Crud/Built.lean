import Graveboards.Crud.Resolve
import Graveboards.Library.Text

/-!
What a call builds: which row it returns, and what the relations of that row hold afterwards.
-/

namespace Graveboards.Crud

open Graveboards.Library

variable {α ρ σ : Type} {S : Session α ρ σ} {mapping : Mapping}

section Named

variable (mapping)

mutual

/-- The relations that the data names, of the models they belong to. -/
def named (model : String) : Data α ρ → List (String × String)
  | [] => []
  | (key, datum) :: rest =>
      (match mapping.relationship? model key with
        | none => []
        | some relationship =>
            (model, key) :: namedBelow relationship.target datum) ++ named model rest

def namedBelow (target : String) : Datum α ρ → List (String × String)
  | .dict entries => named target entries
  | .list items => namedItems target items
  | _ => []

def namedItems (target : String) : List (Datum α ρ) → List (String × String)
  | [] => []
  | .dict entries :: rest => named target entries ++ namedItems target rest
  | _ :: rest => namedItems target rest

end

/-- No entry of the data has another relation of the row named below it, nor the other side of
one. -/
def Separate (model : String) (data : Data α ρ) : Prop :=
  ∀ entry ∈ data, ∀ relation ∈ named mapping model [entry], ∀ key,
    (mapping.relationship? model key).isSome → key ≠ entry.1 →
      relation ≠ (model, key) ∧ mapping.reverse? relation ≠ some (model, key)

end Named

section Keeps

variable (S mapping)

/-- From one state to another, no relation changes but the touched ones and their other sides. -/
def Keeps (touched : List (String × String)) (s s' : σ) : Prop :=
  ∀ o, S.loaded o s → S.loaded o s' ∧ ∀ key,
    (∀ relation ∈ touched, relation ≠ (S.model o, key) ∧
      mapping.reverse? relation ≠ some (S.model o, key)) →
      S.relation o key s' = S.relation o key s

variable {S mapping}

theorem Keeps.refl (touched : List (String × String)) (s : σ) : Keeps S mapping touched s s :=
  fun _ ho => ⟨ho, fun _ _ => rfl⟩

theorem Keeps.trans {touched touched' : List (String × String)} {s s' s'' : σ}
    (h : Keeps S mapping touched s s') (h' : Keeps S mapping touched' s' s'') :
    Keeps S mapping (touched ++ touched') s s'' := by
  intro o ho
  obtain ⟨ho', hkept⟩ := h o ho
  obtain ⟨ho'', hkept'⟩ := h' o ho'
  refine ⟨ho'', ?_⟩
  intro key hfree
  rw [List.forall_mem_append] at hfree
  rw [hkept' key hfree.2, hkept key hfree.1]

/-- Queries and new instances change no relation. -/
theorem Keeps.after {touched : List (String × String)} {s s' s'' : σ} (h : Keeps S mapping [] s s')
    (h' : Keeps S mapping touched s' s'') : Keeps S mapping touched s s'' :=
  h.trans h'

end Keeps

section Selection

/-- The data has the columns, and the row has their values. -/
def Matches (S : Session α ρ σ) (model : String) (columns : List String) (data : Data α ρ) (o : ρ)
    (s : σ) : Prop :=
  names columns data = true ∧ S.row model (given columns data) o s

/-- The row by the primary key, else one by a unique key that the data has, else a new one with the
columns given. -/
def Selected (S : Session α ρ σ) (mapping : Mapping) (model : String) (data : Data α ρ) (s s' : σ)
    (o : ρ) : Prop :=
  Matches S model (mapping model).primaryKey data o s ∨
    (∀ p, ¬ Matches S model (mapping model).primaryKey data p s) ∧
      ((∃ columns ∈ uniqueSets (mapping model), Matches S model columns data o s) ∨
        (∀ columns ∈ uniqueSets (mapping model), ∀ p, ¬ Matches S model columns data p s) ∧
          ¬ S.loaded o s ∧ ∀ column ∈ (mapping model).columns,
          S.column o column s' = data.lookup column)

theorem lookup_given {columns : List String} {data : Data α ρ} {column : String}
    (h : column ∈ columns) :
    (given columns data).lookup column = data.lookup column := by
  induction columns with
  | nil => cases h
  | cons first rest ih =>
      rw [given, List.filterMap_cons]
      cases hfirst : data.lookup first with
      | none =>
          rw [Option.map_none]
          rcases List.mem_cons.mp h with rfl | hrest
          · by_cases hmem : column ∈ rest
            · exact ih hmem
            · rw [hfirst, List.lookup_eq_none_iff]
              rintro ⟨other, datum⟩ hother
              obtain ⟨name, hname, hdatum⟩ := List.mem_filterMap.mp hother
              obtain ⟨datum', -, heq⟩ := Option.map_eq_some_iff.mp hdatum
              cases heq
              simpa using (ne_of_mem_of_not_mem hname hmem).symm
          · exact ih hrest
      | some datum =>
          rw [Option.map_some, List.lookup_cons]
          by_cases hcolumn : column = first
          · subst hcolumn
            simp [hfirst]
          · rw [show (column == first) = false by simpa using hcolumn]
            exact ih ((List.mem_cons.mp h).resolve_left hcolumn)

variable (hS : S.Documented mapping)
include hS

/-- A lookup finds a row that matches, when there is one, and changes no row. -/
theorem lookup_spec {model : String} {columns : List String} {data : Data α ρ} {s s' : σ}
    {found : Option ρ} (h : lookup S model columns data s = .ok (s', found)) :
    Keeps S mapping [] s s' ∧
    (∀ model' conditions p, S.row model' conditions p s' ↔ S.row model' conditions p s) ∧
      (∀ o ∈ found, Matches S model columns data o s ∧ S.model o = model ∧ S.loaded o s') ∧
      (found = none → ∀ p, ¬ Matches S model columns data p s) := by
  rw [lookup] at h
  split at h
  · rename_i hnames
    obtain ⟨⟨s₁, result⟩, hquery, hrest⟩ := bind_eq_ok h
    have hkeeps : Keeps S mapping [] s s₁ := by
      intro o ho
      obtain ⟨ho', hsame⟩ := hS.queried hquery o ho
      exact ⟨ho', fun key _ => hsame key⟩
    cases result with
    | none =>
        cases hrest
        refine ⟨hkeeps, hS.rows hquery, by simp, ?_⟩
        intro _ p hp
        exact hS.missing hquery p hp.2
    | some o =>
        dsimp only at hrest
        split at hrest
        · cases hrest
        · cases hrest
          obtain ⟨hrow, hmodel, hloaded⟩ := hS.found hquery
          refine ⟨hkeeps, hS.rows hquery, ?_, by simp⟩
          simp only [Option.mem_some_iff, forall_eq']
          exact ⟨⟨hnames, hrow⟩, hmodel, hloaded⟩
  · rename_i hnames
    cases h
    refine ⟨.refl [] _, fun _ _ _ => Iff.rfl, by simp, ?_⟩
    intro _ p hp
    exact hnames hp.1

/-- The lookups find a row by the first set that has one. -/
theorem lookups_spec {model : String} {data : Data α ρ} {sets : List (List String)} {s s' : σ}
    {found : Option ρ} (h : lookups S model data sets s = .ok (s', found)) :
    Keeps S mapping [] s s' ∧
      (∀ o ∈ found, (∃ columns ∈ sets, Matches S model columns data o s) ∧ S.model o = model ∧
        S.loaded o s') ∧
      (found = none → ∀ columns ∈ sets, ∀ p, ¬ Matches S model columns data p s) := by
  induction sets generalizing s with
  | nil =>
      cases h
      exact ⟨.refl [] _, by simp, by simp⟩
  | cons columns rest ih =>
      obtain ⟨⟨s₁, result⟩, hlookup, hrest⟩ := bind_eq_ok h
      obtain ⟨hkeeps, hrows, hfound, hnone⟩ := lookup_spec hS hlookup
      cases result with
      | some o =>
          cases hrest
          obtain ⟨hmatches, hmodel, hloaded⟩ := hfound o rfl
          refine ⟨hkeeps, ?_, by simp⟩
          simp only [Option.mem_some_iff, forall_eq']
          exact ⟨⟨columns, List.mem_cons_self, hmatches⟩, hmodel, hloaded⟩
      | none =>
          obtain ⟨hkeeps', hfound', hnone'⟩ := ih hrest
          have hsame (columns' : List String) (p : ρ) :
              Matches S model columns' data p s₁ ↔ Matches S model columns' data p s := by
            rw [Matches, Matches, hrows]
          refine ⟨hkeeps.after hkeeps', ?_, ?_⟩
          · intro o ho
            obtain ⟨⟨columns', hmem, hmatches⟩, hmodel⟩ := hfound' o ho
            exact ⟨⟨columns', List.mem_cons_of_mem _ hmem, (hsame _ _).mp hmatches⟩, hmodel⟩
          · intro hfound'' columns' hmem p hp
            rcases List.mem_cons.mp hmem with rfl | hmem
            · exact hnone rfl p hp
            · exact hnone' hfound'' columns' hmem p ((hsame _ _).mpr hp)

/-- The row that is selected, in memory with its relations. -/
theorem select_spec {model : String} {data : Data α ρ} {s s' : σ} {o : ρ}
    (h : select S mapping model data s = .ok (s', o)) :
    Keeps S mapping [] s s' ∧ S.model o = model ∧ S.loaded o s' ∧
    Selected S mapping model data s s' o := by
  obtain ⟨⟨s₁, found⟩, hlookups, hrest⟩ := bind_eq_ok h
  rw [lookups] at hlookups
  obtain ⟨⟨s₂, byKey⟩, hprimary, hunique⟩ := bind_eq_ok hlookups
  obtain ⟨hkeeps, hrows, hfound, hnone⟩ := lookup_spec hS hprimary
  have hsame (columns : List String) (p : ρ) :
      Matches S model columns data p s₂ ↔ Matches S model columns data p s := by
    rw [Matches, Matches, hrows]
  cases byKey with
  | some p =>
      cases hunique
      cases hrest
      obtain ⟨hmatches, hmodel, hloaded⟩ := hfound _ rfl
      exact ⟨hkeeps, hmodel, hloaded, .inl hmatches⟩
  | none =>
      obtain ⟨hkeeps', hfound', hnone'⟩ := lookups_spec hS hunique
      cases found with
      | some p =>
          cases hrest
          obtain ⟨⟨columns, hmem, hmatches⟩, hmodel, hloaded⟩ := hfound' _ rfl
          exact ⟨hkeeps.after hkeeps', hmodel, hloaded,
            .inr ⟨hnone rfl, .inl ⟨columns, hmem, (hsame _ _).mp hmatches⟩⟩⟩
      | none =>
          have hcreate := Except.ok.inj hrest
          obtain ⟨hmodel, hloaded, hnew, hcolumns⟩ := hS.created hcreate
          have hkept : Keeps S mapping [] s s₁ := hkeeps.after hkeeps'
          have hothers : Keeps S mapping [] s₁ s' := by
            intro p hp
            obtain ⟨hp', hsame⟩ := hS.others hcreate p hp
            exact ⟨hp', fun key _ => hsame key⟩
          refine ⟨hkept.after hothers, hmodel, hloaded, .inr ⟨hnone rfl, .inr ⟨?_, ?_, ?_⟩⟩⟩
          · intro columns hmem p hp
            exact hnone' rfl columns hmem p ((hsame _ _).mpr hp)
          · intro hold
            exact hnew (hkept o hold).1
          · intro column hcolumn
            rw [hcolumns, lookup_given hcolumn]

end Selection

section Frame

theorem assign_keeps (hS : S.Documented mapping) {o : ρ} {relationship : Relationship}
    {datum : Datum α ρ} {value : Related ρ} {s s' : σ}
    (h : assign S o relationship datum value s = .ok s') :
    Keeps S mapping [(S.model o, relationship.key)] s s' := by
  have hset (hset : S.setattr o relationship.key value s = .ok s') :
      Keeps S mapping [(S.model o, relationship.key)] s s' := by
    intro p hp
    obtain ⟨hp', hsame⟩ := hS.untouched hset p hp
    refine ⟨hp', ?_⟩
    intro key hfree
    exact hsame key (hfree _ List.mem_cons_self).1 (hfree _ List.mem_cons_self).2
  unfold assign at h
  split at h
  · cases h
    exact .refl _ s
  · exact hset h

theorem key_of_relationship? {model key : String} {relationship : Relationship}
    (h : mapping.relationship? model key = some relationship) : relationship.key = key := by
  simpa using List.find?_some h

variable (hS : S.Documented mapping)
include hS

mutual

/-- The loop changes only relations that the data names. -/
theorem resolveRelations_keeps {o : ρ} {model : String} (hmodel : S.model o = model) :
    (data : Data α ρ) → {s s' : σ} → resolveRelations S mapping o model data s = .ok s' →
    Keeps S mapping (named mapping model data) s s'
  | [], s, s', h => by
      cases h
      exact .refl _ s
  | (key, datum) :: rest, s, s', h => by
      rw [resolveRelations] at h
      rw [named]
      cases hrelationship : mapping.relationship? model key with
      | none =>
          rw [hrelationship] at h
          exact resolveRelations_keeps hmodel rest h
      | some relationship =>
          rw [hrelationship] at h
          obtain ⟨⟨s₁, value⟩, hvalue, h⟩ := bind_eq_ok h
          obtain ⟨s₂, hassign, h⟩ := bind_eq_ok h
          have hkeeps := resolveValue_keeps relationship datum hvalue
          have hset := assign_keeps hS hassign
          rw [hmodel, key_of_relationship? hrelationship] at hset
          have hrest := resolveRelations_keeps hmodel rest h
          have hboth := (hkeeps.trans hset).trans hrest
          intro p hp
          obtain ⟨hp', hsame⟩ := hboth p hp
          refine ⟨hp', fun key' hfree => hsame key' ?_⟩
          intro relation hrelation
          apply hfree relation
          simp only [List.mem_append, List.mem_cons, List.not_mem_nil, or_false] at hrelation ⊢
          tauto

theorem resolveValue_keeps (relationship : Relationship) :
    (datum : Datum α ρ) → {s s' : σ} → {value : Related ρ} →
    resolveValue S mapping relationship datum s = .ok (s', value) →
    Keeps S mapping (namedBelow mapping relationship.target datum) s s'
  | .list items, s, s', value, h => by
      rw [resolveValue] at h
      split at h
      · obtain ⟨⟨s₁, others⟩, hitems, h⟩ := bind_eq_ok h
        cases h
        exact resolveItems_keeps relationship.target items hitems
      · cases h
  | .null, s, s', value, h => by
      rw [resolveValue] at h
      split at h
      · cases h
      · cases h
        exact .refl _ s
  | .dict entries, s, s', value, h => by
      rw [resolveValue] at h
      split at h
      · split at h
        · cases h
          exact .refl _ s
        · cases h
      · obtain ⟨⟨s₁, o⟩, hselect, h⟩ := bind_eq_ok h
        obtain ⟨s₂, hrelations, h⟩ := bind_eq_ok h
        cases h
        obtain ⟨hkeeps, hmodel, -, -⟩ := select_spec hS hselect
        exact hkeeps.after (resolveRelations_keeps hmodel entries hrelations)
  | .instance o, s, s', value, h => by
      rw [resolveValue, ensureSameSession] at h
      split at h
      · cases h
      · split at h
        · cases h
        · cases h
          exact .refl _ s
  | .value _, _, _, _, h => by
      rw [resolveValue] at h
      cases h

theorem resolveItems_keeps (target : String) :
    (items : List (Datum α ρ)) → {s s' : σ} → {others : List ρ} →
    resolveItems S mapping target items s = .ok (s', others) →
    Keeps S mapping (namedItems mapping target items) s s'
  | [], s, s', others, h => by
      cases h
      exact .refl _ s
  | .dict entries :: rest, s, s', others, h => by
      rw [resolveItems] at h
      obtain ⟨⟨s₁, o⟩, hselect, h⟩ := bind_eq_ok h
      obtain ⟨s₂, hrelations, h⟩ := bind_eq_ok h
      obtain ⟨⟨s₃, others'⟩, hrest, h⟩ := bind_eq_ok h
      cases h
      obtain ⟨hkeeps, hmodel, -, -⟩ := select_spec hS hselect
      exact (hkeeps.after (resolveRelations_keeps hmodel entries hrelations)).trans
        (resolveItems_keeps target rest hrest)
  | .instance o :: rest, s, s', others, h => by
      rw [resolveItems] at h
      · obtain ⟨_, hinstance, h⟩ := bind_eq_ok h
        obtain ⟨⟨s₁, others'⟩, hrest, h⟩ := bind_eq_ok h
        cases h
        exact resolveItems_keeps target rest hrest
      · intro entries hdict
        cases hdict
  | .null :: rest, s, s', others, h => by cases h
  | .value _ :: rest, s, s', others, h => by cases h
  | .list _ :: rest, s, s', others, h => by cases h

end

end Frame

end Graveboards.Crud
