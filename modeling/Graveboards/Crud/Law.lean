import Graveboards.Crud.Built
import Graveboards.Crud.Memory

/-!
When the relations of the returned row are what the data says.
-/

namespace Graveboards.Crud

open Graveboards.Library

variable {α ρ σ : Type} (S : Session α ρ σ) (mapping : Mapping)

/-- The instance is the selected row; each relation that the data names holds what its value was
resolved to when the loop came to it, and the other relations are as they were found. -/
def Built (model : String) (data : Data α ρ) (s s' : σ) (o : ρ) : Prop :=
  ∃ found, select S mapping model data s = .ok (found, o) ∧
    Selected S mapping model data s found o ∧
    (∀ before key datum after relationship, data = before ++ (key, datum) :: after →
      mapping.relationship? model key = some relationship →
      ∃ s₁ s₂ value, resolveRelations S mapping o model before found = .ok s₁ ∧
        resolveValue S mapping relationship datum s₁ = .ok (s₂, value) ∧
        S.relation o key s' = value) ∧
    ∀ key, (mapping.relationship? model key).isSome → key ∉ Dictionary.keys data →
      S.relation o key s' = S.relation o key found

/-- Without its entry the call leads to each instance that the data gives for a scalar relation: the
selected row refers to it already, or another entry makes it do so. -/
def RefersAnyway (model : String) (data : Data α ρ) (s : σ) : Prop :=
  ∀ found o, select S mapping model data s = .ok (found, o) →
    ∀ before key p after relationship s', data = before ++ (key, .instance p) :: after →
      mapping.relationship? model key = some relationship → relationship.uselist = false →
      resolveRelations S mapping o model (before ++ after) found = .ok s' →
      S.relation o key s' = .scalar (some p)

/-- What the loop has assigned for an entry is not changed by the entries after it, and a relation
that the data does not name is not changed by any. -/
def Undisturbed (model : String) (data : Data α ρ) (s : σ) : Prop :=
  ∀ found o, select S mapping model data s = .ok (found, o) →
    (∀ before key datum after relationship s₁ s', data = before ++ (key, datum) :: after →
      mapping.relationship? model key = some relationship →
      (¬ ∃ p, relationship.uselist = false ∧ datum = .instance p) →
      resolveRelations S mapping o model (before ++ [(key, datum)]) found = .ok s₁ →
      resolveRelations S mapping o model after s₁ = .ok s' →
      S.relation o key s' = S.relation o key s₁) ∧
    ∀ key s', (mapping.relationship? model key).isSome → key ∉ Dictionary.keys data →
      resolveRelations S mapping o model data found = .ok s' →
      S.relation o key s' = S.relation o key found

/-- The selected row refers already to each instance that the data gives for a scalar relation. -/
def Refers (model : String) (data : Data α ρ) (s : σ) : Prop :=
  ∀ found o, select S mapping model data s = .ok (found, o) → ∀ key p relationship,
    (key, .instance p) ∈ data → mapping.relationship? model key = some relationship →
    relationship.uselist = false → S.relation o key found = .scalar (some p)

section Law

variable {S mapping}

theorem named_append (model : String) (data data' : Data α ρ) :
    named mapping model (data ++ data') = named mapping model data ++
    named mapping model data' := by
  induction data with
  | nil => rfl
  | cons entry rest ih =>
      obtain ⟨key, datum⟩ := entry
      rw [List.cons_append, named, named, ih, List.append_assoc]

/-- What is named in the data is named in one of its entries. -/
theorem mem_named {model : String} {data : Data α ρ} {relation : String × String}
    (h : relation ∈ named mapping model data) :
    ∃ entry ∈ data, relation ∈ named mapping model [entry] := by
  induction data with
  | nil => cases h
  | cons entry rest ih =>
      rw [← List.singleton_append, named_append, List.mem_append] at h
      rcases h with hfirst | hrest
      · exact ⟨entry, List.mem_cons_self, hfirst⟩
      · obtain ⟨other, hother, hrelation⟩ := ih hrest
        exact ⟨other, List.mem_cons_of_mem _ hother, hrelation⟩

theorem resolveRelations_append {o : ρ} {model : String} {before after : Data α ρ} {s s' : σ} :
    resolveRelations S mapping o model (before ++ after) s = .ok s' ↔
      ∃ s₁, resolveRelations S mapping o model before s = .ok s₁ ∧
        resolveRelations S mapping o model after s₁ = .ok s' := by
  induction before generalizing s with
  | nil =>
      constructor
      · intro h
        exact ⟨s, rfl, h⟩
      · rintro ⟨s₁, hnil, h⟩
        cases hnil
        exact h
  | cons entry rest ih =>
      obtain ⟨key, datum⟩ := entry
      rw [List.cons_append, resolveRelations, resolveRelations]
      cases hrelationship : mapping.relationship? model key with
      | none => exact ih
      | some relationship =>
          constructor
          · intro h
            obtain ⟨⟨s₁, value⟩, hvalue, h⟩ := bind_eq_ok h
            obtain ⟨s₂, hassign, h⟩ := bind_eq_ok h
            obtain ⟨s₃, hrest, hafter⟩ := ih.mp h
            refine ⟨s₃, ?_, hafter⟩
            simp only [hvalue, ok_bind, hassign, hrest]
          · rintro ⟨s₃, h, hafter⟩
            obtain ⟨⟨s₁, value⟩, hvalue, h⟩ := bind_eq_ok h
            obtain ⟨s₂, hassign, hrest⟩ := bind_eq_ok h
            simp only [hvalue, ok_bind, hassign]
            exact ih.mpr ⟨s₃, hrest, hafter⟩

/-- The loop over other entries leaves a relation of the row alone. -/
theorem relation_of_separate (hS : S.Documented mapping) {o : ρ} {model key : String}
    {data entries : Data α ρ} {s s' : σ} (hmodel : S.model o = model) (hloaded : S.loaded o s)
    (hseparate : Separate mapping model data) (hkey : (mapping.relationship? model key).isSome)
    (hentries : ∀ entry ∈ entries, entry ∈ data ∧ key ≠ entry.1)
    (h : resolveRelations S mapping o model entries s = .ok s') :
    S.loaded o s' ∧ S.relation o key s' = S.relation o key s := by
  obtain ⟨hloaded', hkept⟩ := resolveRelations_keeps hS hmodel entries h o hloaded
  refine ⟨hloaded', hkept key ?_⟩
  intro relation hrelation
  obtain ⟨entry, hentry, hnamed⟩ := mem_named hrelation
  rw [hmodel]
  exact hseparate entry (hentries entry hentry).1 relation hnamed key hkey (hentries entry hentry).2

/-- After the step of an entry its relation holds the value, unless that is an instance that was
only checked: then the relation is as before. -/
theorem assign_relation (hS : S.Documented mapping) {o : ρ} {relationship : Relationship}
    {datum : Datum α ρ} {value : Related ρ} {s s' : σ}
    (h : assign S o relationship datum value s = .ok s') :
    (∃ p, relationship.uselist = false ∧ datum = .instance p) ∧ s' = s ∨
      (¬ ∃ p, relationship.uselist = false ∧ datum = .instance p) ∧
        S.relation o relationship.key s' = value := by
  unfold assign at h
  split at h
  · rename_i p hscalar
    cases h
    exact .inl ⟨⟨p, hscalar, rfl⟩, rfl⟩
  · rename_i hother
    refine .inr ⟨?_, hS.assigned h⟩
    rintro ⟨p, hscalar, hinstance⟩
    exact hother p hscalar hinstance

theorem resolveValue_instance {relationship : Relationship}
    (hscalar : relationship.uselist = false) {p : ρ} {s s' : σ} {value : Related ρ}
    (h : resolveValue S mapping relationship (.instance p) s = .ok (s', value)) :
    value = .scalar (some p) := by
  rw [resolveValue, hscalar, ensureSameSession] at h
  split at h
  · cases h
  · split at h
    · cases h
    · cases h
      rfl

/-- The steps of the loop at an entry. -/
theorem resolveRelations_entry {o : ρ} {model key : String} {before after : Data α ρ}
    {datum : Datum α ρ} {relationship : Relationship}
    (hkey : mapping.relationship? model key = some relationship) {found s' : σ}
    (h : resolveRelations S mapping o model (before ++ (key, datum) :: after) found = .ok s') :
    ∃ s₁ s₂ s₃ value, resolveRelations S mapping o model before found = .ok s₁ ∧
      resolveValue S mapping relationship datum s₁ = .ok (s₂, value) ∧
      assign S o relationship datum value s₂ = .ok s₃ ∧
      resolveRelations S mapping o model (before ++ [(key, datum)]) found = .ok s₃ ∧
      resolveRelations S mapping o model after s₃ = .ok s' := by
  obtain ⟨s₁, hfirst, h⟩ := resolveRelations_append.mp h
  rw [resolveRelations, hkey] at h
  obtain ⟨⟨s₂, value⟩, hvalue, h⟩ := bind_eq_ok h
  obtain ⟨s₃, hassign, hrest⟩ := bind_eq_ok h
  refine ⟨s₁, s₂, s₃, value, hfirst, hvalue, hassign,
    resolveRelations_append.mpr ⟨s₁, hfirst, ?_⟩, hrest⟩
  simp only [resolveRelations, hkey, hvalue, ok_bind, hassign]

/-- An instance under a scalar relation changes nothing. -/
theorem resolveRelations_instance {o : ρ} {model key : String} {before after : Data α ρ} {p : ρ}
    {relationship : Relationship} (hkey : mapping.relationship? model key = some relationship)
    (hscalar : relationship.uselist = false) {found s' : σ}
    (h : resolveRelations S mapping o model (before ++ (key, .instance p) :: after) found =
      .ok s') :
    resolveRelations S mapping o model (before ++ after) found = .ok s' := by
  obtain ⟨s₁, s₂, s₃, value, hfirst, hvalue, hassign, -, hrest⟩ := resolveRelations_entry hkey h
  rw [resolveValue, hscalar, ensureSameSession] at hvalue
  unfold assign at hassign
  rw [hscalar] at hassign
  split at hvalue
  · cases hvalue
  · split at hvalue
    · cases hvalue
    · cases hvalue
      cases hassign
      exact resolveRelations_append.mpr ⟨s₁, hfirst, hrest⟩

/-- The entries before and after an entry have other keys. -/
theorem entries_of_split {data : Data α ρ} (hdata : (Dictionary.keys data).Nodup)
    {before after : Data α ρ} {key : String} {datum : Datum α ρ}
    (hsplit : data = before ++ (key, datum) :: after) :
    (∀ entry ∈ before, entry ∈ data ∧ key ≠ entry.1) ∧ ∀ entry ∈ after, entry ∈ data ∧
    key ≠ entry.1 := by
  have hnodup := hdata
  rw [hsplit, Dictionary.keys, List.map_append, List.map_cons, List.nodup_append,
    List.nodup_cons] at hnodup
  obtain ⟨-, ⟨hafter, -⟩, hbefore⟩ := hnodup
  constructor
  · intro entry hentry
    refine ⟨hsplit ▸ List.mem_append_left _ hentry, ?_⟩
    exact (hbefore _ (List.mem_map_of_mem hentry) _ List.mem_cons_self).symm
  · intro entry hentry
    refine ⟨hsplit ▸ List.mem_append_right _ (List.mem_cons_of_mem _ hentry), ?_⟩
    rintro rfl
    exact hafter (List.mem_map.mpr ⟨entry, hentry, rfl⟩)

section Selected

variable (hS : S.Documented mapping) {model : String} {data : Data α ρ} {s found s' : σ} {o : ρ}
  (hselect : select S mapping model data s = .ok (found, o))
  (hrelations : resolveRelations S mapping o model data found = .ok s')
include hS hselect hrelations

/-- The call builds what was asked exactly if it leads to the instances without their entries and no
entry disturbs the relation of another. -/
theorem built_iff_of_select :
    Built S mapping model data s s' o ↔
      RefersAnyway S mapping model data s ∧ Undisturbed S mapping model data s := by
  have hsame {found' : σ} {o' : ρ} (h : select S mapping model data s = .ok (found', o')) :
      found' = found ∧ o' = o :=
    Prod.mk.inj (Except.ok.inj (h.symm.trans hselect))
  constructor
  · rintro ⟨found', hselect', -, hnamed, hothers⟩
    obtain ⟨rfl, -⟩ := hsame hselect'
    constructor
    · intro found' o' h before key p after relationship s'' hsplit hkey hscalar hwithout
      obtain ⟨rfl, rfl⟩ := hsame h
      obtain ⟨s₁, s₂, value, -, hvalue, hbuilt⟩ :=
        hnamed before key (.instance p) after relationship hsplit hkey
      have hrun := resolveRelations_instance hkey hscalar (hsplit ▸ hrelations)
      obtain rfl := Except.ok.inj (hwithout.symm.trans hrun)
      rw [hbuilt, resolveValue_instance hscalar hvalue]
    · intro found' o' h
      obtain ⟨rfl, rfl⟩ := hsame h
      constructor
      · intro before key datum after relationship s₁ s'' hsplit hkey hother hturn hrest
        obtain ⟨t₁, t₂, value, hfirst, hvalue, hbuilt⟩ :=
          hnamed before key datum after relationship hsplit hkey
        obtain ⟨u₁, u₂, u₃, value', hfirst', hvalue', hassign, hturn', hrest'⟩ :=
          resolveRelations_entry hkey (hsplit ▸ hrelations)
        obtain rfl := Except.ok.inj (hfirst.symm.trans hfirst')
        obtain ⟨rfl, rfl⟩ := Prod.mk.inj (Except.ok.inj (hvalue.symm.trans hvalue'))
        obtain rfl := Except.ok.inj (hturn.symm.trans hturn')
        obtain rfl := Except.ok.inj (hrest.symm.trans hrest')
        rcases assign_relation hS hassign with ⟨hscalar, -⟩ | ⟨-, hset⟩
        · exact absurd hscalar hother
        · rw [hbuilt, ← hset, key_of_relationship? hkey]
      · intro key s'' hsome hmissing hrun
        obtain rfl := Except.ok.inj (hrun.symm.trans hrelations)
        exact hothers key hsome hmissing
  · rintro ⟨hrefers, hundisturbed⟩
    obtain ⟨-, -, -, hselected⟩ := select_spec hS hselect
    obtain ⟨hstays, hothers⟩ := hundisturbed found o hselect
    refine ⟨found, hselect, hselected, ?_,
      fun key hsome hmissing => hothers key s' hsome hmissing hrelations⟩
    intro before key datum after relationship hsplit hkey
    obtain ⟨s₁, s₂, s₃, value, hfirst, hvalue, hassign, hturn, hrest⟩ :=
      resolveRelations_entry hkey (hsplit ▸ hrelations)
    refine ⟨s₁, s₂, value, hfirst, hvalue, ?_⟩
    rcases assign_relation hS hassign with ⟨⟨p, hscalar, rfl⟩, -⟩ | ⟨hother, hset⟩
    · have hrun := resolveRelations_instance hkey hscalar (hsplit ▸ hrelations)
      rw [hrefers found o hselect before key p after relationship s' hsplit hkey hscalar hrun,
        resolveValue_instance hscalar hvalue]
    · rw [hstays before key datum after relationship s₃ s' hsplit hkey hother hturn hrest, ← hset,
        key_of_relationship? hkey]

variable (hdata : (Dictionary.keys data).Nodup) (hseparate : Separate mapping model data)
include hdata hseparate

theorem undisturbed_of_separate : Undisturbed S mapping model data s := by
  intro found' o' h
  obtain ⟨rfl, rfl⟩ := Prod.mk.inj (Except.ok.inj (h.symm.trans hselect))
  obtain ⟨-, hmodel, hloaded, -⟩ := select_spec hS hselect
  constructor
  · intro before key datum after relationship s₁ s'' hsplit hkey _ hturn hrest
    have hsome : (mapping.relationship? model key).isSome := by simp [hkey]
    have hloaded₁ := (resolveRelations_keeps hS hmodel _ hturn _ hloaded).1
    exact (relation_of_separate hS hmodel hloaded₁ hseparate hsome
      (entries_of_split hdata hsplit).2 hrest).2
  · intro key s'' hsome hmissing hrun
    refine (relation_of_separate hS hmodel hloaded hseparate hsome ?_ hrun).2
    intro entry hentry
    refine ⟨hentry, ?_⟩
    rintro rfl
    exact hmissing (List.mem_map_of_mem hentry)

theorem refersAnyway_iff_refers :
    RefersAnyway S mapping model data s ↔ Refers S mapping model data s := by
  obtain ⟨-, hmodel, hloaded, -⟩ := select_spec hS hselect
  -- The other entries leave the relation of an entry as it was found.
  have hkept {before after : Data α ρ} {key : String} {datum : Datum α ρ}
      {relationship : Relationship} {s'' : σ}
      (hsplit : data = before ++ (key, datum) :: after)
      (hkey : mapping.relationship? model key = some relationship)
      (hrun : resolveRelations S mapping o model (before ++ after) found = .ok s'') :
      S.relation o key s'' = S.relation o key found := by
    have hsome : (mapping.relationship? model key).isSome := by simp [hkey]
    obtain ⟨hbefore, hafter⟩ := entries_of_split hdata hsplit
    refine (relation_of_separate hS hmodel hloaded hseparate hsome ?_ hrun).2
    intro entry hentry
    exact (List.mem_append.mp hentry).elim (hbefore entry) (hafter entry)
  constructor
  · intro hrefers found' o' h key p relationship hmem hkey hscalar
    obtain ⟨rfl, rfl⟩ := Prod.mk.inj (Except.ok.inj (h.symm.trans hselect))
    obtain ⟨before, after, hsplit⟩ := List.append_of_mem hmem
    have hrun := resolveRelations_instance hkey hscalar (hsplit ▸ hrelations)
    rw [← hkept hsplit hkey hrun]
    exact hrefers _ _ h before key p after relationship s' hsplit hkey hscalar hrun
  · intro hrefers found' o' h before key p after relationship s'' hsplit hkey hscalar hrun
    obtain ⟨rfl, rfl⟩ := Prod.mk.inj (Except.ok.inj (h.symm.trans hselect))
    have hmem : (key, Datum.instance p) ∈ data := by simp [hsplit]
    rw [hkept hsplit hkey hrun]
    exact hrefers _ _ h key p relationship hmem hkey hscalar

end Selected

end Law

/-! Queues and profiles. -/

/-- What a call uses of `Queue` and `Profile`. -/
def queueMapping : Mapping
  | "Queue" =>
      ⟨["id"], ["id", "user_id", "name", "description"], [], [["user_id", "name"]],
        [⟨"user_profile", "Profile", false, none⟩]⟩
  | "Profile" => ⟨["id"], ["id", "user_id", "username"], ["user_id"], [], []⟩
  | _ => ⟨[], [], [], [], []⟩

/-- One profile has been added. -/
def oneProfile : Memory String where
  objects := [[("user_id", .value "7"), ("username", .value "seven")]]
  relations := []
  members := [⟨"Profile", 0⟩]

def queueData (profile : Datum String Ref) : Data String Ref :=
  [("user_id", .value "7"), ("name", .value "first"), ("user_profile", profile)]

theorem separate_queueData (profile : Datum String Ref)
    (h : namedBelow queueMapping "Profile" profile = []) :
    Separate queueMapping "Queue" (queueData profile) := by
  intro entry hentry relation hrelation key _ hne
  simp only [queueData, List.mem_cons, List.not_mem_nil, or_false] at hentry
  rcases hentry with rfl | rfl | rfl
  · cases hrelation
  · cases hrelation
  · have hnamed : named queueMapping "Queue" [("user_profile", profile)] =
        ("Queue", "user_profile") :: (namedBelow queueMapping "Profile" profile ++ []) := rfl
    rw [hnamed, h] at hrelation
    obtain rfl : relation = ("Queue", "user_profile") := List.mem_singleton.mp hrelation
    refine ⟨fun heq => hne (Prod.mk.inj heq).2.symm, ?_⟩
    have hreverse : queueMapping.reverse? ("Queue", "user_profile") = none := rfl
    rw [hreverse]
    intro heq
    cases heq

/-- The profile has a queue. -/
def profileWithQueue : Memory String where
  objects := [[("user_id", .value "7"), ("username", .value "seven")],
    [("user_id", .value "7"), ("name", .value "first")]]
  relations := [((⟨"Queue", 1⟩, "user_profile"), .scalar (some ⟨"Profile", 0⟩))]
  members := [⟨"Profile", 0⟩, ⟨"Queue", 1⟩]

end Graveboards.Crud
