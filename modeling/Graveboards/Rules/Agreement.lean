import Graveboards.Rules.Validators

/-!
How far the decision of a leaf depends on the spelling of its configuration.
The schema turns accepted spellings (text for numbers, explicit nulls, missing
defaults) into one stored form; a child of a composite keeps the spelling.

Two calls agree when the first fails unexpectedly or both decide alike, the
wording of violations apart.
-/

namespace Graveboards.Rules

open Library
open Library.Rounding (Rounded)

/-- The first call fails unexpectedly, or both end alike up to the text of a
violation. -/
def Agree {α : Type} (raw stored : Except Raise α) : Prop :=
  (∃ exception, raw = .error (.unexpected exception)) ∨
  (∃ e e', raw = .error (.violation e) ∧ stored = .error (.violation e')) ∨
  raw = stored

namespace Agree

variable {α β : Type}

theorem refl (x : Except Raise α) : Agree x x := Or.inr (Or.inr rfl)

theorem unexpected (exception : String) (y : Except Raise α) :
    Agree (.error (.unexpected exception)) y := Or.inl ⟨exception, rfl⟩

theorem violate (ruleType ruleType' detail detail' : String) :
    Agree (α := α) (Rules.violate ruleType detail) (Rules.violate ruleType' detail') :=
  Or.inr (Or.inl ⟨_, _, rfl, rfl⟩)

theorem bind {x y : Except Raise α} {f g : α → Except Raise β} (hxy : Agree x y)
    (hfg : ∀ a, Agree (f a) (g a)) : Agree (x >>= f) (y >>= g) := by
  rcases hxy with ⟨exception, rfl⟩ | ⟨e, e', rfl, rfl⟩ | rfl
  · exact unexpected exception _
  · exact Or.inr (Or.inl ⟨e, e', rfl, rfl⟩)
  · cases x with
    | error e => exact refl _
    | ok a => exact hfg a

theorem ite {p : Prop} [Decidable p] {x y x' y' : Except Raise α} (hx : p → Agree x x')
    (hy : ¬ p → Agree y y') : Agree (if p then x else y) (if p then x' else y') := by
  by_cases h : p
  · rw [if_pos h, if_pos h]
    exact hx h
  · rw [if_neg h, if_neg h]
    exact hy h

end Agree

/-- A raw value that is null, or compares like the stored one, or is text. -/
def Spells (raw stored : Json) : Prop :=
  (raw = .null ∧ stored = .null) ∨
  (raw ≠ .null ∧ stored ≠ .null ∧ (raw.num? = stored.num? ∨ raw.num? = none))

section Comparisons

variable {raw stored : Json}

theorem lessThan_agree (h : raw.num? = stored.num? ∨ raw.num? = none) (q : Rat) :
    Agree (lessThan q raw) (lessThan q stored) := by
  unfold lessThan
  rcases h with h | h
  · rw [h]
    exact Agree.refl _
  · rw [h]
    exact Agree.unexpected _ _

theorem greaterThan_agree (h : raw.num? = stored.num? ∨ raw.num? = none) (q : Rat) :
    Agree (greaterThan q raw) (greaterThan q stored) := by
  unfold greaterThan
  rcases h with h | h
  · rw [h]
    exact Agree.refl _
  · rw [h]
    exact Agree.unexpected _ _

theorem below_agree (h : Spells raw stored) (q : Rat) : Agree (below q raw) (below q stored) := by
  unfold below
  rcases h with ⟨rfl, rfl⟩ | ⟨hraw, hstored, hnum⟩
  · exact Agree.refl _
  · rw [if_neg hraw, if_neg hstored]
    exact lessThan_agree hnum q

theorem above_agree (h : Spells raw stored) (q : Rat) : Agree (above q raw) (above q stored) := by
  unfold above
  rcases h with ⟨rfl, rfl⟩ | ⟨hraw, hstored, hnum⟩
  · exact Agree.refl _
  · rw [if_neg hraw, if_neg hstored]
    exact greaterThan_agree hnum q

theorem below_of_num {q : Rat} (h : raw.num? = some q) (value : Rat) :
    below value raw = .ok (value < q) := by
  have hne : raw ≠ .null := by
    rintro rfl
    cases h
  rw [below, if_neg hne, lessThan, h]

theorem above_of_num {q : Rat} (h : raw.num? = some q) (value : Rat) :
    above value raw = .ok (q < value) := by
  have hne : raw ≠ .null := by
    rintro rfl
    cases h
  rw [above, if_neg hne, greaterThan, h]

end Comparisons

/-! A value between two bounds. -/

/-- On which side of the bounds the value is. -/
def side (low high : Json) (value : Rat) : Except Raise Ordering := do
  if ← below value low then return .lt
  if ← above value high then return .gt
  return .eq

/-- The raw bounds fail unexpectedly on the value, or have it between them
exactly when the stored ones do. -/
def Alike (low high low' high' : Json) (value : Rat) : Prop :=
  (∃ exception, side low high value = .error (.unexpected exception)) ∨
    ∃ a b, side low high value = .ok a ∧ side low' high' value = .ok b ∧ (a = .eq ↔ b = .eq)

section Ranges

variable (ruleType : String) (texts : RangeTexts) (low high : Json)

/-- What `checkValue` does on each side. -/
def verdict (version : String) (value : Rat) : Ordering → Except Raise Unit
  | .lt => violate ruleType (texts.tooLow version value low)
  | .gt => violate ruleType (texts.tooHigh version value high)
  | .eq => .ok ()

theorem checkValue_eq_side (version : String) (value : Rat) :
    checkValue ruleType texts low high version value =
      side low high value >>= verdict ruleType texts low high version value := by
  unfold checkValue side
  cases below value low with
  | error e => rfl
  | ok b =>
      cases b
      · cases above value high with
        | error e => rfl
        | ok b => cases b <;> rfl
      · rfl

theorem within_eq_side (value : Rat) :
    within low high value = (side low high value).map (fun a => a == .eq) := by
  unfold within side
  cases below value low with
  | error e => rfl
  | ok b =>
      cases b
      · cases above value high with
        | error e => rfl
        | ok b => cases b <;> rfl
      · rfl

variable {low high} {low' high' : Json}

theorem checkValue_agree {value : Rat} (h : Alike low high low' high' value) (version : String) :
    Agree (checkValue ruleType texts low high version value)
      (checkValue ruleType texts low' high' version value) := by
  rw [checkValue_eq_side, checkValue_eq_side]
  rcases h with ⟨exception, hraw⟩ | ⟨a, b, hraw, hstored, hsame⟩
  · rw [hraw]
    exact Agree.unexpected _ _
  · rw [hraw, hstored]
    cases a <;> cases b <;> simp at hsame
    all_goals first
      | exact Agree.refl _
      | exact Agree.violate _ _ _ _

theorem checkAll_agree {values : List (String × Rat)}
    (h : ∀ value ∈ values, Alike low high low' high' value.2) :
    Agree (checkAll ruleType texts low high values)
    (checkAll ruleType texts low' high' values) := by
  induction values with
  | nil => exact Agree.refl _
  | cons value rest ih =>
      obtain ⟨hvalue, hrest⟩ := List.forall_mem_cons.mp h
      exact Agree.bind (checkValue_agree ruleType texts hvalue value.1) fun _ => ih hrest

theorem within_agree {value : Rat} (h : Alike low high low' high' value) :
    Agree (within low high value) (within low' high' value) := by
  rw [within_eq_side, within_eq_side]
  rcases h with ⟨exception, hraw⟩ | ⟨a, b, hraw, hstored, hsame⟩
  · rw [hraw]
    exact Agree.unexpected _ _
  · have heq : (a == Ordering.eq) = (b == Ordering.eq) := by
      rw [Bool.eq_iff_iff, beq_iff_eq, beq_iff_eq]
      exact hsame
    rw [hraw, hstored, Except.map, Except.map, heq]
    exact Agree.refl _

theorem anyWithin_agree {values : List Rat}
    (h : ∀ value ∈ values, Alike low high low' high' value) :
    Agree (anyWithin low high values) (anyWithin low' high' values) := by
  induction values with
  | nil => exact Agree.refl _
  | cons value rest ih =>
      obtain ⟨hvalue, hrest⟩ := List.forall_mem_cons.mp h
      refine Agree.bind (within_agree hvalue) fun b => ?_
      cases b
      · exact ih hrest
      · exact Agree.refl _

theorem checkAny_agree (print : Rat → String) {values : List Rat}
    (h : ∀ value ∈ values, Alike low high low' high' value) :
    Agree (checkAny ruleType texts low high print values)
      (checkAny ruleType texts low' high' print values) := by
  unfold checkAny
  refine Agree.bind (anyWithin_agree h) fun b => ?_
  cases b
  · exact Agree.violate _ _ _ _
  · exact Agree.refl _

/-- Bounds that compare alike, or where the raw ones raise. -/
theorem alike_of_comparisons {value : Rat}
    (hlow : below value low = typeError ∨ ∃ b, below value low = .ok b ∧ below value low' = .ok b)
    (hhigh : above value high = typeError ∨
      ∃ b, above value high = .ok b ∧ above value high' = .ok b) :
    Alike low high low' high' value := by
  unfold Alike side
  rcases hlow with hraw | ⟨b, hraw, hstored⟩
  · exact Or.inl ⟨"TypeError", by rw [hraw]; rfl⟩
  · rw [hraw, hstored]
    cases b
    · rcases hhigh with hraise | ⟨b, hraw', hstored'⟩
      · exact Or.inl ⟨"TypeError", by rw [hraise]; rfl⟩
      · rw [hraw', hstored']
        cases b
        · exact Or.inr ⟨.eq, .eq, rfl, rfl, Iff.rfl⟩
        · exact Or.inr ⟨.gt, .gt, rfl, rfl, Iff.rfl⟩
    · exact Or.inr ⟨.lt, .lt, rfl, rfl, Iff.rfl⟩

theorem alike_of_spells (hlow : Spells low low') (hhigh : Spells high high') (value : Rat) :
    Alike low high low' high' value := by
  apply alike_of_comparisons
  · rcases hlow with ⟨rfl, rfl⟩ | ⟨hraw, hstored, hnum⟩
    · exact Or.inr ⟨false, rfl, rfl⟩
    · rw [below, below, if_neg hraw, if_neg hstored, lessThan, lessThan]
      cases hvalue : low.num? with
      | none => exact Or.inl rfl
      | some q =>
          rw [hvalue] at hnum
          rw [← hnum.resolve_right (by simp)]
          exact Or.inr ⟨_, rfl, rfl⟩
  · rcases hhigh with ⟨rfl, rfl⟩ | ⟨hraw, hstored, hnum⟩
    · exact Or.inr ⟨false, rfl, rfl⟩
    · rw [above, above, if_neg hraw, if_neg hstored, greaterThan, greaterThan]
      cases hvalue : high.num? with
      | none => exact Or.inl rfl
      | some q =>
          rw [hvalue] at hnum
          rw [← hnum.resolve_right (by simp)]
          exact Or.inr ⟨_, rfl, rfl⟩

end Ranges

/-! The stored form of single fields. -/

theorem int_spells {text : TextReaders} {v w : Json} (h : Coercion.int text v = .ok w) :
    v ≠ .null ∧ w ≠ .null ∧ (v.num? = w.num? ∨ v.num? = none) := by
  cases v with
  | int n =>
      obtain rfl := Except.ok.inj h
      exact ⟨by simp, by simp, Or.inl rfl⟩
  | bool b =>
      obtain rfl := Except.ok.inj h
      cases b <;> exact ⟨by simp, by simp, Or.inl (by simp [Json.num?])⟩
  | float x =>
      simp only [Coercion.int] at h
      split at h
      · next hwhole =>
          obtain rfl := Except.ok.inj h
          have hvalue : ((x.value.num : Int) : Rat) = x.value :=
            Rat.coe_int_num_of_den_eq_one (beq_iff_eq.mp hwhole.1)
          exact ⟨by simp, by simp, Or.inl (congrArg some hvalue.symm)⟩
      · cases h
  | str s =>
      obtain ⟨n, rfl⟩ := Coercion.int_eq_ok text h
      exact ⟨by simp, by simp, Or.inr rfl⟩
  | null | list _ | dict _ => cases h

/-- A raw bound and what is stored for it: null, the same number as a double,
the double that a text is read as, or the one nearest to an integer. -/
inductive FloatSpells : Json → Json → Prop where
  | null : FloatSpells .null .null
  | same {raw : Json} {x : Double} (h : raw.num? = some x.value) : FloatSpells raw (.float x)
  | text (s : String) (x : Double) : FloatSpells (.str s) (.float x)
  | int {n : Int} {x : Double} (h : Double.ofInt? n = some x) : FloatSpells (.int n) (.float x)

theorem float_spells {text : TextReaders} {v w : Json} (h : Coercion.float text v = .ok w) :
    FloatSpells v w := by
  cases v with
  | float x =>
      obtain rfl := Except.ok.inj h
      exact .same rfl
  | int n =>
      dsimp only [Coercion.float] at h
      cases hx : Double.ofInt? n with
      | none =>
          rw [hx] at h
          cases h
      | some x =>
          rw [hx] at h
          obtain rfl := Except.ok.inj h
          exact .int hx
  | bool b =>
      obtain rfl := Except.ok.inj h
      cases b <;> exact .same (by simp [Json.num?, Double.one, Double.zero])
  | str s =>
      obtain ⟨x, rfl⟩ := Coercion.float_eq_ok text h
      exact .text s x
  | null | list _ | dict _ => cases h

section Fields

variable {text : TextReaders} {schema : Schema} {entries dumped : List (String × Json)}
  (hstable : schema.Stable) (hvalid : schema.validate entries = .ok dumped)

include hstable hvalid

/-- Every declared field was read, and is stored unless it is null. -/
theorem stored_field {field : Field} (hmem : field ∈ schema.fields) :
    ∃ v, Schema.read entries field = .ok v ∧
      Json.find field.name dumped = if v = .null then none else some v := by
  obtain ⟨hreads, -, -, rfl⟩ := Schema.validate_eq_ok_iff.mp hvalid
  obtain ⟨v, hread⟩ := hreads field hmem
  exact ⟨v, hread, Schema.find_dump_record hstable.names entries hmem hread⟩

theorem lookup_spells {spells : Json → Json → Prop} (hnull : spells .null .null) {name : String}
    {coerce : Coercion} {validator : Json → Except String Unit}
    (hcoerce : ∀ v w, coerce v = .ok w → spells v w)
    (hmem : (⟨name, (Coercion.optional coerce).check validator, some .null⟩ : Field) ∈
      schema.fields) :
    spells (lookup (.dict entries) name) (lookup (.dict dumped) name) := by
  obtain ⟨w, hread, hfind⟩ := stored_field hstable hvalid hmem
  have hstored : lookup (.dict dumped) name = w := by
    rw [lookup, Json.get?_dict, hfind]
    split
    · next hnull => exact hnull.symm
    · rfl
  rw [hstored]
  unfold Schema.read at hread
  split at hread
  · next v hfound =>
      rw [lookup, Json.get?_dict, hfound, Option.getD_some]
      obtain ⟨hoptional, -⟩ := Coercion.check_eq_ok hread
      by_cases hv : v = .null
      · subst hv
        rw [← Except.ok.inj hoptional]
        exact hnull
      · refine hcoerce v w ?_
        unfold Coercion.optional at hoptional
        split at hoptional
        · exact absurd rfl hv
        · exact hoptional
  · next hmissing =>
      rw [lookup, Json.get?_dict, hmissing, ← Except.ok.inj hread]
      exact hnull

/-- The same with a number as the fallback: an explicit null is not one. -/
theorem fallback_spells {name : String} {coerce : Coercion}
    {validator : Json → Except String Unit}
    (hcoerce : ∀ v w, coerce v = .ok w → v ≠ .null ∧ w ≠ .null ∧ (v.num? = w.num? ∨ v.num? = none))
    (hmem : (⟨name, (Coercion.optional coerce).check validator, some .null⟩ : Field) ∈
      schema.fields) (fallback : Json) :
    ((Json.find name entries).getD fallback).num? = ((Json.find name dumped).getD fallback).num? ∨
      ((Json.find name entries).getD fallback).num? = none := by
  obtain ⟨w, hread, hfind⟩ := stored_field hstable hvalid hmem
  rw [hfind]
  unfold Schema.read at hread
  split at hread
  · next v hfound =>
      rw [show Json.find name entries = some v from hfound, Option.getD_some]
      obtain ⟨hoptional, -⟩ := Coercion.check_eq_ok hread
      unfold Coercion.optional at hoptional
      split at hoptional
      · exact Or.inr rfl
      · obtain ⟨-, hw, hnum⟩ := hcoerce v w hoptional
        rw [if_neg hw]
        exact hnum
  · next hmissing =>
      obtain rfl := Except.ok.inj hread
      rw [show Json.find name entries = none from hmissing]
      exact Or.inl rfl

theorem intBound_spells {name message : String} {bound : Rat}
    (hmem : optionalInt text name bound message ∈ schema.fields) :
    Spells (lookup (.dict entries) name) (lookup (.dict dumped) name) :=
  lookup_spells hstable hvalid (Or.inl ⟨rfl, rfl⟩) (fun _ _ h => Or.inr (int_spells h)) hmem

theorem floatBound_spells {name message : String}
    (hmem : optionalFloat text name message ∈ schema.fields) :
    FloatSpells (lookup (.dict entries) name) (lookup (.dict dumped) name) :=
  lookup_spells hstable hvalid .null (fun _ _ => float_spells) hmem

/-- A literal with a default is stored as it was sent, or as the default. -/
theorem literal_stored {name default : String} {allowed : List String}
    (hmem : literalField name allowed default ∈ schema.fields) :
    ∃ s, Json.find name dumped = some (.str s) ∧
      (Json.find name entries).getD (.str default) = .str s ∧ (s = default ∨ s ∈ allowed) := by
  obtain ⟨w, hread, hfind⟩ := stored_field hstable hvalid hmem
  unfold Schema.read at hread
  split at hread
  · next v hfound =>
      obtain ⟨s, hallowed, rfl, rfl⟩ := Coercion.literalStr_eq_ok hread
      rw [if_neg (by simp)] at hfind
      exact ⟨s, hfind, congrArg (Option.getD · _) hfound, Or.inr hallowed⟩
  · next hmissing =>
      obtain rfl := Except.ok.inj hread
      rw [if_neg (by simp)] at hfind
      exact ⟨default, hfind, congrArg (Option.getD · _) hmissing, Or.inl rfl⟩

theorem logic_stored {default : String} {allowed : List String}
    (hmem : literalField "logic" allowed default ∈ schema.fields) :
    logicOf (.dict entries) default = logicOf (.dict dumped) default := by
  obtain ⟨s, hdumped, hentries, -⟩ := literal_stored hstable hvalid hmem
  simp only [logicOf, Json.get?_dict, hdumped, hentries, Option.getD_some]

/-- A required field is stored as it was coerced. -/
theorem required_stored {name : String} {coerce : Coercion} (hnull : coerce.NonNull)
    (hmem : requiredField name coerce ∈ schema.fields) :
    ∃ v w, Json.find name entries = some v ∧ coerce v = .ok w ∧
      Json.find name dumped = some w := by
  obtain ⟨w, hread, hfind⟩ := stored_field hstable hvalid hmem
  unfold Schema.read at hread
  split at hread
  · next v hfound =>
      rw [if_neg (hnull v w hread)] at hfind
      exact ⟨v, w, hfound, hread, hfind⟩
  · cases hread

end Fields

/-! The base classes. -/

theorem ne_nil_of_find {key : String} {v : Json} {entries : List (String × Json)}
    (h : Json.find key entries = some v) : entries ≠ [] := by
  rintro rfl
  simp at h

section Bases

variable {entries dumped : List (String × Json)} (hraw : entries ≠ []) (hstored : dumped ≠ [])
  (env : Env) (ruleType : String)

include hraw hstored

theorem restriction_agree {body : Json → Check}
    (hbody : Agree (body (.dict entries)).result (body (.dict dumped)).result) :
    Agree (restriction ruleType body (.dict entries)).result
      (restriction ruleType body (.dict dumped)).result := by
  have htruthy {l : List (String × Json)} (h : l ≠ []) : (Json.dict l).truthy = true := by
    simp [Json.truthy, h]
  simpa only [restriction, htruthy hraw, htruthy hstored, Bool.not_true, Bool.false_eq_true,
    if_false] using hbody

theorem beatmapRestriction_agree {body : Beatmapset → Json → Except Raise Unit}
    (hbody : ∀ beatmapset,
      Agree (body beatmapset (.dict entries)) (body beatmapset (.dict dumped))) :
    Agree (beatmapRestriction env ruleType body (.dict entries)).result
      (beatmapRestriction env ruleType body (.dict dumped)).result := by
  refine restriction_agree hraw hstored ruleType ?_
  cases env.beatmapset with
  | none => exact Agree.refl _
  | some beatmapset => exact hbody beatmapset

theorem beatmapsRestriction_agree {body : Json → Except Raise Unit}
    (hbody : Agree (body (.dict entries)) (body (.dict dumped))) :
    Agree (beatmapsRestriction env ruleType body (.dict entries)).result
      (beatmapsRestriction env ruleType body (.dict dumped)).result :=
  beatmapRestriction_agree hraw hstored env ruleType fun _ =>
    Agree.ite (fun _ => Agree.refl _) (fun _ => hbody)

end Bases

/-! Rule type by rule type. -/

section Types

variable {text : TextReaders} {entries dumped : List (String × Json)} (hraw : entries ≠ [])
  (env : Env)

include hraw

theorem rangeRestriction_agree (hvalid : (rangeConfig text).validate entries = .ok dumped)
    (ruleType : String) (texts : RangeTexts) (print : Rat → String) (valueOf : Beatmap → Rat)
    (halike : ∀ beatmap, Alike (lookup (.dict entries) "min") (lookup (.dict entries) "max")
      (lookup (.dict dumped) "min") (lookup (.dict dumped) "max") (valueOf beatmap)) :
    Agree (rangeRestriction env ruleType texts print valueOf (.dict entries)).result
      (rangeRestriction env ruleType texts print valueOf (.dict dumped)).result := by
  have hstable := rangeConfig_stable text
  obtain ⟨s, hfind, -⟩ := literal_stored hstable hvalid (.tail _ (.tail _ (.head _)))
  have hlogic := logic_stored hstable hvalid (.tail _ (.tail _ (.head _)))
  refine beatmapsRestriction_agree hraw (ne_nil_of_find hfind) env ruleType ?_
  dsimp only
  rw [hlogic]
  exact Agree.ite
    (fun _ => checkAll_agree _ _ (List.forall_mem_map.mpr fun beatmap _ => halike beatmap))
    (fun _ => checkAny_agree _ _ _ (List.forall_mem_map.mpr fun beatmap _ => halike beatmap))

/-! The values that are measured as doubles. -/

omit hraw in
theorem rounded_largest {values : List Rat} (h : ∀ value ∈ values, Rounded 52 (-1074) value) :
    Rounded 52 (-1074) (largest values) := by
  have hfold (first : Rat) (hfirst : Rounded 52 (-1074) first) (rest : List Rat)
      (hrest : ∀ value ∈ rest, Rounded 52 (-1074) value) :
      Rounded 52 (-1074) (rest.foldl max first) := by
    induction rest generalizing first with
    | nil => exact hfirst
    | cons value rest ih =>
        obtain ⟨hvalue, hrest⟩ := List.forall_mem_cons.mp hrest
        refine ih _ ?_ hrest
        rcases max_choice first value with heq | heq
        · rwa [heq]
        · rwa [heq]
  cases values with
  | nil => exact Rounding.rounded_zero
  | cons first rest =>
      obtain ⟨hfirst, hrest⟩ := List.forall_mem_cons.mp h
      exact hfold first hfirst rest hrest

omit hraw in
theorem rounded_smallest {values : List Rat} (h : ∀ value ∈ values, Rounded 52 (-1074) value) :
    Rounded 52 (-1074) (smallest values) := by
  have hfold (first : Rat) (hfirst : Rounded 52 (-1074) first) (rest : List Rat)
      (hrest : ∀ value ∈ rest, Rounded 52 (-1074) value) :
      Rounded 52 (-1074) (rest.foldl min first) := by
    induction rest generalizing first with
    | nil => exact hfirst
    | cons value rest ih =>
        obtain ⟨hvalue, hrest⟩ := List.forall_mem_cons.mp hrest
        refine ih _ ?_ hrest
        rcases min_choice first value with heq | heq
        · rwa [heq]
        · rwa [heq]
  cases values with
  | nil => exact Rounding.rounded_zero
  | cons first rest =>
      obtain ⟨hfirst, hrest⟩ := List.forall_mem_cons.mp h
      exact hfold first hfirst rest hrest

theorem starRatingRestriction_agree
    (hvalid : (starRatingConfig text).validate entries = .ok dumped)
    (halike : ∀ value, Rounded 52 (-1074) value →
      Alike (lookup (.dict entries) "min") (lookup (.dict entries) "max")
        (lookup (.dict dumped) "min") (lookup (.dict dumped) "max") value) :
    Agree (starRatingRestriction env (.dict entries)).result
      (starRatingRestriction env (.dict dumped)).result := by
  have hstable := starRatingConfig_stable text
  obtain ⟨s, hfind, -⟩ := literal_stored hstable hvalid (.tail _ (.tail _ (.head _)))
  have hlogic := logic_stored hstable hvalid (.tail _ (.tail _ (.head _)))
  have hratings : ∀ value ∈ env.beatmaps.map (fun beatmap => beatmap.difficultyRating.value),
      Rounded 52 (-1074) value :=
    List.forall_mem_map.mpr fun beatmap _ => beatmap.difficultyRating.rounded
  refine beatmapsRestriction_agree hraw (ne_nil_of_find hfind) env _ ?_
  dsimp only
  rw [hlogic]
  split
  · exact checkValue_agree _ _ (halike _ (rounded_largest hratings)) _
  · exact checkValue_agree _ _ (halike _ (rounded_smallest hratings)) _
  · exact checkAll_agree _ _ (List.forall_mem_map.mpr fun beatmap _ =>
      halike _ beatmap.difficultyRating.rounded)
  · exact checkAny_agree _ _ _ fun value hvalue => halike value (hratings value hvalue)
  · exact Agree.refl _

theorem bpmRestriction_agree (hvalid : (bpmConfig text).validate entries = .ok dumped)
    (halike : ∀ value, Rounded 52 (-1074) value →
      Alike (lookup (.dict entries) "min_bpm") (lookup (.dict entries) "max_bpm")
        (lookup (.dict dumped) "min_bpm") (lookup (.dict dumped) "max_bpm") value) :
    Agree (bpmRestriction env (.dict entries)).result
      (bpmRestriction env (.dict dumped)).result := by
  have hstable := bpmConfig_stable text
  obtain ⟨s, hfind, -⟩ := literal_stored hstable hvalid (.tail _ (.tail _ (.head _)))
  have hlogic := logic_stored hstable hvalid (.tail _ (.tail _ (.head _)))
  have hbpms : ∀ value ∈ env.beatmaps.map (fun beatmap => beatmap.bpm.value),
      Rounded 52 (-1074) value :=
    List.forall_mem_map.mpr fun beatmap _ => beatmap.bpm.rounded
  refine beatmapsRestriction_agree hraw (ne_nil_of_find hfind) env _ ?_
  dsimp only
  rw [hlogic]
  split
  · exact checkValue_agree _ _ (halike _ (Double.rounded_mean hbpms)) _
  · exact checkAll_agree _ _ (List.forall_mem_map.mpr fun beatmap _ =>
      halike _ beatmap.bpm.rounded)
  · exact checkAny_agree _ _ _ fun value hvalue => halike value (hbpms value hvalue)

omit hraw in
theorem durationAll_agree {low low' high high' : Json}
    (hlow : low.num? = low'.num? ∨ low.num? = none) (hhigh : Spells high high')
    (texts : RangeTexts) (values : List (String × Rat)) :
    Agree (durationRestriction.checkAllFrom texts low high values)
      (durationRestriction.checkAllFrom texts low' high' values) := by
  induction values with
  | nil => exact Agree.refl _
  | cons value rest ih =>
      refine Agree.bind (lessThan_agree hlow value.2) fun b => ?_
      cases b
      · refine Agree.bind (above_agree hhigh value.2) fun b => ?_
        cases b
        · exact ih
        · exact Agree.violate _ _ _ _
      · exact Agree.violate _ _ _ _

theorem durationRestriction_agree (hvalid : (durationConfig text).validate entries = .ok dumped) :
    Agree (durationRestriction env (.dict entries)).result
      (durationRestriction env (.dict dumped)).result := by
  have hstable := durationConfig_stable text
  have hlow := intBound_spells hstable hvalid (.head _)
  have hhigh := intBound_spells hstable hvalid (.tail _ (.head _))
  obtain ⟨s, hfind, -⟩ := literal_stored hstable hvalid (.tail _ (.tail _ (.head _)))
  have hlogic := logic_stored hstable hvalid (.tail _ (.tail _ (.head _)))
  refine beatmapsRestriction_agree hraw (ne_nil_of_find hfind) env _ ?_
  dsimp only
  rw [hlogic]
  split
  · exact checkValue_agree _ _ (alike_of_spells hlow hhigh _) _
  · exact checkValue_agree _ _ (alike_of_spells hlow hhigh _) _
  · exact durationAll_agree
      (fallback_spells hstable hvalid (fun _ _ => int_spells) (.head _) (.int 0)) hhigh _ _
  · exact Agree.refl _

omit hraw in
theorem firstMissed_agree {config config' : Json} {bounds : List LengthBound}
    (hbounds : ∀ bound ∈ bounds, Spells (lookup config bound.key) (lookup config' bound.key)) :
    Agree (firstMissed config bounds) (firstMissed config' bounds) := by
  induction bounds with
  | nil => exact Agree.refl _
  | cons bound rest ih =>
      have hspells := hbounds bound List.mem_cons_self
      refine Agree.bind ?_ fun b => ?_
      · exact Agree.ite (fun _ => below_agree hspells _) (fun _ => above_agree hspells _)
      · cases b
        · exact ih (fun other hother => hbounds other (List.mem_cons_of_mem _ hother))
        · exact Agree.refl _

theorem lengthRestriction_agree (hvalid : (lengthConfig text).validate entries = .ok dumped) :
    Agree (lengthRestriction env (.dict entries)).result
      (lengthRestriction env (.dict dumped)).result := by
  have hstable := lengthConfig_stable text
  have hspells (beatmap : Beatmap) (bound : LengthBound) (hbound : bound ∈ lengthBounds beatmap) :
      Spells (lookup (.dict entries) bound.key) (lookup (.dict dumped) bound.key) := by
    simp only [lengthBounds, List.mem_cons, List.not_mem_nil, or_false] at hbound
    rcases hbound with rfl | rfl | rfl | rfl
    · exact intBound_spells hstable hvalid (.head _)
    · exact intBound_spells hstable hvalid (.tail _ (.head _))
    · exact intBound_spells hstable hvalid (.tail _ (.tail _ (.head _)))
    · exact intBound_spells hstable hvalid (.tail _ (.tail _ (.tail _ (.head _))))
  have hmissed (beatmap : Beatmap) := firstMissed_agree (hspells beatmap)
  have hall (beatmaps : List Beatmap) :
      Agree (lengthAll (.dict entries) beatmaps) (lengthAll (.dict dumped) beatmaps) := by
    induction beatmaps with
    | nil => exact Agree.refl _
    | cons beatmap rest ih =>
        refine Agree.bind (hmissed beatmap) fun missed => ?_
        cases missed
        · exact ih
        · exact Agree.violate _ _ _ _
  have hany (beatmaps : List Beatmap) :
      Agree (lengthAny (.dict entries) beatmaps) (lengthAny (.dict dumped) beatmaps) := by
    induction beatmaps with
    | nil => exact Agree.refl _
    | cons beatmap rest ih =>
        refine Agree.bind (hmissed beatmap) fun missed => ?_
        cases missed
        · exact Agree.refl _
        · exact ih
  obtain ⟨s, hfind, -⟩ :=
    literal_stored hstable hvalid (.tail _ (.tail _ (.tail _ (.tail _ (.head _)))))
  have hlogic := logic_stored hstable hvalid (.tail _ (.tail _ (.tail _ (.tail _ (.head _)))))
  refine beatmapsRestriction_agree hraw (ne_nil_of_find hfind) env _ ?_
  dsimp only
  rw [hlogic]
  refine Agree.ite (fun _ => hall _) (fun _ => Agree.bind (hany _) fun b => ?_)
  cases b
  · exact Agree.violate _ _ _ _
  · exact Agree.refl (.ok ())

theorem difficultyCountRestriction_agree
    (hvalid : (difficultyCountConfig text).validate entries = .ok dumped) :
    Agree (difficultyCountRestriction env (.dict entries)).result
      (difficultyCountRestriction env (.dict dumped)).result := by
  have hstable := difficultyCountConfig_stable text
  have hlow := intBound_spells hstable hvalid (.head _)
  have hhigh := intBound_spells hstable hvalid (.tail _ (.head _))
  have hstored : dumped ≠ [] := by
    obtain ⟨-, -, hcheck, rfl⟩ := Schema.validate_eq_ok_iff.mp hvalid
    intro hnil
    have hnone (name : String) :
        bound (Schema.record (difficultyCountConfig text).fields entries) name = none := by
      unfold bound
      cases hfind : Json.find name (Schema.record (difficultyCountConfig text).fields entries) with
      | none => rfl
      | some v =>
          have hnull := List.filter_eq_nil_iff.mp hnil _ (Json.mem_of_find hfind)
          obtain rfl : v = .null := by simpa using hnull
          rfl
    change validateBounds "min" "max" _ = .ok () at hcheck
    rw [validateBounds, if_pos ⟨hnone "min", hnone "max"⟩] at hcheck
    cases hcheck
  refine beatmapRestriction_agree hraw hstored env _ fun _ => ?_
  refine Agree.bind (below_agree hlow _) fun b => ?_
  cases b
  · refine Agree.bind (above_agree hhigh _) fun b => ?_
    cases b
    · exact Agree.refl _
    · exact Agree.violate _ _ _ _
  · exact Agree.violate _ _ _ _

/-! Identifiers, modes, features and tags. -/

omit hraw in
/-- Two violations whose texts need a sorted set. -/
theorem sortedRepr_violate_agree {items ys : List Json} {f g : String → Except Raise Unit}
    (hf : ∀ s, ∃ e, f s = .error (.violation e)) (hg : ∀ s, ∃ e, g s = .error (.violation e))
    (hys : ∃ s, sortedRepr ys = .ok s) : Agree (sortedRepr items >>= f) (sortedRepr ys >>= g) := by
  have hviolate (s s' : String) : Agree (f s) (g s') := by
    obtain ⟨e, he⟩ := hf s
    obtain ⟨e', he'⟩ := hg s'
    exact Or.inr (Or.inl ⟨e, e', he, he'⟩)
  obtain ⟨s, hs⟩ := hys
  rw [hs]
  unfold sortedRepr
  split
  · exact hviolate _ _
  · split
    · exact hviolate _ _
    · exact Agree.unexpected _ _

omit hraw in
theorem sortedRepr_numeric {ys : List Json} (h : ∀ y ∈ ys, y.num?.isSome) :
    ∃ s, sortedRepr ys = .ok s := by
  unfold sortedRepr
  split
  · exact ⟨_, rfl⟩
  · rw [if_pos (List.all_eq_true.mpr h)]
    exact ⟨_, rfl⟩

omit hraw in
theorem asSet_list {items : List Json} (h : ∀ x ∈ items, hashable x = true) :
    asSet (.list items) = .ok items := if_pos (List.all_eq_true.mpr h)

omit hraw in
theorem hashable_of_num {x : Json} (h : x.num?.isSome) : hashable x = true := by
  cases x with
  | list _ | dict _ => simp [Json.num?] at h
  | _ => rfl

omit hraw in
theorem exists_of_forall₂ {R : Json → Json → Prop} {xs ys : List Json} (h : List.Forall₂ R xs ys) :
    (∀ x ∈ xs, ∃ y ∈ ys, R x y) ∧ ∀ y ∈ ys, ∃ x ∈ xs, R x y := by
  induction h with
  | nil => simp
  | @cons x y xs ys hxy _ ih =>
      simp only [List.mem_cons, forall_eq_or_imp, exists_eq_or_imp]
      exact ⟨⟨Or.inl hxy, fun a ha => Or.inr (ih.1 a ha)⟩, Or.inl hxy,
        fun a ha => Or.inr (ih.2 a ha)⟩

omit hraw in
theorem contains_congr {items ys : List Json}
    (h : List.Forall₂ (fun x y => x.num? = y.num?) items ys) (n : Int) :
    contains items n = contains ys n := by
  unfold contains
  induction h with
  | nil => rfl
  | cons hxy _ ih => simp [hxy, ih]

theorem identifierRestriction_agree {schema : Schema} (hstable : schema.Stable)
    (hvalid : schema.validate entries = .ok dumped) {key : String} {allowed : List Int}
    {validator : Json → Except String Unit}
    (hmem : requiredField key ((Coercion.list (Coercion.literalInt allowed)).check validator) ∈
      schema.fields) (ruleType noun plural : String) (actual : Beatmapset → Option Int) :
    Agree (identifierRestriction env ruleType key noun plural actual (.dict entries)).result
      (identifierRestriction env ruleType key noun plural actual (.dict dumped)).result := by
  obtain ⟨v, w, hentries, hcoerce, hdumped⟩ := required_stored hstable hvalid
    (Coercion.nonNull_check (Coercion.nonNull_list _)) hmem
  obtain ⟨items, ys, rfl, rfl, helements⟩ := Coercion.list_eq_ok (Coercion.check_eq_ok hcoerce).1
  have hnum : List.Forall₂ (fun x y => x.num? = y.num? ∧ y.num?.isSome) items ys :=
    helements.imp fun x y hxy => by
      obtain ⟨n, -, hx, rfl⟩ := Coercion.literalInt_eq_ok hxy
      exact ⟨hx, rfl⟩
  have hys (y : Json) (hy : y ∈ ys) : y.num?.isSome := by
    obtain ⟨x, -, -, hsome⟩ := (exists_of_forall₂ hnum).2 y hy
    exact hsome
  have hitems (x : Json) (hx : x ∈ items) : x.num?.isSome := by
    obtain ⟨y, -, hxy, hsome⟩ := (exists_of_forall₂ hnum).1 x hx
    exact hxy ▸ hsome
  refine beatmapRestriction_agree hraw (ne_nil_of_find hdumped) env ruleType fun beatmapset => ?_
  cases actual beatmapset with
  | none => exact Agree.refl _
  | some actualId =>
      simp only [Json.get?_dict, hentries, hdumped, Option.getD_some,
        asSet_list (fun x hx => hashable_of_num (hitems x hx)),
        asSet_list (fun y hy => hashable_of_num (hys y hy)), bind, Except.bind,
        contains_congr (hnum.imp fun _ _ h => h.1) actualId]
      exact Agree.ite
        (fun _ => sortedRepr_violate_agree (fun _ => ⟨_, rfl⟩) (fun _ => ⟨_, rfl⟩)
          (sortedRepr_numeric hys))
        (fun _ => Agree.refl _)

theorem modeRestriction_agree (hvalid : modeConfig.validate entries = .ok dumped) :
    Agree (modeRestriction env (.dict entries)).result
      (modeRestriction env (.dict dumped)).result := by
  obtain ⟨v, w, hentries, hcoerce, hdumped⟩ := required_stored modeConfig_stable hvalid
    (Coercion.nonNull_check (Coercion.nonNull_list _)) (.head _)
  obtain ⟨items, ys, rfl, rfl, helements⟩ := Coercion.list_eq_ok (Coercion.check_eq_ok hcoerce).1
  have hsame : items = ys := by
    refine List.forall₂_eq_eq_eq ▸ helements.imp fun x y hxy => ?_
    obtain ⟨s, -, rfl, rfl⟩ := Coercion.literalStr_eq_ok hxy
    rfl
  subst hsame
  refine beatmapRestriction_agree hraw (ne_nil_of_find hdumped) env _ fun _ => ?_
  simp only [Json.get?_dict, hentries, hdumped]
  exact Agree.refl _

theorem featureRestriction_agree {schema : Schema} (hstable : schema.Stable)
    (hvalid : schema.validate entries = .ok dumped)
    (hmem : requiredField "allowed" (Coercion.bool text) ∈ schema.fields)
    (hfaithful : Coercion.bool text (lookup (.dict entries) "allowed") =
      .ok (.bool (lookup (.dict entries) "allowed").truthy))
    (ruleType detail : String) (present : Beatmapset → Bool) :
    Agree (featureRestriction env ruleType detail present (.dict entries)).result
      (featureRestriction env ruleType detail present (.dict dumped)).result := by
  obtain ⟨v, w, hentries, hcoerce, hdumped⟩ := required_stored hstable hvalid
    (Coercion.nonNull_bool text) hmem
  have hlookup : lookup (.dict entries) "allowed" = v := by
    rw [lookup, Json.get?_dict, hentries, Option.getD_some]
  rw [hlookup, hcoerce] at hfaithful
  obtain rfl := Except.ok.inj hfaithful
  refine beatmapRestriction_agree hraw (ne_nil_of_find hdumped) env ruleType fun beatmapset => ?_
  simp only [Json.get?_dict, hentries, hdumped, Option.getD_some, Json.truthy]
  exact Agree.refl _

omit hraw in
/-- The validators of the osu!-backed rules parse the configuration again, so
every spelling of it means the same to them. -/
theorem readNormalizeVersions_stored {schema : Schema} (hstable : schema.Stable)
    (hvalid : schema.validate entries = .ok dumped)
    (hmem : boolField text "normalize_versions" true ∈ schema.fields) :
    readNormalizeVersions text (.dict entries) = readNormalizeVersions text (.dict dumped) ∧
      dumped ≠ [] := by
  obtain ⟨w, hread, hfind⟩ := stored_field hstable hvalid hmem
  have hbool : ∃ b, w = .bool b ∧ readNormalizeVersions text (.dict entries) = .ok b := by
    unfold readNormalizeVersions
    unfold Schema.read at hread
    split at hread
    · next v hfound =>
        obtain ⟨b, rfl⟩ := Coercion.bool_eq_ok text hread
        refine ⟨b, rfl, ?_⟩
        rw [Json.get?_dict, show Json.find "normalize_versions" entries = some v from hfound]
        simp only [show Coercion.bool text v = .ok (.bool b) from hread]
    · next hmissing =>
        refine ⟨true, (Except.ok.inj hread).symm, ?_⟩
        rw [Json.get?_dict, show Json.find "normalize_versions" entries = none from hmissing]
  obtain ⟨b, rfl, hentries⟩ := hbool
  rw [if_neg (by simp)] at hfind
  refine ⟨?_, ne_nil_of_find hfind⟩
  rw [hentries, readNormalizeVersions, Json.get?_dict,
    show Json.find "normalize_versions" dumped = some (.bool b) from hfind]
  rfl

theorem neverRankedRestriction_agree
    (hvalid : (neverRankedConfig text).validate entries = .ok dumped) :
    Agree (neverRankedRestriction env text (.dict entries)).result
      (neverRankedRestriction env text (.dict dumped)).result := by
  have hstable := neverRankedConfig_stable text
  obtain ⟨hnormalize, hstored⟩ :=
    readNormalizeVersions_stored hstable hvalid (.tail _ (.head _))
  have hruleset : readRuleset (.dict entries) = readRuleset (.dict dumped) := by
    obtain ⟨s, hdumped, hentries, -⟩ := literal_stored hstable hvalid (.head _)
    unfold readRuleset
    rw [Json.get?_dict, Json.get?_dict, hdumped]
    cases hfind : Json.find "ruleset" entries with
    | none =>
        obtain rfl : "osu" = s := by simpa [hfind] using hentries
        rfl
    | some v =>
        obtain rfl : v = .str s := by simpa [hfind] using hentries
        rfl
  refine restriction_agree hraw hstored _ ?_
  cases env.search with
  | none => exact Agree.refl _
  | some search =>
      simp only [hnormalize, hruleset]
      exact Agree.refl _

theorem uniqueArtistTitleRestriction_agree
    (hvalid : (uniqueArtistTitleConfig text).validate entries = .ok dumped) :
    Agree (uniqueArtistTitleRestriction env text (.dict entries)).result
      (uniqueArtistTitleRestriction env text (.dict dumped)).result := by
  obtain ⟨hnormalize, hstored⟩ :=
    readNormalizeVersions_stored (uniqueArtistTitleConfig_stable text) hvalid (.head _)
  refine restriction_agree hraw hstored _ ?_
  cases env.search with
  | none => exact Agree.refl _
  | some search =>
      simp only [hnormalize]
      exact Agree.refl _

end Types

end Graveboards.Rules
