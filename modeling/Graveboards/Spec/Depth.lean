import Graveboards.Spec.Shallow

/-!
The expansion ends: each entry of the table that is gone into leaves one name less that is not
on the stack.
-/

namespace Graveboards.Spec

open Graveboards.Library

/-- Component schemas that are titled by their names. -/
structure Titled (schemas : Components) : Prop where
  nodup : (Dictionary.keys schemas).Nodup
  titled : ∀ entry ∈ schemas, entry.2.head.title = some entry.1

theorem Titled.title_eq {schemas : Components} (h : Titled schemas) {name : String}
    {schema : Schema} (hlookup : schemas.lookup name = some schema) :
    schema.head.title = some name :=
  h.titled (name, schema) (Dictionary.mem_of_lookup hlookup)

/-- The names that are not on the stack. -/
def unvisited (names : List String) (stack : Stack) : List String :=
  names.filter fun name => name ∉ stack

theorem unvisited_length_le (names : List String) {stack stack' : Stack} (h : stack ⊆ stack') :
    (unvisited names stack').length ≤ (unvisited names stack).length := by
  apply List.Sublist.length_le
  apply List.monotone_filter_right
  intro name hname
  simp only [decide_eq_true_eq] at hname ⊢
  exact fun hmem => hname (h hmem)

/-- Where a name of the table is pushed, one less is left. -/
theorem unvisited_cons_lt {names : List String} {name : String} (hname : name ∈ names)
    {stack : Stack} (hstack : name ∉ stack) :
    (unvisited names (name :: stack)).length < (unvisited names stack).length := by
  have hfilter : unvisited names (name :: stack) = (unvisited names stack).filter fun other =>
      other ≠ name := by
    unfold unvisited
    rw [List.filter_filter]
    apply List.filter_congr
    intro other _
    simp [not_or]
  rw [hfilter, List.length_filter_lt_length_iff_exists]
  exact ⟨name, by simp [unvisited, hname, hstack], by simp⟩

theorem entering_isSome {title : Option String} {stack : Stack} {resolve : Stack → Outcome}
    (h : ∀ stack', stack ⊆ stack' → (resolve stack').isSome) :
    (entering title stack resolve).isSome := by
  cases title with
  | none => exact h stack (List.Subset.refl stack)
  | some title =>
      simp only [entering]
      split
      · rfl
      · exact h (title :: stack) (List.subset_cons_self title stack)

section Resolution

variable {names : List String} {component : String → Stack → Outcome}

/-- An object as a property: a placeholder, a reference to a component, or an object of its own. -/
theorem resolveProperty_object (head : Head) (properties : Option Properties) (stack : Stack) :
    resolveProperty names component (.object head properties) stack =
      let inline := entering head.title stack fun stack =>
        (resolveBody names component properties stack).map fun properties =>
          some (.object head properties)
      match head.title with
      | some title =>
          if isShallow title then
            if baseTitle title ∈ stack then some (cycle stack)
            else if baseTitle title ∈ names then component (baseTitle title) stack
            else some none
          else if title ∈ names then component title stack
          else inline
      | none => inline := by
  cases properties with
  | none => rfl
  | some properties =>
      cases htitle : head.title <;>
        simp [resolveProperty, resolveBody, htitle, Option.map_map, Function.comp_def]

mutual

/-- Where the names of the table are resolved with the titles that are on the stack already, so is
everything else. -/
theorem resolveProperty_isSome : (schema : Schema) → (stack : Stack) →
    (∀ name ∈ names, ∀ stack', stack ⊆ stack' → (component name stack').isSome) →
    (resolveProperty names component schema stack).isSome
  | .object head properties, stack, h => by
      have hinline : (entering head.title stack fun stack' =>
          (resolveBody names component properties stack').map fun properties =>
            some (Schema.object head properties)).isSome := by
        apply entering_isSome
        intro stack' hsub
        rw [Option.isSome_map]
        cases properties with
        | none => rfl
        | some properties =>
            rw [resolveBody, Option.isSome_map]
            exact resolveProperties_isSome properties stack' fun name hname stack'' hsub' =>
              h name hname stack'' (List.Subset.trans hsub hsub')
      rw [resolveProperty_object]
      cases htitle : head.title with
      | none => simpa [htitle] using hinline
      | some title =>
          rw [htitle] at hinline
          dsimp only
          split
          · split
            · rfl
            · split
              · exact h _ (by assumption) stack (List.Subset.refl stack)
              · rfl
          · split
            · exact h _ (by assumption) stack (List.Subset.refl stack)
            · exact hinline
  | .array head none, stack, _ => by simp [resolveProperty]
  | .array head (some items), stack, h => by
      rw [resolveProperty, Option.isSome_map]
      exact resolveProperty_isSome items stack h
  | .oneOf head branches, stack, h => by
      rw [resolveProperty, Option.isSome_map]
      exact resolveBranches_isSome branches stack h
  | .boolean head, stack, _ => by simp [resolveProperty]
  | .primitive head, stack, _ => by simp [resolveProperty]

theorem resolveProperties_isSome : (properties : Properties) → (stack : Stack) →
    (∀ name ∈ names, ∀ stack', stack ⊆ stack' → (component name stack').isSome) →
    (resolveProperties names component properties stack).isSome
  | [], stack, _ => rfl
  | (name, schema) :: rest, stack, h => by
      obtain ⟨resolved, hresolved⟩ :=
        Option.isSome_iff_exists.mp (resolveProperty_isSome schema stack h)
      obtain ⟨others, hothers⟩ :=
        Option.isSome_iff_exists.mp (resolveProperties_isSome rest stack h)
      rw [resolveProperties, hresolved, hothers]
      rfl

theorem resolveBranches_isSome : (branches : List Schema) → (stack : Stack) →
    (∀ name ∈ names, ∀ stack', stack ⊆ stack' → (component name stack').isSome) →
    (resolveBranches names component branches stack).isSome
  | [], stack, _ => rfl
  | branch :: rest, stack, h => by
      obtain ⟨resolved, hresolved⟩ :=
        Option.isSome_iff_exists.mp (resolveProperty_isSome branch stack h)
      obtain ⟨others, hothers⟩ := Option.isSome_iff_exists.mp (resolveBranches_isSome rest stack h)
      rw [resolveBranches, hresolved, hothers]
      rfl

end

theorem resolveBody_isSome (properties : Option Properties) (stack : Stack)
    (h : ∀ name ∈ names, ∀ stack', stack ⊆ stack' → (component name stack').isSome) :
    (resolveBody names component properties stack).isSome := by
  cases properties with
  | none => rfl
  | some properties =>
      rw [resolveBody, Option.isSome_map]
      exact resolveProperties_isSome properties stack h

/-- A schema that is not on the stack keeps its head. -/
theorem resolveObject_of_not_mem {schema : Schema} {name : String}
    (htitle : schema.head.title = some name) {stack : Stack} (hstack : name ∉ stack)
    (h : ∀ other ∈ names, ∀ stack', name :: stack ⊆ stack' → (component other stack').isSome) :
    ∃ resolved, resolveObject names component schema stack = some (some resolved) ∧
      resolved.head = schema.head := by
  rw [resolveObject, htitle, entering, if_neg hstack]
  cases schema with
  | object head properties =>
      obtain ⟨body, hbody⟩ :=
        Option.isSome_iff_exists.mp (resolveBody_isSome properties (name :: stack) h)
      exact ⟨.object head body, by simp [hbody], rfl⟩
  | array head items => exact ⟨_, rfl, rfl⟩
  | oneOf head branches => exact ⟨_, rfl, rfl⟩
  | boolean head => exact ⟨_, rfl, rfl⟩
  | primitive head => exact ⟨_, rfl, rfl⟩

end Resolution

/-- How the schema under a name is resolved. -/
def component (schemas : Components) (depth : Nat) (name : String) (stack : Stack) : Outcome :=
  (schemas.lookup name).bind fun schema => resolveSchema schemas depth schema stack

theorem component_of_lookup {schemas : Components} {name : String} {schema : Schema}
    (h : schemas.lookup name = some schema) (depth : Nat) (stack : Stack) :
    component schemas depth name stack = resolveSchema schemas depth schema stack := by
  simp [component, h]

theorem resolveSchema_succ (schemas : Components) (depth : Nat) (schema : Schema) (stack : Stack) :
    resolveSchema schemas (depth + 1) schema stack =
      resolveObject (Dictionary.keys schemas) (component schemas depth) schema stack := rfl

/-- A depth for the names that are not on the stack is enough. -/
theorem component_isSome {schemas : Components} (h : Titled schemas) (depth : Nat) {name : String}
    (hname : name ∈ Dictionary.keys schemas) (stack : Stack)
    (hdepth : (unvisited (Dictionary.keys schemas) stack).length < depth) :
    (component schemas depth name stack).isSome := by
  induction depth generalizing name stack with
  | zero => omega
  | succ depth ih =>
      obtain ⟨schema, hmem⟩ := Dictionary.mem_keys.mp hname
      have hlookup := Dictionary.lookup_of_mem h.nodup hmem
      have htitle := h.title_eq hlookup
      rw [component_of_lookup hlookup, resolveSchema_succ]
      by_cases hstack : name ∈ stack
      · simp [resolveObject, htitle, entering, hstack]
      · have hcomponents : ∀ other ∈ Dictionary.keys schemas, ∀ stack', name :: stack ⊆ stack' →
            (component schemas depth other stack').isSome := by
          intro other hother stack' hsub
          have hfewer := unvisited_length_le (Dictionary.keys schemas) hsub
          have hless := unvisited_cons_lt hname hstack
          exact ih hother stack' (by omega)
        obtain ⟨resolved, hresolved, -⟩ := resolveObject_of_not_mem htitle hstack hcomponents
        rw [hresolved]
        rfl

/-- What a component is resolved to with an empty stack has its head. -/
theorem resolveSchema_nil {schemas : Components} (h : Titled schemas) {depth : Nat}
    (hdepth : schemas.length < depth) {name : String} {schema : Schema}
    (hlookup : schemas.lookup name = some schema) :
    ∃ resolved, resolveSchema schemas depth schema [] = some (some resolved) ∧
    resolved.head = schema.head := by
  obtain ⟨depth, rfl⟩ :=
    Nat.exists_eq_succ_of_ne_zero (Nat.ne_of_gt (Nat.lt_of_le_of_lt (Nat.zero_le _) hdepth))
  have hname : name ∈ Dictionary.keys schemas :=
    Dictionary.mem_keys.mpr ⟨schema, Dictionary.mem_of_lookup hlookup⟩
  have hall : (unvisited (Dictionary.keys schemas) []).length = schemas.length := by
    simp [unvisited, Dictionary.keys]
  rw [Nat.succ_eq_add_one, resolveSchema_succ]
  apply resolveObject_of_not_mem (h.title_eq hlookup) List.not_mem_nil
  intro other hother stack' hsub
  have hfewer := unvisited_length_le (Dictionary.keys schemas) hsub
  have hless := unvisited_cons_lt hname (List.not_mem_nil (a := name))
  exact component_isSome h depth hother stack' (by omega)

/-! ## The loop over the listed names -/

theorem keys_replace (schemas : Components) (name : String) (schema : Schema) :
    Dictionary.keys (replace schemas name schema) = Dictionary.keys schemas := by
  simp only [Dictionary.keys, replace, List.map_map]
  apply List.map_congr_left
  intro entry _
  simp only [Function.comp_apply]
  split
  · exact Eq.symm (by assumption)
  · rfl

theorem lookup_replace_self {schemas : Components} {name : String}
    (hname : name ∈ Dictionary.keys schemas) (schema : Schema) :
    (replace schemas name schema).lookup name = some schema := by
  induction schemas with
  | nil => cases hname
  | cons entry rest ih =>
      rw [Dictionary.keys_cons, List.mem_cons] at hname
      simp only [replace, List.map_cons]
      by_cases hentry : entry.1 = name
      · simp [hentry]
      · have hne : (name == entry.1) = false := beq_false_of_ne (Ne.symm hentry)
        rw [if_neg hentry, List.lookup_cons, hne]
        exact ih (hname.resolve_left (Ne.symm hentry))

theorem lookup_replace_of_ne {name other : String} (hne : other ≠ name) (schemas : Components)
    (schema : Schema) :
    (replace schemas name schema).lookup other = schemas.lookup other := by
  induction schemas with
  | nil => rfl
  | cons entry rest ih =>
      simp only [replace, List.map_cons]
      by_cases hentry : entry.1 = name
      · have hother : (other == name) = false := beq_false_of_ne hne
        rw [if_pos hentry, List.lookup_cons, List.lookup_cons, hentry, hother]
        exact ih
      · rw [if_neg hentry, List.lookup_cons, List.lookup_cons]
        cases hother : other == entry.1 with
        | true => rfl
        | false => exact ih

theorem Titled.replace {schemas : Components} (h : Titled schemas) {name : String}
    {schema resolved : Schema} (hlookup : schemas.lookup name = some schema)
    (hhead : resolved.head = schema.head) :
    Titled (replace schemas name resolved) where
  nodup := by
    rw [keys_replace]
    exact h.nodup
  titled := by
    intro entry hentry
    obtain ⟨before, hbefore, rfl⟩ := List.mem_map.mp hentry
    split
    · rw [hhead]
      exact h.title_eq hlookup
    · exact h.titled before hbefore

/-- The loop ends, whatever the order. -/
theorem exists_populate {depth : Nat} (order : List String) {schemas : Components}
    (h : Titled schemas) (hdepth : schemas.length < depth) :
    ∃ final, populate depth order schemas = some final ∧ Titled final ∧
    final.length = schemas.length := by
  induction order generalizing schemas with
  | nil => exact ⟨schemas, rfl, h, rfl⟩
  | cons name rest ih =>
      rw [populate]
      cases hlookup : schemas.lookup name with
      | none => exact ih h hdepth
      | some schema =>
          obtain ⟨resolved, hresolved, hhead⟩ := resolveSchema_nil h hdepth hlookup
          have hlength : (replace schemas name resolved).length = schemas.length := by
            simp [replace]
          obtain ⟨final, hfinal, htitled, hsame⟩ := ih (h.replace hlookup hhead) (by omega)
          simp only [hresolved]
          exact ⟨final, hfinal, htitled, hsame.trans hlength⟩

/-- The loop replaces nothing but the listed schemas. -/
theorem populate_others {depth : Nat} {order : List String} {schemas final : Components}
    (h : populate depth order schemas = some final) :
    Dictionary.keys final = Dictionary.keys schemas ∧
      ∀ name, name ∉ order → final.lookup name = schemas.lookup name := by
  induction order generalizing schemas with
  | nil =>
      cases h
      exact ⟨rfl, fun _ _ => rfl⟩
  | cons listed rest ih =>
      rw [populate] at h
      split at h
      · obtain ⟨hkeys, hothers⟩ := ih h
        exact ⟨hkeys, fun name hname => hothers name (List.not_mem_of_not_mem_cons hname)⟩
      · split at h
        · obtain ⟨hkeys, hothers⟩ := ih h
          refine ⟨hkeys.trans (keys_replace schemas listed _), ?_⟩
          intro name hname
          rw [hothers name (List.not_mem_of_not_mem_cons hname),
            lookup_replace_of_ne (List.ne_of_not_mem_cons hname)]
        · cases h

end Graveboards.Spec
