import Graveboards.Spec.Depth

/-!
What the expansion is for, as a relation: the table is read as it was before the loop, without a
depth. Whatever part of the table has been replaced, what is resolved stands in this relation.
-/

namespace Graveboards.Spec

open Graveboards.Library

/-- The name of the component that an object of this title stands for. -/
def target (title : String) : String := if isShallow title then baseTitle title else title

/-- A schema that is dropped: an object that is on the stack already, outside an include schema, a
placeholder without a component, or an array of these. -/
inductive Dropped (names : List String) (stack : Stack) : Schema → Prop where
  | cyclic {head : Head} {properties : Option Properties} {title : String}
      (htitle : head.title = some title) (hmem : target title ∈ stack)
      (hcycle : cycle stack = none) :
      Dropped names stack (.object head properties)
  | missing {head : Head} {properties : Option Properties} {title : String}
      (htitle : head.title = some title) (hshallow : isShallow title = true)
      (hmissing : target title ∉ names) : Dropped names stack (.object head properties)
  | array {head : Head} {items : Schema} (hitems : Dropped names stack items) :
      Dropped names stack (.array head (some items))

mutual

/-- What a schema is expanded to under a stack. -/
inductive Expands (schemas : Components) : Stack → Schema → Schema → Prop where
  | disabled {stack : Stack} {head : Head} {properties : Option Properties} {title : String}
      {result : Schema} (htitle : head.title = some title) (hmem : target title ∈ stack)
      (hcycle : cycle stack = some result) :
      Expands schemas stack (.object head properties) result
  | component {stack : Stack} {head : Head} {properties : Option Properties} {title : String}
      {other : Head} {body result : Option Properties}
      (htitle : head.title = some title) (hmem : target title ∉ stack)
      (hlookup : schemas.lookup (target title) = some (.object other body))
      (hother : other.title = some (target title)) (hname : isShallow (target title) = false)
      (hbody : ExpandsBody schemas (target title :: stack) body result) :
      Expands schemas stack (.object head properties) (.object other result)
  | inline {stack : Stack} {head : Head} {properties result : Option Properties} {title : String}
      (htitle : head.title = some title) (hshallow : isShallow title = false)
      (hmissing : title ∉ Dictionary.keys schemas) (hmem : title ∉ stack)
      (hbody : ExpandsBody schemas (title :: stack) properties result) :
      Expands schemas stack (.object head properties) (.object head result)
  | untitled {stack : Stack} {head : Head} {properties result : Option Properties}
      (htitle : head.title = none) (hbody : ExpandsBody schemas stack properties result) :
      Expands schemas stack (.object head properties) (.object head result)
  | anything {stack : Stack} {head : Head} :
      Expands schemas stack (.array head none) (.array head (some emptySchema))
  | array {stack : Stack} {head : Head} {items result : Schema}
      (hitems : Expands schemas stack items result) :
      Expands schemas stack (.array head (some items)) (.array head (some result))
  | oneOf {stack : Stack} {head : Head} {branches results : List Schema}
      (hbranches : ExpandsBranches schemas stack branches results) :
      Expands schemas stack (.oneOf head branches) (.oneOf head results)
  | boolean {stack : Stack} {head : Head} : Expands schemas stack (.boolean head) (.boolean head)
  | primitive {stack : Stack}
      {head : Head} : Expands schemas stack (.primitive head) (.primitive head)

inductive ExpandsBody (schemas : Components) :
    Stack → Option Properties → Option Properties → Prop where
  | bare {stack : Stack} : ExpandsBody schemas stack none none
  | filled {stack : Stack} {properties results : Properties}
      (hproperties : ExpandsProperties schemas stack properties results) :
      ExpandsBody schemas stack (some properties) (some results)

/-- A property that is not dropped stands under the same name. -/
inductive ExpandsProperties (schemas : Components) : Stack → Properties → Properties → Prop where
  | nil {stack : Stack} : ExpandsProperties schemas stack [] []
  | kept {stack : Stack} {name : String} {schema result : Schema} {rest results : Properties}
      (hschema : Expands schemas stack schema result)
      (hrest : ExpandsProperties schemas stack rest results) :
      ExpandsProperties schemas stack ((name, schema) :: rest) ((name, result) :: results)
  | dropped {stack : Stack} {name : String} {schema : Schema} {rest results : Properties}
      (hschema : Dropped (Dictionary.keys schemas) stack schema)
      (hrest : ExpandsProperties schemas stack rest results) :
      ExpandsProperties schemas stack ((name, schema) :: rest) results

inductive ExpandsBranches (schemas : Components) : Stack → List Schema → List Schema → Prop where
  | nil {stack : Stack} : ExpandsBranches schemas stack [] []
  | kept {stack : Stack} {branch result : Schema} {rest results : List Schema}
      (hbranch : Expands schemas stack branch result)
      (hrest : ExpandsBranches schemas stack rest results) :
      ExpandsBranches schemas stack (branch :: rest) (result :: results)
  | dropped {stack : Stack} {branch : Schema} {rest results : List Schema}
      (hbranch : Dropped (Dictionary.keys schemas) stack branch)
      (hrest : ExpandsBranches schemas stack rest results) :
      ExpandsBranches schemas stack (branch :: rest) ((cycle stack).toList ++ results)

end

/-- What resolving a schema may come to. -/
def Resolves (schemas : Components) (stack : Stack) (schema : Schema) : Option Schema → Prop
  | none => Dropped (Dictionary.keys schemas) stack schema
  | some result => Expands schemas stack schema result

mutual

/-- The titles of the objects in a schema. -/
def objectTitles : Schema → List String
  | .object head none => head.title.toList
  | .object head (some properties) => head.title.toList ++ propertyTitles properties
  | .array _ none => []
  | .array _ (some items) => objectTitles items
  | .oneOf _ branches => branchTitles branches
  | .boolean _ => []
  | .primitive _ => []

def propertyTitles : Properties → List String
  | [] => []
  | (_, schema) :: rest => objectTitles schema ++ propertyTitles rest

def branchTitles : List Schema → List String
  | [] => []
  | branch :: rest => objectTitles branch ++ branchTitles rest

end

def Schema.isObject : Schema → Bool
  | object _ _ => true
  | _ => false

/-- What an object of this title stands for is an object schema, and no placeholder itself. -/
def Referable (schemas : Components) (title : String) : Prop :=
  ∀ schema ∈ schemas.lookup (target title), schema.isObject = true ∧
    isShallow (target title) = false

instance (schemas : Components) (title : String) : Decidable (Referable schemas title) :=
  inferInstanceAs (Decidable (∀ schema ∈ schemas.lookup (target title),
    schema.isObject = true ∧ isShallow (target title) = false))

/-- The objects that are expanded stand for object schemas, none of which is named as a
placeholder. -/
structure Expandable (schemas : Components) : Prop where
  listed : ∀ name ∈ schemasWithShallowRefs, Referable schemas name
  titles : ∀ entry ∈ schemas, ∀ title ∈ objectTitles entry.2, Referable schemas title

theorem target_of_not_shallow {title : String} (h : isShallow title = false) :
    target title = title := by
  simp [target, h]

theorem target_of_shallow {title : String} (h : isShallow title = true) :
    target title = baseTitle title := by
  simp [target, h]

theorem cycle_eq_some {stack : Stack} {schema : Schema} (h : cycle stack = some schema) :
    schema = disabledNestedObj := by
  unfold cycle at h
  split at h
  · split at h
    · exact (Option.some.inj h).symm
    · cases h
  · cases h

theorem resolves_cycle {schemas : Components} {stack : Stack} {head : Head}
    {properties : Option Properties} {title : String} (htitle : head.title = some title)
    (hmem : target title ∈ stack) :
    Resolves schemas stack (.object head properties) (cycle stack) := by
  cases hcycle : cycle stack with
  | none => exact .cyclic htitle hmem hcycle
  | some result => exact .disabled htitle hmem hcycle

/-- What a property that is an object may come to. -/
theorem resolveProperty_object_cases {names : List String}
    {component : String → Stack → Outcome} {head : Head} {properties : Option Properties}
    {stack : Stack} {outcome : Option Schema}
    (h : resolveProperty names component (.object head properties) stack = some outcome) :
    (∃ title, head.title = some title ∧ target title ∈ stack ∧ outcome = cycle stack) ∨
      (∃ title, head.title = some title ∧ target title ∈ names ∧
        component (target title) stack = some outcome) ∨
      (∃ title, head.title = some title ∧ isShallow title = true ∧ target title ∉ names ∧
        outcome = none) ∨
      (∃ title result, head.title = some title ∧ isShallow title = false ∧ title ∉ names ∧
        title ∉ stack ∧
        resolveBody names component properties (title :: stack) = some result ∧
        outcome = some (.object head result)) ∨
      (∃ result, head.title = none ∧ resolveBody names component properties stack = some result ∧
        outcome = some (.object head result)) := by
  rw [resolveProperty_object] at h
  cases htitle : head.title with
  | none =>
      simp only [htitle, entering, Option.map_eq_some_iff] at h
      obtain ⟨result, hbody, houtcome⟩ := h
      exact .inr (.inr (.inr (.inr ⟨result, rfl, hbody, houtcome.symm⟩)))
  | some title =>
      cases hshallow : isShallow title with
      | true =>
          simp only [htitle, hshallow, if_true] at h
          rw [← target_of_shallow hshallow] at h
          split at h
          · exact .inl ⟨title, rfl, by assumption, (Option.some.inj h).symm⟩
          · split at h
            · exact .inr (.inl ⟨title, rfl, by assumption, h⟩)
            · exact .inr
                (.inr (.inl ⟨title, rfl, hshallow, by assumption, (Option.some.inj h).symm⟩))
      | false =>
          have htarget := target_of_not_shallow hshallow
          simp only [htitle, hshallow, Bool.false_eq_true, if_false, entering] at h
          split at h
          · exact .inr (.inl ⟨title, rfl, by rwa [htarget], by rwa [htarget]⟩)
          · split at h
            · exact .inl ⟨title, rfl, by rwa [htarget], (Option.some.inj h).symm⟩
            · obtain ⟨result, hbody, houtcome⟩ := Option.map_eq_some_iff.mp h
              exact .inr
                (.inr (.inr
                  (.inl ⟨title, result, rfl, hshallow, by assumption, by assumption, hbody,
                houtcome.symm⟩)))

section Soundness

variable {schemas : Components} {component : String → Stack → Outcome}

/-- Under the name of an object schema stands what this schema is expanded to. -/
def Sound (schemas : Components) (component : String → Stack → Outcome) : Prop :=
  ∀ name stack outcome head body, schemas.lookup name = some (.object head body) →
    head.title = some name →
    isShallow name = false → component name stack = some outcome →
    (name ∈ stack ∧ outcome = cycle stack) ∨
      (name ∉ stack ∧ ∃ result, outcome = some (.object head result) ∧
        ExpandsBody schemas (name :: stack) body result)

/-- A reference to an object schema, resolved by a sound table. -/
theorem resolves_reference (hsound : Sound schemas component) {head other : Head}
    {properties body : Option Properties} {title : String} {stack : Stack} {outcome : Option Schema}
    (htitle : head.title = some title)
    (hlookup : schemas.lookup (target title) = some (.object other body))
    (hother : other.title = some (target title)) (hname : isShallow (target title) = false)
    (h : component (target title) stack = some outcome) :
    Resolves schemas stack (.object head properties) outcome := by
  obtain ⟨hmem, rfl⟩ | ⟨hmem, result, rfl, hbody⟩ :=
    hsound (target title) stack outcome other body hlookup hother hname h
  · exact resolves_cycle htitle hmem
  · exact .component htitle hmem hlookup hother hname hbody

/-- A name of the table that may be referred to is that of an object schema. -/
theorem exists_object (htitled : Titled schemas) {title : String} (h : Referable schemas title)
    (hmem : target title ∈ Dictionary.keys schemas) :
    ∃ other body, schemas.lookup (target title) = some (.object other body) ∧
      other.title = some (target title) ∧ isShallow (target title) = false := by
  obtain ⟨schema, hschema⟩ := Dictionary.mem_keys.mp hmem
  have hlookup := Dictionary.lookup_of_mem htitled.nodup hschema
  obtain ⟨hobject, hname⟩ := h schema hlookup
  cases schema with
  | object other body => exact ⟨other, body, hlookup, htitled.title_eq hlookup, hname⟩
  | array head items => cases hobject
  | oneOf head branches => cases hobject
  | boolean head => cases hobject
  | primitive head => cases hobject

mutual

/-- A schema of the table as it was, resolved by a sound table. -/
theorem resolveProperty_sound (htitled : Titled schemas) (hsound : Sound schemas component) :
    (schema : Schema) → (stack : Stack) → {outcome : Option Schema} →
    (∀ title ∈ objectTitles schema, Referable schemas title) →
    resolveProperty (Dictionary.keys schemas) component schema stack = some outcome →
    Resolves schemas stack schema outcome
  | .object head properties, stack, outcome, hreferable, h => by
      have htitles : ∀ title, head.title = some title → Referable schemas title := by
        intro title htitle
        apply hreferable
        cases properties with
        | none => simp [objectTitles, htitle]
        | some properties => simp [objectTitles, htitle]
      have hbody : ∀ stack' result,
          resolveBody (Dictionary.keys schemas) component properties stack' = some result →
          ExpandsBody schemas stack' properties result := by
        intro stack' result hresult
        cases properties with
        | none =>
            cases hresult
            exact .bare
        | some properties =>
            obtain ⟨results, hresults, rfl⟩ := Option.map_eq_some_iff.mp hresult
            exact .filled (resolveProperties_sound htitled hsound properties stack' (by
              intro title htitle
              exact hreferable title (by simp [objectTitles, htitle])) hresults)
      obtain ⟨title, htitle, hmem, rfl⟩ | ⟨title, htitle, hmem, hcomponent⟩ |
        ⟨title, htitle, hshallow, hmissing, rfl⟩ | ⟨title, result, htitle, hshallow, hmissing, hmem,
          hresult, rfl⟩ |
        ⟨result, htitle, hresult, rfl⟩ := resolveProperty_object_cases h
      · exact resolves_cycle htitle hmem
      · obtain ⟨other, body, hlookup, hother, hname⟩ :=
          exists_object htitled (htitles title htitle) hmem
        exact resolves_reference hsound htitle hlookup hother hname hcomponent
      · exact .missing htitle hshallow hmissing
      · exact .inline htitle hshallow hmissing hmem (hbody _ _ hresult)
      · exact .untitled htitle (hbody _ _ hresult)
  | .array head none, stack, outcome, _, h => by
      cases h
      exact .anything
  | .array head (some items), stack, outcome, hreferable, h => by
      rw [resolveProperty] at h
      obtain ⟨resolved, hresolved, rfl⟩ := Option.map_eq_some_iff.mp h
      have hitems := resolveProperty_sound htitled hsound items stack hreferable hresolved
      cases resolved with
      | none => exact .array hitems
      | some result => exact .array hitems
  | .oneOf head branches, stack, outcome, hreferable, h => by
      rw [resolveProperty] at h
      obtain ⟨results, hresults, rfl⟩ := Option.map_eq_some_iff.mp h
      exact .oneOf (resolveBranches_sound htitled hsound branches stack hreferable hresults)
  | .boolean head, stack, outcome, _, h => by
      cases h
      exact .boolean
  | .primitive head, stack, outcome, _, h => by
      cases h
      exact .primitive

theorem resolveProperties_sound (htitled : Titled schemas) (hsound : Sound schemas component) :
    (properties : Properties) → (stack : Stack) → {results : Properties} →
    (∀ title ∈ propertyTitles properties, Referable schemas title) →
    resolveProperties (Dictionary.keys schemas) component properties stack = some results →
    ExpandsProperties schemas stack properties results
  | [], stack, results, _, h => by
      cases h
      exact .nil
  | (name, schema) :: rest, stack, results, hreferable, h => by
      rw [resolveProperties] at h
      obtain ⟨resolved, hresolved, h⟩ := Option.bind_eq_some_iff.mp h
      obtain ⟨others, hothers, rfl⟩ := Option.map_eq_some_iff.mp h
      have hschema := resolveProperty_sound htitled hsound schema stack
        (fun title htitle => hreferable title (by simp [propertyTitles, htitle])) hresolved
      have hrest := resolveProperties_sound htitled hsound rest stack
        (fun title htitle => hreferable title (by simp [propertyTitles, htitle])) hothers
      cases resolved with
      | none => exact .dropped hschema hrest
      | some result => exact .kept hschema hrest

theorem resolveBranches_sound (htitled : Titled schemas) (hsound : Sound schemas component) :
    (branches : List Schema) → (stack : Stack) → {results : List Schema} →
    (∀ title ∈ branchTitles branches, Referable schemas title) →
    resolveBranches (Dictionary.keys schemas) component branches stack = some results →
    ExpandsBranches schemas stack branches results
  | [], stack, results, _, h => by
      cases h
      exact .nil
  | branch :: rest, stack, results, hreferable, h => by
      rw [resolveBranches] at h
      obtain ⟨resolved, hresolved, h⟩ := Option.bind_eq_some_iff.mp h
      obtain ⟨others, hothers, rfl⟩ := Option.map_eq_some_iff.mp h
      have hbranch := resolveProperty_sound htitled hsound branch stack
        (fun title htitle => hreferable title (by simp [branchTitles, htitle])) hresolved
      have hrest := resolveBranches_sound htitled hsound rest stack
        (fun title htitle => hreferable title (by simp [branchTitles, htitle])) hothers
      cases resolved with
      | none => exact .dropped hbranch hrest
      | some result => exact .kept hbranch hrest

end

/-- The stack that a schema of the table was expanded under is the beginning of the one that it is
resolved under. -/
def Extends (stack stack' : Stack) : Prop := stack ≠ [] ∧ stack <+: stack'

theorem Extends.cons {stack stack' : Stack} (h : Extends stack stack') (title : String) :
    Extends (title :: stack) (title :: stack') :=
  ⟨by simp, List.cons_prefix_cons.mpr ⟨rfl, h.2⟩⟩

theorem Extends.cycle_eq {stack stack' : Stack} (h : Extends stack stack') :
    cycle stack = cycle stack' := by
  obtain ⟨hne, after, rfl⟩ := h
  cases stack with
  | nil => exact absurd rfl hne
  | cons top rest => rfl

theorem Extends.dropped {stack stack' : Stack} (h : Extends stack stack') {names : List String}
    {schema : Schema} (hdropped : Dropped names stack schema) : Dropped names stack' schema := by
  induction hdropped with
  | cyclic htitle hmem hcycle => exact .cyclic htitle (h.2.subset hmem) (h.cycle_eq ▸ hcycle)
  | missing htitle hshallow hmissing => exact .missing htitle hshallow hmissing
  | array _ ih => exact .array ih

theorem resolves_of_some {stack : Stack} {schema result : Schema} {outcome : Option Schema}
    (h : Expands schemas stack schema result) (houtcome : some (some result) = some outcome) :
    Resolves schemas stack schema outcome := by
  cases houtcome
  exact h

mutual

/-- What a schema has been expanded to is resolved to what the schema itself is expanded to under
the longer stack. -/
theorem Expands.resolved (hsound : Sound schemas component) {stack stack' : Stack}
    {schema expanded : Schema} {outcome : Option Schema} (hstack : Extends stack stack') :
    Expands schemas stack schema expanded →
    resolveProperty (Dictionary.keys schemas) component expanded stack' = some outcome →
    Resolves schemas stack' schema outcome
  | .disabled htitle hmem hcycle, h => by
      have hcycle' := hcycle
      rw [hstack.cycle_eq] at hcycle'
      rw [cycle_eq_some hcycle] at h hcycle'
      exact resolves_of_some (.disabled htitle (hstack.2.subset hmem) hcycle') h
  | .component htitle _ hlookup hother hname hbody, h => by
      have hname' := target_of_not_shallow hname
      obtain ⟨title, htitle', hmem, rfl⟩ | ⟨title, htitle', _, hcomponent⟩ | ⟨title, htitle',
          hshallow, _, _⟩ |
        ⟨title, _, htitle', _, hmissing, _, _, _⟩ | ⟨_, htitle', _, _⟩ :=
      resolveProperty_object_cases h
      · rw [hother, Option.some_inj] at htitle'
        subst htitle'
        rw [hname'] at hmem
        exact resolves_cycle htitle hmem
      · rw [hother, Option.some_inj] at htitle'
        subst htitle'
        rw [hname'] at hcomponent
        exact resolves_reference hsound htitle hlookup hother hname hcomponent
      · rw [hother, Option.some_inj] at htitle'
        subst htitle'
        rw [hname] at hshallow
        cases hshallow
      · rw [hother, Option.some_inj] at htitle'
        subst htitle'
        exact absurd (Dictionary.mem_keys.mpr ⟨_, Dictionary.mem_of_lookup hlookup⟩) hmissing
      · rw [hother] at htitle'
        cases htitle'
  | .inline htitle hshallow hmissing _ hbody, h => by
      have htarget := target_of_not_shallow hshallow
      obtain ⟨title, htitle', hmem, rfl⟩ | ⟨title, htitle', hnames, _⟩ | ⟨title, htitle',
          hshallow', _, _⟩ |
        ⟨title, result, htitle', _, _, hmem, hresult, rfl⟩ | ⟨_, htitle', _, _⟩ :=
      resolveProperty_object_cases h
      · exact resolves_cycle htitle' hmem
      · rw [htitle, Option.some_inj] at htitle'
        subst htitle'
        rw [htarget] at hnames
        exact absurd hnames hmissing
      · rw [htitle, Option.some_inj] at htitle'
        subst htitle'
        rw [hshallow] at hshallow'
        cases hshallow'
      · rw [htitle, Option.some_inj] at htitle'
        subst htitle'
        exact .inline htitle hshallow hmissing hmem (hbody.resolved hsound (hstack.cons _) hresult)
      · rw [htitle] at htitle'
        cases htitle'
  | .untitled htitle hbody, h => by
      obtain ⟨_, htitle', _, _⟩ | ⟨_, htitle', _, _⟩ | ⟨_, htitle', _, _, _⟩ | ⟨_, _, htitle',
          _, _, _, _, _⟩ |
        ⟨result, _, hresult, rfl⟩ := resolveProperty_object_cases h
      · rw [htitle] at htitle'
        cases htitle'
      · rw [htitle] at htitle'
        cases htitle'
      · rw [htitle] at htitle'
        cases htitle'
      · rw [htitle] at htitle'
        cases htitle'
      · exact .untitled htitle (hbody.resolved hsound hstack hresult)
  | .anything, h => resolves_of_some .anything h
  | .array hitems, h => by
      rw [resolveProperty] at h
      obtain ⟨resolved, hresolved, rfl⟩ := Option.map_eq_some_iff.mp h
      have hitems' := hitems.resolved hsound hstack hresolved
      cases resolved with
      | none => exact .array hitems'
      | some result => exact .array hitems'
  | .oneOf hbranches, h => by
      rw [resolveProperty] at h
      obtain ⟨results, hresults, rfl⟩ := Option.map_eq_some_iff.mp h
      exact .oneOf (hbranches.resolved hsound hstack hresults)
  | .boolean, h => resolves_of_some .boolean h
  | .primitive, h => resolves_of_some .primitive h

theorem ExpandsBody.resolved (hsound : Sound schemas component) {stack stack' : Stack}
    {properties expanded results : Option Properties} (hstack : Extends stack stack') :
    ExpandsBody schemas stack properties expanded →
    resolveBody (Dictionary.keys schemas) component expanded stack' = some results →
    ExpandsBody schemas stack' properties results
  | .bare, h => by
      cases h
      exact .bare
  | .filled hproperties, h => by
      obtain ⟨results, hresults, rfl⟩ := Option.map_eq_some_iff.mp h
      exact .filled (hproperties.resolved hsound hstack hresults)

theorem ExpandsProperties.resolved (hsound : Sound schemas component) {stack stack' : Stack}
    {properties expanded results : Properties} (hstack : Extends stack stack') :
    ExpandsProperties schemas stack properties expanded →
    resolveProperties (Dictionary.keys schemas) component expanded stack' = some results →
    ExpandsProperties schemas stack' properties results
  | .nil, h => by
      cases h
      exact .nil
  | .kept hschema hrest, h => by
      rw [resolveProperties] at h
      obtain ⟨resolved, hresolved, h⟩ := Option.bind_eq_some_iff.mp h
      obtain ⟨others, hothers, rfl⟩ := Option.map_eq_some_iff.mp h
      have hschema' := hschema.resolved hsound hstack hresolved
      cases resolved with
      | none => exact .dropped hschema' (hrest.resolved hsound hstack hothers)
      | some result => exact .kept hschema' (hrest.resolved hsound hstack hothers)
  | .dropped hschema hrest, h => .dropped (hstack.dropped hschema) (hrest.resolved hsound hstack h)

theorem ExpandsBranches.resolved (hsound : Sound schemas component) {stack stack' : Stack}
    {branches expanded results : List Schema} (hstack : Extends stack stack') :
    ExpandsBranches schemas stack branches expanded →
    resolveBranches (Dictionary.keys schemas) component expanded stack' = some results →
    ExpandsBranches schemas stack' branches results
  | .nil, h => by
      cases h
      exact .nil
  | .kept hbranch hrest, h => by
      rw [resolveBranches] at h
      obtain ⟨resolved, hresolved, h⟩ := Option.bind_eq_some_iff.mp h
      obtain ⟨others, hothers, rfl⟩ := Option.map_eq_some_iff.mp h
      have hbranch' := hbranch.resolved hsound hstack hresolved
      cases resolved with
      | none => exact .dropped hbranch' (hrest.resolved hsound hstack hothers)
      | some result => exact .kept hbranch' (hrest.resolved hsound hstack hothers)
  | .dropped hbranch hrest, h => by
      have hdropped := hstack.dropped hbranch
      cases hcycle : cycle stack with
      | none =>
          rw [hcycle] at h
          have hrest' := ExpandsBranches.dropped hdropped (hrest.resolved hsound hstack h)
          rwa [← hstack.cycle_eq, hcycle] at hrest'
      | some disabled =>
          rw [hcycle, cycle_eq_some hcycle] at h
          simp only [Option.toList_some, List.singleton_append] at h
          rw [resolveBranches] at h
          obtain ⟨resolved, hresolved, h⟩ := Option.bind_eq_some_iff.mp h
          obtain ⟨after, hafter, rfl⟩ := Option.map_eq_some_iff.mp h
          cases hresolved
          have hrest' := ExpandsBranches.dropped hdropped (hrest.resolved hsound hstack hafter)
          rwa [← hstack.cycle_eq, hcycle, cycle_eq_some hcycle] at hrest'

end

end Soundness

end Graveboards.Spec
