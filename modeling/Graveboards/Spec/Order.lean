import Graveboards.Spec.Populate

/-!
The order of the loop: a schema is expanded to one schema only, whatever the table has come to, so
neither the order nor a second run changes what stands in it.
-/

namespace Graveboards.Spec

open Graveboards.Library

def includeTop : Stack → Bool
  | top :: _ => isInclude top
  | [] => false

mutual

/-- The titles of the objects that stand in an include schema with no other title between. -/
def nestedTitles (inside : Bool) : Schema → List String
  | .object head properties =>
      (if inside then head.title.toList else []) ++
        nestedBodyTitles (head.title.elim inside isInclude) properties
  | .array _ none => []
  | .array _ (some items) => nestedTitles inside items
  | .oneOf _ branches => nestedBranchTitles inside branches
  | .boolean _ => []
  | .primitive _ => []

def nestedBodyTitles (inside : Bool) : Option Properties → List String
  | none => []
  | some properties => nestedPropertyTitles inside properties

def nestedPropertyTitles (inside : Bool) : Properties → List String
  | [] => []
  | (_, schema) :: rest => nestedTitles inside schema ++ nestedPropertyTitles inside rest

def nestedBranchTitles (inside : Bool) : List Schema → List String
  | [] => []
  | branch :: rest => nestedTitles inside branch ++ nestedBranchTitles inside rest

end

def bodyTitles : Option Properties → List String
  | none => []
  | some properties => propertyTitles properties

theorem objectTitles_object (head : Head) (properties : Option Properties) :
    objectTitles (.object head properties) = head.title.toList ++ bodyTitles properties := by
  cases properties with
  | none => simp [objectTitles, bodyTitles]
  | some properties => simp [objectTitles, bodyTitles]

def allTitles (schemas : Components) : List String :=
  schemas.flatMap fun entry => objectTitles entry.2

def allNestedTitles (schemas : Components) : List String :=
  schemas.flatMap fun entry => nestedTitles false entry.2

/-- A placeholder in an include schema that has no component does not have the title of another
object. On the stack such an object would make a cycle of it. -/
def Unambiguous (schemas : Components) : Prop :=
  ∀ title ∈ allNestedTitles schemas, isShallow title = true →
    target title ∈ Dictionary.keys schemas ∨ target title ∉ allTitles schemas

instance (schemas : Components) : Decidable (Unambiguous schemas) :=
  inferInstanceAs (Decidable (∀ title ∈ allNestedTitles schemas, isShallow title = true →
    target title ∈ Dictionary.keys schemas ∨ target title ∉ allTitles schemas))

/-- A part of the table, with the titles in it, and a stack of titles from the table. -/
structure Part (schemas : Components) (stack : Stack) (titles nested : List String) : Prop where
  known : ∀ title ∈ stack, title ∈ Dictionary.keys schemas ∨ title ∈ allTitles schemas
  titles : titles ⊆ allTitles schemas
  nested : nested ⊆ allNestedTitles schemas

section Uniqueness

variable {schemas : Components}

theorem Part.mono {stack : Stack} {titles titles' nested nested' : List String}
    (h : Part schemas stack titles nested) (htitles : titles' ⊆ titles)
    (hnested : nested' ⊆ nested) :
    Part schemas stack titles' nested' :=
  ⟨h.known, List.Subset.trans htitles h.titles, List.Subset.trans hnested h.nested⟩

theorem Part.push {stack : Stack} {titles nested : List String}
    (h : Part schemas stack titles nested) {title : String}
    (htitle : title ∈ Dictionary.keys schemas ∨ title ∈ allTitles schemas) :
    Part schemas (title :: stack) titles nested :=
  ⟨List.forall_mem_cons.mpr ⟨htitle, h.known⟩, h.titles, h.nested⟩

/-- The properties of a component, under its name. -/
theorem Part.component {stack : Stack} {titles nested : List String}
    (h : Part schemas stack titles nested) {name : String} {head : Head} {body : Option Properties}
    (hlookup : schemas.lookup name = some (.object head body)) (htitle : head.title = some name) :
    Part schemas (name :: stack) (bodyTitles body)
    (nestedBodyTitles (includeTop (name :: stack)) body) := by
  have hmem := Dictionary.mem_of_lookup hlookup
  apply Part.mk
  · exact List.forall_mem_cons.mpr ⟨.inl (Dictionary.mem_keys.mpr ⟨_, hmem⟩), h.known⟩
  · intro title hbody
    apply List.mem_flatMap.mpr
    exact ⟨_, hmem, by simp [objectTitles_object, hbody]⟩
  · intro title hbody
    apply List.mem_flatMap.mpr
    exact ⟨_, hmem, by simpa [nestedTitles, htitle, includeTop] using hbody⟩

/-- The properties of an object of its own, under its title. -/
theorem Part.inline {stack : Stack} {head : Head} {properties : Option Properties}
    (h : Part schemas stack (objectTitles (.object head properties))
      (nestedTitles (includeTop stack) (.object head properties))) {title : String}
    (htitle : head.title = some title) :
    Part schemas (title :: stack) (bodyTitles properties)
      (nestedBodyTitles (includeTop (title :: stack)) properties) := by
  rw [objectTitles_object, nestedTitles, htitle] at h
  have hknown : title ∈ allTitles schemas := h.titles (by simp)
  exact (h.push (.inr hknown)).mono (List.subset_append_right _ _) (List.subset_append_right _ _)

theorem Part.untitled {stack : Stack} {head : Head} {properties : Option Properties}
    (h : Part schemas stack (objectTitles (.object head properties))
      (nestedTitles (includeTop stack) (.object head properties))) (htitle : head.title = none) :
    Part schemas stack (bodyTitles properties)
    (nestedBodyTitles (includeTop stack) properties) := by
  rw [objectTitles_object, nestedTitles, htitle] at h
  exact h.mono (List.subset_append_right _ _) (List.subset_append_right _ _)

theorem includeTop_of_cycle {stack : Stack} {schema : Schema} (h : cycle stack = some schema) :
    includeTop stack = true := by
  cases stack with
  | nil => cases h
  | cons top rest =>
      simp only [cycle] at h
      split at h
      · assumption
      · cases h

/-- An object whose title is on the stack. -/
theorem Expands.inv_disabled {stack : Stack} {head : Head} {properties : Option Properties}
    {result : Schema} (h : Expands schemas stack (.object head properties) result) {title : String}
    (htitle : head.title = some title) (hmem : target title ∈ stack) :
    cycle stack = some result := by
  cases h with
  | disabled _ _ hcycle => exact hcycle
  | component htitle' hmem' _ _ _ _ =>
      obtain rfl := Option.some.inj (htitle.symm.trans htitle')
      exact absurd hmem hmem'
  | inline htitle' hshallow _ hmem' _ =>
      obtain rfl := Option.some.inj (htitle.symm.trans htitle')
      rw [target_of_not_shallow hshallow] at hmem
      exact absurd hmem hmem'
  | untitled htitle' _ =>
      rw [htitle] at htitle'
      cases htitle'

/-- An object that stands for a component. -/
theorem Expands.inv_component {stack : Stack} {head other : Head}
    {properties body : Option Properties} {result : Schema}
    (h : Expands schemas stack (.object head properties) result) {title : String}
    (htitle : head.title = some title) (hmem : target title ∉ stack)
    (hlookup : schemas.lookup (target title) = some (.object other body)) :
    ∃ results, result = .object other results ∧
    ExpandsBody schemas (target title :: stack) body results := by
  cases h with
  | disabled htitle' hmem' _ =>
      obtain rfl := Option.some.inj (htitle.symm.trans htitle')
      exact absurd hmem' hmem
  | component htitle' _ hlookup' _ _ hbody =>
      obtain rfl := Option.some.inj (htitle.symm.trans htitle')
      obtain ⟨rfl, rfl⟩ := Schema.object.inj (Option.some.inj (hlookup.symm.trans hlookup'))
      exact ⟨_, rfl, hbody⟩
  | inline htitle' hshallow hmissing _ _ =>
      obtain rfl := Option.some.inj (htitle.symm.trans htitle')
      rw [target_of_not_shallow hshallow] at hlookup
      exact absurd (Dictionary.mem_keys.mpr ⟨_, Dictionary.mem_of_lookup hlookup⟩) hmissing
  | untitled htitle' _ =>
      rw [htitle] at htitle'
      cases htitle'

/-- An object of its own, with a title. -/
theorem Expands.inv_inline {stack : Stack} {head : Head} {properties : Option Properties}
    {result : Schema} (h : Expands schemas stack (.object head properties) result) {title : String}
    (htitle : head.title = some title) (hshallow : isShallow title = false)
    (hmissing : title ∉ Dictionary.keys schemas) (hmem : title ∉ stack) :
    ∃ results, result = .object head results ∧
    ExpandsBody schemas (title :: stack) properties results := by
  have htarget := target_of_not_shallow hshallow
  cases h with
  | disabled htitle' hmem' _ =>
      obtain rfl := Option.some.inj (htitle.symm.trans htitle')
      rw [htarget] at hmem'
      exact absurd hmem' hmem
  | component htitle' _ hlookup _ _ _ =>
      obtain rfl := Option.some.inj (htitle.symm.trans htitle')
      rw [htarget] at hlookup
      exact absurd (Dictionary.mem_keys.mpr ⟨_, Dictionary.mem_of_lookup hlookup⟩) hmissing
  | inline htitle' _ _ _ hbody =>
      obtain rfl := Option.some.inj (htitle.symm.trans htitle')
      exact ⟨_, rfl, hbody⟩
  | untitled htitle' _ =>
      rw [htitle] at htitle'
      cases htitle'

theorem Expands.inv_untitled {stack : Stack} {head : Head} {properties : Option Properties}
    {result : Schema} (h : Expands schemas stack (.object head properties) result)
    (htitle : head.title = none) :
    ∃ results, result = .object head results ∧ ExpandsBody schemas stack properties results := by
  cases h with
  | disabled htitle' _ _ =>
      rw [htitle] at htitle'
      cases htitle'
  | component htitle' _ _ _ _ _ =>
      rw [htitle] at htitle'
      cases htitle'
  | inline htitle' _ _ _ _ =>
      rw [htitle] at htitle'
      cases htitle'
  | untitled _ hbody => exact ⟨_, rfl, hbody⟩

/-- A placeholder without a component is expanded only where its title is on the stack. -/
theorem Expands.inv_missing {stack : Stack} {head : Head} {properties : Option Properties}
    {result : Schema} (h : Expands schemas stack (.object head properties) result) {title : String}
    (htitle : head.title = some title) (hshallow : isShallow title = true)
    (hmissing : target title ∉ Dictionary.keys schemas) :
    target title ∈ stack ∧ cycle stack = some result := by
  cases h with
  | disabled htitle' hmem hcycle =>
      obtain rfl := Option.some.inj (htitle.symm.trans htitle')
      exact ⟨hmem, hcycle⟩
  | component htitle' _ hlookup _ _ _ =>
      obtain rfl := Option.some.inj (htitle.symm.trans htitle')
      exact absurd (Dictionary.mem_keys.mpr ⟨_, Dictionary.mem_of_lookup hlookup⟩) hmissing
  | inline htitle' hshallow' _ _ _ =>
      obtain rfl := Option.some.inj (htitle.symm.trans htitle')
      rw [hshallow] at hshallow'
      cases hshallow'
  | untitled htitle' _ =>
      rw [htitle] at htitle'
      cases htitle'

/-- What is dropped is not expanded. -/
theorem Dropped.not_expands (hunambiguous : Unambiguous schemas) {stack : Stack}
    {schema result : Schema} (hdropped : Dropped (Dictionary.keys schemas) stack schema)
    (h : Part schemas stack (objectTitles schema) (nestedTitles (includeTop stack) schema)) :
    ¬ Expands schemas stack schema result := by
  induction hdropped generalizing result with
  | cyclic htitle hmem hcycle =>
      intro hexpands
      have hcycle' := hexpands.inv_disabled htitle hmem
      rw [hcycle] at hcycle'
      cases hcycle'
  | @missing head properties title htitle hshallow hmissing =>
      intro hexpands
      obtain ⟨hmem, hcycle⟩ := hexpands.inv_missing htitle hshallow hmissing
      have hnested : title ∈ allNestedTitles schemas := by
        apply h.nested
        simp [nestedTitles, includeTop_of_cycle hcycle, htitle]
      have hunknown := (hunambiguous title hnested hshallow).resolve_left hmissing
      obtain hname | htitles := h.known _ hmem
      · exact hmissing hname
      · exact hunknown htitles
  | array _ ih =>
      intro hexpands
      cases hexpands with
      | array hitems => exact ih (by simpa [objectTitles, nestedTitles] using h) hitems

mutual

theorem Expands.unique (hunambiguous : Unambiguous schemas) {stack : Stack}
    {schema result result' : Schema}
    (h : Part schemas stack (objectTitles schema) (nestedTitles (includeTop stack) schema)) :
    Expands schemas stack schema result → Expands schemas stack schema result' → result = result'
  | .disabled htitle hmem hcycle, hother =>
      Option.some.inj (hcycle.symm.trans (hother.inv_disabled htitle hmem))
  | .component htitle hmem hlookup hname _ hbody, hother => by
      obtain ⟨results, rfl, hbody'⟩ := hother.inv_component htitle hmem hlookup
      rw [hbody.unique hunambiguous (h.component hlookup hname) hbody']
  | .inline htitle hshallow hmissing hmem hbody, hother => by
      obtain ⟨results, rfl, hbody'⟩ := hother.inv_inline htitle hshallow hmissing hmem
      rw [hbody.unique hunambiguous (h.inline htitle) hbody']
  | .untitled htitle hbody, hother => by
      obtain ⟨results, rfl, hbody'⟩ := hother.inv_untitled htitle
      rw [hbody.unique hunambiguous (h.untitled htitle) hbody']
  | .anything, hother => by
      cases hother with
      | anything => rfl
  | .array hitems, hother => by
      cases hother with
      | array hitems' =>
          rw [hitems.unique hunambiguous (by simpa [objectTitles, nestedTitles] using h) hitems']
  | .oneOf hbranches, hother => by
      cases hother with
      | oneOf hbranches' =>
          rw [hbranches.unique hunambiguous
            (by simpa [objectTitles, nestedTitles] using h) hbranches']
  | .boolean, hother => by
      cases hother with
      | boolean => rfl
  | .primitive, hother => by
      cases hother with
      | primitive => rfl
termination_by structural hexpands _ => hexpands

theorem ExpandsBody.unique (hunambiguous : Unambiguous schemas) {stack : Stack}
    {properties results results' : Option Properties}
    (h : Part schemas stack (bodyTitles properties)
      (nestedBodyTitles (includeTop stack) properties)) :
    ExpandsBody schemas stack properties results → ExpandsBody schemas stack properties results' →
    results = results'
  | .bare, hother => by
      cases hother with
      | bare => rfl
  | .filled hproperties, hother => by
      cases hother with
      | filled hproperties' => rw [hproperties.unique hunambiguous h hproperties']
termination_by structural hexpands _ => hexpands

theorem ExpandsProperties.unique (hunambiguous : Unambiguous schemas) {stack : Stack}
    {properties results results' : Properties}
    (h : Part schemas stack (propertyTitles properties)
      (nestedPropertyTitles (includeTop stack) properties)) :
    ExpandsProperties schemas stack properties results →
    ExpandsProperties schemas stack properties results' →
    results = results'
  | .nil, hother => by
      cases hother with
      | nil => rfl
  | .kept hschema hrest, hother => by
      rw [propertyTitles, nestedPropertyTitles] at h
      have hfirst := h.mono (List.subset_append_left _ _) (List.subset_append_left _ _)
      have hothers := h.mono (List.subset_append_right _ _) (List.subset_append_right _ _)
      cases hother with
      | kept hschema' hrest' =>
          rw [hschema.unique hunambiguous hfirst hschema', hrest.unique hunambiguous hothers hrest']
      | dropped hschema' _ => exact absurd hschema (hschema'.not_expands hunambiguous hfirst)
  | .dropped hschema hrest, hother => by
      rw [propertyTitles, nestedPropertyTitles] at h
      have hfirst := h.mono (List.subset_append_left _ _) (List.subset_append_left _ _)
      have hothers := h.mono (List.subset_append_right _ _) (List.subset_append_right _ _)
      cases hother with
      | kept hschema' _ => exact absurd hschema' (hschema.not_expands hunambiguous hfirst)
      | dropped _ hrest' => exact hrest.unique hunambiguous hothers hrest'
termination_by structural hexpands _ => hexpands

theorem ExpandsBranches.unique (hunambiguous : Unambiguous schemas) {stack : Stack}
    {branches results results' : List Schema}
    (h : Part schemas stack (branchTitles branches)
      (nestedBranchTitles (includeTop stack) branches)) :
    ExpandsBranches schemas stack branches results →
    ExpandsBranches schemas stack branches results' →
    results = results'
  | .nil, hother => by
      cases hother with
      | nil => rfl
  | .kept hbranch hrest, hother => by
      rw [branchTitles, nestedBranchTitles] at h
      have hfirst := h.mono (List.subset_append_left _ _) (List.subset_append_left _ _)
      have hothers := h.mono (List.subset_append_right _ _) (List.subset_append_right _ _)
      cases hother with
      | kept hbranch' hrest' =>
          rw [hbranch.unique hunambiguous hfirst hbranch', hrest.unique hunambiguous hothers hrest']
      | dropped hbranch' _ => exact absurd hbranch (hbranch'.not_expands hunambiguous hfirst)
  | .dropped hbranch hrest, hother => by
      rw [branchTitles, nestedBranchTitles] at h
      have hfirst := h.mono (List.subset_append_left _ _) (List.subset_append_left _ _)
      have hothers := h.mono (List.subset_append_right _ _) (List.subset_append_right _ _)
      cases hother with
      | kept hbranch' _ => exact absurd hbranch' (hbranch.not_expands hunambiguous hfirst)
      | dropped _ hrest' => rw [hrest.unique hunambiguous hothers hrest']
termination_by structural hexpands _ => hexpands

end

end Uniqueness

section Confluence

variable {original : Components}

/-- The schema under a name that is done is determined by the table before the loop. -/
theorem Done.unique (hunambiguous : Unambiguous original) {current current' : Components}
    {name : String} {schema : Schema} (hlookup : original.lookup name = some schema)
    (h : Done original current name) (h' : Done original current' name) :
    current.lookup name = current'.lookup name := by
  obtain ⟨expanded, hexpanded, head, body, result, rfl, rfl, htitle, hbody⟩ := h schema hlookup
  obtain ⟨expanded', hexpanded', head', body', result', hobject, rfl, _, hbody'⟩ := h' _ hlookup
  obtain ⟨rfl, rfl⟩ := Schema.object.inj hobject
  have hempty : Part original [] [] [] := ⟨by simp, by simp, by simp⟩
  have hpart : Part original [name] (bodyTitles body) (nestedBodyTitles (includeTop [name]) body) :=
    hempty.component hlookup htitle
  rw [hexpanded, hexpanded', hbody.unique hunambiguous hpart hbody']

/-- Two tables in which all listed schemas are done and nothing else was touched. -/
theorem final_unique (htitled : Titled original) (hunambiguous : Unambiguous original)
    {current current' : Components} (hkeys : Dictionary.keys current = Dictionary.keys original)
    (hkeys' : Dictionary.keys current' = Dictionary.keys original)
    (hdone : ∀ name ∈ schemasWithShallowRefs, Done original current name)
    (hdone' : ∀ name ∈ schemasWithShallowRefs, Done original current' name)
    (hothers : ∀ name, name ∉ schemasWithShallowRefs → current.lookup name = original.lookup name)
    (hothers' : ∀ name, name ∉ schemasWithShallowRefs →
      current'.lookup name = original.lookup name) :
    current = current' := by
  apply Dictionary.ext_of_lookup (hkeys ▸ htitled.nodup) (hkeys.trans hkeys'.symm)
  intro name
  by_cases hname : name ∈ schemasWithShallowRefs
  · cases hlookup : original.lookup name with
    | some schema => exact (hdone name hname).unique hunambiguous hlookup (hdone' name hname)
    | none =>
        have hmissing : name ∉ Dictionary.keys original := by
          intro hmem
          obtain ⟨schema, hschema⟩ := Dictionary.mem_keys.mp hmem
          rw [Dictionary.lookup_of_mem htitled.nodup hschema] at hlookup
          cases hlookup
        rw [Dictionary.lookup_of_not_mem (hkeys ▸ hmissing),
          Dictionary.lookup_of_not_mem (hkeys' ▸ hmissing)]
  · rw [hothers name hname, hothers' name hname]

end Confluence

/-- A parameter that has been fixed has the schema of the table already. -/
theorem fixParameter_fixParameter {schemas : Components} (h : Titled schemas)
    (parameter : Parameter) :
    fixParameter schemas (fixParameter schemas parameter) = fixParameter schemas parameter := by
  cases htitle : parameter.schema.bind fun schema => schema.head.title with
  | none =>
      have hsame : fixParameter schemas parameter = parameter := by simp [fixParameter, htitle]
      rw [hsame, hsame]
  | some title =>
      by_cases hlisted : title ∈ schemasWithShallowRefs
      · cases hlookup : schemas.lookup title with
        | none =>
            have hsame : fixParameter schemas parameter = parameter := by
              simp [fixParameter, htitle, hlookup]
            rw [hsame, hsame]
        | some schema =>
            have hfixed :
                fixParameter schemas parameter = { parameter with schema := some schema } := by
              simp [fixParameter, htitle, hlisted, hlookup]
            rw [hfixed]
            simp [fixParameter, h.title_eq hlookup, hlisted, hlookup]
      · have hsame : fixParameter schemas parameter = parameter := by
          simp [fixParameter, htitle, hlisted]
        rw [hsame, hsame]

theorem fixPath_fixPath {schemas : Components} (h : Titled schemas) (item : PathItem) :
    fixPath schemas (fixPath schemas item) = fixPath schemas item := by
  have hparameters : ∀ parameters : List Parameter,
      (parameters.map (fixParameter schemas)).map (fixParameter schemas) =
        parameters.map (fixParameter schemas) := by
    intro parameters
    rw [List.map_map]
    exact List.map_congr_left fun parameter _ => fixParameter_fixParameter h parameter
  simp only [fixPath, hparameters, List.map_map, PathItem.mk.injEq, true_and]
  apply List.map_congr_left
  intro operation _
  by_cases hmethod : operation.1 ∈ httpMethods
  · simp [hmethod, fixParameter_fixParameter h]
  · simp [hmethod]

/-- The expanded specification is the same for every order of the listed names, and a second run, in
any order, leaves it as it is. -/
theorem populateShallowRefs_confluent (spec : OpenapiSpec) (htitled : Titled spec.schemas)
    (hexpandable : Expandable spec.schemas) (hunambiguous : Unambiguous spec.schemas) :
    ∃ result, ∀ (depth : Nat) (order : List String), spec.schemas.length < depth →
      order.Perm schemasWithShallowRefs →
      populateShallowRefs depth order spec = some result ∧
      populateShallowRefs depth order result = some result := by
  obtain ⟨final, hfinal, htitled', hlength⟩ :=
    exists_populate schemasWithShallowRefs htitled (Nat.lt_succ_self spec.schemas.length)
  obtain ⟨hkeys, hothers⟩ := populate_others hfinal
  obtain ⟨hprogress, hdone⟩ :=
    populate_done (List.Perm.refl _) htitled hexpandable (Progress.refl spec.schemas) hfinal
  -- A run from a table that the loop may have come to, in any order, ends in this table.
  have hrun :
      ∀ (depth : Nat) (order : List String) (current : Components), spec.schemas.length < depth →
      order.Perm schemasWithShallowRefs → Titled current → current.length = spec.schemas.length →
      Progress spec.schemas current →
      (∀ name, name ∉ schemasWithShallowRefs → current.lookup name = spec.schemas.lookup name) →
      populate depth order current = some final := by
    intro depth order current hdepth horder hcurrent hsize hreached hsame
    obtain ⟨after, hafter, -, -⟩ := exists_populate order hcurrent (hsize ▸ hdepth)
    obtain ⟨-, hothers'⟩ := populate_others hafter
    obtain ⟨hprogress', hdone'⟩ := populate_done horder htitled hexpandable hreached hafter
    rw [hafter, final_unique htitled hunambiguous hprogress'.names hkeys hdone' hdone _
      (fun name hname => hothers name hname)]
    intro name hname
    rw [hothers' name fun hmem => hname (horder.subset hmem)]
    exact hsame name hname
  refine ⟨⟨final, spec.paths.map fun entry => (entry.1, fixPath final entry.2)⟩, ?_⟩
  intro depth order hdepth horder
  constructor
  · rw [populateShallowRefs,
      hrun depth order spec.schemas hdepth horder htitled rfl (Progress.refl _) fun _ _ => rfl]
    rfl
  · rw [populateShallowRefs,
      hrun depth order final hdepth horder htitled' hlength hprogress hothers]
    simp [Function.comp_def, fixPath_fixPath htitled']

theorem includes_unambiguous : Unambiguous includes := by decide +kernel

/-- The two include schemas, and a parameter with one of them. -/
def includesSpec : OpenapiSpec :=
  { schemas := includes
    paths :=
        [("/beatmaps",
          ⟨[], [("get", [⟨some (.object ⟨some "BeatmapInclude", ""⟩ none), "in: query"⟩])]⟩)] }

theorem populateShallowRefs_confluent_includes :
    ∃ result, ∀ (depth : Nat) (order : List String), includesSpec.schemas.length < depth →
      order.Perm schemasWithShallowRefs →
      populateShallowRefs depth order includesSpec = some result ∧
        populateShallowRefs depth order result = some result :=
  populateShallowRefs_confluent includesSpec includes_titled includes_expandable
    includes_unambiguous

/-- An include schema with a placeholder that has no component, and an object of this title that the
include schema is expanded in. -/
def ambiguous : Components :=
  [("BeatmapInclude", .object ⟨some "BeatmapInclude", ""⟩ (some [
      ("extra", .object ⟨some "ExtraShallow", ""⟩ none)])),
    ("RequestInclude", .object ⟨some "RequestInclude", ""⟩ (some [
      ("extra", .object ⟨some "Extra", ""⟩
        (some [("beatmap", .object ⟨some "BeatmapIncludeShallow", ""⟩ none)]))]))]

/-- What stands at a path after two expansions. -/
def reachedAgain (order : List String) (spec : OpenapiSpec) (name : String) (path : List String) :
    Option Schema :=
  (populateShallowRefs (spec.schemas.length + 1) order spec).bind fun result =>
    reached order result name path

/-- Two orders and two runs that differ: the placeholder is dropped where the include schema was
expanded before, and disabled where it was not; a second run takes an object that stands for a
placeholder for one, and expands the items of an array. -/
theorem populateShallowRefs_order_matters :
    Titled ambiguous ∧ Titled placeholders ∧
    schemasWithShallowRefs.reverse.Perm schemasWithShallowRefs ∧
      (reached schemasWithShallowRefs ⟨ambiguous, []⟩ "RequestInclude"
        ["extra", "beatmap", "extra"]).map
        Schema.head = none ∧
      (reached schemasWithShallowRefs.reverse ⟨ambiguous, []⟩ "RequestInclude"
        ["extra", "beatmap", "extra"]).map
        Schema.head = some disabledNestedObj.head ∧
      (reached schemasWithShallowRefs ⟨placeholders, []⟩ "Beatmap" ["tag"]).map Schema.head =
        some ⟨some "TagShallow", ""⟩ ∧
      (reachedAgain schemasWithShallowRefs ⟨placeholders, []⟩ "Beatmap" ["tag"]).map Schema.head =
        none ∧
      (reached schemasWithShallowRefs ⟨placeholders, []⟩ "Beatmap" ["users"]).map Schema.head =
        some ⟨some "Users", ""⟩ ∧
      (reachedAgain schemasWithShallowRefs ⟨placeholders, []⟩ "Beatmap" ["users"]).map Schema.head =
        none :=
  ⟨⟨by decide, by decide⟩, ⟨by decide, by decide⟩,
    List.reverse_perm _, by decide +kernel, by decide +kernel,
    by decide +kernel, by decide +kernel, by decide +kernel, by decide +kernel⟩

end Graveboards.Spec
