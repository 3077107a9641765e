import Graveboards.Spec.Expansion

/-!
The loop over the listed names: the table it reads is partly replaced, and what it writes is what
the schemas of the table before the loop are expanded to. -/

namespace Graveboards.Spec

open Graveboards.Library

/-- A component schema and what it is expanded to. -/
def ExpandsRoot (schemas : Components) (name : String) (schema expanded : Schema) : Prop :=
  ∃ head body result, schema = .object head body ∧ expanded = .object head result ∧
    head.title = some name ∧
    ExpandsBody schemas [name] body result

/-- The schema under a name has been replaced by what it is expanded to. -/
def Done (original current : Components) (name : String) : Prop :=
  ∀ schema, original.lookup name = some schema →
    ∃ expanded, current.lookup name = some expanded ∧ ExpandsRoot original name schema expanded

/-- A table that some schemas have been replaced in. -/
structure Progress (original current : Components) : Prop where
  names : Dictionary.keys current = Dictionary.keys original
  entries : ∀ name, current.lookup name = original.lookup name ∨ Done original current name

theorem Progress.refl (schemas : Components) : Progress schemas schemas := ⟨rfl, fun _ => .inl rfl⟩

theorem listed_not_shallow : ∀ name ∈ schemasWithShallowRefs, isShallow name = false := by
  decide +kernel

section Loop

variable {original current : Components}

theorem resolveBody_sound (htitled : Titled original) {component : String → Stack → Outcome}
    (hsound : Sound original component) {head : Head} {body result : Option Properties}
    {stack : Stack}
    (hreferable : ∀ title ∈ objectTitles (.object head body), Referable original title)
    (h : resolveBody (Dictionary.keys original) component body stack = some result) :
    ExpandsBody original stack body result := by
  cases body with
  | none =>
      cases h
      exact .bare
  | some properties =>
      obtain ⟨results, hresults, rfl⟩ := Option.map_eq_some_iff.mp h
      apply ExpandsBody.filled
      apply resolveProperties_sound htitled hsound properties stack _ hresults
      intro title htitle
      exact hreferable title (by simp [objectTitles, htitle])

/-- Whichever schemas have been replaced, under a name stands what its schema is expanded to. -/
theorem Progress.sound (h : Progress original current) (htitled : Titled original)
    (hexpandable : Expandable original) (depth : Nat) :
    Sound original (component current depth) := by
  induction depth with
  | zero =>
      intro name stack outcome head body _ _ _ houtcome
      obtain ⟨schema, _, hschema⟩ := Option.bind_eq_some_iff.mp houtcome
      cases hschema
  | succ depth ih =>
      intro name stack outcome head body hlookup htitle hname houtcome
      have hcurrent : ∃ body', current.lookup name = some (.object head body') ∧
          ∀ result,
          resolveBody (Dictionary.keys original) (component current depth) body' (name :: stack) =
            some result → ExpandsBody original (name :: stack) body result := by
        obtain hsame | hdone := h.entries name
        · refine ⟨body, hsame.trans hlookup, ?_⟩
          intro result hresult
          exact resolveBody_sound htitled ih
            (hexpandable.titles _ (Dictionary.mem_of_lookup hlookup)) hresult
        · obtain ⟨expanded, hexpanded, _, _, body', hobject, rfl, _, hbody⟩ := hdone _ hlookup
          cases hobject
          refine ⟨body', hexpanded, ?_⟩
          intro result hresult
          exact hbody.resolved ih
            ⟨by simp, List.cons_prefix_cons.mpr ⟨rfl, List.nil_prefix⟩⟩ hresult
      obtain ⟨body', hcurrent, hresolves⟩ := hcurrent
      rw [component_of_lookup hcurrent, resolveSchema_succ, h.names] at houtcome
      simp only [resolveObject, Schema.head, htitle, entering] at houtcome
      split at houtcome
      · exact .inl ⟨by assumption, (Option.some.inj houtcome).symm⟩
      · obtain ⟨result, hresult, rfl⟩ := Option.map_eq_some_iff.mp houtcome
        exact .inr ⟨by assumption, result, rfl, hresolves result hresult⟩

/-- A listed schema is replaced by what it is expanded to. -/
theorem Progress.root (h : Progress original current) (htitled : Titled original)
    (hexpandable : Expandable original) {depth : Nat} {name : String}
    (hlisted : name ∈ schemasWithShallowRefs) {raw schema : Schema} {resolved : Option Schema}
    (hraw : original.lookup name = some raw) (hlookup : current.lookup name = some schema)
    (hresolved : resolveSchema current depth schema [] = some resolved) :
    ∃ expanded, resolved = some expanded ∧ ExpandsRoot original name raw expanded := by
  have hshallow := listed_not_shallow name hlisted
  have htarget := target_of_not_shallow hshallow
  have hmem : target name ∈ Dictionary.keys original := by
    rw [htarget]
    exact Dictionary.mem_keys.mpr ⟨raw, Dictionary.mem_of_lookup hraw⟩
  obtain ⟨head, body, hobject, htitle, _⟩ :=
    exists_object htitled (hexpandable.listed name hlisted) hmem
  rw [htarget] at hobject htitle
  obtain rfl : raw = .object head body := Option.some.inj (hraw.symm.trans hobject)
  rw [← component_of_lookup hlookup] at hresolved
  obtain ⟨hstack, _⟩ | ⟨_, result, rfl, hbody⟩ :=
    h.sound htitled hexpandable depth name [] resolved head body hraw htitle hshallow hresolved
  · cases hstack
  · exact ⟨_, rfl, head, body, result, rfl, rfl, htitle, hbody⟩

theorem Done.replace {name other : String} {schema : Schema} (h : Done original current other)
    (hne : other ≠ name) : Done original (replace current name schema) other := by
  intro raw hraw
  obtain ⟨expanded, hexpanded, hroot⟩ := h raw hraw
  exact ⟨expanded, by rwa [lookup_replace_of_ne hne], hroot⟩

theorem done_replace_self {name : String} {raw expanded : Schema}
    (hname : name ∈ Dictionary.keys current) (hraw : original.lookup name = some raw)
    (h : ExpandsRoot original name raw expanded) :
    Done original (replace current name expanded) name := by
  intro schema hschema
  obtain rfl : raw = schema := Option.some.inj (hraw.symm.trans hschema)
  exact ⟨expanded, lookup_replace_self hname expanded, h⟩

theorem Progress.replace (h : Progress original current) {name : String} {expanded : Schema}
    (hdone : Done original (replace current name expanded) name) :
    Progress original (replace current name expanded) where
  names := by rw [keys_replace, h.names]
  entries := by
    intro other
    by_cases hne : other = name
    · subst hne
      exact .inr hdone
    · obtain hsame | hdone' := h.entries other
      · exact .inl (by rwa [lookup_replace_of_ne hne])
      · exact .inr (hdone'.replace hne)

/-- The whole loop: each name it has come to is done, and what was done stays done. -/
theorem Progress.populate (htitled : Titled original)
    (hexpandable : Expandable original) {depth : Nat} {order : List String}
    (horder : order ⊆ schemasWithShallowRefs) {final : Components} (h : Progress original current)
    (hfinal : populate depth order current = some final) :
    Progress original final ∧
      ∀ name, name ∈ order ∨ Done original current name → Done original final name := by
  induction order generalizing current with
  | nil =>
      cases hfinal
      exact ⟨h, fun name hname => hname.resolve_left List.not_mem_nil⟩
  | cons name rest ih =>
      obtain ⟨hlisted, hrest⟩ := List.cons_subset.mp horder
      rw [Spec.populate] at hfinal
      cases hlookup : current.lookup name with
      | none =>
          simp only [hlookup] at hfinal
          have hdone : Done original current name := by
            intro schema hschema
            have hkeys := h.names
            have hmem : name ∈ Dictionary.keys current := by
              rw [hkeys]
              exact Dictionary.mem_keys.mpr ⟨schema, Dictionary.mem_of_lookup hschema⟩
            obtain ⟨found, hfound⟩ := Dictionary.mem_keys.mp hmem
            have hsome := List.lookup_eq_none_iff.mp hlookup _ hfound
            simp at hsome
          obtain ⟨hprogress, hstays⟩ := ih hrest h hfinal
          refine ⟨hprogress, ?_⟩
          rintro other (hmem | hother)
          · obtain rfl | hmem := List.mem_cons.mp hmem
            · exact hstays _ (.inr hdone)
            · exact hstays other (.inl hmem)
          · exact hstays other (.inr hother)
      | some schema =>
          have hmem : name ∈ Dictionary.keys current :=
            Dictionary.mem_keys.mpr ⟨schema, Dictionary.mem_of_lookup hlookup⟩
          obtain ⟨raw, hraw⟩ : ∃ raw, original.lookup name = some raw := by
            have hkeys := h.names
            rw [hkeys] at hmem
            obtain ⟨raw, hraw⟩ := Dictionary.mem_keys.mp hmem
            exact ⟨raw, Dictionary.lookup_of_mem htitled.nodup hraw⟩
          simp only [hlookup] at hfinal
          cases hresolved : resolveSchema current depth schema [] with
          | none => simp [hresolved] at hfinal
          | some resolved =>
              obtain ⟨expanded, rfl, hroot⟩ :=
                h.root htitled hexpandable hlisted hraw hlookup hresolved
              simp only [hresolved] at hfinal
              have hdone := done_replace_self hmem hraw hroot
              obtain ⟨hprogress, hstays⟩ := ih hrest (h.replace hdone) hfinal
              refine ⟨hprogress, ?_⟩
              rintro other hother
              by_cases hne : other = name
              · subst hne
                exact hstays _ (.inr hdone)
              · obtain hother | hother := hother
                · exact hstays other (.inl ((List.mem_cons.mp hother).resolve_left hne))
                · exact hstays other (.inr (hother.replace hne))

end Loop

mutual

/-- No object has a title that ends in Shallow, nor one of those above it. -/
def Finished (above : Stack) : Schema → Prop
  | .object head properties =>
      (∀ title ∈ head.title, isShallow title = false ∧ title ∉ above) ∧
        FinishedBody (head.title.toList ++ above) properties
  | .array _ none => True
  | .array _ (some items) => Finished above items
  | .oneOf _ branches => FinishedBranches above branches
  | .boolean _ => True
  | .primitive _ => True

def FinishedBody (above : Stack) : Option Properties → Prop
  | none => True
  | some properties => FinishedProperties above properties

def FinishedProperties (above : Stack) : Properties → Prop
  | [] => True
  | (_, schema) :: rest => Finished above schema ∧ FinishedProperties above rest

def FinishedBranches (above : Stack) : List Schema → Prop
  | [] => True
  | branch :: rest => Finished above branch ∧ FinishedBranches above rest

end

theorem finished_cycle {stack : Stack} {schema : Schema} (h : cycle stack = some schema)
    (above : Stack) :
    Finished above schema := by
  rw [cycle_eq_some h]
  trivial

theorem finished_object {stack : Stack} {title : String} {head : Head}
    {properties : Option Properties} (htitle : head.title = some title)
    (hshallow : isShallow title = false) (hmem : title ∉ stack)
    (hbody : FinishedBody (title :: stack) properties) :
    Finished stack (.object head properties) := by
  rw [Finished, htitle]
  exact ⟨by simpa using ⟨hshallow, hmem⟩, hbody⟩

section Finished

variable {schemas : Components}

mutual

theorem Expands.finished {stack : Stack} {schema result : Schema} :
    Expands schemas stack schema result → Finished stack result
  | .disabled _ _ hcycle => finished_cycle hcycle stack
  | .component _ hmem _ hother hname hbody => finished_object hother hname hmem hbody.finished
  | .inline htitle hshallow _ hmem hbody => finished_object htitle hshallow hmem hbody.finished
  | .untitled htitle hbody => by
      rw [Finished, htitle]
      exact ⟨by simp, hbody.finished⟩
  | .anything => trivial
  | .array hitems => hitems.finished
  | .oneOf hbranches => hbranches.finished
  | .boolean => trivial
  | .primitive => trivial

theorem ExpandsBody.finished {stack : Stack} {properties result : Option Properties} :
    ExpandsBody schemas stack properties result → FinishedBody stack result
  | .bare => trivial
  | .filled hproperties => hproperties.finished

theorem ExpandsProperties.finished {stack : Stack} {properties results : Properties} :
    ExpandsProperties schemas stack properties results → FinishedProperties stack results
  | .nil => trivial
  | .kept hschema hrest => ⟨hschema.finished, hrest.finished⟩
  | .dropped _ hrest => hrest.finished

theorem ExpandsBranches.finished {stack : Stack} {branches results : List Schema} :
    ExpandsBranches schemas stack branches results → FinishedBranches stack results
  | .nil => trivial
  | .kept hbranch hrest => ⟨hbranch.finished, hrest.finished⟩
  | .dropped _ hrest => by
      cases hcycle : cycle stack with
      | none => exact hrest.finished
      | some disabled => exact ⟨finished_cycle hcycle stack, hrest.finished⟩

end

end Finished

theorem ExpandsRoot.expands {schemas : Components} {name : String} {schema expanded : Schema}
    (h : ExpandsRoot schemas name schema expanded) (hlookup : schemas.lookup name = some schema)
    (hname : isShallow name = false) : Expands schemas [] schema expanded := by
  obtain ⟨head, body, result, rfl, rfl, htitle, hbody⟩ := h
  have htarget := target_of_not_shallow hname
  exact .component htitle List.not_mem_nil (by rwa [htarget]) (by rwa [htarget]) (by rwa [htarget])
    (by rwa [htarget])

/-- What the loop writes, the names being iterated in any order. -/
theorem populate_done {depth : Nat} {order : List String}
    (horder : order.Perm schemasWithShallowRefs) {original final : Components}
    (htitled : Titled original) (hexpandable : Expandable original) {current : Components}
    (hprogress : Progress original current) (hfinal : populate depth order current = some final) :
    Progress original final ∧ ∀ name ∈ schemasWithShallowRefs, Done original final name := by
  obtain ⟨hafter, hdone⟩ := hprogress.populate htitled hexpandable horder.subset hfinal
  exact ⟨hafter, fun name hname => hdone name (.inl (horder.symm.subset hname))⟩

/-- The expansion ends and leaves the other schemas as they are. Where the objects that are expanded
stand for object schemas that are no placeholders, each listed schema is expanded to one without
placeholders and without a cycle, which lacks only what is on the stack or has no component. -/
theorem populateShallowRefs_wellFounded {depth : Nat} {order : List String}
    (horder : order.Perm schemasWithShallowRefs) (spec : OpenapiSpec)
    (htitled : Titled spec.schemas) (hdepth : spec.schemas.length < depth) :
    ∃ result, populateShallowRefs depth order spec = some result ∧
      Dictionary.keys result.schemas = Dictionary.keys spec.schemas ∧
      (∀ name, name ∉ schemasWithShallowRefs →
        result.schemas.lookup name = spec.schemas.lookup name) ∧
      (Expandable spec.schemas → ∀ name ∈ schemasWithShallowRefs, ∀ schema,
        spec.schemas.lookup name = some schema →
        ∃ expanded, result.schemas.lookup name = some expanded ∧
        Expands spec.schemas [] schema expanded ∧
          Finished [] expanded) := by
  obtain ⟨final, hfinal, -, -⟩ := exists_populate order htitled hdepth
  obtain ⟨hkeys, hothers⟩ := populate_others hfinal
  refine ⟨_, by rw [populateShallowRefs, hfinal]; rfl, hkeys, ?_, ?_⟩
  · intro name hname
    exact hothers name fun hmem => hname (horder.subset hmem)
  · intro hexpandable name hname schema hlookup
    obtain ⟨-, hdone⟩ :=
      populate_done horder htitled hexpandable (Progress.refl spec.schemas) hfinal
    obtain ⟨expanded, hexpanded, hroot⟩ := hdone name hname schema hlookup
    have hexpands := hroot.expands hlookup (listed_not_shallow name hname)
    exact ⟨expanded, hexpanded, hexpands, hexpands.finished⟩

/-- Two include schemas that refer to each other. -/
def includes : Components :=
  [("BeatmapInclude",
    .object ⟨some "BeatmapInclude", ""⟩ (some [("id", .boolean ⟨none, "default: true"⟩),
      ("beatmapset", .oneOf ⟨none, ""⟩
        [.object ⟨some "BeatmapsetIncludeShallow", ""⟩ none, .boolean ⟨none, ""⟩])])),
    ("BeatmapsetInclude", .object ⟨some "BeatmapsetInclude", ""⟩ (some [
      ("beatmaps",
        .oneOf ⟨none, ""⟩ [.object ⟨some "BeatmapIncludeShallow", ""⟩ none, .boolean ⟨none, ""⟩]),
      ("user", .object ⟨some "UserIncludeShallow", ""⟩ none)]))]

theorem includes_titled : Titled includes := ⟨by decide, by decide⟩

theorem includes_expandable : Expandable includes := ⟨by decide +kernel, by decide +kernel⟩

theorem populateShallowRefs_wellFounded_includes :
    ∃ result, populateShallowRefs 3 schemasWithShallowRefs ⟨includes, []⟩ = some result ∧
      ∀ name ∈ schemasWithShallowRefs, ∀ schema, includes.lookup name = some schema →
        ∃ expanded, result.schemas.lookup name = some expanded ∧
        Expands includes [] schema expanded ∧
          Finished [] expanded := by
  obtain ⟨result, hresult, -, -, hlisted⟩ :=
    populateShallowRefs_wellFounded (List.Perm.refl schemasWithShallowRefs) ⟨includes, []⟩
      includes_titled
      (by decide : includes.length < 3)
  exact ⟨result, hresult, hlisted includes_expandable⟩

/-- A placeholder for a component that is itself named as a placeholder, one for an array, and a
primitive that is titled as the schema it stands in. -/
def placeholders : Components :=
  [("Beatmap",
    .object ⟨some "Beatmap", ""⟩ (some [("tag", .object ⟨some "TagShallowShallow", ""⟩ none),
      ("users", .object ⟨some "UsersShallow", ""⟩ none),
      ("name", .primitive ⟨some "Beatmap", "type: string"⟩)])),
    ("TagShallow", .object ⟨some "TagShallow", ""⟩ none),
    ("Users", .array ⟨some "Users", ""⟩ (some (.object ⟨some "UserShallow", ""⟩ none)))]

/-- The schema under a property. -/
def Schema.property (name : String) : Schema → Option Schema
  | object _ (some properties) => properties.lookup name
  | _ => none

/-- The schema at a path from the table through properties. -/
def follow (schemas : Components) (name : String) (path : List String) : Option Schema :=
  path.foldl (fun schema name => schema.bind (Schema.property name)) (schemas.lookup name)

/-- What stands at such a path after the expansion. -/
def reached (order : List String) (spec : OpenapiSpec) (name : String) (path : List String) :
    Option Schema :=
  (populateShallowRefs (spec.schemas.length + 1) order spec).bind fun result =>
    follow result.schemas name path

theorem populateShallowRefs_placeholders :
    Titled placeholders ∧
      (reached schemasWithShallowRefs ⟨placeholders, []⟩ "Beatmap" ["tag"]).map objectTitles =
        some ["TagShallow"] ∧
      (reached schemasWithShallowRefs ⟨placeholders, []⟩ "Beatmap" ["users"]).map objectTitles =
        some ["UserShallow"] ∧
      (reached schemasWithShallowRefs ⟨placeholders, []⟩ "Beatmap" []).map Schema.head =
        some ⟨some "Beatmap", ""⟩ ∧
      (reached schemasWithShallowRefs ⟨placeholders, []⟩ "Beatmap" ["name"]).map Schema.head =
        some ⟨some "Beatmap", "type: string"⟩ :=
  ⟨⟨by decide, by decide⟩, by decide +kernel, by decide +kernel,
    by decide +kernel, by decide +kernel⟩

end Graveboards.Spec
