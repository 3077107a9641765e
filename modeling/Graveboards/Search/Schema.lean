import Graveboards.Search.Filters

/-!
The whole search: one byte for the scope, one for the sections that are present, and
the sections. The bytes are read back up to their end, and the search is validated
again.
-/

namespace Graveboards.Search

open Graveboards.Library

structure SearchSchema where
  scope : Scope
  searchTerms : Option SearchTermsSchema
  sorting : Option SortingSchema
  filters : Option FiltersSchema
  deriving DecidableEq

/-- `Scope.name`. -/
def Scope.name : Scope → String
  | .beatmaps => "BEATMAPS"
  | .beatmapsets => "BEATMAPSETS"
  | .scores => "SCORES"
  | .queues => "QUEUES"
  | .requests => "REQUESTS"

namespace SearchSchema

def validateTermsScope (s : SearchSchema) : Except PyError Unit :=
  match s.searchTerms with
  | some terms => terms.fieldWeights.validateAgainstScope s.scope
  | none => .ok ()

/-- `validate_search`. -/
def construct (s : SearchSchema) : Except PyError SearchSchema := do
  validateTermsScope s
  pure s

/-- Sorting without options is falsy. -/
def truthy (sorting : Option SortingSchema) : Option SortingSchema :=
  sorting.filter fun options => !options.isEmpty

/-- The bytes of a section that is there. -/
def section? {α : Type} (part : Option α) (serialize : α → Except PyError Bytes) :
    Except PyError Bytes :=
  match part with
  | some a => serialize a
  | none => .ok []

def scopeId (scope : Scope) : Except PyError Nat :=
  match scope.id with
  | some n => .ok n
  | none => .error (.valueError ("No ScopeId exists by the name of '" ++ scope.name ++ "'"))

def serialize (P : Platform) (s : SearchSchema) : Except PyError Bytes := do
  let scopeByte ← (scopeId s.scope) >>= pack 1
  let terms ← section? s.searchTerms fun terms => terms.serialize s.scope
  let sorting ← section? (truthy s.sorting) SortingSchema.serialize
  let filters ← section? s.filters fun filters => filters.serialize P
  let presence ← pack 1
    (Decoder.mask [s.searchTerms.isSome, (truthy s.sorting).isSome, s.filters.isSome])
  pure (scopeByte ++ (presence ++ (terms ++ (sorting ++ filters))))

/-- Everything before the end is checked. -/
def sections (P : Platform) : Reader SearchSchema := do
  let header ← Decoder.unsignedPair 1
  match Scope.ofId header.1 with
  | none => .fail (.valueError (toString header.1 ++ " is not a valid ScopeId"))
  | some scope => do
      let terms ← Decoder.optional SearchTermsSchema.deserialize header.2
      let sorting ← Decoder.optional SortingSchema.deserialize (header.2 / 2)
      let filters ← Decoder.optional (FiltersSchema.deserialize P) (header.2 / 2 / 2)
      pure ⟨scope, terms, sorting, filters⟩

def deserialize (P : Platform) (data : Bytes) : Except (ReadFailure PyError) SearchSchema :=
  match (sections P).run data 0 with
  | .error e => .error e
  | .ok (s, offset) =>
      if offset = data.length then s.construct.mapError .raised
      else .error (.raised (.valueError "Unexpected trailing bytes in serialized search schema"))

/-- What validation gives: every part has passed the check of its own class. -/
structure Accepted (P : Platform) (s : SearchSchema) : Prop where
  searchTerms : ∀ terms ∈ s.searchTerms, terms.Valid s.scope
  conditions : ∀ filters ∈ s.filters, ∀ x ∈ filters.toList, ∀ fields ∈ x.2, ∀ field ∈ fields.root,
    ∃ raw, Conditions.modelValidate P raw = .ok field.2
  filters : ∀ filters ∈ s.filters, filters.construct = .ok filters

/-- The empty sorting and filter sections are dropped, the weights outside the scope are
at their defaults. -/
def normal (s : SearchSchema) : SearchSchema :=
  { scope := s.scope
    searchTerms := s.searchTerms.map fun terms => terms.normal (s.scope.categories.getD [])
    sorting := truthy s.sorting
    filters := s.filters.map FiltersSchema.normal }

def RoundTrips (P : Platform) (s : SearchSchema) : Prop :=
  ∃ data, s.serialize P = .ok data ∧ deserialize P data = .ok s.normal

/-- The scope has a number, the counts and lengths fit into a byte, every sorting option
has an order, and no category has a filtered field. -/
structure Portable (s : SearchSchema) : Prop where
  scope : s.scope ≠ .scores
  searchTerms : ∀ terms ∈ s.searchTerms, terms.Portable
  sorting : ∀ options ∈ s.sorting, SortingSchema.Portable options
  filters : ∀ filters ∈ s.filters, filters.Portable

theorem portable_sorting_iff (sorting : Option SortingSchema) :
    (∀ options ∈ sorting, SortingSchema.Portable options) ↔
      ∀ options ∈ truthy sorting, SortingSchema.Portable options := by
  cases sorting with
  | none => exact Iff.rfl
  | some options =>
      cases options with
      | nil =>
          have hempty : SortingSchema.Portable [] := ⟨by decide, by simp⟩
          simp [truthy, hempty]
      | cons option rest => simp [truthy]

theorem reads_section {α : Type} {part : Option α} {serialize : α → Except PyError Bytes}
    {reader : Reader α} (image : α → α)
    (h : ∀ a ∈ part, ∃ data, serialize a = .ok data ∧ Decoder.Reads reader data (.ok (image a)))
    {m : Nat} (hm : m % 2 = 1 ↔ part.isSome = true) :
    ∃ data, section? part serialize = .ok data ∧
      Decoder.Reads (Decoder.optional reader m) data (.ok (part.map image)) := by
  cases part with
  | none =>
      refine ⟨[], rfl, ?_⟩
      rw [Decoder.optional, if_neg (by simp [hm])]
      exact Decoder.reads_pure none
  | some a =>
      obtain ⟨data, hserialize, hreads⟩ := h a rfl
      refine ⟨data, hserialize, ?_⟩
      rw [Decoder.optional, if_pos (hm.mpr rfl)]
      exact hreads.map_ok some

theorem forall_of_section {α : Type} {part : Option α}
    {serialize : α → Except PyError Bytes} {data : Bytes} (h : section? part serialize = .ok data) :
    ∀ a ∈ part, serialize a = .ok data := by
  rintro a rfl
  exact h

/-- A portable search is written, and its bytes are read back as its normal form. -/
theorem reads_sections (P : Platform) {s : SearchSchema} (haccepted : s.Accepted P)
    (hportable : s.Portable) :
    ∃ data, s.serialize P = .ok data ∧ Decoder.Reads (sections P) data (.ok s.normal) := by
  obtain ⟨hscope, hterms, hsorting, hfilters⟩ := hportable
  rw [portable_sorting_iff] at hsorting
  obtain ⟨n, hid⟩ : ∃ n, s.scope.id = some n := by
    cases hs : s.scope <;> first | exact ⟨_, rfl⟩ | exact absurd hs hscope
  obtain ⟨categories, hcategories⟩ := Scope.exists_categories hscope
  obtain ⟨hofId, hbyte⟩ := Scope.ofId_id hid
  obtain ⟨hfirst, hothers⟩ :=
    Decoder.mask_step s.searchTerms.isSome [(truthy s.sorting).isSome, s.filters.isSome]
  obtain ⟨hsecond, hlast⟩ := Decoder.mask_step (truthy s.sorting).isSome [s.filters.isSome]
  obtain ⟨hthird, -⟩ := Decoder.mask_step s.filters.isSome []
  obtain ⟨terms, hserializeTerms, hreadTerms⟩ :=
    reads_section (fun terms => terms.normal categories)
    (fun terms h => SearchTermsSchema.reads_deserialize (haccepted.searchTerms terms h)
      (hterms terms h) hcategories)
    hfirst
  have hoptions : ∀ options ∈ truthy s.sorting, ∃ data, SortingSchema.serialize options = .ok data ∧
      Decoder.Reads SortingSchema.deserialize data (.ok (id options)) :=
    fun options h => SortingSchema.reads_deserialize (hsorting options h)
  obtain ⟨sorting, hserializeSorting, hreadSorting⟩ := reads_section id hoptions hsecond
  obtain ⟨filters, hserializeFilters, hreadFilters⟩ := reads_section FiltersSchema.normal
    (fun filters h => FiltersSchema.reads_deserialize P (hfilters filters h)) hthird
  obtain ⟨hpresence, hlt⟩ := Override.pack_mask 1
    [s.searchTerms.isSome, (truthy s.sorting).isSome, s.filters.isSome] (Nat.le_of_ble_eq_true rfl)
  have hscopeByte : (scopeId s.scope >>= pack 1) = .ok (Decoder.digits 1 n) := by
    rw [scopeId, hid]
    exact pack_of_lt hbyte
  refine ⟨Decoder.digits 1 n ++ Decoder.digits 1
    (Decoder.mask [s.searchTerms.isSome, (truthy s.sorting).isSome, s.filters.isSome]) ++
    (terms ++ (sorting ++ (filters ++ []))), ?_, ?_⟩
  · rw [serialize, hscopeByte, ok_bind, hserializeTerms, ok_bind, hserializeSorting, ok_bind,
      hserializeFilters, ok_bind, hpresence, ok_bind, List.append_nil, List.append_assoc]
    rfl
  · apply (Decoder.reads_unsignedPair hbyte hlt).then
    dsimp only
    rw [hofId, hothers, hlast]
    apply hreadTerms.then
    apply hreadSorting.then
    apply hreadFilters.then
    rw [normal, hcategories, Option.map_id_apply]
    exact Decoder.reads_pure _

theorem construct_normal {P : Platform} {s : SearchSchema} (haccepted : s.Accepted P)
    (hscope : s.scope ≠ .scores) :
    s.normal.construct = .ok s.normal := by
  obtain ⟨categories, hcategories⟩ := Scope.exists_categories hscope
  cases hterms : s.searchTerms with
  | none =>
      rw [construct, validateTermsScope, normal, hterms]
      rfl
  | some terms =>
      have hvalid := (haccepted.searchTerms terms hterms).fieldWeights
      rw [← FieldWeights.validateAgainstScope_within _ hcategories] at hvalid
      have hnormal : s.normal.searchTerms = some (terms.normal categories) := by
        rw [normal, hterms, hcategories]
        rfl
      have hscope' : (terms.normal categories).fieldWeights.validateAgainstScope s.normal.scope =
          .ok () := hvalid
      rw [construct, validateTermsScope, hnormal]
      dsimp only
      rw [hscope', ok_bind]
      rfl

theorem portable_of_serialize {P : Platform} {s : SearchSchema} {data : Bytes}
    (h : s.serialize P = .ok data) :
    s.Portable := by
  obtain ⟨scopeByte, hscope, h⟩ := bind_eq_ok h
  obtain ⟨terms, hterms, h⟩ := bind_eq_ok h
  obtain ⟨sorting, hsorting, h⟩ := bind_eq_ok h
  obtain ⟨filters, hfilters, -⟩ := bind_eq_ok h
  refine ⟨?_, ?_, (portable_sorting_iff _).mpr ?_, ?_⟩
  · intro hscores
    rw [hscores] at hscope
    cases hscope
  · exact fun t ht => SearchTermsSchema.portable_of_serialize (forall_of_section hterms t ht)
  · exact fun options ho =>
      SortingSchema.portable_of_serialize (forall_of_section hsorting options ho)
  · exact fun f hf => FiltersSchema.portable_of_serialize (forall_of_section hfilters f hf)

/-- A search survives serialization if and only if it is portable. -/
theorem round_trips_iff (P : Platform) (s : SearchSchema) (haccepted : s.Accepted P) :
    s.RoundTrips P ↔ s.Portable := by
  constructor
  · rintro ⟨data, hserialize, -⟩
    exact portable_of_serialize hserialize
  · intro hportable
    obtain ⟨data, hserialize, hreads⟩ := reads_sections P haccepted hportable
    refine ⟨data, hserialize, ?_⟩
    have hrun := hreads [] []
    rw [List.nil_append, List.append_nil] at hrun
    rw [deserialize, List.length_nil] at *
    rw [hrun]
    dsimp only
    rw [if_pos (Nat.zero_add _), construct_normal haccepted hportable.scope]
    rfl

/-- A search for one term, sorted by two fields. -/
def termSearch : SearchSchema :=
  { scope := .beatmapsets
    searchTerms :=
      some ⟨[[.char 'h', .char 'i']], true, { PatternMultipliers.defaults with exact := none },
      FieldWeights.defaults⟩
    sorting := some [⟨⟨40, by decide⟩, some .descending⟩, ⟨⟨12, by decide⟩, some .ascending⟩]
    filters := some FiltersSchema.empty }

theorem accepted_termSearch : termSearch.Accepted Platform.utc := by
  refine ⟨?_, ?_, ?_⟩
  · rintro terms ⟨⟩
    exact ⟨by decide +kernel, by decide +kernel, by decide +kernel⟩
  · rintro filters ⟨⟩ x hx fields hfields
    simp only [FiltersSchema.toList, FiltersSchema.empty, List.mem_cons, List.not_mem_nil,
      or_false] at hx
    obtain rfl | rfl | rfl | rfl | rfl := hx <;> cases hfields
  · rintro filters ⟨⟩
    rfl

theorem portable_termSearch : termSearch.Portable := by
  refine ⟨by decide, ?_, ?_, ?_⟩
  · rintro terms ⟨⟩
    exact ⟨by decide, by decide +kernel⟩
  · rintro options ⟨⟩
    exact ⟨by decide, by decide⟩
  · rintro filters ⟨⟩
    rfl

theorem round_trips_termSearch : termSearch.RoundTrips Platform.utc :=
  (round_trips_iff Platform.utc termSearch accepted_termSearch).mpr portable_termSearch

/-- Queues with the visibility 0. -/
def filteredSearch : SearchSchema :=
  { scope := .queues
    searchTerms := none
    sorting := none
    filters := some { FiltersSchema.empty with
      queue :=
        some ⟨[("visibility",
          ⟨some (.int 0), none, none, none, none, none, none, none, none, none, none⟩)],
        List.nodup_singleton _⟩ } }

/-- A filter is accepted, but cannot be written. -/
theorem filteredSearch_not_round_trips :
    filteredSearch.Accepted Platform.utc ∧ ¬ filteredSearch.RoundTrips Platform.utc := by
  refine ⟨⟨?_, ?_, ?_⟩, ?_⟩
  · rintro terms ⟨⟩
  · rintro filters ⟨⟩ x hx fields hfields field hfield
    refine ⟨fun f => if f = .eq then some (.value (.int 0)) else none, ?_⟩
    simp only [FiltersSchema.toList, FiltersSchema.empty, List.mem_cons, List.not_mem_nil,
      or_false] at hx
    obtain rfl | rfl | rfl | rfl | rfl := hx <;> cases hfields
    obtain rfl := List.mem_singleton.mp hfield
    decide +kernel
  · rintro filters ⟨⟩
    decide +kernel
  · rintro ⟨data, hserialize, -⟩
    have herror : (filteredSearch.serialize Platform.utc).toOption = none := by decide +kernel
    rw [hserialize] at herror
    cases herror

/-! Any bytes. -/

theorem allCaught_construct (s : SearchSchema) : AllCaught s.construct := by
  apply AllCaught.bind
  · unfold validateTermsScope
    split
    · exact FieldWeights.allCaught_validateAgainstScope _ _
    · exact allCaught_ok ()
  · exact fun _ => allCaught_ok s

theorem guarded_sections (P : Platform) : Guarded P (sections P) := by
  apply Guarded.bind
  · exact fun bytes => guarded_pure _
  intro header
  split
  · rfl
  apply Guarded.bind
  · exact Decoder.guarded_optional SearchTermsSchema.guarded_deserialize _
  intro terms
  apply Guarded.bind
  · exact Decoder.guarded_optional SortingSchema.guarded_deserialize _
  intro sorting
  apply Guarded.bind
  · exact Decoder.guarded_optional FiltersSchema.guarded_deserialize _
  · exact fun filters => guarded_pure _

/-- A schema is returned with all of the bytes read, or an error is raised that the
endpoint turns into a 400. -/
def Safe (P : Platform) (data : Bytes) : Prop :=
  (∃ s parts, deserialize P data = .ok s ∧ (sections P).run data 0 = .ok (parts, data.length)) ∨
    ∃ e, deserialize P data = .error (.raised e) ∧ e.isCaught = true

/-- Every field of a fixed width and every varint that the bytes call for lies within
them, every timestamp can be converted or is a ValueError, and no pattern overflows. -/
def InBounds (P : Platform) (data : Bytes) : Prop := (sections P).Clear (Noted.isFine P) data 0

theorem safe_iff (P : Platform) (data : Bytes) : Safe P data ↔ InBounds P data := by
  rw [InBounds, ← Decoder.handled_iff_clear (guarded_sections P) data 0, Safe, deserialize]
  cases hrun : (sections P).run data 0 with
  | error failure =>
      cases failure with
      | raised e => simp [Decoder.Handled]
      | short => simp [Decoder.Handled]
      | index => simp [Decoder.Handled]
  | ok result =>
      obtain ⟨parts, offset⟩ := result
      refine ⟨fun _ => trivial, fun _ => ?_⟩
      dsimp only
      split
      case isTrue hend =>
          cases hconstruct : parts.construct with
          | ok s => exact Or.inl ⟨s, parts, rfl, by rw [hend]⟩
          | error e => exact Or.inr ⟨e, rfl, allCaught_construct parts e hconstruct⟩
      case isFalse => exact Or.inr ⟨_, rfl, rfl⟩

/-- No strict part of the beginning of a search that has been written is accepted. -/
def PrefixesRejected (P : Platform) : Prop :=
  ∀ (s : SearchSchema) (data : Bytes), s.Accepted P → s.serialize P = .ok data →
    ∀ cut, cut <+: data → cut ≠ data → ∀ s', deserialize P cut ≠ .ok s'

theorem run_of_deserialize {P : Platform} {data : Bytes} {s : SearchSchema}
    (h : deserialize P data = .ok s) :
    ∃ parts, (sections P).run data 0 = .ok (parts, data.length) := by
  unfold deserialize at h
  split at h
  case h_1 => cases h
  case h_2 parts offset hrun =>
      split at h
      case isTrue hend => exact ⟨parts, hend ▸ hrun⟩
      case isFalse => cases h

theorem prefixes_rejected (P : Platform) : PrefixesRejected P := by
  intro s data haccepted hserialize cut hcut hne s' hcutRead
  obtain ⟨data', hserialize', hreads⟩ :=
    reads_sections P haccepted (portable_of_serialize hserialize)
  obtain rfl := Except.ok.inj (hserialize.symm.trans hserialize')
  obtain ⟨rest, rfl⟩ := hcut
  obtain ⟨parts, hrun⟩ := run_of_deserialize hcutRead
  have hlong := Decoder.run_append rest hrun (Nat.le_refl _)
  have hwhole := hreads [] []
  rw [List.nil_append, List.append_nil, List.length_nil, hlong] at hwhole
  have hlength : cut.length = 0 + (cut ++ rest).length := (Prod.mk.inj (Except.ok.inj hwhole)).2
  rw [List.length_append, Nat.zero_add] at hlength
  have hrest : rest = [] := List.length_eq_zero_iff.mp (by omega)
  exact hne (by rw [hrest, List.append_nil])

/-- Decoding is safe exactly on the bytes that no read leaves. -/
theorem deserialize_safe (P : Platform) (data : Bytes) :
    (Safe P data ↔ InBounds P data) ∧ PrefixesRejected P :=
  ⟨safe_iff P data, prefixes_rejected P⟩

/-- Without its last byte, the search for one term is not accepted. -/
theorem termSearch_cut : ∃ data, termSearch.serialize Platform.utc = .ok data ∧
    ∀ s, deserialize Platform.utc data.dropLast ≠ .ok s := by
  have hserialized : (termSearch.serialize Platform.utc).toOption.any (· ≠ []) = true := by
    decide +kernel
  cases hserialize : termSearch.serialize Platform.utc with
  | error e =>
      rw [hserialize] at hserialized
      cases hserialized
  | ok data =>
      rw [hserialize] at hserialized
      have hne : data ≠ [] := of_decide_eq_true hserialized
      refine ⟨data, rfl,
        (deserialize_safe Platform.utc data).2 termSearch data accepted_termSearch hserialize
        data.dropLast (List.dropLast_prefix data) fun heq => ?_⟩
      have hlength := congrArg List.length heq
      have hpos := List.length_pos_iff.mpr hne
      rw [List.length_dropLast] at hlength
      omega

/-- The header is read from no bytes. -/
theorem empty_not_safe : ¬ Safe Platform.utc [] := by
  rintro (⟨s, parts, h, -⟩ | ⟨e, h, -⟩) <;> cases h

end SearchSchema

end Graveboards.Search
