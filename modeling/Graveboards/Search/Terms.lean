import Graveboards.Library.Pages
import Graveboards.Search.Conditions

/-!
Search terms with their scoring. Multipliers and weights are signed bytes or null, and
only what differs from the defaults is written, behind one mask of the values and one
of the nulls.
-/

namespace Graveboards.Search

open Graveboards.Library

/-! Differences from the defaults. -/

/-- `none`: the default stays. -/
abbrev Override := Option (Option Int8)

namespace Override

def of (value fallback : Option Int8) : Override := if value = fallback then none else some value

theorem getD_of (value fallback : Option Int8) : (of value fallback).getD fallback = value := by
  unfold of
  split
  case isTrue heq => exact heq.symm
  case isFalse => rfl

def isValue : Override → Bool
  | some (some _) => true
  | _ => false

def isNull : Override → Bool
  | some none => true
  | _ => false

def bytes : Override → Bytes
  | some (some n) => signedByte n
  | _ => []

/-- The override of the lowest bits of the two masks. -/
def read (presence nulls : Nat) : Reader Override :=
  if presence % 2 = 1 then do return some (some (← readSignedByte))
  else if nulls % 2 = 1 then pure (some none)
  else pure none

def readAll : Nat → Nat → Nat → Reader (List Override)
  | 0, _, _ => pure []
  | n + 1, presence, nulls => do
      let override ← read presence nulls
      let rest ← readAll n (presence / 2) (nulls / 2)
      pure (override :: rest)

/-- The two masks, of `width` bytes each, and the values. -/
def unpackAll (width count : Nat) : Reader (List Override) := do
  let found ← Decoder.unsignedPair width
  readAll count found.1 found.2

def masks (overrides : List Override) : Nat × Nat :=
  (Decoder.mask (overrides.map isValue), Decoder.mask (overrides.map isNull))

def packAll (width : Nat) (overrides : List Override) : Except PyError Bytes := do
  let presence ← pack width (masks overrides).1
  let nulls ← pack width (masks overrides).2
  pure (presence ++ (nulls ++ overrides.flatMap bytes))

theorem reads_read (override : Override) {presence nulls : Nat}
    (hpresence : presence % 2 = 1 ↔ isValue override = true)
    (hnulls : nulls % 2 = 1 ↔ isNull override = true) :
    Decoder.Reads (read presence nulls) (bytes override) (.ok override) := by
  rw [read]
  match override with
  | some (some n) =>
      rw [if_pos (hpresence.mpr rfl)]
      exact (reads_signedByte n).map _
  | some none =>
      rw [if_neg (fun h => nomatch hpresence.mp h), if_pos (hnulls.mpr rfl)]
      exact Decoder.reads_pure _
  | none =>
      rw [if_neg (fun h => nomatch hpresence.mp h), if_neg (fun h => nomatch hnulls.mp h)]
      exact Decoder.reads_pure _

theorem reads_readAll (overrides : List Override) :
    Decoder.Reads (readAll overrides.length (masks overrides).1 (masks overrides).2)
    (overrides.flatMap bytes)
      (.ok overrides) := by
  induction overrides with
  | nil => exact Decoder.reads_pure []
  | cons override rest ih =>
      obtain ⟨hvalue, hvalues⟩ := Decoder.mask_step (isValue override) (rest.map isValue)
      obtain ⟨hnull, hnulls⟩ := Decoder.mask_step (isNull override) (rest.map isNull)
      have hmasks : masks (override :: rest) =
          (Decoder.mask (isValue override :: rest.map isValue),
            Decoder.mask (isNull override :: rest.map isNull)) :=
        rfl
      rw [List.flatMap_cons, List.length_cons, readAll, hmasks]
      apply (reads_read override hvalue hnull).then
      rw [hvalues, hnulls]
      exact ih.map _

theorem pack_mask (width : Nat) (bits : List Bool) (h : bits.length ≤ 8 * width) :
    pack width (Decoder.mask bits) = .ok (Decoder.digits width (Decoder.mask bits)) ∧
      Decoder.mask bits < 256 ^ width := by
  have hlt : Decoder.mask bits < 256 ^ width :=
    calc Decoder.mask bits < 2 ^ bits.length := Decoder.mask_lt bits
      _ ≤ 2 ^ (8 * width) := Nat.pow_le_pow_right (by decide) h
      _ = 256 ^ width := by rw [Nat.pow_mul]
  exact ⟨pack_of_lt hlt, hlt⟩

/-- The overrides can be written, and are read back. -/
theorem reads_unpackAll (width : Nat) (overrides : List Override)
    (h : overrides.length ≤ 8 * width) :
    ∃ data, packAll width overrides = .ok data ∧
      Decoder.Reads (unpackAll width overrides.length) data (.ok overrides) := by
  obtain ⟨hpresence, hlt⟩ := pack_mask width (overrides.map isValue) (by rwa [List.length_map])
  obtain ⟨hnulls, hlt'⟩ := pack_mask width (overrides.map isNull) (by rwa [List.length_map])
  refine ⟨_, ?_, (Decoder.reads_unsignedPair hlt hlt').then (reads_readAll overrides)⟩
  rw [packAll, masks, hpresence, hnulls, List.append_assoc]
  rfl

end Override

section Guarded

variable {P : Platform}

theorem Override.guarded_read (presence nulls : Nat) :
    Guarded P (Override.read presence nulls) := by
  unfold Override.read
  split
  · exact guarded_readSignedByte.bind fun n => guarded_pure _
  · split
    · exact guarded_pure _
    · exact guarded_pure _

theorem Override.guarded_readAll (count presence nulls : Nat) :
    Guarded P (Override.readAll count presence nulls) := by
  induction count generalizing presence nulls with
  | zero => exact guarded_pure []
  | succ count ih =>
      exact (guarded_read presence nulls).bind fun _ => (ih _ _).bind fun _ => guarded_pure _

theorem Override.guarded_unpackAll (width count : Nat) :
    Guarded P (Override.unpackAll width count) := by
  apply Guarded.bind
  · exact fun bytes => guarded_pure _
  · exact fun found => guarded_readAll count _ _

end Guarded

/-! Pattern multipliers. -/

structure PatternMultipliers where
  exact : Option Int8
  prefix_ : Option Int8
  suffix : Option Int8
  substring : Option Int8
  deriving DecidableEq

namespace PatternMultipliers

def defaults : PatternMultipliers := ⟨some 5, some 4, some 3, some 2⟩

def toList (m : PatternMultipliers) : List (Option Int8) :=
  [m.exact, m.prefix_, m.suffix, m.substring]

/-- `cls(**values)`, where what is not given has its default. -/
def ofOverrides (overrides : List Override) : PatternMultipliers :=
  match overrides with
  | [exact, pre, suffix, substring] =>
      ⟨exact.getD defaults.exact, pre.getD defaults.prefix_, suffix.getD defaults.suffix,
        substring.getD defaults.substring⟩
  | _ => defaults

/-- `at_least_one_not_null`. -/
def construct (m : PatternMultipliers) : Except PyError PatternMultipliers :=
  if m.toList.any Option.isSome then .ok m else .error (.allValuesNull "pattern_multipliers")

def overrides (m : PatternMultipliers) : List Override :=
  List.zipWith Override.of m.toList defaults.toList

def serialize (m : PatternMultipliers) : Except PyError Bytes := Override.packAll 1 m.overrides

def deserialize : Reader PatternMultipliers := do
  let overrides ← Override.unpackAll 1 4
  .ofExcept (construct (ofOverrides overrides))

theorem length_overrides (m : PatternMultipliers) : m.overrides.length = 4 := rfl

theorem ofOverrides_overrides (m : PatternMultipliers) : ofOverrides m.overrides = m := by
  simp [overrides, toList, ofOverrides, Override.getD_of]

theorem reads_deserialize (m : PatternMultipliers) :
    ∃ data, m.serialize = .ok data ∧ Decoder.Reads deserialize data m.construct := by
  obtain ⟨data, hserialize, hreads⟩ :=
    Override.reads_unpackAll 1 m.overrides (by rw [length_overrides]; decide)
  refine ⟨data, hserialize, ?_⟩
  rw [← List.append_nil data]
  apply hreads.then
  rw [ofOverrides_overrides]
  exact Decoder.reads_ofExcept m.construct

theorem allCaught_construct (m : PatternMultipliers) : AllCaught m.construct := by
  apply AllCaught.ite
  · exact allCaught_ok m
  · exact allCaught_error rfl

theorem guarded_deserialize {P : Platform} : Guarded P deserialize :=
  (Override.guarded_unpackAll 1 4).bind fun _ => guarded_ofExcept (allCaught_construct _)

end PatternMultipliers

/-! Field weights. -/

structure BeatmapFieldWeights where
  version : Option Int8
  deriving DecidableEq

structure BeatmapsetFieldWeights where
  title : Option Int8
  titleUnicode : Option Int8
  artist : Option Int8
  artistUnicode : Option Int8
  creator : Option Int8
  source : Option Int8
  tags : Option Int8
  description : Option Int8
  deriving DecidableEq

structure QueueFieldWeights where
  name : Option Int8
  description : Option Int8
  deriving DecidableEq

structure RequestFieldWeights where
  comment : Option Int8
  deriving DecidableEq

structure FieldWeights where
  beatmap : BeatmapFieldWeights
  beatmapset : BeatmapsetFieldWeights
  queue : QueueFieldWeights
  request : RequestFieldWeights
  deriving DecidableEq

namespace FieldWeights

def defaults : FieldWeights :=
  ⟨⟨some 2⟩, ⟨some 5, some 5, some 4, some 4, some 3, some 2, some 1, some 0⟩,
    ⟨some 6, some 0⟩, ⟨some 0⟩⟩

/-- The order of `FieldWeightFieldFlag`. -/
def toList (w : FieldWeights) : List (SearchableFieldCategory × Option Int8) :=
  [(.beatmap, w.beatmap.version), (.beatmapset, w.beatmapset.title),
    (.beatmapset, w.beatmapset.titleUnicode), (.beatmapset, w.beatmapset.artist),
    (.beatmapset, w.beatmapset.artistUnicode),
    (.beatmapset, w.beatmapset.creator), (.beatmapset, w.beatmapset.source),
    (.beatmapset, w.beatmapset.tags),
    (.beatmapset, w.beatmapset.description), (.queue, w.queue.name), (.queue, w.queue.description),
    (.request, w.request.comment)]

def ofOverrides (overrides : List Override) : FieldWeights :=
  match overrides with
  | [version, title, titleUnicode, artist, artistUnicode, creator, source, tags, description,
    name, description',
      comment] =>
      ⟨⟨version.getD defaults.beatmap.version⟩,
        ⟨title.getD defaults.beatmapset.title, titleUnicode.getD defaults.beatmapset.titleUnicode,
          artist.getD defaults.beatmapset.artist,
          artistUnicode.getD defaults.beatmapset.artistUnicode,
          creator.getD defaults.beatmapset.creator, source.getD defaults.beatmapset.source,
          tags.getD defaults.beatmapset.tags, description.getD defaults.beatmapset.description⟩,
        ⟨name.getD defaults.queue.name, description'.getD defaults.queue.description⟩,
        ⟨comment.getD defaults.request.comment⟩⟩
  | _ => defaults

/-- What is in the scope, the rest at its defaults. -/
def within (categories : List SearchableFieldCategory) (w : FieldWeights) : FieldWeights :=
  ⟨if categories.contains .beatmap then w.beatmap else defaults.beatmap,
    if categories.contains .beatmapset then w.beatmapset else defaults.beatmapset,
    if categories.contains .queue then w.queue else defaults.queue,
    if categories.contains .request then w.request else defaults.request⟩

def overrides (categories : List SearchableFieldCategory) (w : FieldWeights) : List Override :=
  List.zipWith (fun x y => if categories.contains x.1 then Override.of x.2 y.2 else none) w.toList
    defaults.toList

/-- `SCOPE_CATEGORIES_MAPPING[scope]` as the right side of `in`. -/
def categoriesOf (scope : Scope) : Except PyError (List SearchableFieldCategory) :=
  match scope.categories with
  | some categories => .ok categories
  | none => .error (.typeError "argument of type 'ellipsis' is not iterable")

def validateAgainstScope (w : FieldWeights) (scope : Scope) : Except PyError Unit := do
  let categories ← categoriesOf scope
  if w.toList.any fun x => categories.contains x.1 && x.2.isSome then pure ()
  else .error (.allValuesNull "field_weights")

def serialize (w : FieldWeights) (scope : Scope) : Except PyError Bytes := do
  let categories ← categoriesOf scope
  Override.packAll 2 (w.overrides categories)

def deserialize : Reader FieldWeights := do
  let overrides ← Override.unpackAll 2 12
  pure (ofOverrides overrides)

theorem length_overrides (categories : List SearchableFieldCategory) (w : FieldWeights) :
    (w.overrides categories).length = 12 := rfl

theorem ofOverrides_overrides (categories : List SearchableFieldCategory) (w : FieldWeights) :
    ofOverrides (w.overrides categories) = w.within categories := by
  cases hbeatmap : categories.contains .beatmap <;>
    cases hbeatmapset : categories.contains .beatmapset <;>
    cases hqueue : categories.contains .queue <;> cases hrequest : categories.contains .request <;>
      simp only [overrides, toList, List.zipWith, ofOverrides, within, Override.getD_of, hbeatmap,
        hbeatmapset, hqueue, hrequest, if_true, if_false, Option.getD_none, Bool.false_eq_true]

theorem reads_deserialize (w : FieldWeights) {scope : Scope}
    {categories : List SearchableFieldCategory} (hscope : scope.categories = some categories) :
    ∃ data, w.serialize scope = .ok data ∧
    Decoder.Reads deserialize data (.ok (w.within categories)) := by
  obtain ⟨data, hserialize, hreads⟩ :=
    Override.reads_unpackAll 2 (w.overrides categories) (by rw [length_overrides]; decide)
  rw [length_overrides] at hreads
  rw [← ofOverrides_overrides, deserialize]
  refine ⟨data, ?_, hreads.map_ok ofOverrides⟩
  rw [serialize, categoriesOf, hscope]
  dsimp only
  rw [ok_bind, hserialize]

/-- Only the weights in the scope count for the scope. -/
theorem validateAgainstScope_within (w : FieldWeights) {scope : Scope}
    {categories : List SearchableFieldCategory} (hscope : scope.categories = some categories) :
    (w.within categories).validateAgainstScope scope = w.validateAgainstScope scope := by
  have hany : ((w.within categories).toList.any fun x => categories.contains x.1 && x.2.isSome) =
      w.toList.any fun x => categories.contains x.1 && x.2.isSome := by
    cases hbeatmap : categories.contains .beatmap <;>
      cases hbeatmapset : categories.contains .beatmapset <;>
      cases hqueue : categories.contains .queue <;>
        cases hrequest : categories.contains .request <;>
        simp only [toList, within, List.any, hbeatmap, hbeatmapset, hqueue, hrequest, Bool.true_and,
          Bool.false_and, if_true, if_false, Bool.false_eq_true]
  simp only [validateAgainstScope, categoriesOf, hscope]
  change (if ((w.within categories).toList.any fun x => categories.contains x.1 && x.2.isSome) =
    true then _ else _) = _
  rw [hany]
  rfl

theorem allCaught_validateAgainstScope (w : FieldWeights) (scope : Scope) :
    AllCaught (w.validateAgainstScope scope) := by
  apply AllCaught.bind
  · unfold categoriesOf
    split
    · exact allCaught_ok _
    · exact allCaught_error rfl
  · intro categories
    apply AllCaught.ite
    · exact allCaught_ok ()
    · exact allCaught_error rfl

theorem guarded_deserialize {P : Platform} : Guarded P deserialize :=
  (Override.guarded_unpackAll 2 12).bind fun _ => guarded_pure _

/-- What is written does not depend on the weights outside the scope. -/
theorem overrides_within (categories : List SearchableFieldCategory) (w : FieldWeights) :
    (w.within categories).overrides categories = w.overrides categories := by
  cases hbeatmap : categories.contains .beatmap <;>
    cases hbeatmapset : categories.contains .beatmapset <;>
    cases hqueue : categories.contains .queue <;> cases hrequest : categories.contains .request <;>
      simp only [overrides, toList, List.zipWith, within, hbeatmap, hbeatmapset, hqueue, hrequest,
        if_true, if_false, Bool.false_eq_true]

/-- Weights have one encoding if and only if they agree on the scope. -/
theorem serialize_eq_iff (w w' : FieldWeights) {scope : Scope}
    {categories : List SearchableFieldCategory} (hscope : scope.categories = some categories) :
    w.serialize scope = w'.serialize scope ↔ w.within categories = w'.within categories := by
  constructor
  · intro h
    obtain ⟨data, hserialize, hreads⟩ := w.reads_deserialize hscope
    obtain ⟨data', hserialize', hreads'⟩ := w'.reads_deserialize hscope
    obtain rfl := Except.ok.inj (hserialize.symm.trans (h.trans hserialize'))
    exact (Prod.mk.inj (Except.ok.inj ((hreads [] []).symm.trans (hreads' [] [])))).1
  · intro h
    have hoverrides : w.overrides categories = w'.overrides categories := by
      rw [← overrides_within, h, overrides_within]
    rw [serialize, serialize, categoriesOf, hscope]
    dsimp only
    rw [ok_bind, ok_bind, hoverrides]

end FieldWeights

/-- The scopes that can be searched have categories: all but the scores. -/
theorem Scope.exists_categories {scope : Scope} (h : scope ≠ .scores) :
    ∃ categories, scope.categories = some categories := by
  cases scope <;> first | exact ⟨_, rfl⟩ | exact absurd rfl h

/-- All weights in the scope and all pattern multipliers are read back from their bytes, and only
weights that agree on the scope have the same bytes. -/
def DiffsRoundTrip (scope : Scope) : Prop :=
  let categories := scope.categories.getD []
  (∀ w : FieldWeights, ∃ data, w.serialize scope = .ok data ∧
      Decoder.Reads FieldWeights.deserialize data (.ok (w.within categories))) ∧
    (∀ w w' : FieldWeights, w.serialize scope = w'.serialize scope ↔
      w.within categories = w'.within categories) ∧
    ∀ m : PatternMultipliers, (∃ x ∈ m.toList, x.isSome = true) → ∃ data, m.serialize = .ok data ∧
      Decoder.Reads PatternMultipliers.deserialize data (.ok m)

theorem diffs_round_trip {scope : Scope} (hscope : scope ≠ .scores) : DiffsRoundTrip scope := by
  obtain ⟨categories, hcategories⟩ := Scope.exists_categories hscope
  rw [DiffsRoundTrip, hcategories, Option.getD_some]
  refine ⟨fun w => w.reads_deserialize hcategories,
    fun w w' => w.serialize_eq_iff w' hcategories, ?_⟩
  intro m hset
  have hconstruct : m.construct = .ok m := if_pos (List.any_eq_true.mpr hset)
  rw [← hconstruct]
  exact m.reads_deserialize

theorem diffs_round_trip_queues : DiffsRoundTrip .queues := diffs_round_trip (by decide)

/-- Weights cannot be written for the scores, which have no categories. -/
theorem scores_not_round_trip : ¬ DiffsRoundTrip .scores := by
  rintro ⟨hweights, -⟩
  obtain ⟨data, hserialize, -⟩ := hweights FieldWeights.defaults
  cases hserialize

/-! Search terms. -/

structure SearchTermsSchema where
  terms : List PyStr
  caseSensitive : Bool
  patternMultipliers : PatternMultipliers
  fieldWeights : FieldWeights
  deriving DecidableEq

def maxTermLength : Nat := 255

/-- `validate_terms`, and the constraint on the length of a term, which needs its text. -/
def validateTerms (parsed : List PyStr) : Except PyError (List PyStr) :=
  let terms := parsed.filter fun term => !term.isBlank
  if terms.isEmpty then .error (.validationError [.onlyEmptyTerms])
  else if terms.any fun term => term.encode.isNone then .error (.validationError [.termNotText])
  else if terms.any fun term => maxTermLength < term.length then
    .error (.validationError [.termTooLong])
  else .ok terms

namespace SearchTermsSchema

def construct (terms : List PyStr) (caseSensitive : Bool) (patternMultipliers : PatternMultipliers)
    (fieldWeights : FieldWeights) : Except PyError SearchTermsSchema :=
  (validateTerms terms).map fun terms => ⟨terms, caseSensitive, patternMultipliers, fieldWeights⟩

def serializeTerm (encoded : Bytes) : Except PyError Bytes := do
  let length ← pack 1 encoded.length
  pure (length ++ encoded)

def serialize (t : SearchTermsSchema) (scope : Scope) : Except PyError Bytes := do
  let encodedTerms ← t.terms.mapM encodeText
  let termCount ← pack 1 encodedTerms.length
  let termData ← encodedTerms.mapM serializeTerm
  let multipliers ← t.patternMultipliers.serialize
  let weights ← t.fieldWeights.serialize scope
  pure (termCount ++ (termData.flatten ++ (boolByte t.caseSensitive ++ (multipliers ++ weights))))

def readTerm : Reader PyStr := do
  let length ← Decoder.unsigned 1
  readText length

/-- The lowest bit of the flags. -/
def readFlags : Reader Bool := do return (← Decoder.unsigned 1) % 2 = 1

def deserialize : Reader SearchTermsSchema := do
  let termCount ← Decoder.unsigned 1
  let terms ← Decoder.replicate termCount readTerm
  let caseSensitive ← readFlags
  let patternMultipliers ← PatternMultipliers.deserialize
  let fieldWeights ← FieldWeights.deserialize
  .ofExcept (construct terms caseSensitive patternMultipliers fieldWeights)

/-- What validation gives. -/
structure Valid (t : SearchTermsSchema) (scope : Scope) : Prop where
  terms : validateTerms t.terms = .ok t.terms
  patternMultipliers : t.patternMultipliers.construct = .ok t.patternMultipliers
  fieldWeights : t.fieldWeights.validateAgainstScope scope = .ok ()

/-- The text takes at most 255 bytes. -/
def fitsByte (term : PyStr) : Bool := term.encode.any fun encoded => encoded.length < 256

/-- At most 255 terms of at most 255 bytes each. -/
def Portable (t : SearchTermsSchema) : Prop :=
  t.terms.length < 256 ∧ ∀ term ∈ t.terms, fitsByte term = true

theorem reads_term {term : PyStr} {encoded : Bytes} (hencode : term.encode = some encoded)
    (hlength : encoded.length < 256) :
    Decoder.Reads readTerm (Decoder.digits 1 encoded.length ++ encoded) (.ok term) := by
  apply (Decoder.reads_unsigned hlength).then
  exact reads_text hencode

theorem reads_flags (b : Bool) : Decoder.Reads readFlags (boolByte b) (.ok b) := by
  cases b
  · exact (Decoder.reads_unsigned (show 0 < 256 ^ 1 by decide)).map_ok _
  · exact (Decoder.reads_unsigned (show 1 < 256 ^ 1 by decide)).map_ok _

/-- The bytes of a term that has some. -/
def termBytes (term : PyStr) : Bytes :=
  let encoded := term.encode.getD []
  Decoder.digits 1 encoded.length ++ encoded

theorem reads_terms {terms : List PyStr} (hterms : ∀ term ∈ terms, fitsByte term = true) :
    Decoder.Reads (Decoder.replicate terms.length readTerm) (terms.flatMap termBytes)
    (.ok terms) := by
  have hreads : Decoder.Reads (Decoder.replicate terms.length readTerm) (terms.flatMap termBytes)
      (terms.mapM fun term => .ok term) := by
    apply Decoder.reads_replicate
    intro term hterm
    obtain ⟨encoded, hencode, hlength⟩ := (Option.any_eq_true _ _).mp (hterms term hterm)
    rw [termBytes, hencode]
    exact reads_term hencode (of_decide_eq_true hlength)
  rw [Pages.mapM_of_forall fun term _ => rfl, List.map_id'] at hreads
  exact hreads

theorem serializeTerms_ok {terms : List PyStr} (hterms : ∀ term ∈ terms, fitsByte term = true) :
    terms.mapM encodeText = .ok (terms.map fun term => term.encode.getD []) ∧
      (terms.map fun term => term.encode.getD []).mapM serializeTerm =
        .ok (terms.map termBytes) := by
  constructor
  · apply Pages.mapM_of_forall
    intro term hterm
    obtain ⟨encoded, hencode, -⟩ := (Option.any_eq_true _ _).mp (hterms term hterm)
    rw [encodeText, hencode]
    rfl
  · rw [List.mapM_map]
    apply Pages.mapM_of_forall
    intro term hterm
    obtain ⟨encoded, hencode, hlength⟩ := (Option.any_eq_true _ _).mp (hterms term hterm)
    have hlt : encoded.length < 256 ^ 1 := of_decide_eq_true hlength
    rw [Function.comp_apply, termBytes, hencode, Option.getD_some, serializeTerm, pack_of_lt hlt]
    rfl

/-- The weights outside the scope are not written. -/
def normal (t : SearchTermsSchema) (categories : List SearchableFieldCategory) :
    SearchTermsSchema :=
  { t with fieldWeights := t.fieldWeights.within categories }

theorem reads_deserialize {t : SearchTermsSchema} {scope : Scope}
    {categories : List SearchableFieldCategory} (hvalid : t.Valid scope) (hportable : t.Portable)
    (hscope : scope.categories = some categories) :
    ∃ data, t.serialize scope = .ok data ∧
    Decoder.Reads deserialize data (.ok (t.normal categories)) := by
  obtain ⟨hcount, hterms⟩ := hportable
  obtain ⟨hencoded, hdata⟩ := serializeTerms_ok hterms
  obtain ⟨multipliers, hmultipliers, hreadMultipliers⟩ := t.patternMultipliers.reads_deserialize
  obtain ⟨weights, hweights, hreadWeights⟩ := t.fieldWeights.reads_deserialize hscope
  have hpack : pack 1 (t.terms.map fun term => term.encode.getD []).length =
      .ok (Decoder.digits 1 t.terms.length) := by
    rw [List.length_map]
    exact pack_of_lt hcount
  rw [hvalid.patternMultipliers] at hreadMultipliers
  have hconstruct :
      construct t.terms t.caseSensitive t.patternMultipliers (t.fieldWeights.within categories) =
      .ok (t.normal categories) := by
    rw [construct, hvalid.terms]
    rfl
  refine ⟨Decoder.digits 1 t.terms.length ++ (t.terms.flatMap termBytes ++
    (boolByte t.caseSensitive ++ (multipliers ++ (weights ++ [])))), ?_, ?_⟩
  · rw [serialize, hencoded, ok_bind, hpack, ok_bind, hdata, ok_bind, hmultipliers, ok_bind,
      hweights, ok_bind, List.append_nil, List.flatMap_def]
    rfl
  · apply (Decoder.reads_unsigned hcount).then
    apply (reads_terms hterms).then
    apply (reads_flags t.caseSensitive).then
    apply hreadMultipliers.then
    apply hreadWeights.then
    rw [hconstruct]
    exact Decoder.reads_ofExcept (.ok (t.normal categories))

/-- What has been written fits. -/
theorem portable_of_serialize {t : SearchTermsSchema} {scope : Scope} {data : Bytes}
    (h : t.serialize scope = .ok data) : t.Portable := by
  obtain ⟨encodedTerms, hencoded, h⟩ := bind_eq_ok h
  obtain ⟨termCount, hcount, h⟩ := bind_eq_ok h
  obtain ⟨termData, hdata, -⟩ := bind_eq_ok h
  have hmap : t.terms.mapM encodeText = .ok (t.terms.map fun term => term.encode.getD []) := by
    apply Pages.mapM_of_forall
    intro term hterm
    obtain ⟨encoded, hterm⟩ := Pages.forall_of_mapM hencoded term hterm
    rw [hterm, encode_of_encodeText hterm]
    rfl
  obtain rfl := Except.ok.inj (hmap.symm.trans hencoded)
  constructor
  · have hlt := lt_of_pack hcount
    rwa [List.length_map] at hlt
  · intro term hterm
    obtain ⟨encoded, hencode⟩ := Pages.forall_of_mapM hencoded term hterm
    have hencode := encode_of_encodeText hencode
    obtain ⟨chunk, hchunk⟩ :=
      Pages.forall_of_mapM hdata (term.encode.getD []) (List.mem_map_of_mem hterm)
    obtain ⟨length, hlength, -⟩ := bind_eq_ok hchunk
    have hlt := lt_of_pack hlength
    rw [hencode, Option.getD_some] at hlt
    rw [fitsByte, hencode]
    exact decide_eq_true hlt

/-- The terms are written, and their bytes are read back wherever they stand, with the weights
outside the scope at their defaults. -/
def RoundTrips (t : SearchTermsSchema) (scope : Scope) : Prop :=
  ∃ data, t.serialize scope = .ok data ∧
    Decoder.Reads deserialize data (.ok (t.normal (scope.categories.getD [])))

theorem categories_of_valid {t : SearchTermsSchema} {scope : Scope} (hvalid : t.Valid scope) :
    ∃ categories, scope.categories = some categories := by
  apply Scope.exists_categories
  rintro rfl
  cases hvalid.fieldWeights

/-- Accepted terms survive serialization if and only if their number and their lengths in bytes
fit. -/
theorem terms_round_trip_iff {t : SearchTermsSchema} {scope : Scope} (hvalid : t.Valid scope) :
    t.RoundTrips scope ↔ t.Portable := by
  constructor
  · rintro ⟨data, hserialize, -⟩
    exact portable_of_serialize hserialize
  · intro hportable
    obtain ⟨categories, hcategories⟩ := categories_of_valid hvalid
    rw [RoundTrips, hcategories]
    exact reads_deserialize hvalid hportable hcategories

/-- One term, with a multiplier that is set to null and a weight of its own. -/
def oneTerm (term : PyStr) : SearchTermsSchema :=
  ⟨[term], true, { PatternMultipliers.defaults with exact := none },
    { FieldWeights.defaults with queue := ⟨some (-3), none⟩ }⟩

theorem valid_oneTerm {term : PyStr} (h : validateTerms [term] = .ok [term]) :
    (oneTerm term).Valid .queues :=
  ⟨h, rfl, rfl⟩

theorem round_trips_oneTerm : (oneTerm [.char 'h', .char 'é']).RoundTrips .queues ↔
    (oneTerm [.char 'h', .char 'é']).Portable :=
  terms_round_trip_iff (valid_oneTerm (by decide +kernel))

/-- A term of 128 characters that takes 256 bytes. -/
def longTerm : PyStr := List.replicate 128 (.char 'é')

theorem longTerm_not_round_trips :
    (oneTerm longTerm).Valid .queues ∧ ¬ (oneTerm longTerm).RoundTrips .queues := by
  have hvalid : (oneTerm longTerm).Valid .queues := valid_oneTerm (by decide +kernel)
  refine ⟨hvalid, ?_⟩
  rintro ⟨data, hserialize, -⟩
  have hfits := (portable_of_serialize hserialize).2 longTerm List.mem_cons_self
  revert hfits
  decide +kernel

theorem allCaught_construct (terms : List PyStr) (caseSensitive : Bool)
    (patternMultipliers : PatternMultipliers) (fieldWeights : FieldWeights) :
    AllCaught (construct terms caseSensitive patternMultipliers fieldWeights) := by
  have hterms : AllCaught (validateTerms terms) := by
    apply AllCaught.ite
    · exact allCaught_error rfl
    apply AllCaught.ite
    · exact allCaught_error rfl
    apply AllCaught.ite
    · exact allCaught_error rfl
    · exact allCaught_ok _
  exact hterms.bind fun terms => allCaught_ok _

theorem guarded_deserialize {P : Platform} : Guarded P deserialize := by
  apply (guarded_unsigned 1).bind
  intro termCount
  apply Guarded.bind
  · apply Decoder.guarded_replicate
    exact (guarded_unsigned 1).bind guarded_readText
  intro terms
  apply Guarded.bind
  · exact (guarded_unsigned 1).bind fun flags => guarded_pure _
  intro caseSensitive
  apply PatternMultipliers.guarded_deserialize.bind
  intro patternMultipliers
  apply FieldWeights.guarded_deserialize.bind
  intro fieldWeights
  exact guarded_ofExcept (allCaught_construct _ _ _ _)

end SearchTermsSchema

end Graveboards.Search
