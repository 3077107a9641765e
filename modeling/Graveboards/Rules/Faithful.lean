import Graveboards.Rules.Accepted
import Graveboards.Rules.Bounds

/-!
Exactly which accepted spellings of a child configuration decide as their
stored form does, whatever is submitted. Four kinds do not: an empty object,
which every validator refuses as missing; text for a truth value in the
storyboard and video rules, which Python takes for true; text for a tag, which
equals no tag; and an integer bound that the stored double lies on the wrong
side of.
-/

namespace Graveboards.Rules

open Library

/-! Tags. -/

/-- Raw and stored tags, one by one. -/
def TagSpellings (items ys : List Json) : Prop :=
  List.Forall₂ (fun x y => (∃ n : Int, y = .int n) ∧ (x.num? = y.num? ∨ x.isStr)) items ys

/-- The accepted spellings of the required tags. -/
theorem tagIds_stored {text : TextReaders} {entries dumped : List (String × Json)}
    (hvalid : (tagsConfig text).validate entries = .ok dumped) :
    ∃ items ys, Json.find "tag_ids" entries = some (.list items) ∧
      Json.find "tag_ids" dumped = some (.list ys) ∧ items ≠ [] ∧ TagSpellings items ys := by
  obtain ⟨v, w, hentries, hcoerce, hdumped⟩ := required_stored (tagsConfig_stable text) hvalid
    (Coercion.nonNull_check (Coercion.nonNull_list _)) (.head _)
  obtain ⟨hlist, hids⟩ := Coercion.check_eq_ok hcoerce
  obtain ⟨items, ys, rfl, rfl, helements⟩ := Coercion.list_eq_ok hlist
  refine ⟨items, ys, hentries, hdumped, ?_, helements.imp fun x y hxy => ?_⟩
  · rintro rfl
    obtain rfl : ys = [] := List.forall₂_nil_left_iff.mp helements
    cases hids
  · obtain ⟨n, rfl⟩ := Coercion.int_eq_ok text hxy
    refine ⟨⟨n, rfl⟩, ?_⟩
    rcases (int_spells hxy).2.2 with hnum | hnone
    · exact Or.inl hnum
    · cases x <;> simp_all [Json.num?, Json.isStr, Coercion.int]

section Tags

variable {items ys : List Json} (hspell : TagSpellings items ys)

include hspell

theorem tags_hashable : asSet (.list items) = .ok items ∧ asSet (.list ys) = .ok ys := by
  constructor
  · refine asSet_list fun x hx => ?_
    obtain ⟨y, -, ⟨n, rfl⟩, hnum | hstr⟩ := (exists_of_forall₂ hspell).1 x hx
    · exact hashable_of_num (by rw [hnum]; rfl)
    · cases x <;> simp_all [Json.isStr, hashable]
  · refine asSet_list fun y hy => ?_
    obtain ⟨x, -, ⟨n, rfl⟩, -⟩ := (exists_of_forall₂ hspell).2 y hy
    rfl

theorem stored_tags_numeric : ∀ y ∈ ys, y.num?.isSome := by
  intro y hy
  obtain ⟨x, -, ⟨n, rfl⟩, -⟩ := (exists_of_forall₂ hspell).2 y hy
  rfl

/-- Without text among them the raw tags compare as the stored ones do. -/
theorem tags_num_of_no_text (hno : ∀ x ∈ items, x.isStr = false) :
    List.Forall₂ (fun x y => x.num? = y.num?) items ys := by
  induction hspell with
  | nil => exact .nil
  | @cons x y xs ys hxy _ ih =>
      refine .cons ?_ (ih (fun a ha => hno a (List.mem_cons_of_mem _ ha)))
      rcases hxy.2 with hnum | hstr
      · exact hnum
      · rw [hno x List.mem_cons_self] at hstr
        cases hstr

theorem contains_stored {n : Int} (h : contains items n = true) : contains ys n = true := by
  obtain ⟨x, hx, hnum⟩ := List.any_eq_true.mp h
  obtain ⟨y, hy, -, hsame | hstr⟩ := (exists_of_forall₂ hspell).1 x hx
  · exact List.any_eq_true.mpr ⟨y, hy, by rw [← hsame]; exact hnum⟩
  · simp [num?_of_isStr hstr] at hnum

end Tags

theorem sortedRepr_mixed {items : List Json} (htext : ∃ x ∈ items, x.isStr = true)
    (hno : ¬ ∀ x ∈ items, x.isStr = true) : sortedRepr items = typeError := by
  obtain ⟨x, hx, hstr⟩ := htext
  unfold sortedRepr
  rw [if_neg (by simpa using hno), if_neg]
  simp only [List.all_eq_true, not_forall]
  exact ⟨x, hx, by simp [num?_of_isStr hstr]⟩

theorem sortedRepr_text {items : List Json} (h : ∀ x ∈ items, x.isStr = true) :
    ∃ s, sortedRepr items = .ok s :=
  ⟨_, if_pos (List.all_eq_true.mpr h)⟩

/-- The end of the text of a tag violation. -/
theorem available_violates (env : Env) (f : String → String) :
    ∃ e, (sortedRepr ((beatmapTagIds env).map Json.int) >>= fun s =>
      violate (α := Unit) "beatmap_tags" (f s)) = .error (.violation e) := by
  have hnum : ∀ y ∈ (beatmapTagIds env).map Json.int, y.num?.isSome := by
    intro y hy
    obtain ⟨n, -, rfl⟩ := List.mem_map.mp hy
    rfl
  obtain ⟨s, hs⟩ := sortedRepr_numeric hnum
  exact ⟨⟨"beatmap_tags", f s⟩, by rw [hs]; rfl⟩

/-- A required tag the beatmaps do not have. -/
def missingTags (env : Env) (required : List Json) : List Json :=
  required.filter (fun tag => !(beatmapTagIds env).any (fun n => tag.num? = some (n : Rat)))

/-- A violation whose text needs a sorted set and the tags of the beatmaps. -/
def tagViolation (env : Env) (start : String) (tags : List Json) : Except Raise Unit := do
  violate "beatmap_tags" (start ++ (← sortedRepr tags) ++ ". Available tags: " ++
    (← sortedRepr ((beatmapTagIds env).map Json.int)))

theorem tagViolation_agree (env : Env) (start : String) {tags tags' : List Json}
    (hstored : ∀ y ∈ tags', y.num?.isSome) :
    Agree (tagViolation env start tags) (tagViolation env start tags') :=
  sortedRepr_violate_agree
    (fun s => available_violates env (fun t => start ++ s ++ ". Available tags: " ++ t))
    (fun s => available_violates env (fun t => start ++ s ++ ". Available tags: " ++ t))
    (sortedRepr_numeric hstored)

theorem tagViolation_text (env : Env) (start : String) {tags : List Json}
    (htext : ∀ x ∈ tags, x.isStr = true) :
    ∃ e, tagViolation env start tags = .error (.violation e) := by
  obtain ⟨s, hs⟩ := sortedRepr_text htext
  unfold tagViolation
  rw [hs]
  exact available_violates env (fun t => start ++ s ++ ". Available tags: " ++ t)

theorem tagsAll_eq (env : Env) (required : List Json) :
    tagsAll env required = if missingTags env required = [] then .ok () else
      tagViolation env "Beatmapset is missing required tags: " (missingTags env required) := by
  unfold tagsAll
  by_cases h : missingTags env required = []
  · rw [if_pos h]
    unfold missingTags at h
    rw [if_neg (by simp [h])]
    rfl
  · rw [if_neg h, if_pos (by simpa [missingTags] using h)]
    rfl

theorem tagsAny_eq (env : Env) (required : List Json) :
    tagsAny env required = if (beatmapTagIds env).any (contains required) then .ok () else
      tagViolation env "Beatmapset does not have any of the required tags: " required := by
  unfold tagsAny
  cases (beatmapTagIds env).any (contains required) <;> rfl

theorem missingTags_eq_nil_iff {env : Env} {required : List Json} :
    missingTags env required = [] ↔
      ∀ tag ∈ required, ∃ n ∈ beatmapTagIds env, tag.num? = some (n : Rat) := by
  simp [missingTags, List.filter_eq_nil_iff]

section Tags

variable {items ys : List Json} (hspell : TagSpellings items ys)

include hspell

theorem tagsAll_agree (env : Env) (hno : ∀ x ∈ items, x.isStr = false) :
    Agree (tagsAll env items) (tagsAll env ys) := by
  have hnum := exists_of_forall₂ (tags_num_of_no_text hspell hno)
  have hmissing : missingTags env items = [] ↔ missingTags env ys = [] := by
    rw [missingTags_eq_nil_iff, missingTags_eq_nil_iff]
    constructor
    · intro h y hy
      obtain ⟨x, hx, hxy⟩ := hnum.2 y hy
      exact hxy ▸ h x hx
    · intro h x hx
      obtain ⟨y, hy, hxy⟩ := hnum.1 x hx
      exact hxy ▸ h y hy
  rw [tagsAll_eq, tagsAll_eq]
  simp only [hmissing]
  refine Agree.ite (fun _ => Agree.refl _) (fun _ => tagViolation_agree env _ fun y hy => ?_)
  exact stored_tags_numeric hspell y (List.mem_of_mem_filter hy)

/-- One tag that is not text is enough here: a mixed set cannot be sorted, so
where it would be refused Python raises. -/
theorem tagsAny_agree (env : Env) (hnot : ∃ x ∈ items, x.isStr = false) :
    Agree (tagsAny env items) (tagsAny env ys) := by
  rw [tagsAny_eq, tagsAny_eq]
  by_cases hraw : (beatmapTagIds env).any (contains items) = true
  · obtain ⟨n, hn, hcontains⟩ := List.any_eq_true.mp hraw
    rw [if_pos hraw, if_pos (List.any_eq_true.mpr ⟨n, hn, contains_stored hspell hcontains⟩)]
    exact Agree.refl _
  · rw [if_neg hraw]
    by_cases htext : ∃ x ∈ items, x.isStr = true
    · obtain ⟨x, hx, hstr⟩ := hnot
      unfold tagViolation
      rw [sortedRepr_mixed htext (fun hall => by simp [hall x hx] at hstr)]
      exact Agree.unexpected _ _
    · have hno : ∀ x ∈ items, x.isStr = false := by simpa using htext
      have hsame :
          (beatmapTagIds env).any (contains ys) = (beatmapTagIds env).any (contains items) :=
        congrArg _ (funext fun n => (contains_congr (tags_num_of_no_text hspell hno) n).symm)
      rw [hsame, if_neg hraw]
      exact tagViolation_agree env _ (stored_tags_numeric hspell)

end Tags

/-- Whether text among the tags of a configuration leaves its decisions alone. -/
def FaithfulTags (config : Json) : Prop :=
  ∀ items, config.get? "tag_ids" = some (.list items) →
    if logicOf config "any" = .str "all" then ∀ x ∈ items, x.isStr = false
    else ∃ x ∈ items, x.isStr = false

theorem tagsRestriction_agree {text : TextReaders} {entries dumped : List (String × Json)}
    (env : Env) (hvalid : (tagsConfig text).validate entries = .ok dumped)
    (htags : FaithfulTags (.dict entries)) :
    Agree (tagsRestriction env (.dict entries)).result
      (tagsRestriction env (.dict dumped)).result := by
  obtain ⟨items, ys, hentries, hdumped, hne, hspell⟩ := tagIds_stored hvalid
  have hlogic := logic_stored (tagsConfig_stable text) hvalid (.tail _ (.head _))
  have htags := htags items hentries
  have hempty : items.isEmpty = ys.isEmpty := by
    cases hspell <;> rfl
  refine beatmapRestriction_agree (ne_nil_of_find hentries) (ne_nil_of_find hdumped) env _
    fun _ => ?_
  simp only [Json.get?_dict, hentries, hdumped, Option.getD_some, (tags_hashable hspell).1,
    (tags_hashable hspell).2, bind, Except.bind, ← hlogic, hempty]
  refine Agree.ite (fun _ => Agree.refl _) fun _ => Agree.ite (fun _ => Agree.refl _) fun _ =>
    Agree.ite (fun hall => ?_) (fun hany => ?_)
  · rw [if_pos hall] at htags
    exact tagsAll_agree hspell env htags
  · rw [if_neg hany] at htags
    exact tagsAny_agree hspell env htags

/-! All types together. -/

/-- The names of the bounds that a rule compares with doubles. -/
def doubleBounds : String → Option (String × String)
  | "beatmap_star_rating" | "beatmap_ar_range" | "beatmap_od_range" | "beatmap_hp_range"
  | "beatmap_cs_range" => some ("min", "max")
  | "beatmap_bpm" => some ("min_bpm", "max_bpm")
  | _ => none

/-- An accepted child configuration whose spelling decides nothing. -/
structure Faithful (text : TextReaders) (ruleType : String) (config : Json) : Prop where
  nonempty : config ≠ .dict []
  feature : ruleType ∈ ["beatmap_storyboard", "beatmap_video"] →
    Coercion.bool text (lookup config "allowed") = .ok (.bool (lookup config "allowed").truthy)
  tags : ruleType = "beatmap_tags" → FaithfulTags config
  bounds : ∀ low high, doubleBounds ruleType = some (low, high) →
    FaithfulBounds (lookup config low) (lookup config high)
  seconds : ruleType = "beatmap_drain_range" →
    FaithfulSeconds (lookup config "min") (lookup config "max")

/-- What the schema checked of a child that is not a composite. -/
structure AcceptedLeaf (text : TextReaders) (ruleType : String) (config stored : Json) : Prop where
  allowed : ruleType ∉ compositeDisallowedChildTypes
  constructed : ∃ schema, atomicSchema text ruleType = some schema ∧
    construct schema config = .ok stored

theorem leaf_agree {text : TextReaders} {ruleType : String} {config stored : Json}
    (haccepted : AcceptedLeaf text ruleType config stored)
    (hfaithful : Faithful text ruleType config) (env : Env) :
    ∃ check, getValidator env text ruleType = some check ∧
      Agree (check config).result (check stored).result := by
  obtain ⟨schema, hschema, hconstruct⟩ := haccepted.constructed
  obtain ⟨entries, dumped, rfl, rfl, hvalid⟩ := construct_eq_ok hconstruct
  have hallowed := haccepted.allowed
  have hraw : entries ≠ [] := fun hnil => hfaithful.nonempty (congrArg Json.dict hnil)
  unfold atomicSchema at hschema
  split at hschema
  case h_22 => cases hschema
  all_goals obtain rfl := Option.some.inj hschema
  case h_1 | h_2 | h_3 => exact absurd (by simp [compositeDisallowedChildTypes]) hallowed
  case h_4 => exact ⟨_, rfl, durationRestriction_agree hraw env hvalid⟩
  case h_5 =>
    have hlow := floatBound_spells (starRatingConfig_stable text) hvalid (.head _)
    have hhigh := floatBound_spells (starRatingConfig_stable text) hvalid (.tail _ (.head _))
    exact ⟨_, rfl, starRatingRestriction_agree hraw env hvalid fun _ hvalue =>
      alike_of_faithfulBounds hlow hhigh (hfaithful.bounds _ _ rfl) hvalue⟩
  case h_10 =>
    have hlow := floatBound_spells (rangeConfig_stable text) hvalid (.head _)
    have hhigh := floatBound_spells (rangeConfig_stable text) hvalid (.tail _ (.head _))
    exact ⟨_, rfl, rangeRestriction_agree hraw env hvalid _ _ _ _ fun _ =>
      alike_of_faithfulSeconds hlow hhigh (hfaithful.seconds rfl) _⟩
  case h_6 | h_7 | h_8 | h_9 =>
    have hlow := floatBound_spells (rangeConfig_stable text) hvalid (.head _)
    have hhigh := floatBound_spells (rangeConfig_stable text) hvalid (.tail _ (.head _))
    exact ⟨_, rfl, rangeRestriction_agree hraw env hvalid _ _ _ _ fun _ =>
      alike_of_faithfulBounds hlow hhigh (hfaithful.bounds _ _ rfl) (Double.rounded _)⟩
  case h_11 =>
    have hlow := floatBound_spells (bpmConfig_stable text) hvalid (.head _)
    have hhigh := floatBound_spells (bpmConfig_stable text) hvalid (.tail _ (.head _))
    exact ⟨_, rfl, bpmRestriction_agree hraw env hvalid fun _ hvalue =>
      alike_of_faithfulBounds hlow hhigh (hfaithful.bounds _ _ rfl) hvalue⟩
  case h_12 => exact ⟨_, rfl, identifierRestriction_agree hraw env genreConfig_stable hvalid
    (.head _) _ _ _ _⟩
  case h_13 => exact ⟨_, rfl, identifierRestriction_agree hraw env languageConfig_stable hvalid
    (.head _) _ _ _ _⟩
  case h_14 => exact ⟨_, rfl, modeRestriction_agree hraw env hvalid⟩
  case h_15 => exact ⟨_, rfl, difficultyCountRestriction_agree hraw env hvalid⟩
  case h_16 =>
    exact ⟨_, rfl, featureRestriction_agree hraw env (storyboardConfig_stable text) hvalid
    (.head _) (hfaithful.feature (by simp)) _ _ _⟩
  case h_17 => exact ⟨_, rfl, featureRestriction_agree hraw env (videoConfig_stable text) hvalid
    (.head _) (hfaithful.feature (by simp)) _ _ _⟩
  case h_18 => exact ⟨_, rfl, tagsRestriction_agree env hvalid (hfaithful.tags rfl)⟩
  case h_19 => exact ⟨_, rfl, lengthRestriction_agree hraw env hvalid⟩
  case h_20 => exact ⟨_, rfl, neverRankedRestriction_agree hraw env hvalid⟩
  case h_21 => exact ⟨_, rfl, uniqueArtistTitleRestriction_agree hraw env hvalid⟩

/-- The check ended with a decision. -/
def Decided (result : Except Raise Unit) : Prop :=
  result = .ok () ∨ ∃ e, result = .error (.violation e)

/-- A submission on which two configurations of a type decide differently. -/
def Disagree (text : TextReaders) (ruleType : String) (config stored : Json) (env : Env) : Prop :=
  ∃ check, getValidator env text ruleType = some check ∧ Decided (check config).result ∧
    ¬ ((check config).result = .ok () ↔ (check stored).result = .ok ())

theorem disagree_of_violation {text : TextReaders} {ruleType : String} {config stored : Json}
    {env : Env} {check : Json → Check} {e : RuleViolation}
    (hget : getValidator env text ruleType = some check)
    (hraw : (check config).result = .error (.violation e))
    (hstored : (check stored).result = .ok ()) : Disagree text ruleType config stored env := by
  refine ⟨check, hget, Or.inr ⟨e, hraw⟩, ?_⟩
  rw [hraw, hstored]
  simp

/-- A submission of a song nobody has ranked or requested, with storyboard,
video and the given tags. -/
def taggedSubmission (ids : List Int) : Env where
  queueId := 1
  userId := 1
  beatmapset := some
    { id := 1, artist := "artist", artistUnicode := "artist", title := "title",
      titleUnicode := "title", genre := none, language := none, storyboard := true, video := true }
  beatmaps :=
    [ { version := "Normal", mode := "osu", totalLength := 90, hitLength := 80,
        difficultyRating := .ofByte 2, ar := .ofByte 5
        accuracy := .ofByte 5, drain := .ofByte 5, cs := .ofByte 4
        bpm := .ofByte 180, topTagIds := some (ids.map some) } ]
  queueName := .ok none
  search := some (fun _ _ _ => .ok [])
  requests := some (.ok [])
  normalizeText := fun _ s => s
  statefulCheck := fun _ _ => immediately (.ok ())

@[simp] theorem beatmapTagIds_taggedSubmission (ids : List Int) :
    beatmapTagIds (taggedSubmission ids) = ids := by
  simp [beatmapTagIds, taggedSubmission]

/-- An empty configuration is refused as missing. Only the osu!-backed rules
accept one, and stored with their defaults they pass. -/
theorem empty_disagree {text : TextReaders} {ruleType : String} {stored : Json}
    (haccepted : AcceptedLeaf text ruleType (.dict []) stored) :
    ∃ env, Disagree text ruleType (.dict []) stored env := by
  obtain ⟨schema, hschema, hconstruct⟩ := haccepted.constructed
  obtain ⟨entries, dumped, hnil, rfl, hvalid⟩ := construct_eq_ok hconstruct
  obtain rfl := Json.dict.inj hnil
  have hallowed := haccepted.allowed
  refine ⟨taggedSubmission [], ?_⟩
  unfold atomicSchema at hschema
  split at hschema
  case h_22 => cases hschema
  all_goals obtain rfl := Option.some.inj hschema
  case h_20 | h_21 =>
    obtain rfl := Except.ok.inj hvalid
    exact disagree_of_violation rfl rfl rfl
  case h_1 | h_2 | h_3 => exact absurd (by simp [compositeDisallowedChildTypes]) hallowed
  all_goals cases hvalid

theorem restriction_dict {entries : List (String × Json)} (hne : entries ≠ []) (ruleType : String)
    (body : Json → Check) : restriction ruleType body (.dict entries) = body (.dict entries) := by
  simp [restriction, Json.truthy, hne]

/-- A submission with the feature, on any configuration. -/
theorem featureRestriction_present {entries : List (String × Json)} {v : Json}
    (hfind : Json.find "allowed" entries = some v) {env : Env} {beatmapset : Beatmapset}
    (hset : env.beatmapset = some beatmapset) {present : Beatmapset → Bool}
    (hpresent : present beatmapset = true) (ruleType detail : String) :
    (featureRestriction env ruleType detail present (.dict entries)).result =
      if v.truthy then .ok () else violate ruleType detail := by
  simp only [featureRestriction, beatmapRestriction, restriction_dict (ne_nil_of_find hfind), hset,
    immediately, Json.get?_dict, hfind, Option.getD_some, hpresent, Bool.and_true]
  cases v.truthy <;> rfl

theorem feature_disagree {text : TextReaders} {ruleType : String} {config stored : Json}
    (haccepted : AcceptedLeaf text ruleType config stored)
    (htype : ruleType ∈ ["beatmap_storyboard", "beatmap_video"])
    (hunfaithful : Coercion.bool text (lookup config "allowed") ≠
      .ok (.bool (lookup config "allowed").truthy)) :
    ∃ env, Disagree text ruleType config stored env := by
  obtain ⟨schema, hschema, hconstruct⟩ := haccepted.constructed
  obtain ⟨entries, dumped, rfl, rfl, hvalid⟩ := construct_eq_ok hconstruct
  have hread : ∃ v b, Json.find "allowed" entries = some v ∧
      Json.find "allowed" dumped = some (.bool b) ∧ b ≠ v.truthy := by
    have hstored : ∃ v w, Json.find "allowed" entries = some v ∧ Coercion.bool text v = .ok w ∧
        Json.find "allowed" dumped = some w := by
      simp only [List.mem_cons, List.not_mem_nil, or_false] at htype
      rcases htype with rfl | rfl
      all_goals obtain rfl := Option.some.inj hschema
      · exact required_stored (storyboardConfig_stable text) hvalid (Coercion.nonNull_bool text)
          (.head _)
      · exact required_stored (videoConfig_stable text) hvalid
          (Coercion.nonNull_bool text) (.head _)
    obtain ⟨v, w, hentries, hcoerce, hdumped⟩ := hstored
    obtain ⟨b, rfl⟩ := Coercion.bool_eq_ok text hcoerce
    refine ⟨v, b, hentries, hdumped, ?_⟩
    rw [lookup, Json.get?_dict, hentries, Option.getD_some, hcoerce] at hunfaithful
    simpa using hunfaithful
  obtain ⟨v, b, hentries, hdumped, hne⟩ := hread
  have hdisagree {env : Env} {beatmapset : Beatmapset} (hset : env.beatmapset = some beatmapset)
      {present : Beatmapset → Bool} (hpresent : present beatmapset = true) (detail : String)
      (hget : getValidator env text ruleType =
        some (featureRestriction env ruleType detail present)) :
      Disagree text ruleType (.dict entries) (.dict dumped) env := by
    have hraw := featureRestriction_present hentries hset hpresent ruleType detail
    have hstored := featureRestriction_present hdumped hset hpresent ruleType detail
    refine ⟨_, hget, ?_, ?_⟩
    · rw [hraw]
      cases v.truthy
      · exact Or.inr ⟨_, rfl⟩
      · exact Or.inl rfl
    · rw [hraw, hstored]
      revert hne
      cases b <;> cases v.truthy <;> simp [Json.truthy, violate]
  refine ⟨taggedSubmission [], ?_⟩
  simp only [List.mem_cons, List.not_mem_nil, or_false] at htype
  rcases htype with rfl | rfl
  · exact hdisagree rfl rfl _ rfl
  · exact hdisagree rfl rfl _ rfl

/-- The identifiers among stored tags. -/
def storedIds (ys : List Json) : List Int :=
  ys.filterMap (fun y => match y with | .int n => some n | _ => none)

section Tags

variable {items ys : List Json} (hspell : TagSpellings items ys)

include hspell

theorem mem_storedIds {y : Json} (hy : y ∈ ys) : ∃ n ∈ storedIds ys, y = .int n := by
  obtain ⟨x, -, ⟨n, rfl⟩, -⟩ := (exists_of_forall₂ hspell).2 y hy
  exact ⟨n, List.mem_filterMap.mpr ⟨_, hy, rfl⟩, rfl⟩

/-- With every stored tag available the stored configuration passes and only
text is missing from the raw one. -/
theorem missingTags_storedIds :
    missingTags (taggedSubmission (storedIds ys)) ys = [] ∧
      missingTags (taggedSubmission (storedIds ys)) items = items.filter Json.isStr := by
  have havailable {x : Json} {n : Int} (hn : n ∈ storedIds ys)
      (hnum : x.num? = (Json.int n).num?) :
      ∃ m ∈ beatmapTagIds (taggedSubmission (storedIds ys)), x.num? = some (m : Rat) :=
    ⟨n, by simpa using hn, hnum⟩
  constructor
  · rw [missingTags_eq_nil_iff]
    intro y hy
    obtain ⟨n, hn, rfl⟩ := mem_storedIds hspell hy
    exact havailable hn rfl
  · refine List.filter_congr fun x hx => ?_
    obtain ⟨y, hy, -, hnum | hstr⟩ := (exists_of_forall₂ hspell).1 x hx
    · obtain ⟨n, hn, rfl⟩ := mem_storedIds hspell hy
      obtain ⟨m, hm, hxm⟩ := havailable hn hnum
      have hnot : x.isStr = false := by
        cases hstr : x.isStr with
        | false => rfl
        | true => simp [num?_of_isStr hstr] at hxm
      rw [hnot, List.any_eq_true.mpr ⟨m, hm, by simpa using hxm⟩]
      rfl
    · simp [hstr, num?_of_isStr hstr]

end Tags

theorem tags_disagree {text : TextReaders} {config stored : Json}
    (haccepted : AcceptedLeaf text "beatmap_tags" config stored)
    (hunfaithful : ¬ FaithfulTags config) :
    ∃ env, Disagree text "beatmap_tags" config stored env := by
  obtain ⟨schema, hschema, hconstruct⟩ := haccepted.constructed
  obtain ⟨entries, dumped, rfl, rfl, hvalid⟩ := construct_eq_ok hconstruct
  obtain rfl := Option.some.inj hschema
  obtain ⟨items, ys, hentries, hdumped, hne, hspell⟩ := tagIds_stored hvalid
  have hlogic := logic_stored (tagsConfig_stable text) hvalid (.tail _ (.head _))
  have hys : ys ≠ [] := by
    rintro rfl
    exact hne (List.forall₂_nil_right_iff.mp hspell)
  have hids : (storedIds ys).map some ≠ [] := by
    obtain ⟨y, hy⟩ := List.exists_mem_of_ne_nil ys hys
    obtain ⟨n, hn, -⟩ := mem_storedIds hspell hy
    simpa using List.ne_nil_of_mem hn
  let env := taggedSubmission (storedIds ys)
  -- both runs reach the choice between "all" and "any"
  have hrun {l : List (String × Json)} {required : List Json}
      (hfind : Json.find "tag_ids" l = some (.list required)) (hnonempty : required ≠ [])
      (hset : asSet (.list required) = .ok required) :
      (tagsRestriction env (.dict l)).result =
        if logicOf (.dict l) "any" = .str "all" then tagsAll env required
        else tagsAny env required := by
    simp only [tagsRestriction, beatmapRestriction, restriction_dict (ne_nil_of_find hfind),
      immediately, env, taggedSubmission, Json.get?_dict, hfind, Option.getD_some, hset, bind,
      Except.bind]
    rw [if_neg (by simpa using hnonempty), if_neg (by simpa using hids)]
  have hraw := hrun hentries hne (tags_hashable hspell).1
  have hstored := hrun hdumped hys (tags_hashable hspell).2
  have hviolates : ∃ e, (tagsRestriction env (.dict entries)).result = .error (.violation e) ∧
      (tagsRestriction env (.dict dumped)).result = .ok () := by
    rw [hraw, hstored, ← hlogic]
    by_cases hall : logicOf (.dict entries) "any" = .str "all"
    · rw [if_pos hall, if_pos hall, tagsAll_eq, tagsAll_eq, (missingTags_storedIds hspell).1,
        (missingTags_storedIds hspell).2]
      have htext : items.filter Json.isStr ≠ [] := fun hnil => hunfaithful fun other hother => by
        obtain rfl : items = other := by simpa [hentries] using hother
        rw [if_pos hall]
        simpa [List.filter_eq_nil_iff] using hnil
      obtain ⟨e, he⟩ := tagViolation_text env "Beatmapset is missing required tags: "
        (fun x hx => (List.mem_filter.mp hx).2 : ∀ x ∈ items.filter Json.isStr, x.isStr = true)
      exact ⟨e, by rw [if_neg htext, he], if_pos rfl⟩
    · rw [if_neg hall, if_neg hall, tagsAny_eq, tagsAny_eq]
      have htext : ∀ x ∈ items, x.isStr = true := by
        by_contra hsome
        refine hunfaithful fun other hother => ?_
        obtain rfl : items = other := by simpa [hentries] using hother
        rw [if_neg hall]
        simpa using hsome
      have hnone : ¬ (beatmapTagIds env).any (contains items) = true := by
        intro hany
        obtain ⟨n, -, hcontains⟩ := List.any_eq_true.mp hany
        obtain ⟨x, hx, hnum⟩ := List.any_eq_true.mp hcontains
        simp [num?_of_isStr (htext x hx)] at hnum
      have havailable : (beatmapTagIds env).any (contains ys) = true := by
        obtain ⟨y, hy⟩ := List.exists_mem_of_ne_nil ys hys
        obtain ⟨n, hn, rfl⟩ := mem_storedIds hspell hy
        refine List.any_eq_true.mpr ⟨n, by simpa [env] using hn, ?_⟩
        exact List.any_eq_true.mpr ⟨_, hy, by simp [Json.num?]⟩
      obtain ⟨e, he⟩ := tagViolation_text env
        "Beatmapset does not have any of the required tags: " htext
      exact ⟨e, by rw [if_neg hnone, he], if_pos havailable⟩
  obtain ⟨e, hfails, hpasses⟩ := hviolates
  exact ⟨env, disagree_of_violation rfl hfails hpasses⟩

/-! Bounds. -/

/-- A submission of one beatmap with the same value for every measure. -/
def measuredSubmission (x : Double) (seconds : Int) : Env :=
  { taggedSubmission [] with
    beatmaps :=
      [ { version := "Normal", mode := "osu", totalLength := seconds, hitLength := seconds
          difficultyRating := x, ar := x, accuracy := x, drain := x, cs := x, bpm := x
          topTagIds := none } ] }

/-- The check passes the value between the bounds, and refuses the others. -/
def Follows (outcome : Except Raise Unit) (a : Ordering) : Prop :=
  if a = .eq then outcome = .ok () else ∃ e, outcome = .error (.violation e)

theorem disagree_of_follows {text : TextReaders} {ruleType : String} {config stored : Json}
    {env : Env} {check : Json → Check} {a b : Ordering}
    (hget : getValidator env text ruleType = some check)
    (hraw : Follows (check config).result a) (hstored : Follows (check stored).result b)
    (hdiffer : ¬ (a = .eq ↔ b = .eq)) : Disagree text ruleType config stored env := by
  unfold Follows at hraw hstored
  by_cases ha : a = .eq
  · have hb : b ≠ .eq := fun hb => hdiffer (iff_of_true ha hb)
    rw [if_pos ha] at hraw
    rw [if_neg hb] at hstored
    obtain ⟨e, hstored⟩ := hstored
    refine ⟨check, hget, Or.inl hraw, ?_⟩
    rw [hraw, hstored]
    simp
  · have hb : b = .eq := by
      by_contra hb
      exact hdiffer (iff_of_false ha hb)
    rw [if_neg ha] at hraw
    rw [if_pos hb] at hstored
    obtain ⟨e, hraw⟩ := hraw
    exact disagree_of_violation hget hraw hstored

section Follows

variable {low high : Json} {value : Rat} {a : Ordering} (h : side low high value = .ok a)
  (ruleType : String) (texts : RangeTexts)

include h

theorem follows_checkValue (version : String) :
    Follows (checkValue ruleType texts low high version value) a := by
  rw [checkValue_eq_side, h]
  cases a
  · exact ⟨_, rfl⟩
  · rfl
  · exact ⟨_, rfl⟩

theorem follows_checkAll (version : String) :
    Follows (checkAll ruleType texts low high [(version, value)]) a := by
  rw [checkAll, checkValue_eq_side, h]
  cases a
  · exact ⟨_, rfl⟩
  · rfl
  · exact ⟨_, rfl⟩

theorem follows_checkAny (print : Rat → String) :
    Follows (checkAny ruleType texts low high print [value]) a := by
  rw [checkAny, anyWithin, within_eq_side, h]
  cases a
  · exact ⟨_, rfl⟩
  · rfl
  · exact ⟨_, rfl⟩

end Follows

section Measured

variable {entries : List (String × Json)} (hne : entries ≠ []) {x : Double} {seconds : Int}
  {a : Ordering}

include hne

theorem beatmapsRestriction_measured (ruleType : String) (body : Json → Except Raise Unit) :
    (beatmapsRestriction (measuredSubmission x seconds) ruleType body (.dict entries)).result =
      body (.dict entries) := by
  rw [beatmapsRestriction, beatmapRestriction, restriction_dict hne]
  rfl

theorem follows_rangeRestriction (ruleType : String) (texts : RangeTexts) (print : Rat → String)
    (valueOf : Beatmap → Rat) {value : Rat}
    (hvalue : (measuredSubmission x seconds).beatmaps.map valueOf = [value])
    (h : side (lookup (.dict entries) "min") (lookup (.dict entries) "max") value = .ok a) :
    Follows (rangeRestriction (measuredSubmission x seconds) ruleType texts print valueOf
      (.dict entries)).result a := by
  rw [rangeRestriction, beatmapsRestriction_measured hne]
  dsimp only
  split
  · obtain rfl := List.singleton_inj.mp hvalue
    exact follows_checkAll h ruleType texts _
  · rw [hvalue]
    exact follows_checkAny h ruleType texts print

theorem follows_starRatingRestriction {s : String}
    (hlogic : logicOf (.dict entries) "any" = .str s) (hs : s ∈ ["max", "min", "all", "any"])
    (h : side (lookup (.dict entries) "min") (lookup (.dict entries) "max") x.value = .ok a) :
    Follows (starRatingRestriction (measuredSubmission x seconds) (.dict entries)).result a := by
  rw [starRatingRestriction, beatmapsRestriction_measured hne]
  dsimp only
  rw [hlogic]
  simp only [List.mem_cons, List.not_mem_nil, or_false] at hs
  rcases hs with rfl | rfl | rfl | rfl
  · exact follows_checkValue h _ _ _
  · exact follows_checkValue h _ _ _
  · exact follows_checkAll h _ _ _
  · exact follows_checkAny h _ _ _

theorem follows_bpmRestriction
    (h : side (lookup (.dict entries) "min_bpm") (lookup (.dict entries) "max_bpm") x.value =
      .ok a) :
    Follows (bpmRestriction (measuredSubmission x seconds) (.dict entries)).result a := by
  have hmean : Double.mean ((measuredSubmission x seconds).beatmaps.map fun beatmap =>
      beatmap.bpm.value) = x.value := Double.mean_singleton x
  rw [bpmRestriction, beatmapsRestriction_measured hne]
  dsimp only
  split
  · rw [hmean]
    exact follows_checkValue h _ _ _
  · exact follows_checkAll h _ _ _
  · exact follows_checkAny h _ _ _

end Measured

/-- Two optional bounds that head a schema are stored in order. -/
theorem bounds_ordered {text : TextReaders} {schema : Schema} (hstable : schema.Stable)
    {entries dumped : List (String × Json)} (hvalid : schema.validate entries = .ok dumped)
    {low high lowMessage highMessage : String} {rest : List Field}
    (hfields : schema.fields =
      optionalFloat text low lowMessage :: optionalFloat text high highMessage :: rest)
    (hcheck : schema.check = validateBounds low high) (x y : Double)
    (hx : lookup (.dict dumped) low = .float x) (hy : lookup (.dict dumped) high = .float y) :
    x.value ≤ y.value := by
  obtain ⟨v, hread, hfind⟩ : ∃ v, Schema.read entries (optionalFloat text low lowMessage) = .ok v ∧
      Json.find low dumped = if v = .null then none else some v :=
    stored_field hstable hvalid (hfields ▸ List.mem_cons_self)
  obtain ⟨w, hread', hfind'⟩ :
      ∃ w, Schema.read entries (optionalFloat text high highMessage) = .ok w ∧
      Json.find high dumped = if w = .null then none else some w :=
    stored_field hstable hvalid (hfields ▸ List.mem_cons_of_mem _ List.mem_cons_self)
  have hvalue {v : Json} {z : Double}
      (h : (if v = .null then none else some v).getD .null = .float z) :
      v = .float z := by
    split at h
    · cases h
    · exact h
  rw [lookup, Json.get?_dict, hfind] at hx
  rw [lookup, Json.get?_dict, hfind'] at hy
  obtain rfl := hvalue hx
  obtain rfl := hvalue hy
  obtain ⟨-, -, hchecked, -⟩ := Schema.validate_eq_ok_iff.mp hvalid
  have hnames := hstable.names
  rw [hfields, List.map_cons, List.map_cons, List.nodup_cons] at hnames
  have hne : low ≠ high := fun heq => hnames.1 (heq ▸ List.mem_cons_self)
  rw [hcheck, hfields, Schema.record_cons hread, Schema.record_cons hread', validateBounds,
    ordered] at hchecked
  simp only [bound, optionalFloat, Json.find_cons, if_true, if_neg hne, Option.bind_some,
    Json.num?, reduceCtorEq, false_and, if_false] at hchecked
  by_contra hlt
  rw [if_pos (not_le.mp hlt)] at hchecked
  cases hchecked

/-- A value on which the bounds differ, as a measure of one beatmap. -/
theorem range_disagree {text : TextReaders} {ruleType : String}
    {entries dumped : List (String × Json)} (hraw : entries ≠ [])
    (hvalid : (rangeConfig text).validate entries = .ok dumped) {x : Double} {seconds : Int}
    {texts : RangeTexts} {print : Rat → String} {valueOf : Beatmap → Rat} {value : Rat}
    {a b : Ordering} (hget : getValidator (measuredSubmission x seconds) text ruleType =
      some (rangeRestriction (measuredSubmission x seconds) ruleType texts print valueOf))
    (hvalue : (measuredSubmission x seconds).beatmaps.map valueOf = [value])
    (ha : side (lookup (.dict entries) "min") (lookup (.dict entries) "max") value = .ok a)
    (hb : side (lookup (.dict dumped) "min") (lookup (.dict dumped) "max") value = .ok b)
    (hdiffer : ¬ (a = .eq ↔ b = .eq)) :
    Disagree text ruleType (.dict entries) (.dict dumped) (measuredSubmission x seconds) := by
  obtain ⟨s, hfind, -, -⟩ :=
    literal_stored (rangeConfig_stable text) hvalid (.tail _ (.tail _ (.head _)))
  exact disagree_of_follows hget
    (follows_rangeRestriction hraw ruleType texts print valueOf hvalue ha)
    (follows_rangeRestriction (ne_nil_of_find hfind) ruleType texts print valueOf hvalue hb) hdiffer

/-- A bound on the wrong side of its double is told from it by a beatmap that
measures as much. -/
theorem bounds_disagree {text : TextReaders} {ruleType : String} {config stored : Json}
    (haccepted : AcceptedLeaf text ruleType config stored) {low high : String}
    (hkeys : doubleBounds ruleType = some (low, high))
    (hunfaithful : ¬ FaithfulBounds (lookup config low) (lookup config high)) :
    ∃ env, Disagree text ruleType config stored env := by
  obtain ⟨schema, hschema, hconstruct⟩ := haccepted.constructed
  obtain ⟨entries, dumped, rfl, rfl, hvalid⟩ := construct_eq_ok hconstruct
  have hraw : entries ≠ [] := by
    rintro rfl
    exact hunfaithful faithfulBounds_null
  unfold doubleBounds at hkeys
  split at hkeys
  all_goals cases hkeys
  all_goals obtain rfl := Option.some.inj hschema
  case h_1 =>
    have hstable := starRatingConfig_stable text
    obtain ⟨s, hfind, hgiven, hs⟩ := literal_stored hstable hvalid (.tail _ (.tail _ (.head _)))
    have hs : s ∈ ["max", "min", "all", "any"] := hs.elim (fun h => h ▸ by simp) id
    obtain ⟨-, x, a, -, hside, ha, hstored⟩ := exists_unlike_of_not_faithfulBounds
      (floatBound_spells hstable hvalid (.head _))
      (floatBound_spells hstable hvalid (.tail _ (.head _)))
      (bounds_ordered hstable hvalid rfl rfl) hunfaithful
    have hlogic : logicOf (.dict dumped) "any" = .str s := by
      rw [logicOf, Json.get?_dict, hfind, Option.getD_some]
    exact ⟨measuredSubmission x 0, disagree_of_follows rfl
      (follows_starRatingRestriction hraw hgiven hs hside)
      (follows_starRatingRestriction (ne_nil_of_find hfind) hlogic hs hstored) (by simp [ha])⟩
  case h_6 =>
    have hstable := bpmConfig_stable text
    obtain ⟨s, hfind, -, -⟩ := literal_stored hstable hvalid (.tail _ (.tail _ (.head _)))
    obtain ⟨-, x, a, -, hside, ha, hstored⟩ := exists_unlike_of_not_faithfulBounds
      (floatBound_spells hstable hvalid (.head _))
      (floatBound_spells hstable hvalid (.tail _ (.head _)))
      (bounds_ordered hstable hvalid rfl rfl) hunfaithful
    exact ⟨measuredSubmission x 0, disagree_of_follows rfl (follows_bpmRestriction hraw hside)
      (follows_bpmRestriction (ne_nil_of_find hfind) hstored) (by simp [ha])⟩
  case h_2 | h_3 | h_4 | h_5 =>
    have hstable := rangeConfig_stable text
    obtain ⟨-, x, a, -, hside, ha, hstored⟩ := exists_unlike_of_not_faithfulBounds
      (floatBound_spells hstable hvalid (.head _))
      (floatBound_spells hstable hvalid (.tail _ (.head _)))
      (bounds_ordered hstable hvalid rfl rfl) hunfaithful
    exact ⟨measuredSubmission x 0, range_disagree hraw hvalid rfl rfl hside hstored (by simp [ha])⟩

theorem seconds_disagree {text : TextReaders} {config stored : Json}
    (haccepted : AcceptedLeaf text "beatmap_drain_range" config stored)
    (hunfaithful : ¬ FaithfulSeconds (lookup config "min") (lookup config "max")) :
    ∃ env, Disagree text "beatmap_drain_range" config stored env := by
  obtain ⟨schema, hschema, hconstruct⟩ := haccepted.constructed
  obtain ⟨entries, dumped, rfl, rfl, hvalid⟩ := construct_eq_ok hconstruct
  have hraw : entries ≠ [] := by
    rintro rfl
    exact hunfaithful faithfulSeconds_null
  obtain rfl := Option.some.inj hschema
  have hstable := rangeConfig_stable text
  obtain ⟨seconds, a, b, hside, hstored, hdiffer⟩ := exists_unlike_of_not_faithfulSeconds
    (floatBound_spells hstable hvalid (.head _))
    (floatBound_spells hstable hvalid (.tail _ (.head _)))
    (bounds_ordered hstable hvalid rfl rfl) hunfaithful
  exact ⟨measuredSubmission .zero seconds,
    range_disagree hraw hvalid rfl rfl hside hstored hdiffer⟩

/-- Exactly the faithful spellings decide as their stored form on every
submission. -/
theorem leaf_agrees_iff_faithful {text : TextReaders} {ruleType : String} {config stored : Json}
    (haccepted : AcceptedLeaf text ruleType config stored) :
    (∀ env, ¬ Disagree text ruleType config stored env) ↔ Faithful text ruleType config := by
  constructor
  · intro h
    refine ⟨?_, fun htype => ?_, ?_, fun low high hkeys => ?_, ?_⟩
    · rintro rfl
      obtain ⟨env, hdisagree⟩ := empty_disagree haccepted
      exact h env hdisagree
    · by_contra hunfaithful
      obtain ⟨env, hdisagree⟩ := feature_disagree haccepted htype hunfaithful
      exact h env hdisagree
    · rintro rfl
      by_contra hunfaithful
      obtain ⟨env, hdisagree⟩ := tags_disagree haccepted hunfaithful
      exact h env hdisagree
    · by_contra hunfaithful
      obtain ⟨env, hdisagree⟩ := bounds_disagree haccepted hkeys hunfaithful
      exact h env hdisagree
    · rintro rfl
      by_contra hunfaithful
      obtain ⟨env, hdisagree⟩ := seconds_disagree haccepted hunfaithful
      exact h env hdisagree
  · rintro hfaithful env ⟨check, hget, hdecided, hdiffer⟩
    obtain ⟨check', hget', hagree⟩ := leaf_agree haccepted hfaithful env
    obtain rfl : check' = check := Option.some.inj (hget'.symm.trans hget)
    rcases hagree with ⟨exception, hraw⟩ | ⟨e, e', hraw, hstored⟩ | hsame
    · rcases hdecided with hok | ⟨e, he⟩
      · rw [hraw] at hok
        cases hok
      · rw [hraw] at he
        cases he
    · rw [hraw, hstored] at hdiffer
      simp at hdiffer
    · rw [hsame] at hdiffer
      exact hdiffer Iff.rfl

end Graveboards.Rules
