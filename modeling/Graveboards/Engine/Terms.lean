import Graveboards.Engine.World
import Graveboards.Library.Like

/-!
The filter for search terms: the roots for which every term is contained in the
text of some field with a weight, of some row that the scope leads to.
-/

namespace Graveboards.Engine

open Library Library.Relational Scores Search

variable {α : Type} (w : World α)

/-- Which rows of a category a root has for the search terms. -/
inductive TermReaches : Scope → SearchableFieldCategory → Int → Int → Prop where
  | beatmap (b : Int) (hb : b ∈ w.ids .beatmap) : TermReaches .beatmaps .beatmap b b
  | setOfBeatmap (b s : Int) (hb : b ∈ w.ids .beatmap) (hlink : (b, s) ∈ w.links)
      (hs : s ∈ w.ids .beatmapset) : TermReaches .beatmaps .beatmapset b s
  | beatmapOfSet (s b : Int) (hs : s ∈ w.ids .beatmapset) (hlink : (b, s) ∈ w.links)
      (hb : b ∈ w.ids .beatmap) : TermReaches .beatmapsets .beatmap s b
  | beatmapset (s : Int) (hs : s ∈ w.ids .beatmapset) : TermReaches .beatmapsets .beatmapset s s
  | queue (q : Int) (hq : q ∈ w.ids .queue) : TermReaches .queues .queue q q
  | requestOfQueue (q r : Int) (hq : q ∈ w.ids .queue) (hr : r ∈ w.ids .request)
      (hqueue : (w.request r).queue_id = q) : TermReaches .queues .request q r
  | request (r : Int) (hr : r ∈ w.ids .request) : TermReaches .requests .request r r
  /-- Any snapshot of the beatmapset that is requested. -/
  | setOfRequest (r s : Int) (hr : r ∈ w.ids .request) (hs : s ∈ w.ids .beatmapset)
      (hsame : (w.beatmapset s).beatmapset_id = (w.request r).beatmapset_id) :
      TermReaches .requests .beatmapset r s
  | beatmapOfRequest (r s b : Int) (hset : TermReaches .requests .beatmapset r s)
      (hlink : (b, s) ∈ w.links) (hb : b ∈ w.ids .beatmap) : TermReaches .requests .beatmap r b
  | throughRequest (q r x : Int) (category : SearchableFieldCategory)
      (hcategory : category = .beatmap ∨ category = .beatmapset)
      (hr : TermReaches .queues .request q r) (hx : TermReaches .requests category r x) :
      TermReaches .queues category q x

section Joins

variable {w} {rows : Joins Int} {root x : Int}

@[simp] theorem mem_beatmapsetsOfBeatmaps :
    (root, x) ∈ w.beatmapsetsOfBeatmaps rows ↔
      ∃ b, (root, b) ∈ rows ∧ (b, x) ∈ w.links ∧ x ∈ w.ids .beatmapset := by
  simp only [World.beatmapsetsOfBeatmaps, Joins.mem_follow, decide_eq_true_eq]
  constructor
  · rintro ⟨⟨b, s⟩, ⟨b', hrow, hlink, rfl⟩, hs, rfl⟩
    exact ⟨b, hrow, hlink, hs⟩
  · rintro ⟨b, hrow, hlink, hs⟩
    exact ⟨(b, x), ⟨b, hrow, hlink, rfl⟩, hs, rfl⟩

@[simp] theorem mem_beatmapsOfBeatmapsets :
    (root, x) ∈ w.beatmapsOfBeatmapsets rows ↔
      ∃ s, (root, s) ∈ rows ∧ (x, s) ∈ w.links ∧ x ∈ w.ids .beatmap := by
  simp only [World.beatmapsOfBeatmapsets, Joins.mem_follow, decide_eq_true_eq]
  constructor
  · rintro ⟨⟨b, s⟩, ⟨s', hrow, hlink, rfl⟩, hb, rfl⟩
    exact ⟨s, hrow, hlink, hb⟩
  · rintro ⟨s, hrow, hlink, hb⟩
    exact ⟨(x, s), ⟨s, hrow, hlink, rfl⟩, hb, rfl⟩

@[simp] theorem mem_requestsOfQueues :
    (root, x) ∈ w.requestsOfQueues rows ↔
      ∃ q, (root, q) ∈ rows ∧ x ∈ w.ids .request ∧ (w.request x).queue_id = q := by
  simp [World.requestsOfQueues]

@[simp] theorem mem_snapshotsOfRequests :
    (root, x) ∈ w.snapshotsOfRequests rows ↔ ∃ r, (root, r) ∈ rows ∧ x ∈ w.ids .beatmapset ∧
      (w.beatmapset x).beatmapset_id = (w.request r).beatmapset_id := by
  simp [World.snapshotsOfRequests]

end Joins

/-- The joins of `get_filter_stmt` lead to these rows. -/
theorem mem_termRows {scope : Scope} {category : SearchableFieldCategory} {root x : Int} :
    (root, x) ∈ w.termRows scope category ↔ TermReaches w scope category root x := by
  constructor
  · intro h
    cases scope with
    | beatmaps =>
        cases category with
        | beatmap =>
            obtain ⟨rfl, hb⟩ := (w.mem_roots).mp h
            exact .beatmap x hb
        | beatmapset =>
            obtain ⟨b, hroot, hlink, hs⟩ := mem_beatmapsetsOfBeatmaps.mp h
            obtain ⟨rfl, hb⟩ := (w.mem_roots).mp hroot
            exact .setOfBeatmap b x hb hlink hs
        | _ => cases h
    | beatmapsets =>
        cases category with
        | beatmap =>
            obtain ⟨s, hroot, hlink, hb⟩ := mem_beatmapsOfBeatmapsets.mp h
            obtain ⟨rfl, hs⟩ := (w.mem_roots).mp hroot
            exact .beatmapOfSet s x hs hlink hb
        | beatmapset =>
            obtain ⟨rfl, hs⟩ := (w.mem_roots).mp h
            exact .beatmapset x hs
        | _ => cases h
    | scores => cases h
    | queues =>
        have hrequest {r : Int} (hr : (root, r) ∈ w.requestsOfQueues (w.roots .queue)) :
            TermReaches w .queues .request root r := by
          obtain ⟨q, hroot, hrequest, hqueue⟩ := mem_requestsOfQueues.mp hr
          obtain ⟨rfl, hq⟩ := (w.mem_roots).mp hroot
          exact .requestOfQueue q r hq hrequest hqueue
        have hset {s : Int}
            (hs : (root, s) ∈ w.snapshotsOfRequests (w.requestsOfQueues (w.roots .queue))) :
            ∃ r, TermReaches w .queues .request root r ∧
            TermReaches w .requests .beatmapset r s := by
          obtain ⟨r, hr, hs, hsame⟩ := mem_snapshotsOfRequests.mp hs
          obtain ⟨q, -, hrmem, -⟩ := mem_requestsOfQueues.mp hr
          exact ⟨r, hrequest hr, .setOfRequest r s hrmem hs hsame⟩
        cases category with
        | profile => cases h
        | beatmap =>
            obtain ⟨s, hs, hlink, hb⟩ := mem_beatmapsOfBeatmapsets.mp h
            obtain ⟨r, hr, hs⟩ := hset hs
            exact .throughRequest root r x .beatmap (.inl rfl) hr
              (.beatmapOfRequest r s x hs hlink hb)
        | beatmapset =>
            obtain ⟨r, hr, hs⟩ := hset h
            exact .throughRequest root r x .beatmapset (.inr rfl) hr hs
        | queue =>
            obtain ⟨rfl, hq⟩ := (w.mem_roots).mp h
            exact .queue x hq
        | request => exact hrequest h
    | requests =>
        have hset {s : Int} (hs : (root, s) ∈ w.snapshotsOfRequests (w.roots .request)) :
            TermReaches w .requests .beatmapset root s := by
          obtain ⟨r, hroot, hset, hsame⟩ := mem_snapshotsOfRequests.mp hs
          obtain ⟨rfl, hr⟩ := (w.mem_roots).mp hroot
          exact .setOfRequest r s hr hset hsame
        cases category with
        | beatmap =>
            obtain ⟨s, hs, hlink, hb⟩ := mem_beatmapsOfBeatmapsets.mp h
            exact .beatmapOfRequest root s x (hset hs) hlink hb
        | beatmapset => exact hset h
        | request =>
            obtain ⟨rfl, hr⟩ := (w.mem_roots).mp h
            exact .request x hr
        | _ => cases h
  · intro h
    induction h with
    | beatmap b hb => exact (w.mem_roots).mpr ⟨rfl, hb⟩
    | setOfBeatmap b s hb hlink hs =>
        exact mem_beatmapsetsOfBeatmaps.mpr ⟨b, (w.mem_roots).mpr ⟨rfl, hb⟩, hlink, hs⟩
    | beatmapOfSet s b hs hlink hb =>
        exact mem_beatmapsOfBeatmapsets.mpr ⟨s, (w.mem_roots).mpr ⟨rfl, hs⟩, hlink, hb⟩
    | beatmapset s hs => exact (w.mem_roots).mpr ⟨rfl, hs⟩
    | queue q hq => exact (w.mem_roots).mpr ⟨rfl, hq⟩
    | requestOfQueue q r hq hr hqueue =>
        exact mem_requestsOfQueues.mpr ⟨q, (w.mem_roots).mpr ⟨rfl, hq⟩, hr, hqueue⟩
    | request r hr => exact (w.mem_roots).mpr ⟨rfl, hr⟩
    | setOfRequest r s hr hs hsame =>
        exact mem_snapshotsOfRequests.mpr ⟨r, (w.mem_roots).mpr ⟨rfl, hr⟩, hs, hsame⟩
    | beatmapOfRequest r s b _ hlink hb ih =>
        exact mem_beatmapsOfBeatmapsets.mpr ⟨s, ih, hlink, hb⟩
    | throughRequest q r x category hcategory _ _ ihr ihx =>
        rcases hcategory with rfl | rfl
        · obtain ⟨s, hs, hlink, hb⟩ := mem_beatmapsOfBeatmapsets.mp ihx
          obtain ⟨r', hroot, hset, hsame⟩ := mem_snapshotsOfRequests.mp hs
          obtain ⟨rfl, -⟩ := (w.mem_roots).mp hroot
          exact mem_beatmapsOfBeatmapsets.mpr
            ⟨s, mem_snapshotsOfRequests.mpr ⟨r', ihr, hset, hsame⟩, hlink, hb⟩
        · obtain ⟨r', hroot, hset, hsame⟩ := mem_snapshotsOfRequests.mp ihx
          obtain ⟨rfl, -⟩ := (w.mem_roots).mp hroot
          exact mem_snapshotsOfRequests.mpr ⟨r', ihr, hset, hsame⟩

/-! The filter. -/

section Filter

variable (search : SearchTermsSchema) (scope : Scope)

/-- `f"%{term}%"` -/
def pattern (term : PyStr) : PyStr := percent ++ (term ++ percent)

/-- `getattr(target, like_operator)(pattern)`, which is not true of a null. -/
def likes (category : SearchableFieldCategory) (field : String) (term : PyStr) (id : Int) : Bool :=
  ((w.table category).target field id).any fun text =>
    w.like search.caseSensitive text (pattern term)

def getFilterStmt (category : SearchableFieldCategory) (field : String) (term : PyStr) : List Int :=
  (((w.termRows scope category).filter fun x => likes w search category field term x.2).map
    Prod.fst).dedup

/-- The statements of a term, one for each field with a weight. -/
def termQueries (categories : List SearchableFieldCategory) (term : PyStr) : List (List Int) :=
  categories.flatMap fun category => (search.fieldWeights.ofCategory category).filterMap fun x =>
    x.2.map fun _ => getFilterStmt w search scope category x.1 term

/-- `union_all` of the statements; there is no table for a term without any. -/
def termCte (categories : List SearchableFieldCategory) (term : PyStr) : Option (List Int) :=
  let queries := termQueries w search scope categories term
  if queries.isEmpty then none else some queries.flatten

/-- `exists().where(term_ctes[terms[0]].c.id == term_ctes[term].c.id)`. For the first
term again there is nothing to correlate, and any row will do. -/
def existsIn (first term : PyStr) (firstCte cte : List Int) (id : Int) : Bool :=
  if term = first then !firstCte.isEmpty else cte.contains id

def searchTermsFilteredCteFactory (categories : List SearchableFieldCategory) :
    Except EngineError (List Int) :=
  match search.terms with
  | [] => .error .indexError
  | first :: rest =>
      match termCte w search scope categories first with
      | none => .error (.keyError first)
      | some firstCte => .ok ((firstCte.filter fun id => rest.all fun term =>
          existsIn first term firstCte ((termCte w search scope categories term).getD []) id).dedup)

/-- The term is in a text of the root, or of a row it leads to. -/
def TermMatches (categories : List SearchableFieldCategory) (root : Int) (term : PyStr) : Prop :=
  ∃ category ∈ categories, ∃ field weight,
    (field, some weight) ∈ search.fieldWeights.ofCategory category ∧
    ∃ id, TermReaches w scope category root id ∧
    ∃ text, (w.table category).target field id = some text ∧
      w.like search.caseSensitive text (pattern term) = true

/-- Some field of the categories has a weight. -/
def Weighted (categories : List SearchableFieldCategory) : Prop :=
  ∃ category ∈ categories, ∃ field weight,
    (field, some weight) ∈ search.fieldWeights.ofCategory category

variable {w search scope} {categories : List SearchableFieldCategory}

theorem mem_getFilterStmt {category : SearchableFieldCategory} {field : String}
    {term : PyStr} {root : Int} :
    root ∈ getFilterStmt w search scope category field term ↔
      ∃ id, TermReaches w scope category root id ∧
      ∃ text, (w.table category).target field id = some text ∧
        w.like search.caseSensitive text (pattern term) = true := by
  rw [getFilterStmt, List.mem_dedup, List.mem_map]
  constructor
  · rintro ⟨⟨root', id⟩, hrow, rfl⟩
    obtain ⟨hrow, hlikes⟩ := List.mem_filter.mp hrow
    obtain ⟨text, htext, hlike⟩ := (Option.any_eq_true _ _).mp hlikes
    exact ⟨id, (mem_termRows w).mp hrow, text, htext, hlike⟩
  · rintro ⟨id, hreaches, text, htext, hlike⟩
    refine ⟨(root, id), List.mem_filter.mpr ⟨(mem_termRows w).mpr hreaches, ?_⟩, rfl⟩
    exact (Option.any_eq_true _ _).mpr ⟨text, htext, hlike⟩

theorem mem_termQueries {term : PyStr} {root : Int} :
    root ∈ (termQueries w search scope categories term).flatten ↔
      TermMatches w search scope categories root term := by
  simp only [termQueries, TermMatches, List.mem_flatten, List.mem_flatMap, List.mem_filterMap,
    Option.map_eq_some_iff]
  constructor
  · rintro ⟨_, ⟨category, hcategory, ⟨field, _⟩, hfield, weight, rfl, rfl⟩, hroot⟩
    exact ⟨category, hcategory, field, weight, hfield, mem_getFilterStmt.mp hroot⟩
  · rintro ⟨category, hcategory, field, weight, hfield, hroot⟩
    exact ⟨_, ⟨category, hcategory, (field, some weight), hfield, weight, rfl, rfl⟩,
      mem_getFilterStmt.mpr hroot⟩

theorem termCte_eq_none_iff {term : PyStr} :
    termCte w search scope categories term = none ↔ ¬ Weighted search categories := by
  have hempty : (termQueries w search scope categories term).isEmpty = true ↔
      ¬ Weighted search categories := by
    rw [List.isEmpty_iff, List.eq_nil_iff_forall_not_mem, ← not_exists, not_iff_not]
    simp only [termQueries, Weighted, List.mem_flatMap, List.mem_filterMap, Option.map_eq_some_iff]
    constructor
    · rintro ⟨_, category, hcategory, ⟨field, _⟩, hfield, weight, rfl, -⟩
      exact ⟨category, hcategory, field, weight, hfield⟩
    · rintro ⟨category, hcategory, field, weight, hfield⟩
      exact ⟨_, category, hcategory, (field, some weight), hfield, weight, rfl, rfl⟩
  rw [termCte, ← hempty]
  split
  · simp [*]
  · simp [*]

theorem mem_termCte {term : PyStr} {cte : List Int}
    (h : termCte w search scope categories term = some cte) (root : Int) :
    root ∈ cte ↔ TermMatches w search scope categories root term := by
  rw [termCte] at h
  split at h
  · cases h
  · rw [← Option.some.inj h, mem_termQueries]

theorem nodup_searchTermsFilteredCteFactory {ids : List Int}
    (h : searchTermsFilteredCteFactory w search scope categories = .ok ids) : ids.Nodup := by
  rw [searchTermsFilteredCteFactory] at h
  split at h
  · cases h
  · split at h
    · cases h
    · rw [← Except.ok.inj h]
      exact List.nodup_dedup _

theorem searchTermsFilteredCteFactory_isOk_iff :
    (∃ ids, searchTermsFilteredCteFactory w search scope categories = .ok ids) ↔
      search.terms ≠ [] ∧ Weighted search categories := by
  cases hterms : search.terms with
  | nil => simp [searchTermsFilteredCteFactory, hterms]
  | cons first rest =>
      have hweighted :
          termCte w search scope categories first = none ↔ ¬ Weighted search categories :=
        termCte_eq_none_iff
      cases hfirst : termCte w search scope categories first with
      | none => simp [searchTermsFilteredCteFactory, hterms, hfirst, hweighted.mp hfirst]
      | some firstCte =>
          rw [hfirst] at hweighted
          simp only [searchTermsFilteredCteFactory, hterms, hfirst]
          refine iff_of_true ⟨_, rfl⟩ ⟨List.cons_ne_nil first rest, ?_⟩
          by_contra h
          cases hweighted.mpr h

theorem mem_searchTermsFilteredCteFactory {ids : List Int}
    (h : searchTermsFilteredCteFactory w search scope categories = .ok ids) (root : Int) :
    root ∈ ids ↔ ∀ term ∈ search.terms, TermMatches w search scope categories root term := by
  have hweighted := (searchTermsFilteredCteFactory_isOk_iff.mp ⟨ids, h⟩).2
  cases hterms : search.terms with
  | nil => simp [searchTermsFilteredCteFactory, hterms] at h
  | cons first rest =>
      cases hfirst : termCte w search scope categories first with
      | none => exact absurd hweighted (termCte_eq_none_iff.mp hfirst)
      | some firstCte =>
          simp only [searchTermsFilteredCteFactory, hterms, hfirst] at h
          rw [← Except.ok.inj h, List.mem_dedup, List.mem_filter, List.all_eq_true,
            List.forall_mem_cons, mem_termCte hfirst]
          refine and_congr_right (fun hroot => forall₂_congr (fun term _ => ?_))
          rw [existsIn]
          split
          case isTrue heq =>
              -- nothing is correlated, and the root itself is a row
              have hne : firstCte ≠ [] := List.ne_nil_of_mem ((mem_termCte hfirst root).mpr hroot)
              simp [heq, hne, hroot]
          case isFalse =>
              obtain ⟨cte, hcte⟩ := Option.ne_none_iff_exists'.mp
                (fun hnone : termCte w search scope categories term = none =>
                  termCte_eq_none_iff.mp hnone hweighted)
              rw [hcte, Option.getD_some, List.contains_iff_mem, mem_termCte hcte]

/-- The filter keeps each root once for which every term is found, whatever the order
and the repetitions of the terms. It cannot be made only if there is no term or no weight. -/
theorem search_terms_filtered_exact :
    (∀ ids, searchTermsFilteredCteFactory w search scope categories = .ok ids →
      ids.Nodup ∧ ∀ root, root ∈ ids ↔
        ∀ term ∈ search.terms, TermMatches w search scope categories root term) ∧
    ((∃ ids, searchTermsFilteredCteFactory w search scope categories = .ok ids) ↔
      search.terms ≠ [] ∧ Weighted search categories) :=
  ⟨fun _ h => ⟨nodup_searchTermsFilteredCteFactory h, mem_searchTermsFilteredCteFactory h⟩,
    searchTermsFilteredCteFactory_isOk_iff⟩

end Filter

/-! Terms that stand for themselves. -/

/-- The symbols of `LIKE` and `ILIKE`. -/
def likeSymbols : Like.Symbols CodePoint := ⟨.char '%', .char '_', .char '\\'⟩

/-- `LIKE` and `ILIKE`, which compare characters in their own ways. -/
def sqlLike (same : Bool → CodePoint → CodePoint → Bool) (caseSensitive : Bool)
    (text pattern : PyStr) : Bool :=
  Like.like (same caseSensitive) likeSymbols text pattern

/-- The text has a part that is the term, up to the comparison of characters. -/
def Contains (same : CodePoint → CodePoint → Bool) (text term : PyStr) : Prop :=
  ∃ front middle back, text = front ++ (middle ++ back) ∧
    List.Forall₂ (fun c d => same c d = true) term middle

/-- Terms without wildcards and escapes are searched literally: the filter keeps the roots for
which every term is contained in some text with a weight. -/
theorem plain_terms_literal {search : SearchTermsSchema} {scope : Scope}
    {categories : List SearchableFieldCategory} {same : Bool → CodePoint → CodePoint → Bool}
    (hlike : w.like = sqlLike same) (hplain : ∀ term ∈ search.terms, Like.Plain likeSymbols term)
    {ids : List Int} (h : searchTermsFilteredCteFactory w search scope categories = .ok ids)
    (root : Int) :
    root ∈ ids ↔ ∀ term ∈ search.terms, ∃ category ∈ categories, ∃ field weight,
      (field, some weight) ∈ search.fieldWeights.ofCategory category ∧
      ∃ id, TermReaches w scope category root id ∧
        ∃ text, (w.table category).target field id = some text ∧
        Contains (same search.caseSensitive) text term := by
  have hescape : likeSymbols.any ≠ likeSymbols.escape := by decide
  rw [mem_searchTermsFilteredCteFactory h root]
  refine forall₂_congr (fun term hterm => ?_)
  have hmatch (text : PyStr) : w.like search.caseSensitive text (pattern term) = true ↔
      Contains (same search.caseSensitive) text term := by
    rw [hlike]
    exact Like.like_infix_iff hescape (hplain term hterm)
  simp only [TermMatches, hmatch]

/-- A request for a beatmapset that has been changed: its first snapshot is called `a`, its second
one `b`. -/
def changedWorld : World Int where
  table
    | .queue => ⟨[7], List.nodup_singleton 7, fun _ _ => none⟩
    | .request => ⟨[5], List.nodup_singleton 5, fun _ _ => none⟩
    | .beatmapset =>
      { ids := [51, 52]
        nodup := by decide
        target := fun field s =>
          if field = "title" then some (if s = 51 then [.char 'a'] else [.char 'b']) else none }
    | _ => ⟨[], List.nodup_nil, fun _ _ => none⟩
  like := sqlLike fun _ c d => c = d
  links := []
  owners := []
  beatmapset _ := ⟨50, 0⟩
  request _ := ⟨0, 50, 51, 7⟩
  queueUser _ := 0
  profileUser p := p
  beatmapListings := []
  beatmapsetListings := []
  value _ _ := none

/-- The term `b` finds the request. -/
theorem plain_terms_literal_changed :
    searchTermsFilteredCteFactory changedWorld (searchFor [[.char 'b']]) .requests
    [.beatmap, .beatmapset, .request] =
        .ok [5] ∧
      ∀ root, root = 5 ↔ ∀ term ∈ (searchFor [[.char 'b']]).terms,
      ∃ category ∈ [.beatmap, .beatmapset, .request],
        ∃ field weight,
        (field, some weight) ∈ (searchFor [[.char 'b']]).fieldWeights.ofCategory category ∧
          ∃ id, TermReaches changedWorld .requests category root id ∧
            ∃ text, (changedWorld.table category).target field id = some text ∧
              Contains (fun c d => c = d) text term := by
  have hplain : ∀ term ∈ (searchFor [[.char 'b']]).terms, Like.Plain likeSymbols term := by
    simp [searchFor, Like.Plain, likeSymbols]
  have hcte : searchTermsFilteredCteFactory changedWorld (searchFor [[.char 'b']]) .requests
      [.beatmap, .beatmapset, .request] = .ok [5] := rfl
  refine ⟨hcte, fun root => ?_⟩
  rw [← List.mem_singleton]
  exact plain_terms_literal changedWorld rfl hplain hcte root

end Graveboards.Engine
