import Graveboards.Library.Runs
import Graveboards.Rules.Validators

/-!
Requests for one song in a queue with an active `unique_artist_title` rule. The
handler job of a request inserts its row; its validation job fetches the
beatmapset, selects the rows of the queue, whatever their status, and rejects
the request if another row is for the same song. When the fetch fails, the job
ends without the rule having run. The jobs of different requests interleave
freely.
-/

namespace Graveboards.Requests

open Library Rules

namespace Songs

/-- The set osu! returns for the request when it is validated, and the song of
the snapshot its row points to. -/
structure SongRequest where
  beatmapset : Beatmapset
  stored : Song

/-- How far the jobs of a request are. `skipped`: its beatmapset could not be
fetched. -/
inductive Stage where
  | posted
  | inserted
  | selected (rejected : Bool)
  | validated (rejected : Bool)
  | skipped
  deriving DecidableEq

inductive Verdict where
  | passed | rejected | unchecked
  deriving DecidableEq

/-- `rows` lists the positions of the inserted requests in order, `others` the
remaining rows of the queue. -/
structure Queue where
  stages : List Stage
  rows : List Nat
  others : List (Song × Nat)

inductive Label where
  | insert (i : Nat)
  | fetchFails (i : Nat)
  | select (i : Nat)
  | update (i : Nat)
  | other (row : Song × Nat)

def SongRequest.row (r : SongRequest) : Song × Nat := (r.stored, r.beatmapset.id)

def Label.failsFetch : Label → Bool
  | .fetchFails _ => true
  | _ => false

def Label.inserted? : Label → Option Nat
  | .insert i => some i
  | _ => none

/-- What has become of the rule. -/
def Stage.verdict? : Stage → Option Verdict
  | .selected rejected | .validated rejected => some (if rejected then .rejected else .passed)
  | .skipped => some .unchecked
  | _ => none

/-- The validation job has ended. -/
def Stage.ended : Stage → Bool
  | .validated _ | .skipped => true
  | _ => false

/-- It has ended, and the request is not rejected. -/
def Stage.spared : Stage → Bool
  | .validated rejected => !rejected
  | .skipped => true
  | _ => false

section Step

variable (env : Env) (strip : Bool) (requests : List SongRequest)

/-- The rows the select returns. -/
def queueRows (q : Queue) : List (Song × Nat) :=
  q.others ++ (q.rows.filterMap (fun i => requests[i]?)).map SongRequest.row

/-- The outcome of the rule for a request, on the rows there are now. -/
def rejects (r : SongRequest) (rows : List (Song × Nat)) : Bool :=
  !(uniqueArtistTitleCheck
    { env with beatmapset := some r.beatmapset, requests := some (.ok rows) } strip).result.isOk

/-- The insertion respects the unique constraint on (beatmapset_id, queue_id). -/
def step (label : Label) (q : Queue) : Option Queue :=
  match label with
  | .insert i => do
      let stage ← q.stages[i]?
      let r ← requests[i]?
      if stage = .posted ∧ (queueRows requests q).all (fun row => row.2 ≠ r.beatmapset.id) then
        return { q with stages := q.stages.set i .inserted, rows := q.rows ++ [i] }
      else none
  | .fetchFails i => do
      let stage ← q.stages[i]?
      if stage = .inserted then return { q with stages := q.stages.set i .skipped } else none
  | .select i => do
      let stage ← q.stages[i]?
      let r ← requests[i]?
      if stage = .inserted then
        return { q with
          stages := q.stages.set i (.selected (rejects env strip r (queueRows requests q))) }
      else none
  | .update i => do
      let stage ← q.stages[i]?
      match stage with
      | .selected rejected => some { q with stages := q.stages.set i (.validated rejected) }
      | _ => none
  | .other row =>
      if (queueRows requests q).all (fun other => other.2 ≠ row.2) then
        some { q with others := q.others ++ [row] }
      else none

def initially : Queue := ⟨requests.map (fun _ => .posted), [], []⟩

/-- The forms the rule looks for. -/
def candidateForms (r : SongRequest) : List (String × String) :=
  normalizedIdentityForms env strip
    ⟨r.beatmapset.artist, r.beatmapset.title, r.beatmapset.artistUnicode, r.beatmapset.titleUnicode⟩

/-- No request is rejected for the rows of the requests that are gone alone:
`gone q i j` says whether the row of `j` is left out when `i` is selected. -/
def Independent (gone : Queue → Nat → Nat → Bool) : Label → Queue → Prop
  | .select i, q =>
      ∀ r ∈ requests[i]?, rejects env strip r (queueRows requests q) = true →
        rejects env strip r
          (queueRows requests { q with rows := q.rows.filter (fun j => !gone q i j) }) = true
  | _, _ => True

/-- A request with a song identity is not selected while the other requests
with a row, and there are some, are all gone. -/
def Accompanied (gone : Queue → Nat → Nat → Bool) : Label → Queue → Prop
  | .select i, q =>
      ∀ r ∈ requests[i]?, candidateForms env strip r ≠ [] → (∃ j ∈ q.rows, j ≠ i) →
        ∃ j ∈ q.rows, j ≠ i ∧ gone q i j = false
  | _, _ => True

/-- A row of another song. -/
def Stranger (row : Song × Nat) : Prop :=
  ∀ r ∈ requests,
    formsMeet (candidateForms env strip r) (normalizedIdentityForms env strip row.1) = false

/-- Every request is for the song of every other one. -/
def Colliding : Prop :=
  ∀ (i j : Nat) (ri rj : SongRequest), i ≠ j → requests[i]? = some ri → requests[j]? = some rj →
    formsMeet (candidateForms env strip ri) (normalizedIdentityForms env strip rj.stored) = true

end Step

/-- No request is inserted while the only one there has still to be selected. -/
def FirstSelected : Label → Queue → Prop
  | .insert _, q =>
      match q.rows with
      | [first] => q.stages[first]? ≠ some .inserted
      | _ => True
  | _, _ => True

instance : (label : Label) → (q : Queue) → Decidable (FirstSelected label q)
  | .insert _, ⟨stages, [first], _⟩ => inferInstanceAs (Decidable (stages[first]? ≠ some .inserted))
  | .insert _, ⟨_, [], _⟩ => isTrue trivial
  | .insert _, ⟨_, _ :: _ :: _, _⟩ => isTrue trivial
  | .fetchFails _, _ => isTrue trivial
  | .select _, _ => isTrue trivial
  | .update _, _ => isTrue trivial
  | .other _, _ => isTrue trivial

/-- The requests that are rejected already. -/
def alreadyRejected (q : Queue) (_ j : Nat) : Bool := q.stages[j]? = some (.validated true)

/-- For one request, the others of a group. -/
def amongst (i : Nat) (group : List Nat) (_ : Queue) (k j : Nat) : Bool :=
  k = i && group.contains j

/-- The first request is selected before the next one is inserted, its beatmapset
can be fetched, and it has a song identity. -/
def Sparing (env : Env) (strip : Bool) (requests : List SongRequest) (labels : List Label) : Prop :=
  Runs.Meets (step env strip requests) FirstSelected labels (initially requests) ∧
    ∃ first r, labels.findSome? Label.inserted? = some first ∧ .fetchFails first ∉ labels ∧
      requests[first]? = some r ∧ candidateForms env strip r ≠ []

/-- What has become of the rule for a request. -/
def Queue.verdict? (q : Queue) (i : Nat) : Option Verdict := q.stages[i]?.bind Stage.verdict?

/-- And for the request inserted first. -/
def Queue.firstVerdict (q : Queue) : Option Verdict :=
  match q.rows with
  | [] => none
  | first :: _ => q.verdict? first

section Proofs

variable {env : Env} {strip : Bool} {requests : List SongRequest} {q q' : Queue} {label : Label}

/-- The rule rejects a request without a song identity, and one whose song
another row has. -/
theorem rejects_iff {r : SongRequest} {rows : List (Song × Nat)} :
    rejects env strip r rows = true ↔ candidateForms env strip r = [] ∨
      ∃ row ∈ rows, row.2 ≠ r.beatmapset.id ∧
        formsMeet (candidateForms env strip r)
          (normalizedIdentityForms env strip row.1) = true := by
  set env' : Env := { env with beatmapset := some r.beatmapset, requests := some (.ok rows) }
    with henv
  have hforms : normalizedIdentityForms env' strip = normalizedIdentityForms env strip := rfl
  have hcandidates : normalizedIdentityForms env strip (songIdentity env') =
      candidateForms env strip r := rfl
  have hrows : env'.requests = some (.ok rows) := rfl
  have hset : env'.beatmapset.map (·.id) = some r.beatmapset.id := rfl
  clear_value env'
  unfold rejects uniqueArtistTitleCheck
  rw [← henv, hforms, hcandidates, hrows, hset]
  dsimp only
  cases hempty : (candidateForms env strip r).isEmpty with
  | true =>
      have hnil : candidateForms env strip r = [] := List.isEmpty_iff.mp hempty
      simp [hnil, immediately, violate, Except.isOk, Except.toBool]
  | false =>
      have hnil : candidateForms env strip r ≠ [] := by
        intro hnil
        rw [hnil] at hempty
        cases hempty
      simp only [Bool.false_eq_true, if_false, hnil, false_or]
      split
      · next hnone =>
          simp only [Except.isOk, Except.toBool, Bool.not_true, Bool.false_eq_true, false_iff]
          rintro ⟨row, hrow, hne, hmeets⟩
          have := List.find?_eq_none.mp hnone row hrow
          simp [hne, hmeets] at this
      · next row hsome =>
          have hfound := List.find?_some hsome
          simp only [ne_eq, Option.some.injEq, Bool.and_eq_true,
            decide_eq_true_eq] at hfound
          simp only [violate, Except.isOk, Except.toBool, Bool.not_false, true_iff]
          exact ⟨row, List.mem_of_find?_eq_some hsome, hfound⟩

/-! What one step can do. -/

inductive Move (env : Env) (strip : Bool) (requests : List SongRequest) (q : Queue) :
    Label → Queue → Prop where
  | insert (i : Nat) (r : SongRequest) (hstage : q.stages[i]? = some .posted)
      (hr : requests[i]? = some r)
      (hnew : ∀ row ∈ queueRows requests q, row.2 ≠ r.beatmapset.id) :
      Move env strip requests q (.insert i)
        { q with stages := q.stages.set i .inserted, rows := q.rows ++ [i] }
  | skip (i : Nat) (hstage : q.stages[i]? = some .inserted) :
      Move env strip requests q (.fetchFails i) { q with stages := q.stages.set i .skipped }
  | select (i : Nat) (r : SongRequest) (hstage : q.stages[i]? = some .inserted)
      (hr : requests[i]? = some r) :
      Move env strip requests q (.select i) { q with
        stages := q.stages.set i (.selected (rejects env strip r (queueRows requests q))) }
  | update (i : Nat) (rejected : Bool) (hstage : q.stages[i]? = some (.selected rejected)) :
      Move env strip requests q (.update i)
        { q with stages := q.stages.set i (.validated rejected) }
  | other (row : Song × Nat) :
      Move env strip requests q (.other row) { q with others := q.others ++ [row] }

theorem step_move (hstep : step env strip requests label q = some q') :
    Move env strip requests q label q' := by
  cases label with
  | insert i =>
      obtain ⟨stage, hstage, hrest⟩ := Option.bind_eq_some_iff.mp hstep
      obtain ⟨r, hr, hnext⟩ := Option.bind_eq_some_iff.mp hrest
      split at hnext
      · next hboth =>
          obtain rfl := Option.some.inj hnext
          exact .insert i r (hboth.1 ▸ hstage) hr (by simpa using hboth.2)
      · cases hnext
  | fetchFails i =>
      obtain ⟨stage, hstage, hnext⟩ := Option.bind_eq_some_iff.mp hstep
      split at hnext
      · next hinserted =>
          obtain rfl := Option.some.inj hnext
          exact .skip i (hinserted ▸ hstage)
      · cases hnext
  | select i =>
      obtain ⟨stage, hstage, hrest⟩ := Option.bind_eq_some_iff.mp hstep
      obtain ⟨r, hr, hnext⟩ := Option.bind_eq_some_iff.mp hrest
      split at hnext
      · next hinserted =>
          obtain rfl := Option.some.inj hnext
          exact .select i r (hinserted ▸ hstage) hr
      · cases hnext
  | update i =>
      obtain ⟨stage, hstage, hstep⟩ := Option.bind_eq_some_iff.mp hstep
      split at hstep
      · next rejected =>
          obtain rfl := Option.some.inj hstep
          exact .update i rejected hstage
      · cases hstep
  | other row =>
      unfold step at hstep
      dsimp only at hstep
      split at hstep
      · obtain rfl := Option.some.inj hstep
        exact .other row
      · cases hstep

/-- The rows are those of the requests that have one, with ids of their own, and
every request but the first one is rejected as soon as it is decided. -/
structure Ordered (env : Env) (strip : Bool) (requests : List SongRequest) (q : Queue) : Prop where
  nodup : q.rows.Nodup
  inserted : ∀ i stage, q.stages[i]? = some stage → (i ∈ q.rows ↔ stage ≠ .posted)
  requested : ∀ i ∈ q.rows, ∃ r, requests[i]? = some r ∧ ∃ stage, q.stages[i]? = some stage
  distinct : ∀ i ∈ q.rows, ∀ j ∈ q.rows, ∀ ri rj, requests[i]? = some ri → requests[j]? = some rj →
    i ≠ j → ri.beatmapset.id ≠ rj.beatmapset.id
  strangers : ∀ row ∈ q.others, Stranger env strip requests row
  later : ∀ first rest i stage, q.rows = first :: rest → i ≠ first → q.stages[i]? = some stage →
    stage.verdict? ≠ some .passed

/-- Among some of the rows there are, a request is rejected if it has no song
identity or another request is one of them. -/
theorem Ordered.rejects_among (hq : Ordered env strip requests q)
    (hcollide : Colliding env strip requests) {i : Nat} {r : SongRequest}
    (hr : requests[i]? = some r) (hi : i ∈ q.rows) {rows : List Nat}
    (hrows : ∀ j ∈ rows, j ∈ q.rows) :
    rejects env strip r (queueRows requests { q with rows := rows }) = true ↔
      candidateForms env strip r = [] ∨ ∃ j ∈ rows, j ≠ i := by
  rw [rejects_iff]
  refine or_congr_right ⟨?_, ?_⟩
  · rintro ⟨row, hrow, hne, hmeets⟩
    rcases List.mem_append.mp hrow with hother | hown
    · rw [hq.strangers row hother r (List.mem_of_getElem? hr)] at hmeets
      cases hmeets
    · obtain ⟨rj, hrj, rfl⟩ := List.mem_map.mp hown
      obtain ⟨j, hj, hrj⟩ := List.mem_filterMap.mp hrj
      refine ⟨j, hj, ?_⟩
      rintro rfl
      obtain rfl := Option.some.inj (hr.symm.trans hrj)
      exact hne rfl
  · rintro ⟨j, hj, hne⟩
    obtain ⟨rj, hrj, -⟩ := hq.requested j (hrows j hj)
    refine ⟨rj.row, ?_, ?_, hcollide i j r rj (Ne.symm hne) hr hrj⟩
    · refine List.mem_append_right _ (List.mem_map.mpr ⟨rj, ?_, rfl⟩)
      exact List.mem_filterMap.mpr ⟨j, hj, hrj⟩
    · exact hq.distinct j (hrows j hj) i hi rj r hrj hr hne

theorem Ordered.rejects_iff_other (hq : Ordered env strip requests q)
    (hcollide : Colliding env strip requests) {i : Nat} {r : SongRequest}
    (hr : requests[i]? = some r) (hi : i ∈ q.rows) :
    rejects env strip r (queueRows requests q) = true ↔
      candidateForms env strip r = [] ∨ ∃ j ∈ q.rows, j ≠ i :=
  hq.rejects_among hcollide hr hi (fun _ hj => hj)

/-- The only request with a row is rejected only if it has no song identity. -/
theorem Ordered.rejects_alone (hq : Ordered env strip requests q)
    (hcollide : Colliding env strip requests) {i : Nat} {r : SongRequest}
    (hr : requests[i]? = some r) (hrows : q.rows = [i]) :
    rejects env strip r (queueRows requests q) = true ↔ candidateForms env strip r = [] := by
  rw [hq.rejects_iff_other hcollide hr (by simp [hrows]), hrows]
  simp

/-- A request moves on without a verdict that spares anyone but the first. -/
theorem Ordered.restage (hq : Ordered env strip requests q) {i : Nat} {old new : Stage}
    (hstage : q.stages[i]? = some old) (hold : old ≠ .posted) (hnew : new ≠ .posted)
    (hlater : ∀ first rest, q.rows = first :: rest → i ≠ first → new.verdict? ≠ some .passed) :
    Ordered env strip requests { q with stages := q.stages.set i new } := by
  have hmem : i ∈ q.rows := (hq.inserted i old hstage).mpr hold
  refine ⟨hq.nodup, fun j stage hj => ?_, fun j hj => ?_, hq.distinct, hq.strangers, ?_⟩
  · rcases Runs.getElem?_set_cases hj with ⟨rfl, rfl⟩ | ⟨-, hkept⟩
    · simp [hmem, hnew]
    · exact hq.inserted j stage hkept
  · obtain ⟨rj, hrj, stage, hstage'⟩ := hq.requested j hj
    exact ⟨rj, hrj, Runs.getElem?_set_of_some hstage'⟩
  · intro first rest j stage hrows hne hj
    rcases Runs.getElem?_set_cases hj with ⟨rfl, rfl⟩ | ⟨-, hkept⟩
    · exact hlater first rest hrows hne
    · exact hq.later first rest j stage hrows hne hkept

theorem Ordered.move (hq : Ordered env strip requests q) (hcollide : Colliding env strip requests)
    (hstranger : ∀ row, label = .other row → Stranger env strip requests row)
    (hmove : Move env strip requests q label q') : Ordered env strip requests q' := by
  cases hmove with
  | insert i r hstage hr hnew =>
      have habsent : i ∉ q.rows := fun hmem => (hq.inserted i _ hstage).mp hmem rfl
      have hids : ∀ j ∈ q.rows, ∀ rj, requests[j]? = some rj →
          rj.beatmapset.id ≠ r.beatmapset.id := by
        intro j hj rj hrj
        refine hnew rj.row (List.mem_append_right _ (List.mem_map.mpr ⟨rj, ?_, rfl⟩))
        exact List.mem_filterMap.mpr ⟨j, hj, hrj⟩
      refine ⟨hq.nodup.append (List.nodup_singleton i) (by simpa using habsent),
        fun j stage hj => ?_, fun j hj => ?_, ?_, hq.strangers, ?_⟩
      · rw [List.mem_append, List.mem_singleton]
        rcases Runs.getElem?_set_cases hj with ⟨rfl, rfl⟩ | ⟨hne, hold⟩
        · simp
        · simp [hne, hq.inserted j stage hold]
      · rcases List.mem_append.mp hj with hold | hlast
        · obtain ⟨rj, hrj, stage, hstage'⟩ := hq.requested j hold
          exact ⟨rj, hrj, Runs.getElem?_set_of_some hstage'⟩
        · obtain rfl := List.mem_singleton.mp hlast
          exact ⟨r, hr, Runs.getElem?_set_of_some hstage⟩
      · intro j hj k hk rj rk hrj hrk hne
        rcases List.mem_append.mp hj with hjold | hjnew <;>
          rcases List.mem_append.mp hk with hkold | hknew
        · exact hq.distinct j hjold k hkold rj rk hrj hrk hne
        · obtain rfl := List.mem_singleton.mp hknew
          obtain rfl := Option.some.inj (hr.symm.trans hrk)
          exact hids j hjold rj hrj
        · obtain rfl := List.mem_singleton.mp hjnew
          obtain rfl := Option.some.inj (hr.symm.trans hrj)
          exact (hids k hkold rk hrk).symm
        · exact absurd ((List.mem_singleton.mp hjnew).trans (List.mem_singleton.mp hknew).symm) hne
      · intro first rest j stage hrows hne hj
        rcases Runs.getElem?_set_cases hj with ⟨rfl, rfl⟩ | ⟨-, hold⟩
        · simp [Stage.verdict?]
        · cases hold' : q.rows with
          | nil =>
              -- Nobody is decided before the first insertion.
              have hposted : stage = .posted := by
                by_contra hnot
                have hmem := (hq.inserted j stage hold).mpr hnot
                rw [hold'] at hmem
                cases hmem
              rw [hposted]
              simp [Stage.verdict?]
          | cons first' rest' =>
              rw [hold', List.cons_append] at hrows
              obtain rfl : first' = first := (List.cons.inj hrows).1
              exact hq.later first' rest' j stage hold' hne hold
  | skip i hstage =>
      exact hq.restage hstage (by simp) (by simp) (fun _ _ _ _ => by simp [Stage.verdict?])
  | select i r hstage hr =>
      refine hq.restage hstage (by simp) (by simp) (fun first rest hrows hne => ?_)
      have hmem : i ∈ q.rows := (hq.inserted i _ hstage).mpr (by simp)
      have hfirst : first ∈ q.rows := by
        rw [hrows]
        exact List.mem_cons_self
      rw [(hq.rejects_iff_other hcollide hr hmem).mpr (Or.inr ⟨first, hfirst, Ne.symm hne⟩)]
      simp [Stage.verdict?]
  | update i rejected hstage =>
      refine hq.restage hstage (by simp) (by simp) (fun first rest hrows hne => ?_)
      exact hq.later first rest i (.selected rejected) hrows hne hstage
  | other row =>
      refine ⟨hq.nodup, hq.inserted, hq.requested, hq.distinct, ?_, hq.later⟩
      intro other hother
      rcases List.mem_append.mp hother with hold | hnew
      · exact hq.strangers other hold
      · obtain rfl := List.mem_singleton.mp hnew
        exact hstranger other rfl

theorem ordered_initially : Ordered env strip requests (initially requests) := by
  refine ⟨List.nodup_nil, fun i stage hstage => ?_, by simp [initially], by simp [initially],
    by simp [initially], by simp [initially]⟩
  rw [initially, List.getElem?_map] at hstage
  obtain ⟨r, -, rfl⟩ := Option.map_eq_some_iff.mp hstage
  simp [initially]

theorem ordered_run {labels : List Label} {last : Queue} (hq : Ordered env strip requests q)
    (hcollide : Colliding env strip requests)
    (hstrangers : ∀ row, .other row ∈ labels → Stranger env strip requests row)
    (hrun : Runs.run (step env strip requests) labels q = some last) :
    Ordered env strip requests last := by
  induction labels generalizing q with
  | nil =>
      obtain rfl := Option.some.inj hrun
      exact hq
  | cons label labels ih =>
      obtain ⟨next, hnext, hrest⟩ := Option.bind_eq_some_iff.mp hrun
      refine ih (hq.move hcollide (fun row hrow => ?_) (step_move hnext)) (fun row hrow => ?_) hrest
      · exact hstrangers row (hrow ▸ List.mem_cons_self)
      · exact hstrangers row (List.mem_cons_of_mem _ hrow)

/-! What has become of the rule for a request is final. -/

theorem verdict_set {i j : Nat} {old new : Stage} {v : Verdict} (hold : q.stages[i]? = some old)
    (hsame : ∀ v, old.verdict? = some v → new.verdict? = some v) (hv : q.verdict? j = some v) :
    (q.stages.set i new)[j]?.bind Stage.verdict? = some v := by
  by_cases heq : i = j
  · subst heq
    rw [Queue.verdict?, hold, Option.bind_some] at hv
    rw [List.getElem?_set_self (List.getElem?_eq_some_iff.mp hold).1]
    exact hsame v hv
  · rw [List.getElem?_set_ne heq]
    exact hv

theorem verdict_of_move (hmove : Move env strip requests q label q') {j : Nat} {v : Verdict}
    (hv : q.verdict? j = some v) : q'.verdict? j = some v := by
  cases hmove with
  | insert i r hold hr hnew => exact verdict_set hold (by simp [Stage.verdict?]) hv
  | skip i hold => exact verdict_set hold (by simp [Stage.verdict?]) hv
  | select i r hold hr => exact verdict_set hold (by simp [Stage.verdict?]) hv
  | update i rejected hold => exact verdict_set hold (by simp [Stage.verdict?]) hv
  | other row => exact hv

theorem verdict_of_run {labels : List Label} {last : Queue}
    (hrun : Runs.run (step env strip requests) labels q = some last) {j : Nat} {v : Verdict}
    (hv : q.verdict? j = some v) : last.verdict? j = some v :=
  Runs.invariant_of_steps (fun q => q.verdict? j = some v)
    (fun _ _ _ h hstep => verdict_of_move (step_move hstep) h) hv hrun

/-- The rule is not run for a request whose fetch fails. -/
theorem unchecked_of_fetchFails {labels : List Label} {last : Queue}
    (hrun : Runs.run (step env strip requests) labels q = some last) {i : Nat}
    (hfails : .fetchFails i ∈ labels) : last.verdict? i = some .unchecked := by
  induction labels generalizing q with
  | nil => cases hfails
  | cons label labels ih =>
      obtain ⟨next, hnext, hrest⟩ := Option.bind_eq_some_iff.mp hrun
      rcases List.mem_cons.mp hfails with rfl | hlater
      · refine verdict_of_run hrest ?_
        cases step_move hnext with
        | skip _ hstage =>
            rw [Queue.verdict?]
            dsimp only
            rw [List.getElem?_set_self (List.getElem?_eq_some_iff.mp hstage).1]
            rfl
      · exact ih hrest hlater

theorem skipped_of_move (hmove : Move env strip requests q label q') :
    q'.stages.countP (· = .skipped) = q.stages.countP (· = .skipped) + label.failsFetch.toNat := by
  cases hmove with
  | insert i r hstage hr hnew => exact Runs.countP_set_of_eq hstage (by simp)
  | skip i hstage =>
      have hcount := Runs.countP_set_add (· = Stage.skipped) hstage .skipped
      simpa [Label.failsFetch] using hcount
  | select i r hstage hr => exact Runs.countP_set_of_eq hstage (by simp)
  | update i rejected hstage => exact Runs.countP_set_of_eq hstage (by simp)
  | other row => rfl

/-- The requests whose rule was not run are those whose fetch failed. -/
theorem skipped_of_run {labels : List Label} {last : Queue}
    (hrun : Runs.run (step env strip requests) labels q = some last) :
    last.stages.countP (· = .skipped) =
      q.stages.countP (· = .skipped) + labels.countP Label.failsFetch := by
  induction labels generalizing q with
  | nil =>
      obtain rfl := Option.some.inj hrun
      rfl
  | cons label labels ih =>
      obtain ⟨next, hnext, hrest⟩ := Option.bind_eq_some_iff.mp hrun
      rw [ih hrest, skipped_of_move (step_move hnext), List.countP_cons]
      cases label.failsFetch with
      | false => simp
      | true =>
          simp only [Bool.toNat_true, if_true]
          omega

/-! The request inserted first. -/

theorem head_of_move (hmove : Move env strip requests q label q') {first : Nat}
    (hfirst : q.rows.head? = some first) : q'.rows.head? = some first := by
  cases hmove with
  | insert i r hstage hr hnew =>
      dsimp only
      rw [List.head?_append, hfirst]
      rfl
  | _ => exact hfirst

theorem head_of_run {labels : List Label} {last : Queue}
    (hrun : Runs.run (step env strip requests) labels q = some last) {first : Nat}
    (hfirst : q.rows.head? = some first) : last.rows.head? = some first :=
  Runs.invariant_of_steps (fun q => q.rows.head? = some first)
    (fun _ _ _ h hstep => head_of_move (step_move hstep) h) hfirst hrun

theorem rows_of_move (hmove : Move env strip requests q label q') :
    q'.rows = q.rows ++ label.inserted?.toList := by
  cases hmove with
  | insert i r hstage hr hnew => rfl
  | _ => exact (List.append_nil _).symm

theorem rows_of_run {labels : List Label} {last : Queue}
    (hrun : Runs.run (step env strip requests) labels q = some last) :
    last.rows = q.rows ++ labels.filterMap Label.inserted? := by
  induction labels generalizing q with
  | nil =>
      obtain rfl := Option.some.inj hrun
      simp
  | cons label labels ih =>
      obtain ⟨next, hnext, hrest⟩ := Option.bind_eq_some_iff.mp hrun
      rw [ih hrest, rows_of_move (step_move hnext), List.append_assoc, List.filterMap_cons]
      cases label <;> rfl

theorem firstVerdict_eq {first : Nat} (hfirst : q.rows.head? = some first) :
    q.firstVerdict = q.verdict? first := by
  obtain ⟨rest, hrows⟩ := List.head?_eq_some_iff.mp hfirst
  rw [Queue.firstVerdict, hrows]

theorem head_of_firstVerdict {v : Verdict} (hverdict : q.firstVerdict = some v) :
    ∃ first, q.rows.head? = some first := by
  cases hrows : q.rows with
  | nil =>
      rw [Queue.firstVerdict, hrows] at hverdict
      cases hverdict
  | cons first rest => exact ⟨first, rfl⟩

theorem firstVerdict_of_move (hmove : Move env strip requests q label q') {v : Verdict}
    (hverdict : q.firstVerdict = some v) : q'.firstVerdict = some v := by
  obtain ⟨first, hfirst⟩ := head_of_firstVerdict hverdict
  rw [firstVerdict_eq hfirst] at hverdict
  rw [firstVerdict_eq (head_of_move hmove hfirst)]
  exact verdict_of_move hmove hverdict

theorem firstSelected_of_verdict {v : Verdict} (hverdict : q.firstVerdict = some v)
    (label : Label) : FirstSelected label q := by
  cases label with
  | insert i =>
      unfold FirstSelected
      dsimp only
      split
      · next first hrows =>
          intro hinserted
          rw [Queue.firstVerdict, hrows] at hverdict
          simp [Queue.verdict?, hinserted, Stage.verdict?] at hverdict
      · trivial
  | _ => trivial

/-- Once the first request is decided, nothing that follows matters. -/
theorem meets_of_decided {labels : List Label} {v : Verdict} (hverdict : q.firstVerdict = some v) :
    Runs.Meets (step env strip requests) FirstSelected labels q := by
  induction labels generalizing q with
  | nil => trivial
  | cons label rest ih =>
      exact ⟨firstSelected_of_verdict hverdict label,
        fun next hnext => ih (firstVerdict_of_move (step_move hnext) hverdict)⟩

/-- With a second row in the queue the rule does not spare the first request
any more. -/
theorem crowded_move (hq : Ordered env strip requests q) (hcollide : Colliding env strip requests)
    (hmove : Move env strip requests q label q') {first second : Nat} {rest : List Nat}
    (hrows : q.rows = first :: second :: rest) (hverdict : q.verdict? first ≠ some .passed) :
    ∃ rest', q'.rows = first :: second :: rest' ∧ q'.verdict? first ≠ some .passed := by
  have hfirst : first ∈ q.rows := by simp [hrows]
  have hsecond : second ∈ q.rows := by simp [hrows]
  have hne : first ≠ second := by
    have hnodup := hq.nodup
    rw [hrows] at hnodup
    exact fun heq => (List.nodup_cons.mp hnodup).1 (heq ▸ List.mem_cons_self)
  -- Only a move of the first request itself could spare it.
  have hset {i : Nat} {old : Stage} (new : Stage) (hold : q.stages[i]? = some old)
      (hown : i = first → new.verdict? ≠ some .passed) :
      (q.stages.set i new)[first]?.bind Stage.verdict? ≠ some .passed := by
    by_cases heq : i = first
    · subst heq
      rw [List.getElem?_set_self (List.getElem?_eq_some_iff.mp hold).1]
      exact hown rfl
    · rw [List.getElem?_set_ne heq]
      exact hverdict
  cases hmove with
  | insert i r hstage hr hnew =>
      exact ⟨rest ++ [i], by simp [hrows], hset _ hstage (fun _ => by simp [Stage.verdict?])⟩
  | skip i hstage => exact ⟨rest, hrows, hset _ hstage (fun _ => by simp [Stage.verdict?])⟩
  | select i r hstage hr =>
      refine ⟨rest, hrows, hset _ hstage (fun heq => ?_)⟩
      subst heq
      rw [(hq.rejects_iff_other hcollide hr hfirst).mpr (Or.inr ⟨second, hsecond, Ne.symm hne⟩)]
      simp [Stage.verdict?]
  | update i rejected hstage =>
      refine ⟨rest, hrows, hset _ hstage (fun heq => ?_)⟩
      subst heq
      rw [Queue.verdict?, hstage] at hverdict
      exact hverdict
  | other row => exact ⟨rest, hrows, hverdict⟩

theorem crowded_run {labels : List Label} {last : Queue} (hq : Ordered env strip requests q)
    (hcollide : Colliding env strip requests)
    (hstrangers : ∀ row, .other row ∈ labels → Stranger env strip requests row)
    (hrun : Runs.run (step env strip requests) labels q = some last) {first second : Nat}
    {rest : List Nat} (hrows : q.rows = first :: second :: rest)
    (hverdict : q.verdict? first ≠ some .passed) : last.verdict? first ≠ some .passed := by
  induction labels generalizing q rest with
  | nil =>
      obtain rfl := Option.some.inj hrun
      exact hverdict
  | cons label labels ih =>
      obtain ⟨next, hnext, hrest⟩ := Option.bind_eq_some_iff.mp hrun
      have hmove := step_move hnext
      obtain ⟨rest', hrows', hverdict'⟩ := crowded_move hq hcollide hmove hrows hverdict
      refine ih (hq.move hcollide (fun row hrow => ?_) hmove) (fun row hrow => ?_) hrest hrows'
        hverdict'
      · exact hstrangers row (hrow ▸ List.mem_cons_self)
      · exact hstrangers row (List.mem_cons_of_mem _ hrow)

/-- The first request of the rows has a song identity, and its beatmapset could
be fetched. -/
def Identified (env : Env) (strip : Bool) (requests : List SongRequest) (labels : List Label)
    (q : Queue) : Prop :=
  ∃ first r, q.rows.head? = some first ∧ .fetchFails first ∉ labels ∧
    requests[first]? = some r ∧ candidateForms env strip r ≠ []

theorem identified_cons_iff {labels : List Label} (hlabel : label.failsFetch = false) :
    Identified env strip requests (label :: labels) q ↔
      Identified env strip requests labels q := by
  have hmem (first : Nat) : .fetchFails first ∉ label :: labels ↔ .fetchFails first ∉ labels := by
    have hne : .fetchFails first ≠ label := by
      rintro rfl
      cases hlabel
    simp [hne]
  simp only [Identified, hmem]

/-- An undecided request with a row is waiting to be selected. -/
theorem Ordered.undecided (hq : Ordered env strip requests q) {first : Nat} {rest : List Nat}
    (hrows : q.rows = first :: rest) (hverdict : q.firstVerdict = none) :
    q.stages[first]? = some .inserted := by
  obtain ⟨-, -, stage, hstage⟩ := hq.requested first (by simp [hrows])
  have hposted := (hq.inserted first stage hstage).mp (by simp [hrows])
  rw [Queue.firstVerdict, hrows] at hverdict
  simp only [Queue.verdict?, hstage, Option.bind_some] at hverdict
  cases stage with
  | posted => exact absurd rfl hposted
  | inserted => exact hstage
  | selected rejected => cases hverdict
  | validated rejected => cases hverdict
  | skipped => cases hverdict

/-- As long as at most one row is there and undecided, the rule spares the first
request exactly if it is selected before the next insertion. -/
theorem undecided_run {labels : List Label} {last : Queue} (hq : Ordered env strip requests q)
    (hcollide : Colliding env strip requests)
    (hstrangers : ∀ row, .other row ∈ labels → Stranger env strip requests row)
    (hrun : Runs.run (step env strip requests) labels q = some last)
    (hrows : q.rows = [] ∨ ∃ first, q.rows = [first]) (hverdict : q.firstVerdict = none)
    (hdecided : last.rows ≠ [] → last.firstVerdict ≠ none) :
    last.firstVerdict = some .passed ↔
      Runs.Meets (step env strip requests) FirstSelected labels q ∧
        Identified env strip requests labels last := by
  induction labels generalizing q with
  | nil =>
      obtain rfl := Option.some.inj hrun
      rw [hverdict]
      refine ⟨fun h => (by cases h), fun h => ?_⟩
      obtain ⟨-, first, r, hfirst, -, -⟩ := h
      refine absurd hverdict (hdecided (fun hnil => ?_))
      rw [hnil] at hfirst
      cases hfirst
  | cons label labels ih =>
      obtain ⟨next, hnext, hrest⟩ := Option.bind_eq_some_iff.mp hrun
      have hmove := step_move hnext
      have hnextOrdered := hq.move hcollide
        (fun row hrow => hstrangers row (hrow ▸ List.mem_cons_self)) hmove
      have hlater : ∀ row, .other row ∈ labels → Stranger env strip requests row :=
        fun row hrow => hstrangers row (List.mem_cons_of_mem _ hrow)
      -- Whoever is beyond its insertion is the only one in the queue.
      have hone {i : Nat} {stage : Stage} (hstage : q.stages[i]? = some stage)
          (hbeyond : stage ≠ .posted) : q.rows = [i] := by
        have hmem : i ∈ q.rows := (hq.inserted i stage hstage).mpr hbeyond
        rcases hrows with hnil | ⟨first, hone⟩
        · simp [hnil] at hmem
        · simp only [hone, List.mem_singleton] at hmem
          rw [hone, hmem]
      rw [Runs.meets_cons_iff hnext]
      cases hmove with
      | insert i r hstage hr hnew =>
          rw [identified_cons_iff rfl]
          rcases hrows with hnil | ⟨first, hone⟩
          · have hfree : FirstSelected (.insert i) q := by simp [FirstSelected, hnil]
            rw [ih hnextOrdered hlater hrest (Or.inr ⟨i, by simp [hnil]⟩) ?_]
            · simp [hfree]
            · rw [Queue.firstVerdict, hnil]
              simp only [List.nil_append, Queue.verdict?]
              rw [List.getElem?_set_self (List.getElem?_eq_some_iff.mp hstage).1]
              rfl
          · have hwaiting := hq.undecided hone hverdict
            have hne : i ≠ first := by
              rintro rfl
              rw [hwaiting] at hstage
              cases hstage
            have hspared : last.verdict? first ≠ some .passed := by
              have hcrowd : q.rows ++ [i] = [first, i] := by rw [hone]; rfl
              refine crowded_run hnextOrdered hcollide hlater hrest hcrowd ?_
              simp [Queue.verdict?, List.getElem?_set_ne hne, hwaiting, Stage.verdict?]
            have hhead : last.rows.head? = some first := head_of_run hrest (by simp [hone])
            have hbusy : ¬ FirstSelected (.insert i) q := by simp [FirstSelected, hone, hwaiting]
            simp [firstVerdict_eq hhead, hspared, hbusy]
      | skip i hstage =>
          have hhead : last.rows.head? = some i := by
            refine head_of_run hrest ?_
            rw [hone hstage (by simp)]
            rfl
          have hunchecked := unchecked_of_fetchFails hrun List.mem_cons_self
          have hnot : ¬ Identified env strip requests (.fetchFails i :: labels) last := by
            rintro ⟨first, r, hfirst, hfetched, -⟩
            obtain rfl := Option.some.inj (hhead.symm.trans hfirst)
            exact hfetched List.mem_cons_self
          simp [firstVerdict_eq hhead, hunchecked, hnot]
      | select i r hstage hr =>
          have hrow : q.rows = [i] := hone hstage (by simp)
          have hhead : last.rows.head? = some i := by
            refine head_of_run hrest ?_
            rw [hrow]
            rfl
          have hvalue : Queue.verdict? { q with
                stages := q.stages.set i
                  (.selected (rejects env strip r (queueRows requests q))) } i =
              some (if rejects env strip r (queueRows requests q) then .rejected else .passed) := by
            rw [Queue.verdict?]
            dsimp only
            rw [List.getElem?_set_self (List.getElem?_eq_some_iff.mp hstage).1]
            rfl
          have hfirstValue := (firstVerdict_eq (by rw [hrow]; rfl)).trans hvalue
          have hmeets : Runs.Meets (step env strip requests) FirstSelected labels _ :=
            meets_of_decided hfirstValue
          have hfinal := verdict_of_run hrest hvalue
          have hfetched : .fetchFails i ∉ labels := by
            intro hfails
            have := hfinal.symm.trans (unchecked_of_fetchFails hrest hfails)
            split at this <;> cases this
          have hidentified : Identified env strip requests (.select i :: labels) last ↔
              candidateForms env strip r ≠ [] := by
            rw [identified_cons_iff rfl]
            constructor
            · rintro ⟨first, r', hfirst, -, hr', hforms⟩
              obtain rfl := Option.some.inj (hhead.symm.trans hfirst)
              obtain rfl := Option.some.inj (hr.symm.trans hr')
              exact hforms
            · exact fun hforms => ⟨i, r, hhead, hfetched, hr, hforms⟩
          rw [firstVerdict_eq hhead, hfinal, hidentified, ne_eq,
            ← hq.rejects_alone hcollide hr hrow]
          simp [hmeets, FirstSelected]
      | update i rejected hstage =>
          rw [hq.undecided (hone hstage (by simp)) hverdict] at hstage
          cases hstage
      | other row =>
          rw [ih hnextOrdered hlater hrest hrows hverdict, identified_cons_iff rfl]
          simp [FirstSelected]

/-- Of the requests whose rule was run it spared the first one or none. -/
theorem Ordered.countP_passed (hq : Ordered env strip requests q)
    (hcomplete : ∀ stage ∈ q.stages, stage.ended = true) :
    q.stages.countP (· = .validated false) = if q.firstVerdict = some .passed then 1 else 0 := by
  cases hrows : q.rows with
  | nil =>
      have hnone : q.stages = [] := by
        refine List.eq_nil_iff_forall_not_mem.mpr (fun stage hstage => ?_)
        obtain ⟨i, hi⟩ := List.mem_iff_getElem?.mp hstage
        have hended := hcomplete stage hstage
        have hmem := (hq.inserted i _ hi).mpr (by rintro rfl; cases hended)
        rw [hrows] at hmem
        cases hmem
      simp [hnone, Queue.firstVerdict, hrows]
  | cons first rest =>
      obtain ⟨-, -, stage, hstage⟩ := hq.requested first (by simp [hrows])
      have hverdict : q.firstVerdict = stage.verdict? := by
        rw [Queue.firstVerdict, hrows]
        simp only [Queue.verdict?, hstage, Option.bind_some]
      -- Nobody else is spared by the rule.
      have hothers : (q.stages.set first (.validated true)).countP (· = .validated false) = 0 := by
        refine List.countP_eq_zero.mpr (fun other hother => ?_)
        obtain ⟨i, hi⟩ := List.mem_iff_getElem?.mp hother
        rcases Runs.getElem?_set_cases hi with ⟨-, rfl⟩ | ⟨hne, hi⟩
        · simp
        · have hlater := hq.later first rest i other hrows hne hi
          simp only [decide_eq_true_eq]
          rintro rfl
          exact hlater rfl
      have hcount := Runs.countP_set_add (· = Stage.validated false) hstage (.validated true)
      rw [hothers, Nat.zero_add] at hcount
      rw [hverdict, ← hcount.trans (Nat.add_zero _)]
      have hended := hcomplete stage (List.mem_of_getElem? hstage)
      cases stage with
      | validated rejected => cases rejected <;> simp [Stage.verdict?]
      | skipped => simp [Stage.verdict?]
      | _ => cases hended

theorem countP_spared (stages : List Stage) :
    stages.countP Stage.spared =
      stages.countP (· = .validated false) + stages.countP (· = .skipped) := by
  induction stages with
  | nil => rfl
  | cons stage rest ih =>
      rw [List.countP_cons, List.countP_cons, List.countP_cons, ih]
      cases stage with
      | validated rejected =>
          cases rejected with
          | false =>
              simp only [Stage.spared, decide_true, Bool.not_false, if_true, reduceCtorEq,
                decide_false, Bool.false_eq_true, if_false]
              omega
          | true => simp [Stage.spared]
      | skipped =>
          simp only [Stage.spared, if_true, reduceCtorEq, decide_false, decide_true,
            Bool.false_eq_true, if_false]
          omega
      | _ => simp [Stage.spared]

/-! Rejected requests that cause a rejection. -/

/-- Where every other request is for the same song, a rejection is owed to those
that are gone if there are no others in the queue. -/
theorem Ordered.independent_iff (hq : Ordered env strip requests q)
    (hcollide : Colliding env strip requests) (gone : Queue → Nat → Nat → Bool)
    (hmove : Move env strip requests q label q') :
    Independent env strip requests gone label q ↔ Accompanied env strip requests gone label q := by
  cases hmove with
  | select i r hstage hr =>
      have hmem : i ∈ q.rows := (hq.inserted i _ hstage).mpr (by simp)
      have hstaying : ∀ j ∈ q.rows.filter (fun j => !gone q i j), j ∈ q.rows :=
        fun j hj => (List.mem_filter.mp hj).1
      have hstanding := hq.rejects_among hcollide hr hmem hstaying
      have hkept : (∃ j ∈ q.rows.filter (fun j => !gone q i j), j ≠ i) ↔
          ∃ j ∈ q.rows, j ≠ i ∧ gone q i j = false := by
        refine exists_congr (fun j => ?_)
        rw [List.mem_filter, Bool.not_eq_true', and_assoc, and_comm (a := j ≠ i)]
      simp only [Independent, Accompanied, hr, Option.mem_some_iff, forall_eq',
        hq.rejects_iff_other hcollide hr hmem, hstanding, hkept]
      by_cases hempty : candidateForms env strip r = []
      · simp [hempty]
      · simp only [hempty, false_or, ne_eq, not_false_eq_true, forall_const]
  | _ => exact Iff.rfl

theorem independent_run_iff {labels : List Label} {last : Queue}
    (hq : Ordered env strip requests q) (hcollide : Colliding env strip requests)
    (hstrangers : ∀ row, .other row ∈ labels → Stranger env strip requests row)
    (hrun : Runs.run (step env strip requests) labels q = some last)
    (gone : Queue → Nat → Nat → Bool) :
    Runs.Meets (step env strip requests) (Independent env strip requests gone) labels q ↔
      Runs.Meets (step env strip requests) (Accompanied env strip requests gone) labels q := by
  induction labels generalizing q with
  | nil => exact Iff.rfl
  | cons label labels ih =>
      obtain ⟨next, hnext, hrest⟩ := Option.bind_eq_some_iff.mp hrun
      have hmove := step_move hnext
      have hnextOrdered := hq.move hcollide
        (fun row hrow => hstrangers row (hrow ▸ List.mem_cons_self)) hmove
      have hlater : ∀ row, .other row ∈ labels → Stranger env strip requests row :=
        fun row hrow => hstrangers row (List.mem_cons_of_mem _ hrow)
      rw [Runs.meets_cons_iff hnext, Runs.meets_cons_iff hnext,
        hq.independent_iff hcollide gone hmove, ih hnextOrdered hlater hrest]

/-- A first request that the rule spares is selected alone, and accompanies
everybody else. -/
theorem accompanied_of_spared {labels : List Label} {last : Queue}
    (hq : Ordered env strip requests q) (hcollide : Colliding env strip requests)
    (hstrangers : ∀ row, .other row ∈ labels → Stranger env strip requests row)
    (hrun : Runs.run (step env strip requests) labels q = some last) {first : Nat}
    (hhead : last.rows.head? = some first) (hspared : last.verdict? first = some .passed)
    {gone : Queue → Nat → Nat → Bool}
    (hgone : ∀ q i, i ≠ first → q.verdict? first ≠ some .rejected → gone q i first = false) :
    Runs.Meets (step env strip requests) (Accompanied env strip requests gone) labels q := by
  induction labels generalizing q with
  | nil => trivial
  | cons label labels ih =>
      obtain ⟨next, hnext, hrest⟩ := Option.bind_eq_some_iff.mp hrun
      have hmove := step_move hnext
      have hnextOrdered := hq.move hcollide
        (fun row hrow => hstrangers row (hrow ▸ List.mem_cons_self)) hmove
      have hlater : ∀ row, .other row ∈ labels → Stranger env strip requests row :=
        fun row hrow => hstrangers row (List.mem_cons_of_mem _ hrow)
      rw [Runs.meets_cons_iff hnext]
      refine ⟨?_, ih hnextOrdered hlater hrest⟩
      cases hmove with
      | select i r hstage hr =>
          have hmem : i ∈ q.rows := (hq.inserted i _ hstage).mpr (by simp)
          obtain ⟨first', rest, hrows⟩ := List.exists_cons_of_ne_nil (List.ne_nil_of_mem hmem)
          obtain rfl : first' = first :=
            Option.some.inj ((head_of_run hrun (by rw [hrows]; rfl)).symm.trans hhead)
          rintro r' - - ⟨j, hj, hne⟩
          by_cases heq : i = first'
          · -- The rule would not have spared it.
            subst heq
            cases hrest' : rest with
            | nil =>
                rw [hrows, hrest', List.mem_singleton] at hj
                exact absurd hj hne
            | cons second rest' =>
                rw [hrest'] at hrows
                refine absurd hspared (crowded_run hq hcollide hstrangers hrun hrows ?_)
                simp [Queue.verdict?, hstage, Stage.verdict?]
          · refine ⟨first', by simp [hrows], Ne.symm heq, hgone q i heq (fun hrejected => ?_)⟩
            have := (verdict_of_run hrun hrejected).symm.trans hspared
            cases this
      | _ => trivial

theorem Ordered.firstVerdict_iff (hq : Ordered env strip requests q) {labels : List Label}
    (hcollide : Colliding env strip requests)
    (hrun : Runs.run (step env strip requests) labels (initially requests) = some q)
    (hstrangers : ∀ row, .other row ∈ labels → Stranger env strip requests row)
    (hcomplete : ∀ stage ∈ q.stages, stage.ended = true) :
    q.firstVerdict = some .passed ↔ Sparing env strip requests labels := by
  have hhead : q.rows.head? = labels.findSome? Label.inserted? := by
    rw [rows_of_run hrun]
    exact List.head?_filterMap
  rw [undecided_run ordered_initially hcollide hstrangers hrun (Or.inl rfl) rfl
    (fun hrows => ?_)]
  · simp only [Sparing, Identified, hhead]
  · obtain ⟨first, rest, hcons⟩ := List.exists_cons_of_ne_nil hrows
    obtain ⟨-, -, stage, hstage⟩ := hq.requested first (by simp [hcons])
    have hended := hcomplete stage (List.mem_of_getElem? hstage)
    rw [Queue.firstVerdict, hcons]
    cases stage with
    | validated rejected => simp [Queue.verdict?, hstage, Stage.verdict?]
    | skipped => simp [Queue.verdict?, hstage, Stage.verdict?]
    | _ => cases hended

end Proofs

/-- For requests that all collide with each other and with no other row of the
queue, once every validation job has ended: exactly one of them is not rejected,
no group of them is rejected for its own rows alone, and nobody for the rows of
requests rejected before, if and only if no fetch fails and the first request is
selected before the next one is inserted and has a song identity; or one fetch
fails, the first request is not the one the rule spares, and nobody is selected
in the company of such requests only. -/
theorem one_spared_iff (env : Env) (strip : Bool) (requests : List SongRequest)
    (hcollide : Colliding env strip requests) {labels : List Label} {q : Queue}
    (hrun : Runs.run (step env strip requests) labels (initially requests) = some q)
    (hstrangers : ∀ row, .other row ∈ labels → Stranger env strip requests row)
    (hcomplete : ∀ stage ∈ q.stages, stage.ended = true) :
    (q.stages.countP Stage.spared = 1 ∧
      (∀ group ≠ [], ∃ i ∈ group, Runs.Meets (step env strip requests)
        (Independent env strip requests (amongst i group)) labels (initially requests)) ∧
      Runs.Meets (step env strip requests) (Independent env strip requests alreadyRejected) labels
        (initially requests)) ↔
      labels.countP Label.failsFetch = 0 ∧ Sparing env strip requests labels ∨
      labels.countP Label.failsFetch = 1 ∧ ¬ Sparing env strip requests labels ∧
        (∀ group ≠ [], ∃ i ∈ group, Runs.Meets (step env strip requests)
          (Accompanied env strip requests (amongst i group)) labels (initially requests)) ∧
        Runs.Meets (step env strip requests) (Accompanied env strip requests alreadyRejected) labels
          (initially requests) := by
  have hq := ordered_run ordered_initially hcollide hstrangers hrun
  have hskipped := skipped_of_run hrun
  have hpassed := hq.countP_passed hcomplete
  have hnone : (initially requests).stages.countP (· = .skipped) = 0 := by
    refine List.countP_eq_zero.mpr (fun stage hstage => ?_)
    obtain ⟨r, -, rfl⟩ := List.mem_map.mp hstage
    simp
  have hindependent := independent_run_iff ordered_initially hcollide hstrangers hrun
  rw [countP_spared, hpassed, hskipped, hnone, ← hq.firstVerdict_iff hcollide hrun hstrangers
    hcomplete]
  simp only [hindependent]
  by_cases hspared : q.firstVerdict = some .passed
  · -- The first request accompanies all others.
    obtain ⟨first, hhead⟩ := head_of_firstVerdict hspared
    have hverdict := (firstVerdict_eq hhead).symm.trans hspared
    have haccompanied (gone : Queue → Nat → Nat → Bool)
        (hgone : ∀ q i, i ≠ first → q.verdict? first ≠ some .rejected → gone q i first = false) :
        Runs.Meets (step env strip requests) (Accompanied env strip requests gone) labels
          (initially requests) :=
      accompanied_of_spared ordered_initially hcollide hstrangers hrun hhead hverdict hgone
    have hgroups : ∀ group ≠ [], ∃ i ∈ group, Runs.Meets (step env strip requests)
        (Accompanied env strip requests (amongst i group)) labels (initially requests) := by
      intro group hgroup
      by_cases hmember : first ∈ group
      · refine ⟨first, hmember, haccompanied _ (fun q i hne _ => ?_)⟩
        simp [amongst, hne]
      · refine ⟨group.head hgroup, List.head_mem hgroup, haccompanied _ (fun q i _ _ => ?_)⟩
        simp [amongst, hmember]
    have hrejected := haccompanied alreadyRejected (fun q i _ hstanding => by
      simp only [alreadyRejected, decide_eq_false_iff_not]
      intro hstage
      simp [Queue.verdict?, hstage, Stage.verdict?] at hstanding)
    simp only [hspared, if_true, hrejected, and_true, not_true_eq_false, false_and, and_false,
      or_false]
    refine ⟨fun h => ?_, fun h => ⟨?_, hgroups⟩⟩ <;> omega
  · simp only [hspared, if_false, and_false, false_or, not_false_eq_true, true_and, Nat.zero_add]

/-! Sets of one song. -/

def sampleEnv : Env where
  queueId := 7
  userId := 3
  beatmapset := none
  beatmaps := []
  queueName := .ok (some "Mapping queue")
  search := some (fun _ _ _ => .ok [])
  requests := none
  normalizeText := fun _ text => text
  statefulCheck := fun _ _ => immediately (.ok ())

def sampleRequest (beatmapsetId : Nat) : SongRequest :=
  ⟨⟨beatmapsetId, "artist", "", "title", "", none, none, false, false⟩, ⟨"artist", "title", "", ""⟩⟩

def sampleRequests : List SongRequest := [sampleRequest 1000, sampleRequest 1001]

/-- Both rows are there when the first select runs: the requests reject each
other. -/
theorem simultaneousRequests_rejected :
    ∃ q, Runs.run (step sampleEnv true sampleRequests)
        [.insert 0, .insert 1, .select 0, .select 1, .update 0, .update 1]
        (initially sampleRequests) = some q ∧
      q.stages = [.validated true, .validated true] := by
  refine ⟨_, rfl, by decide +kernel⟩

def threeRequests : List SongRequest := [sampleRequest 1000, sampleRequest 1001, sampleRequest 1002]

def strangeRow : Song × Nat := (⟨"artist", "another title", "", ""⟩, 999)

def firstAlone : List Label :=
  [.other strangeRow, .insert 0, .select 0, .insert 1, .update 0, .insert 2, .select 2, .select 1,
    .update 1, .update 2]

/-- The second and the third request meet the first one, which was selected
before they were there. -/
theorem firstAlone_spared :
    ∃ q, Runs.run (step sampleEnv true threeRequests) firstAlone (initially threeRequests) =
        some q ∧
      q.stages = [.validated false, .validated true, .validated true] ∧
      q.stages.countP Stage.spared = 1 ∧
      (∀ group ≠ [], ∃ i ∈ group, Runs.Meets (step sampleEnv true threeRequests)
        (Independent sampleEnv true threeRequests (amongst i group)) firstAlone
        (initially threeRequests)) ∧
      Runs.Meets (step sampleEnv true threeRequests)
        (Independent sampleEnv true threeRequests alreadyRejected) firstAlone
        (initially threeRequests) := by
  have hall : ∀ ri ∈ threeRequests, ∀ rj ∈ threeRequests,
      formsMeet (candidateForms sampleEnv true ri)
        (normalizedIdentityForms sampleEnv true rj.stored) = true := by decide +kernel
  have hcollide : Colliding sampleEnv true threeRequests :=
    fun _ _ ri rj _ hri hrj =>
      hall ri (List.mem_of_getElem? hri) rj (List.mem_of_getElem? hrj)
  have hends : (Runs.run (step sampleEnv true threeRequests) firstAlone
      (initially threeRequests)).map Queue.stages =
        some [.validated false, .validated true, .validated true] := by decide +kernel
  obtain ⟨q, hrun, hends⟩ := Option.map_eq_some_iff.mp hends
  have hstrangers : ∀ row, .other row ∈ firstAlone → Stranger sampleEnv true threeRequests row := by
    intro row hrow
    obtain rfl : row = strangeRow := by simpa [firstAlone] using hrow
    exact (by decide +kernel : ∀ r ∈ threeRequests, formsMeet (candidateForms sampleEnv true r)
      (normalizedIdentityForms sampleEnv true strangeRow.1) = false)
  have hcomplete : ∀ stage ∈ q.stages, stage.ended = true := by
    rw [hends]
    decide
  have hspares : Sparing sampleEnv true threeRequests firstAlone :=
    ⟨by decide +kernel, 0, sampleRequest 1000, rfl, by simp [firstAlone], rfl, by decide +kernel⟩
  exact ⟨q, hrun, hends,
    (one_spared_iff sampleEnv true threeRequests hcollide hrun hstrangers hcomplete).mpr
      (Or.inl ⟨rfl, hspares⟩)⟩

end Songs

end Graveboards.Requests
