import Graveboards.Library.Layers

/-!
The execution order of the seeders. `resolve_dependencies` walks the dependency
table depth first from the requested targets and groups what it met into
layers. Both are modelled over any table. The sets of Python are lists here, in
the order in which they happen to be iterated, and the recursion of `visit` has
the depth that the interpreter allows.
-/

namespace Graveboards.Seeding

open Library.Layers Relation

/-- Internal seeder targets used by the orchestration layer. -/
inductive SeederTarget where
  | USER | BEATMAP | QUEUE | REQUEST
  deriving Repr

namespace SeederTarget

def value : SeederTarget → String
  | USER => "user"
  | BEATMAP => "beatmap"
  | QUEUE => "queue"
  | REQUEST => "request"

/-- Where the value stands among the values in the order of strings. -/
def place : SeederTarget → Nat
  | BEATMAP => 0
  | QUEUE => 1
  | REQUEST => 2
  | USER => 3

example (s t : SeederTarget) : s.place < t.place ↔ s.value < t.value := by
  cases s <;> cases t <;> decide

theorem place_injective : Function.Injective place := fun s t h => by
  cases s <;> cases t <;> first | rfl | cases h

instance : LinearOrder SeederTarget :=
  LinearOrder.lift' place place_injective

instance : Fintype SeederTarget :=
  ⟨{USER, BEATMAP, QUEUE, REQUEST}, fun s => by cases s <;> decide⟩

end SeederTarget

/-- Directed dependency graph between seeder targets. -/
def DEPENDENCIES : SeederTarget → List SeederTarget
  | .USER => []
  | .BEATMAP => [.USER]
  | .QUEUE => [.USER]
  | .REQUEST => [.USER, .QUEUE, .BEATMAP]

inductive ResolveError where
  | recursionError
  | runtimeError
  deriving DecidableEq, Repr

section Table

variable {α : Type} [LinearOrder α] (dependencies : α → List α)

/-- `set.add` -/
def add (resolved : List α) (target : α) : List α :=
  if target ∈ resolved then resolved else resolved ++ [target]

/-- One call of `visit`; nothing where the recursion is deeper than allowed. -/
def visit : Nat → List α → α → Option (List α)
  | 0, _, _ => none
  | depth + 1, resolved, target =>
      if target ∈ resolved then some resolved
      else do
        let resolved ← (dependencies target).foldlM (visit depth) resolved
        return add resolved target

/-- The keys of the graph whose set is empty. -/
def ready (graph : List (α × List α)) : List α :=
  (graph.filter (fun entry => entry.2.isEmpty)).map Prod.fst

/-- `del graph[t]` and `difference_update` for the targets of a layer. -/
def without (graph : List (α × List α)) (layer : List α) : List (α × List α) :=
  (graph.filter (fun entry => entry.1 ∉ layer)).map
    (fun entry => (entry.1, entry.2.filter (· ∉ layer)))

/-- `while graph`; there are at most as many rounds as the graph has keys. -/
def layersOf : Nat → List (α × List α) → Option (List (List α))
  | _, [] => some []
  | 0, _ :: _ => none
  | rounds + 1, graph =>
      if (ready graph).isEmpty then none
      else do
        let layers ← layersOf rounds (without graph (ready graph))
        return (ready graph).insertionSort (· ≤ ·) :: layers

def topologicalLayers (targets : List α) : Except ResolveError (List (List α)) :=
  let graph := targets.map (fun t => (t, (dependencies t).filter (· ∈ targets)))
  match layersOf graph.length graph with
  | some layers => .ok layers
  | none => .error .runtimeError

def resolveDependencies (depth : Nat) (targets : List α) :
    Except ResolveError (List (List α)) :=
  match targets.foldlM (visit dependencies depth) [] with
  | some resolved => topologicalLayers dependencies resolved
  | none => .error .recursionError

/-! The layers of a set of targets. -/

variable {dependencies}

/-- The graph of the targets that are left. -/
def graphOf (dependencies : α → List α) (left : List α) : List (α × List α) :=
  left.map (fun t => (t, (dependencies t).filter (· ∈ left)))

theorem mem_ready {left : List α} {t : α} :
    t ∈ ready (graphOf dependencies left) ↔
      t ∈ left ∧ ∀ d ∈ dependencies t, d ∉ left := by
  simp [ready, graphOf, List.filter_map, List.filter_eq_nil_iff, Function.comp_def]

theorem without_graphOf (left layer : List α) :
    without (graphOf dependencies left) layer =
      graphOf dependencies (left.filter (· ∉ layer)) := by
  simp only [without, graphOf, List.filter_map, List.map_map]
  refine List.map_congr_left (fun t _ => congrArg (Prod.mk t) ?_)
  rw [List.filter_filter]
  refine List.filter_congr (fun d _ => ?_)
  simp [List.mem_filter, Bool.and_comm]

theorem layersOf_succ (rounds : Nat) {left : List α} (hleft : left ≠ []) :
    layersOf (rounds + 1) (graphOf dependencies left) =
      if (ready (graphOf dependencies left)).isEmpty then none
      else (layersOf rounds (without (graphOf dependencies left)
        (ready (graphOf dependencies left)))).map
          (((ready (graphOf dependencies left)).insertionSort (· ≤ ·)) :: ·) := by
  cases left with
  | nil => exact absurd rfl hleft
  | cons t rest =>
      rw [Option.map_eq_bind]
      rfl

theorem nodup_ready {left : List α} (hnodup : left.Nodup) :
    (ready (graphOf dependencies left)).Nodup := by
  have hkeys : (graphOf dependencies left).map Prod.fst = left := by
    simp [graphOf, Function.comp_def]
  exact (hkeys ▸ hnodup).sublist (List.filter_sublist.map Prod.fst)

/-- The loop peels the targets that are left. -/
theorem layersOf_peels {rounds : Nat} {left : List α} {layers : List (List α)}
    (hnodup : left.Nodup) (h : layersOf rounds (graphOf dependencies left) = some layers) :
    Peels dependencies left layers ∧ ∀ layer ∈ layers, layer.Pairwise (· ≤ ·) := by
  induction rounds generalizing left layers with
  | zero =>
      cases left with
      | nil =>
          obtain rfl := Option.some.inj h
          exact ⟨.done, fun layer hlayer => absurd hlayer List.not_mem_nil⟩
      | cons t rest => cases h
  | succ rounds ih =>
      by_cases hleft : left = []
      · subst hleft
        obtain rfl := Option.some.inj h
        exact ⟨.done, fun layer hlayer => absurd hlayer List.not_mem_nil⟩
      · rw [layersOf_succ rounds hleft] at h
        split at h
        · cases h
        · rename_i hready
          obtain ⟨rest, hrest, rfl⟩ := Option.map_eq_some_iff.mp h
          rw [without_graphOf] at hrest
          obtain ⟨hpeels, hsorted⟩ := ih (hnodup.filter _) hrest
          have hperm := List.perm_insertionSort (· ≤ ·) (ready (graphOf dependencies left))
          refine ⟨.layer ?_ (hperm.nodup_iff.mpr (nodup_ready hnodup)) (fun t => ?_)
            (fun t => ?_) hpeels, fun layer hlayer => ?_⟩
          · intro hnil
            exact hready (List.isEmpty_iff.mpr (List.nil_perm.mp (hnil ▸ hperm)))
          · rw [hperm.mem_iff, mem_ready]
          · rw [hperm.mem_iff]
            simp
          · cases List.mem_cons.mp hlayer with
            | inl heq => exact heq ▸ List.pairwise_insertionSort (· ≤ ·) _
            | inr hrest => exact hsorted layer hrest

/-- Where the loop gives up, some of the targets left never come to their turn. -/
theorem layersOf_stuck {rounds : Nat} {left : List α} (hrounds : left.length ≤ rounds)
    (h : layersOf rounds (graphOf dependencies left) = none) :
    ∃ t, ¬ Acc (Needs dependencies left) t := by
  induction rounds generalizing left with
  | zero =>
      obtain rfl := List.eq_nil_of_length_eq_zero (Nat.le_zero.mp hrounds)
      cases h
  | succ rounds ih =>
      by_cases hleft : left = []
      · subst hleft
        cases h
      · rw [layersOf_succ rounds hleft] at h
        split at h
        · rename_i hready
          obtain ⟨t, ht⟩ := List.exists_mem_of_ne_nil left hleft
          refine ⟨t, fun hacc => ?_⟩
          obtain ⟨d, hd, hfree⟩ := exists_free hacc ht
          have hmem := mem_ready.mpr ⟨hd, hfree⟩
          rw [List.isEmpty_iff.mp hready] at hmem
          exact List.not_mem_nil hmem
        · rename_i hready
          have hrest := Option.map_eq_none_iff.mp h
          rw [without_graphOf] at hrest
          have hshorter : (left.filter (· ∉ ready (graphOf dependencies left))).length <
              left.length := by
            obtain ⟨t, ht⟩ := List.exists_mem_of_ne_nil _ (mt List.isEmpty_iff.mpr hready)
            exact List.length_filter_lt_length_iff_exists.mpr
              ⟨t, (mem_ready.mp ht).1, by simpa using ht⟩
          obtain ⟨t, ht⟩ := ih (by omega) hrest
          refine ⟨t, fun hacc => ht (Subrelation.accessible (fun h => ?_) hacc)⟩
          exact ⟨(List.mem_filter.mp h.1).1, (List.mem_filter.mp h.2.1).1, h.2.2⟩

/-- The layers of any targets: sorted, each target in the earliest layer behind
its dependencies among them; the error exactly if some target depends on itself. -/
theorem topologicalLayers_spec (targets : List α) (hnodup : targets.Nodup) :
    match topologicalLayers dependencies targets with
    | .ok layers => Layered dependencies targets layers ∧ ∀ layer ∈ layers, layer.Pairwise (· ≤ ·)
    | .error error => error = .runtimeError ∧
        ∃ t, TransGen (Needs dependencies targets) t t := by
  have hgraph : topologicalLayers dependencies targets =
      match layersOf targets.length (graphOf dependencies targets) with
      | some layers => .ok layers
      | none => .error .runtimeError := by
    simp [topologicalLayers, graphOf]
  rw [hgraph]
  cases h : layersOf targets.length (graphOf dependencies targets) with
  | some layers =>
      obtain ⟨hpeels, hsorted⟩ := layersOf_peels hnodup h
      exact ⟨hpeels.layered, hsorted⟩
  | none =>
      obtain ⟨t, ht⟩ := layersOf_stuck (Nat.le_refl _) h
      refine ⟨rfl, ?_⟩
      by_contra hcycle
      exact ht (acc_iff_acyclic.mpr (fun t h => hcycle ⟨t, h⟩) t)

/-! The walk over the table. -/

/-- The target `d` is required by the target `t`. -/
def Requires (dependencies : α → List α) (t d : α) : Prop :=
  ReflTransGen (fun t d => d ∈ dependencies t) t d

/-- Every chain of dependencies from `t` ends. -/
def Ends (dependencies : α → List α) (t : α) : Prop :=
  Acc (fun d t => d ∈ dependencies t) t

/-- What the walk has resolved so far: with each target all it requires. -/
structure Resolved (dependencies : α → List α) (resolved : List α) : Prop where
  nodup : resolved.Nodup
  closed : ∀ t ∈ resolved, ∀ d ∈ dependencies t, d ∈ resolved
  ends : ∀ t ∈ resolved, Ends dependencies t

/-- What a part of the walk adds to what is resolved. -/
structure Extends (dependencies : α → List α) (targets resolved resolved' : List α) : Prop where
  sound : Resolved dependencies resolved'
  kept : ∀ t ∈ resolved, t ∈ resolved'
  met : ∀ t ∈ targets, t ∈ resolved'
  required : ∀ d ∈ resolved', d ∈ resolved ∨ ∃ t ∈ targets, Requires dependencies t d

theorem mem_add {resolved : List α} {target t : α} :
    t ∈ add resolved target ↔ t ∈ resolved ∨ t = target := by
  unfold add
  split
  · rename_i h
    exact ⟨.inl, fun ht => ht.elim id (fun heq => heq ▸ h)⟩
  · simp

omit [LinearOrder α] in
/-- The recursive calls of one visit, from what each of them adds. -/
theorem foldlM_extends {walk : List α → α → Option (List α)}
    (hwalk : ∀ resolved t resolved', Resolved dependencies resolved →
      walk resolved t = some resolved' → Extends dependencies [t] resolved resolved')
    {targets resolved resolved' : List α} (hresolved : Resolved dependencies resolved)
    (h : targets.foldlM walk resolved = some resolved') :
    Extends dependencies targets resolved resolved' := by
  induction targets generalizing resolved with
  | nil =>
      obtain rfl := Option.some.inj h
      exact ⟨hresolved, fun t ht => ht, fun t ht => absurd ht List.not_mem_nil, fun d => .inl⟩
  | cons t rest ih =>
      rw [List.foldlM_cons] at h
      obtain ⟨next, hnext, hrest⟩ := Option.bind_eq_some_iff.mp h
      have hfirst := hwalk resolved t next hresolved hnext
      have hlast := ih hfirst.sound hrest
      refine ⟨hlast.sound, fun s hs => hlast.kept s (hfirst.kept s hs), fun s hs => ?_,
        fun d hd => ?_⟩
      · cases List.mem_cons.mp hs with
        | inl heq => exact hlast.kept s (hfirst.met s (heq ▸ List.mem_cons_self))
        | inr hs => exact hlast.met s hs
      · cases hlast.required d hd with
        | inl hd =>
            refine (hfirst.required d hd).imp id (fun ⟨s, hs, hrequires⟩ => ⟨s, ?_, hrequires⟩)
            exact List.mem_singleton.mp hs ▸ List.mem_cons_self
        | inr hd =>
            obtain ⟨s, hs, hrequires⟩ := hd
            exact .inr ⟨s, List.mem_cons_of_mem _ hs, hrequires⟩

/-- A visit adds its target and all the target requires, and nothing else. -/
theorem visit_extends {depth : Nat} {resolved resolved' : List α} {target : α}
    (hresolved : Resolved dependencies resolved)
    (h : visit dependencies depth resolved target = some resolved') :
    Extends dependencies [target] resolved resolved' := by
  induction depth generalizing resolved resolved' target with
  | zero => cases h
  | succ depth ih =>
      rw [visit] at h
      split at h
      · rename_i hmem
        obtain rfl := Option.some.inj h
        exact ⟨hresolved, fun t ht => ht, fun t ht => List.mem_singleton.mp ht ▸ hmem,
          fun d => .inl⟩
      · obtain ⟨next, hnext, hadd⟩ := Option.bind_eq_some_iff.mp h
        obtain rfl := Option.some.inj hadd
        have hdeps := foldlM_extends (fun resolved t resolved' => ih) hresolved hnext
        have hends : Ends dependencies target :=
          Acc.intro target (fun d hd => hdeps.sound.ends d (hdeps.met d hd))
        refine ⟨⟨?_, fun t ht d hd => ?_, fun t ht => ?_⟩, fun t ht => ?_, fun t ht => ?_,
          fun d hd => ?_⟩
        · unfold add
          split
          · exact hdeps.sound.nodup
          · rename_i hmem
            exact List.nodup_append.mpr ⟨hdeps.sound.nodup, List.nodup_singleton target,
              fun a ha b hb hab => hmem (List.mem_singleton.mp hb ▸ hab ▸ ha)⟩
        · refine mem_add.mpr (.inl ?_)
          cases mem_add.mp ht with
          | inl ht => exact hdeps.sound.closed t ht d hd
          | inr heq => exact hdeps.met d (heq ▸ hd)
        · cases mem_add.mp ht with
          | inl ht => exact hdeps.sound.ends t ht
          | inr heq => exact heq ▸ hends
        · exact mem_add.mpr (.inl (hdeps.kept t ht))
        · exact mem_add.mpr (.inr (List.mem_singleton.mp ht))
        · cases mem_add.mp hd with
          | inl hd =>
              refine (hdeps.required d hd).imp id (fun ⟨s, hs, hrequires⟩ => ?_)
              exact ⟨target, List.mem_cons_self, .head hs hrequires⟩
          | inr heq => exact .inr ⟨target, List.mem_cons_self, heq ▸ .refl⟩

omit [LinearOrder α] in
/-- A walk over targets whose calls all end for every depth from some depth on. -/
theorem foldlM_completes {walk : Nat → List α → α → Option (List α)} {targets : List α}
    (hwalk : ∀ t ∈ targets, ∀ᶠ depth in Filter.atTop, ∀ resolved, walk depth resolved t ≠ none) :
    ∀ᶠ depth in Filter.atTop, ∀ resolved, targets.foldlM (walk depth) resolved ≠ none := by
  have hall := (Filter.eventually_all_finite targets.finite_toSet).mpr hwalk
  refine hall.mono (fun depth hdepth => ?_)
  clear hwalk hall
  induction targets with
  | nil => exact fun resolved => Option.some_ne_none resolved
  | cons t rest ih =>
      intro resolved
      rw [List.foldlM_cons]
      obtain ⟨next, hnext⟩ := Option.ne_none_iff_exists'.mp
        (hdepth t List.mem_cons_self resolved)
      rw [hnext]
      exact ih (fun s hs => hdepth s (List.mem_cons_of_mem _ hs)) next

theorem visit_completes {target : α} (hends : Ends dependencies target) :
    ∀ᶠ depth in Filter.atTop, ∀ resolved, visit dependencies depth resolved target ≠ none := by
  induction hends with
  | intro target _ ih =>
      obtain ⟨bound, hbound⟩ := Filter.eventually_atTop.mp (foldlM_completes ih)
      refine Filter.eventually_atTop.mpr ⟨bound + 1, fun depth hdepth resolved => ?_⟩
      obtain ⟨depth, rfl⟩ : ∃ n, depth = n + 1 := ⟨depth - 1, by omega⟩
      rw [visit]
      split
      · exact Option.some_ne_none resolved
      · obtain ⟨next, hnext⟩ := Option.ne_none_iff_exists'.mp
          (hbound depth (by omega) resolved)
        rw [hnext]
        exact Option.some_ne_none (add next target)

omit [LinearOrder α] in
/-- On a finite table the chains from a target end exactly if it requires no
target that depends on itself. -/
theorem ends_iff_acyclic [Finite α] (t : α) :
    Ends dependencies t ↔ ∀ d, Requires dependencies t d →
      ¬ TransGen (fun d t => d ∈ dependencies t) d d := by
  constructor
  · intro hends d hrequires
    have hd : Ends dependencies d := by
      induction hrequires with
      | refl => exact hends
      | tail _ hstep ih => exact ih.inv hstep
    exact not_transGen_self hd
  · intro hcycle
    exact acc_of_acyclic_on (Set.toFinite {d | Requires dependencies t d})
      (fun d e hd hstep => hd.tail hstep) hcycle t .refl

/-- What the orchestrator relies on: all the targets require, each in the
earliest layer behind the targets it depends on, every layer sorted. -/
structure ExecutionOrder (dependencies : α → List α) (targets : List α)
    (layers : List (List α)) : Prop where
  required : ∀ t, t ∈ layers.flatten ↔ ∃ s ∈ targets, Requires dependencies s t
  layered : Layered dependencies layers.flatten layers
  sorted : ∀ layer ∈ layers, layer.Pairwise (· ≤ ·)

omit [LinearOrder α] in
theorem resolved_nil : Resolved dependencies [] :=
  ⟨List.nodup_nil, fun _ h => absurd h List.not_mem_nil, fun _ h => absurd h List.not_mem_nil⟩

/-- What the whole walk has resolved. -/
theorem walk_extends {depth : Nat} {targets resolved : List α}
    (h : targets.foldlM (visit dependencies depth) [] = some resolved) :
    Extends dependencies targets [] resolved :=
  foldlM_extends (fun _ _ _ hresolved => visit_extends hresolved) resolved_nil h

omit [LinearOrder α] in
theorem Extends.mem_iff {targets resolved : List α}
    (h : Extends dependencies targets [] resolved) (t : α) :
    t ∈ resolved ↔ ∃ s ∈ targets, Requires dependencies s t := by
  constructor
  · exact fun ht => (h.required t ht).resolve_left List.not_mem_nil
  · rintro ⟨s, hs, hrequires⟩
    induction hrequires with
    | refl => exact h.met s hs
    | tail _ hstep ih => exact h.sound.closed _ ih _ hstep

/-- Nothing that the walk has resolved depends on itself. -/
theorem Resolved.topologicalLayers {resolved : List α} (h : Resolved dependencies resolved) :
    ∃ layers, topologicalLayers dependencies resolved = .ok layers ∧
      Layered dependencies resolved layers ∧ ∀ layer ∈ layers, layer.Pairwise (· ≤ ·) := by
  have hspec := @topologicalLayers_spec _ _ dependencies resolved h.nodup
  cases hlayers : Seeding.topologicalLayers dependencies resolved with
  | ok layers =>
      rw [hlayers] at hspec
      exact ⟨layers, rfl, hspec⟩
  | error error =>
      rw [hlayers] at hspec
      obtain ⟨-, t, hcycle⟩ := hspec
      have hends (s : α) : Acc (Needs dependencies resolved) s :=
        Acc.intro s (fun d hneeds =>
          Subrelation.accessible (fun h => h.2.2) (h.ends d hneeds.2.1))
      exact absurd hcycle (not_transGen_self (hends t))

theorem resolveDependencies_ok {depth : Nat} {targets : List α} {layers : List (List α)}
    (h : resolveDependencies dependencies depth targets = .ok layers) :
    ExecutionOrder dependencies targets layers ∧ ∀ t ∈ targets, Ends dependencies t := by
  unfold resolveDependencies at h
  split at h
  · rename_i resolved hwalk
    have hextends := walk_extends hwalk
    obtain ⟨layers', hlayers, hlayered, hsorted⟩ := hextends.sound.topologicalLayers
    obtain rfl := Except.ok.inj (hlayers.symm.trans h)
    have hmem (t : α) : t ∈ layers'.flatten ↔ t ∈ resolved := hlayered.complete t
    refine ⟨⟨fun t => (hmem t).trans (hextends.mem_iff t), ?_, hsorted⟩,
      fun t ht => hextends.sound.ends t (hextends.met t ht)⟩
    exact ⟨fun t => Iff.rfl, hlayered.nodup, hlayered.nonempty,
      fun i t d ht hneeds => hlayered.after i t d ht
        ⟨(hmem t).mp hneeds.1, (hmem d).mp hneeds.2.1, hneeds.2.2⟩,
      fun i t ht => (hlayered.tight i t ht).imp (fun d hd =>
        ⟨⟨(hmem t).mpr hd.1.1, (hmem d).mpr hd.1.2.1, hd.1.2.2⟩, hd.2⟩)⟩
  · cases h

theorem resolveDependencies_error {depth : Nat} {targets : List α} {error : ResolveError}
    (h : resolveDependencies dependencies depth targets = .error error) :
    error = .recursionError ∧ targets.foldlM (visit dependencies depth) [] = none := by
  unfold resolveDependencies at h
  split at h
  · rename_i resolved hwalk
    obtain ⟨layers, hlayers, -⟩ := (walk_extends hwalk).sound.topologicalLayers
    exact absurd (hlayers.symm.trans h) (by simp)
  · rename_i hwalk
    exact ⟨(Except.error.inj h).symm, hwalk⟩

/-- Tables with the same dependencies and targets with the same members have one
execution order, however their sets are iterated. -/
theorem ExecutionOrder.unique {dependencies' : α → List α} {targets targets' : List α}
    {layers layers' : List (List α)}
    (hdependencies : ∀ t d, d ∈ dependencies t ↔ d ∈ dependencies' t)
    (htargets : ∀ t, t ∈ targets ↔ t ∈ targets') (h : ExecutionOrder dependencies targets layers)
    (h' : ExecutionOrder dependencies' targets' layers') : layers = layers' := by
  have hrequires : Requires dependencies = Requires dependencies' := by
    have hstep : (fun t d => d ∈ dependencies t) = (fun t d => d ∈ dependencies' t) := by
      funext t d
      exact propext (hdependencies t d)
    unfold Requires
    rw [hstep]
  have hmem (t : α) : t ∈ layers.flatten ↔ t ∈ layers'.flatten := by
    rw [h.required, h'.required, hrequires]
    exact exists_congr (fun s => and_congr_left' (htargets s))
  exact h.layered.eq_of_sorted hdependencies hmem h'.layered h.sorted h'.sorted

/-- A target is resolved into the one execution order there is, whatever order
the sets are iterated in, unless something it requires depends on itself; then
the recursion of `visit` is what fails and the check for cycles is not reached. -/
theorem resolveDependencies_exact [Finite α] (dependencies : α → List α) (targets : List α) :
    (∀ depth layers, resolveDependencies dependencies depth targets = .ok layers →
      ExecutionOrder dependencies targets layers) ∧
    (∀ depth, resolveDependencies dependencies depth targets ≠ .error .runtimeError) ∧
    ((∃ s ∈ targets, ∃ t, Requires dependencies s t ∧
        TransGen (fun d t => d ∈ dependencies t) t t) →
      ∀ depth, resolveDependencies dependencies depth targets = .error .recursionError) ∧
    ((∀ s ∈ targets, ∀ t, Requires dependencies s t →
        ¬ TransGen (fun d t => d ∈ dependencies t) t t) →
      ∃ layers, ∀ dependencies' targets', (∀ t d, d ∈ dependencies t ↔ d ∈ dependencies' t) →
        (∀ t, t ∈ targets ↔ t ∈ targets') →
        ∀ᶠ depth in Filter.atTop,
        resolveDependencies dependencies' depth targets' = .ok layers) := by
  refine ⟨fun depth layers h => (resolveDependencies_ok h).1, fun depth h => ?_,
    fun hcycle depth => ?_, fun hacyclic => ?_⟩
  · exact absurd (resolveDependencies_error h).1 (by decide)
  · obtain ⟨s, hs, t, hrequires, hself⟩ := hcycle
    cases h : resolveDependencies dependencies depth targets with
    | ok layers =>
        have hends := (resolveDependencies_ok h).2 s hs
        exact absurd hself ((ends_iff_acyclic s).mp hends t hrequires)
    | error error => rw [(resolveDependencies_error h).1]
  · have hcompletes (dependencies' : α → List α) (targets' : List α)
        (hdependencies : ∀ t d, d ∈ dependencies t ↔ d ∈ dependencies' t)
        (htargets : ∀ t, t ∈ targets ↔ t ∈ targets') :
        ∀ᶠ depth in Filter.atTop, ∃ layers,
          resolveDependencies dependencies' depth targets' = .ok layers := by
      have hends (t : α) (ht : t ∈ targets') : Ends dependencies' t := by
        refine Subrelation.accessible (fun h => (hdependencies _ _).mpr h) ?_
        exact (ends_iff_acyclic t).mpr (hacyclic t ((htargets t).mpr ht))
      have hwalk := foldlM_completes (fun t ht => visit_completes (hends t ht))
      refine hwalk.mono (fun depth hdepth => ?_)
      cases h : resolveDependencies dependencies' depth targets' with
      | ok layers => exact ⟨layers, rfl⟩
      | error error => exact absurd (resolveDependencies_error h).2 (hdepth [])
    obtain ⟨depth, layers, hlayers⟩ :=
      (hcompletes dependencies targets (fun _ _ => Iff.rfl) (fun _ => Iff.rfl)).exists
    refine ⟨layers, fun dependencies' targets' hdependencies htargets => ?_⟩
    refine (hcompletes dependencies' targets' hdependencies htargets).mono ?_
    rintro depth' ⟨layers', hlayers'⟩
    rw [hlayers', ExecutionOrder.unique hdependencies htargets (resolveDependencies_ok hlayers).1
      (resolveDependencies_ok hlayers').1]

end Table

theorem resolveDependencies_exact_request : ExecutionOrder DEPENDENCIES [.REQUEST]
    [[.USER], [.BEATMAP, .QUEUE], [.REQUEST]] :=
  (resolveDependencies_exact DEPENDENCIES [.REQUEST]).1 5 _ rfl

end Graveboards.Seeding
