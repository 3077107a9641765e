import Graveboards.Library.Runs
import Graveboards.Seeding.Dependencies

/-!
`SeederOrchestrator.run_seeders`. The tasks of a layer run concurrently and put
their events into one queue, each a last `None`; the generator yields the
events and goes on to the next layer when it has counted a `None` of every
task. What a seeder does besides is left open: a step of a run is any event of
any task that has not ended, or a step of the generator.
-/

namespace Graveboards.Seeding

open Library Library.Layers

variable {α : Type} [DecidableEq α]

/-- Progress event emitted during seeding. -/
structure SeedEvent (α : Type) where
  target : α
  current : Nat
  total_items : Nat
  deriving DecidableEq

/-- A task made of `wrap`: the events it has put and, once its seeder has ended,
whether that raised. -/
structure SeedTask (α : Type) where
  target : α
  put : List (SeedEvent α)
  raised : Option Bool
  deriving DecidableEq

/-- Where the generator stands. -/
inductive Phase (α : Type) where
  | layer (tasks : List (SeedTask α)) (remaining : Nat)
  | failed (tasks : List (SeedTask α))
  | done
  deriving DecidableEq

structure Orchestrator (α : Type) where
  /-- The tasks of the layers that are finished. -/
  finished : List (List (SeedTask α))
  phase : Phase α
  later : List (List α)
  queue : List (Option (SeedEvent α))
  yielded : List (SeedEvent α)
  deriving DecidableEq

inductive SeedLabel where
  | put (i : Nat) (current total_items : Nat)
  | finish (i : Nat) (raised : Bool)
  | get
  | gather
  deriving DecidableEq

namespace Orchestrator

/-- The head of the loop over the layers: the tasks of the next one are created. -/
def enter (w : Orchestrator α) : Orchestrator α :=
  match w.later with
  | [] => { w with phase := .done }
  | layer :: later =>
      { w with phase := .layer (layer.map (⟨·, [], none⟩)) layer.length, later := later }

def initially (execution_order : List (List α)) : Orchestrator α :=
  enter ⟨[], .done, execution_order, [], []⟩

def step : SeedLabel → Orchestrator α → Option (Orchestrator α)
  | .put i current total_items, w =>
      match w.phase with
      | .layer tasks remaining => do
          let task ← tasks[i]?
          let event := ⟨task.target, current, total_items⟩
          if task.raised = none then
            some { w with
              phase := .layer (tasks.set i { task with put := task.put ++ [event] }) remaining
              queue := w.queue ++ [some event] }
          else none
      | _ => none
  | .finish i raised, w =>
      match w.phase with
      | .layer tasks remaining => do
          let task ← tasks[i]?
          if task.raised = none then
            some { w with
              phase := .layer (tasks.set i { task with raised := some raised }) remaining
              queue := w.queue ++ [none] }
          else none
      | _ => none
  | .get, w =>
      match w.phase, w.queue with
      | .layer tasks (remaining + 1), none :: queue =>
          some { w with phase := .layer tasks remaining, queue := queue }
      | .layer tasks (remaining + 1), some event :: queue =>
          some { w with
            phase := .layer tasks (remaining + 1), queue := queue,
            yielded := w.yielded ++ [event] }
      | _, _ => none
  | .gather, w =>
      match w.phase with
      | .layer tasks 0 =>
          -- `gather` waits for the tasks and raises the exception of one that failed
          if ∀ task ∈ tasks, task.raised ≠ none then
            if ∃ task ∈ tasks, task.raised = some true then some { w with phase := .failed tasks }
            else some (enter { w with finished := w.finished ++ [tasks] })
          else none
      | _ => none

/-! What one step does. -/

inductive Moves (w : Orchestrator α) : SeedLabel → Orchestrator α → Prop where
  | put {i current total_items : Nat} {tasks : List (SeedTask α)} {remaining : Nat}
      {task : SeedTask α} (hphase : w.phase = .layer tasks remaining)
      (htask : tasks[i]? = some task) (hrunning : task.raised = none) :
      Moves w (.put i current total_items)
        { w with
          phase := .layer (tasks.set i
            { task with put := task.put ++ [⟨task.target, current, total_items⟩] }) remaining
          queue := w.queue ++ [some ⟨task.target, current, total_items⟩] }
  | finish {i : Nat} {raised : Bool} {tasks : List (SeedTask α)} {remaining : Nat}
      {task : SeedTask α} (hphase : w.phase = .layer tasks remaining)
      (htask : tasks[i]? = some task) (hrunning : task.raised = none) :
      Moves w (.finish i raised)
        { w with
          phase := .layer (tasks.set i { task with raised := some raised }) remaining
          queue := w.queue ++ [none] }
  | counted {tasks : List (SeedTask α)} {remaining : Nat} {queue : List (Option (SeedEvent α))}
      (hphase : w.phase = .layer tasks (remaining + 1)) (hqueue : w.queue = none :: queue) :
      Moves w .get { w with phase := .layer tasks remaining, queue := queue }
  | delivered {tasks : List (SeedTask α)} {remaining : Nat} {event : SeedEvent α}
      {queue : List (Option (SeedEvent α))} (hphase : w.phase = .layer tasks (remaining + 1))
      (hqueue : w.queue = some event :: queue) :
      Moves w .get
        { w with
          phase := .layer tasks (remaining + 1), queue := queue, yielded := w.yielded ++ [event] }
  | failed {tasks : List (SeedTask α)} (hphase : w.phase = .layer tasks 0)
      (hended : ∀ task ∈ tasks, task.raised ≠ none)
      (hraised : ∃ task ∈ tasks, task.raised = some true) :
      Moves w .gather { w with phase := .failed tasks }
  | next {tasks : List (SeedTask α)} (hphase : w.phase = .layer tasks 0)
      (hended : ∀ task ∈ tasks, task.raised = some false) :
      Moves w .gather (enter { w with finished := w.finished ++ [tasks] })

omit [DecidableEq α] in
theorem step_moves {w w' : Orchestrator α} {label : SeedLabel} (h : step label w = some w') :
    Moves w label w' := by
  cases label with
  | put i current total_items =>
      simp only [step] at h
      split at h
      · rename_i tasks remaining hphase
        obtain ⟨task, htask, h⟩ := Option.bind_eq_some_iff.mp h
        split at h
        · rename_i hrunning
          obtain rfl := Option.some.inj h
          exact .put hphase htask hrunning
        · cases h
      · cases h
  | finish i raised =>
      simp only [step] at h
      split at h
      · rename_i tasks remaining hphase
        obtain ⟨task, htask, h⟩ := Option.bind_eq_some_iff.mp h
        split at h
        · rename_i hrunning
          obtain rfl := Option.some.inj h
          exact .finish hphase htask hrunning
        · cases h
      · cases h
  | get =>
      simp only [step] at h
      split at h
      · rename_i hphase hqueue
        obtain rfl := Option.some.inj h
        exact .counted hphase hqueue
      · rename_i hphase hqueue
        obtain rfl := Option.some.inj h
        exact .delivered hphase hqueue
      · cases h
  | gather =>
      simp only [step] at h
      split at h
      · rename_i tasks hphase
        split at h
        · rename_i hended
          split at h
          · rename_i hraised
            obtain rfl := Option.some.inj h
            exact .failed hphase hended hraised
          · rename_i hraised
            obtain rfl := Option.some.inj h
            refine .next hphase (fun task htask => ?_)
            obtain ⟨raised, hsome⟩ := Option.ne_none_iff_exists'.mp (hended task htask)
            cases raised with
            | false => exact hsome
            | true => exact absurd ⟨task, htask, hsome⟩ hraised
        · cases h
      · cases h

/-! The invariant. -/

/-- The targets of the tasks of a layer. -/
def names (tasks : List (SeedTask α)) : List α := tasks.map (·.target)

/-- The layers whose tasks have been created. -/
def begun (w : Orchestrator α) : List (List (SeedTask α)) :=
  w.finished ++ match w.phase with
    | .layer tasks _ => [tasks]
    | .failed tasks => [tasks]
    | .done => []

/-- The events of a target in the order they were put: those yielded, then those waiting. -/
def events (w : Orchestrator α) (t : α) : List (SeedEvent α) :=
  (w.yielded ++ w.queue.filterMap id).filter (·.target = t)

/-- Some task of the layer has not ended. -/
def Running (w : Orchestrator α) : Prop :=
  ∃ tasks remaining, w.phase = .layer tasks remaining ∧ ∃ task ∈ tasks, task.raised = none

structure Sound (execution_order : List (List α)) (w : Orchestrator α) : Prop where
  layers : w.begun.map names ++ w.later = execution_order
  finished : ∀ tasks ∈ w.finished, ∀ task ∈ tasks, task.raised = some false
  remaining : ∀ tasks remaining, w.phase = .layer tasks remaining →
    remaining = tasks.countP (·.raised = none) + w.queue.count none
  /-- An event at the end of the queue is followed by the `None` of its task. -/
  pending : w.queue = [] ∨ w.queue.getLast? = some none ∨ w.Running
  ended : (∀ tasks remaining, w.phase ≠ .layer tasks remaining) → w.queue = []
  failed : ∀ tasks, w.phase = .failed tasks →
    (∀ task ∈ tasks, task.raised ≠ none) ∧ ∃ task ∈ tasks, task.raised = some true
  done : w.phase = .done → w.later = []
  known : ∀ event ∈ w.yielded ++ w.queue.filterMap id, event.target ∈ names w.begun.flatten
  delivered : ∀ task ∈ w.begun.flatten, w.events task.target = task.put

variable {execution_order : List (List α)} {w w' : Orchestrator α}

omit [DecidableEq α] in
theorem begun_layer {tasks : List (SeedTask α)} {remaining : Nat}
    (hphase : w.phase = .layer tasks remaining) : w.begun = w.finished ++ [tasks] := by
  rw [begun, hphase]

omit [DecidableEq α] in
theorem names_set {tasks : List (SeedTask α)} {i : Nat} {task task' : SeedTask α}
    (htask : tasks[i]? = some task) (htarget : task'.target = task.target) :
    names (tasks.set i task') = names tasks := by
  refine List.ext_getElem? (fun j => ?_)
  by_cases hij : i = j
  · subst hij
    have hi : i < tasks.length := (List.getElem?_eq_some_iff.mp htask).1
    rw [names, names, List.getElem?_map, List.getElem?_map, List.getElem?_set_self hi, htask,
      Option.map_some, Option.map_some, htarget]
  · rw [names, names, List.getElem?_map, List.getElem?_map, List.getElem?_set_ne hij]

omit [DecidableEq α] in
/-- The targets are created in the execution order, each once. -/
theorem Sound.nodup [DecidableEq α] (hw : Sound execution_order w)
    (hnodup : execution_order.flatten.Nodup) : (names w.begun.flatten).Nodup := by
  rw [← hw.layers, List.flatten_append] at hnodup
  rw [names, List.map_flatten]
  exact (List.nodup_append.mp hnodup).1

/-- The queue is empty when every `None` has been counted. -/
theorem Sound.queue_nil {tasks : List (SeedTask α)} (hw : Sound execution_order w)
    (hphase : w.phase = .layer tasks 0) : w.queue = [] ∧ ∀ task ∈ tasks, task.raised ≠ none := by
  have hzero := hw.remaining tasks 0 hphase
  have hended : ∀ task ∈ tasks, task.raised ≠ none := by
    have hcount : tasks.countP (·.raised = none) = 0 := by omega
    simpa using List.countP_eq_zero.mp hcount
  refine ⟨?_, hended⟩
  rcases hw.pending with hnil | hlast | hrunning
  · exact hnil
  · have hmem : none ∈ w.queue := List.mem_of_getLast? hlast
    have hcount := List.count_pos_iff.mpr hmem
    omega
  · obtain ⟨tasks', remaining, hphase', task, htask, hnone⟩ := hrunning
    obtain ⟨rfl, -⟩ := Phase.layer.inj (hphase.symm.trans hphase')
    exact absurd hnone (hended task htask)

/-- The tasks of a new layer have put nothing yet. -/
theorem sound_enter (hlayers : w.finished.map names ++ w.later = execution_order)
    (hnodup : execution_order.flatten.Nodup)
    (hfinished : ∀ tasks ∈ w.finished, ∀ task ∈ tasks, task.raised = some false)
    (hqueue : w.queue = [])
    (hknown : ∀ event ∈ w.yielded, event.target ∈ names w.finished.flatten)
    (hdelivered : ∀ task ∈ w.finished.flatten, w.events task.target = task.put) :
    Sound execution_order (enter w) := by
  cases hlater : w.later with
  | nil =>
      have henter : enter w = { w with phase := .done } := by rw [enter, hlater]
      rw [henter]
      exact {
        layers := by simpa [begun] using hlayers
        finished := hfinished
        remaining := fun tasks remaining h => by cases h
        pending := .inl hqueue
        ended := fun _ => hqueue
        failed := fun tasks h => by cases h
        done := fun _ => hlater
        known := by simpa [begun, hqueue] using hknown
        delivered := by simpa [begun, events] using hdelivered }
  | cons layer later =>
      have henter : enter w = { w with
          phase := .layer (layer.map (⟨·, [], none⟩)) layer.length, later := later } := by
        rw [enter, hlater]
      have hnames : names (layer.map (fun t => (⟨t, [], none⟩ : SeedTask α))) = layer := by
        simp [names, Function.comp_def]
      have hfresh (t : α) (ht : t ∈ layer) : t ∉ names w.finished.flatten := by
        rw [← hlayers, hlater, List.flatten_append, List.nodup_append] at hnodup
        intro hold
        rw [names, List.map_flatten] at hold
        exact hnodup.2.2 t hold t (List.mem_append_left _ ht) rfl
      rw [henter]
      exact {
        layers := by simpa [begun, hnames, hlater] using hlayers
        finished := hfinished
        remaining := fun tasks remaining h => by
          obtain ⟨rfl, rfl⟩ := Phase.layer.inj h
          simp [hqueue, List.countP_map, Function.comp_def]
        pending := .inl hqueue
        ended := fun h => absurd rfl (h _ _)
        failed := fun tasks h => by cases h
        done := fun h => by cases h
        known := fun event hevent => by
          simp only [hqueue, List.filterMap_nil, List.append_nil] at hevent
          have hold := hknown event hevent
          simp only [names, begun, List.flatten_append, List.map_append] at hold ⊢
          exact List.mem_append_left _ hold
        delivered := fun task htask => by
          simp only [begun, List.flatten_append, List.flatten_singleton, List.mem_append] at htask
          cases htask with
          | inl hold => exact hdelivered task hold
          | inr hnew =>
              obtain ⟨t, ht, rfl⟩ := List.mem_map.mp hnew
              refine List.filter_eq_nil_iff.mpr (fun event hevent htarget => hfresh t ht ?_)
              simp only [hqueue, List.filterMap_nil, List.append_nil] at hevent
              have htarget : event.target = t := of_decide_eq_true htarget
              exact htarget ▸ hknown event hevent }

/-- A task is the only one of its target. -/
theorem Sound.target_ne {tasks : List (SeedTask α)} {remaining i : Nat} {task task' : SeedTask α}
    (hw : Sound execution_order w) (hnodup : execution_order.flatten.Nodup)
    (hphase : w.phase = .layer tasks remaining) (htask : tasks[i]? = some task) {x : SeedTask α}
    (hx : x ∈ (w.finished ++ [tasks.set i task']).flatten) :
    x = task' ∨ x.target ≠ task.target ∧ x ∈ w.begun.flatten := by
  have hnames := hw.nodup hnodup
  rw [begun_layer hphase, List.flatten_append, List.flatten_singleton] at hnames ⊢
  rw [List.flatten_append, List.flatten_singleton, List.mem_append] at hx
  rw [names, List.map_append, List.nodup_append] at hnames
  cases hx with
  | inl hold =>
      refine .inr ⟨?_, List.mem_append_left _ hold⟩
      exact hnames.2.2 _ (List.mem_map_of_mem hold) _
        (List.mem_map_of_mem (List.mem_of_getElem? htask))
  | inr hset =>
      obtain ⟨j, hj⟩ := List.mem_iff_getElem?.mp hset
      rcases Runs.getElem?_set_cases hj with ⟨-, rfl⟩ | ⟨hji, hxj⟩
      · exact .inl rfl
      · refine .inr ⟨fun heq => hji ?_, List.mem_append_right _ (List.mem_of_getElem? hxj)⟩
        have hlt : j < (tasks.map (·.target)).length := by
          simpa using (List.getElem?_eq_some_iff.mp hxj).1
        refine (List.getElem?_inj hlt hnames.2.1).mp ?_
        rw [List.getElem?_map, List.getElem?_map, hxj, htask, Option.map_some, Option.map_some, heq]

theorem sound_put {i current total_items : Nat} {tasks : List (SeedTask α)} {remaining : Nat}
    {task : SeedTask α} (hnodup : execution_order.flatten.Nodup) (hw : Sound execution_order w)
    (hphase : w.phase = .layer tasks remaining) (htask : tasks[i]? = some task)
    (hrunning : task.raised = none) (event : SeedEvent α)
    (hevent : event = ⟨task.target, current, total_items⟩) :
    Sound execution_order
      { w with
        phase := .layer (tasks.set i { task with put := task.put ++ [event] }) remaining
        queue := w.queue ++ [some event] } := by
  have hi : i < tasks.length := (List.getElem?_eq_some_iff.mp htask).1
  have hnames : names (tasks.set i { task with put := task.put ++ [event] }) = names tasks :=
    names_set htask rfl
  have hlayers := hw.layers
  have hknown := hw.known
  rw [begun_layer hphase] at hlayers hknown
  exact {
    layers := by
      rw [← hlayers, begun]
      simp only [List.map_append, List.map_cons, List.map_nil, hnames]
    finished := hw.finished
    remaining := fun tasks' remaining' h => by
      obtain ⟨rfl, rfl⟩ := Phase.layer.inj h
      have hcount := hw.remaining tasks remaining hphase
      have hsame := Runs.countP_set_of_eq (p := fun task => decide (task.raised = none)) htask
        (show decide (({ task with put := task.put ++ [event] } : SeedTask α).raised = none) =
          decide (task.raised = none) from rfl)
      rw [hsame, List.count_append, List.count_singleton]
      simpa using hcount
    pending := .inr (.inr ⟨_, _, rfl, _, List.mem_set hi _, hrunning⟩)
    ended := fun h => absurd rfl (h _ _)
    failed := fun tasks h => by cases h
    done := fun h => by cases h
    known := fun e he => by
      simp only [begun, names, List.flatten_append, List.flatten_singleton, List.map_append]
        at hknown hnames ⊢
      rw [hnames]
      rw [List.filterMap_append, ← List.append_assoc, List.mem_append] at he
      cases he with
      | inl hold => exact hknown e hold
      | inr hnew =>
          obtain rfl : e = event := by simpa using hnew
          rw [hevent]
          exact List.mem_append_right _ (List.mem_map_of_mem (List.mem_of_getElem? htask))
    delivered := fun x hx => by
      have hevents (t : α) : events
          { w with
            phase := .layer (tasks.set i { task with put := task.put ++ [event] }) remaining
            queue := w.queue ++ [some event] } t =
          w.events t ++ if event.target = t then [event] else [] := by
        rw [events, events, List.filterMap_append, ← List.append_assoc, List.filter_append]
        by_cases ht : event.target = t <;> simp [ht]
      rw [hevents]
      rcases hw.target_ne hnodup hphase htask hx with rfl | ⟨hne, hold⟩
      · have hput := hw.delivered task (by
          rw [begun_layer hphase, List.flatten_append, List.flatten_singleton]
          exact List.mem_append_right _ (List.mem_of_getElem? htask))
        rw [hput, if_pos (by rw [hevent])]
      · rw [hw.delivered x hold, if_neg (by rw [hevent]; exact Ne.symm hne), List.append_nil] }

theorem sound_finish {i : Nat} {raised : Bool} {tasks : List (SeedTask α)} {remaining : Nat}
    {task : SeedTask α} (hnodup : execution_order.flatten.Nodup) (hw : Sound execution_order w)
    (hphase : w.phase = .layer tasks remaining) (htask : tasks[i]? = some task)
    (hrunning : task.raised = none) :
    Sound execution_order
      { w with
        phase := .layer (tasks.set i { task with raised := some raised }) remaining
        queue := w.queue ++ [none] } := by
  have hnames : names (tasks.set i { task with raised := some raised }) = names tasks :=
    names_set htask rfl
  have hlayers := hw.layers
  have hknown := hw.known
  rw [begun_layer hphase] at hlayers hknown
  exact {
    layers := by
      rw [← hlayers, begun]
      simp only [List.map_append, List.map_cons, List.map_nil, hnames]
    finished := hw.finished
    remaining := fun tasks' remaining' h => by
      obtain ⟨rfl, rfl⟩ := Phase.layer.inj h
      have hcount := hw.remaining tasks remaining hphase
      have hadd := Runs.countP_set_add (fun task => decide (task.raised = none)) htask
        { task with raised := some raised }
      simp only [hrunning, decide_true, Bool.toNat_true, reduceCtorEq, decide_false,
        Bool.toNat_false] at hadd
      rw [List.count_append, List.count_singleton_self]
      omega
    pending := .inr (.inl List.getLast?_concat)
    ended := fun h => absurd rfl (h _ _)
    failed := fun tasks h => by cases h
    done := fun h => by cases h
    known := fun e he => by
      simp only [begun, names, List.flatten_append, List.flatten_singleton, List.map_append]
        at hknown hnames ⊢
      rw [hnames]
      exact hknown e (by simpa using he)
    delivered := fun x hx => by
      have hevents (t : α) : events
          { w with
            phase := .layer (tasks.set i { task with raised := some raised }) remaining
            queue := w.queue ++ [none] } t = w.events t := by
        simp [events]
      rw [hevents]
      rcases hw.target_ne hnodup hphase htask hx with rfl | ⟨-, hold⟩
      · exact hw.delivered task (by
          rw [begun_layer hphase, List.flatten_append, List.flatten_singleton]
          exact List.mem_append_right _ (List.mem_of_getElem? htask))
      · exact hw.delivered x hold }

omit [DecidableEq α] in
/-- What is left of the queue when its head is taken. -/
theorem pending_tail {head : Option (SeedEvent α)} {queue : List (Option (SeedEvent α))}
    (h : head :: queue = [] ∨ (head :: queue).getLast? = some none ∨ w.Running) :
    queue = [] ∨ queue.getLast? = some none ∨ w.Running := by
  rcases h with hnil | hlast | hrunning
  · cases hnil
  · cases queue with
    | nil => exact .inl rfl
    | cons next queue => exact .inr (.inl (by rwa [List.getLast?_cons_cons] at hlast))
  · exact .inr (.inr hrunning)

omit [DecidableEq α] in
theorem Running.of_phase {w' : Orchestrator α} {tasks : List (SeedTask α)}
    {remaining remaining' : Nat} (hphase : w.phase = .layer tasks remaining)
    (hphase' : w'.phase = .layer tasks remaining') (h : w.Running) : w'.Running := by
  obtain ⟨tasks', _, h', hrunning⟩ := h
  obtain ⟨rfl, -⟩ := Phase.layer.inj (hphase.symm.trans h')
  exact ⟨tasks, remaining', hphase', hrunning⟩

theorem sound_counted {tasks : List (SeedTask α)} {remaining : Nat}
    {queue : List (Option (SeedEvent α))} (hw : Sound execution_order w)
    (hphase : w.phase = .layer tasks (remaining + 1)) (hqueue : w.queue = none :: queue) :
    Sound execution_order { w with phase := .layer tasks remaining, queue := queue } := by
  have hbegun : begun { w with phase := .layer tasks remaining, queue := queue } = w.begun := by
    rw [begun_layer hphase, begun]
  have hpending := hw.pending
  rw [hqueue] at hpending
  exact {
    layers := by rw [hbegun]; exact hw.layers
    finished := hw.finished
    remaining := fun tasks' remaining' h => by
      obtain ⟨rfl, rfl⟩ := Phase.layer.inj h
      have hcount := hw.remaining tasks (remaining + 1) hphase
      rw [hqueue, List.count_cons_self] at hcount
      exact Nat.succ.inj hcount
    pending := (pending_tail hpending).imp_right (Or.imp_right (Running.of_phase hphase rfl))
    ended := fun h => absurd rfl (h _ _)
    failed := fun tasks h => by cases h
    done := fun h => by cases h
    known := by
      have hknown := hw.known
      rw [hqueue] at hknown
      rw [hbegun]
      exact hknown
    delivered := fun x hx => by
      have hdelivered := hw.delivered x (hbegun ▸ hx)
      rw [events, hqueue] at hdelivered
      exact hdelivered }

theorem sound_delivered {tasks : List (SeedTask α)} {remaining : Nat} {event : SeedEvent α}
    {queue : List (Option (SeedEvent α))} (hw : Sound execution_order w)
    (hphase : w.phase = .layer tasks (remaining + 1)) (hqueue : w.queue = some event :: queue) :
    Sound execution_order
      { w with
        phase := .layer tasks (remaining + 1), queue := queue,
        yielded := w.yielded ++ [event] } := by
  have hbegun : begun { w with
      phase := .layer tasks (remaining + 1), queue := queue,
      yielded := w.yielded ++ [event] } = w.begun := by
    rw [begun_layer hphase, begun]
  have hmoved : w.yielded ++ w.queue.filterMap id =
      w.yielded ++ [event] ++ queue.filterMap id := by
    rw [hqueue]
    simp
  have hpending := hw.pending
  rw [hqueue] at hpending
  exact {
    layers := by rw [hbegun]; exact hw.layers
    finished := hw.finished
    remaining := fun tasks' remaining' h => by
      obtain ⟨rfl, rfl⟩ := Phase.layer.inj h
      have hcount := hw.remaining tasks (remaining + 1) hphase
      rwa [hqueue, List.count_cons_of_ne (by simp)] at hcount
    pending := (pending_tail hpending).imp_right (Or.imp_right (Running.of_phase hphase rfl))
    ended := fun h => absurd rfl (h _ _)
    failed := fun tasks h => by cases h
    done := fun h => by cases h
    known := by
      have hknown := hw.known
      rw [hmoved] at hknown
      rw [hbegun]
      exact hknown
    delivered := fun x hx => by
      have hdelivered := hw.delivered x (hbegun ▸ hx)
      rw [events, hmoved] at hdelivered
      exact hdelivered }

theorem sound_failed {tasks : List (SeedTask α)} (hw : Sound execution_order w)
    (hphase : w.phase = .layer tasks 0) (hended : ∀ task ∈ tasks, task.raised ≠ none)
    (hraised : ∃ task ∈ tasks, task.raised = some true) :
    Sound execution_order { w with phase := .failed tasks } := by
  have hbegun : begun { w with phase := .failed tasks } = w.begun := by
    rw [begun_layer hphase, begun]
  have hqueue := (hw.queue_nil hphase).1
  exact {
    layers := by rw [hbegun]; exact hw.layers
    finished := hw.finished
    remaining := fun tasks remaining h => by cases h
    pending := .inl hqueue
    ended := fun _ => hqueue
    failed := fun tasks' h => by
      obtain rfl := Phase.failed.inj h
      exact ⟨hended, hraised⟩
    done := fun h => by cases h
    known := by rw [hbegun]; exact hw.known
    delivered := fun x hx => hw.delivered x (hbegun ▸ hx) }

theorem Sound.step {label : SeedLabel} (hnodup : execution_order.flatten.Nodup)
    (hw : Sound execution_order w) (hstep : step label w = some w') :
    Sound execution_order w' := by
  cases step_moves hstep with
  | put hphase htask hrunning => exact sound_put hnodup hw hphase htask hrunning _ rfl
  | finish hphase htask hrunning => exact sound_finish hnodup hw hphase htask hrunning
  | counted hphase hqueue => exact sound_counted hw hphase hqueue
  | delivered hphase hqueue => exact sound_delivered hw hphase hqueue
  | failed hphase hended hraised => exact sound_failed hw hphase hended hraised
  | @next tasks hphase hended =>
      have hqueue := (hw.queue_nil hphase).1
      have hlayers := hw.layers
      have hknown := hw.known
      have hdelivered := hw.delivered
      rw [begun_layer hphase] at hlayers hknown hdelivered
      refine sound_enter hlayers hnodup (fun tasks' htasks => ?_) hqueue
        (fun event hevent => hknown event (List.mem_append_left _ hevent)) hdelivered
      cases List.mem_append.mp htasks with
      | inl hold => exact hw.finished tasks' hold
      | inr hnew => exact List.mem_singleton.mp hnew ▸ hended

theorem sound_of_run {labels : List SeedLabel} (hnodup : execution_order.flatten.Nodup)
    (hrun : Runs.run step labels (initially execution_order) = some w) :
    Sound execution_order w := by
  refine Runs.invariant_of_steps (Sound execution_order) (fun _ _ _ => Sound.step hnodup) ?_ hrun
  exact sound_enter rfl hnodup (fun tasks h => absurd h List.not_mem_nil) rfl
    (fun event h => absurd h List.not_mem_nil) (fun task h => absurd h List.not_mem_nil)

/-! The seeders run behind what they require. -/

theorem inLayer_of_requires {β : Type} [LinearOrder β] {dependencies : β → List β}
    {targets : List β} {layers : List (List β)} (h : ExecutionOrder dependencies targets layers)
    {t d : β} {i : Nat} (ht : InLayer layers i t) (hrequires : Requires dependencies t d) :
    d = t ∨ ∃ j < i, InLayer layers j d := by
  induction hrequires with
  | refl => exact .inl rfl
  | @tail d e _ hstep ih =>
      have hlayer : ∃ j ≤ i, InLayer layers j d := by
        rcases ih with rfl | ⟨j, hj, hd⟩
        · exact ⟨i, Nat.le_refl i, ht⟩
        · exact ⟨j, Nat.le_of_lt hj, hd⟩
      obtain ⟨j, hj, hd⟩ := hlayer
      have hmem := exists_inLayer.mp ⟨j, hd⟩
      obtain ⟨s, hs, hrequires⟩ := (h.required d).mp hmem
      have hemem := (h.required e).mpr ⟨s, hs, hrequires.tail hstep⟩
      obtain ⟨k, hk, he⟩ := h.layered.after j d e hd ⟨hmem, hemem, hstep⟩
      exact .inr ⟨k, by omega, he⟩

omit [DecidableEq α] in
theorem inLayer_begun {i : Nat} {t : α} (ht : InLayer (w.begun.map names) i t) :
    ∃ tasks, w.begun[i]? = some tasks ∧ ∃ task ∈ tasks, task.target = t := by
  obtain ⟨layer, hlayer, ht⟩ := ht
  rw [List.getElem?_map] at hlayer
  obtain ⟨tasks, htasks, rfl⟩ := Option.map_eq_some_iff.mp hlayer
  exact ⟨tasks, htasks, List.mem_map.mp ht⟩

/-- Every layer before the last one begun is finished. -/
theorem Sound.finished_below (hw : Sound execution_order w) {i j : Nat} (hj : j < i)
    (hi : i < w.begun.length) {t : α} (ht : InLayer execution_order j t) :
    ∃ task ∈ w.begun.flatten, task.target = t ∧ task.raised = some false := by
  have hlength : w.begun.length ≤ w.finished.length + 1 := by
    unfold begun
    cases w.phase <;> simp
  have hjf : j < w.finished.length := by omega
  have hbegun : InLayer (w.begun.map names) j t := by
    obtain ⟨layer, hlayer, ht⟩ := ht
    rw [← hw.layers, List.getElem?_append_left (by rw [List.length_map]; omega)] at hlayer
    exact ⟨layer, hlayer, ht⟩
  obtain ⟨tasks, htasks, task, htask, htarget⟩ := inLayer_begun hbegun
  refine ⟨task, List.mem_flatten.mpr ⟨tasks, List.mem_of_getElem? htasks, htask⟩, htarget, ?_⟩
  rw [begun, List.getElem?_append_left hjf] at htasks
  exact hw.finished tasks (List.mem_of_getElem? htasks) task htask

/-- In every run a seeder is started once at most and only when the seeders of
all it requires have ended without an exception. What has been yielded and what
waits in the queue are, target by target, the events its seeder has put, in
order. At the end nothing waits: either every seeder that is required has
ended, or one of the last layer begun has raised and the others of that layer
have ended. Until then the generator can go on unless a seeder is running. -/
theorem run_seeders_ordered {β : Type} [LinearOrder β] {dependencies : β → List β}
    {targets : List β} {execution_order : List (List β)}
    (horder : ExecutionOrder dependencies targets execution_order) {labels : List SeedLabel}
    {w : Orchestrator β} (hrun : Runs.run step labels (initially execution_order) = some w) :
    (names w.begun.flatten).Nodup ∧
    (∀ task ∈ w.begun.flatten, ∀ d, Requires dependencies task.target d → d ≠ task.target →
      ∃ other ∈ w.begun.flatten, other.target = d ∧ other.raised = some false) ∧
    (∀ task ∈ w.begun.flatten, w.events task.target = task.put) ∧
    (w.phase = .done → w.queue = [] ∧ ∀ t, (∃ s ∈ targets, Requires dependencies s t) →
      ∃ task ∈ w.begun.flatten, task.target = t ∧ task.raised = some false) ∧
    (∀ tasks, w.phase = .failed tasks → w.queue = [] ∧
      (∀ task ∈ w.begun.flatten, task.raised ≠ none) ∧ ∃ task ∈ tasks, task.raised = some true) ∧
    (∀ tasks remaining, w.phase = .layer tasks remaining →
      w.Running ∨ ∃ label ∈ [SeedLabel.get, .gather], (step label w).isSome) := by
  have hnodup := horder.layered.nodup
  have hw := sound_of_run hnodup hrun
  refine ⟨hw.nodup hnodup, fun task htask d hrequires hne => ?_, hw.delivered, fun hdone => ?_,
    fun tasks hfailed => ?_, fun tasks remaining hphase => ?_⟩
  · obtain ⟨tasks, htasks, htask⟩ := List.mem_flatten.mp htask
    obtain ⟨i, hi⟩ := List.getElem?_of_mem htasks
    have hlt : i < w.begun.length := (List.getElem?_eq_some_iff.mp hi).1
    have hin : InLayer execution_order i task.target := by
      refine ⟨names tasks, ?_, List.mem_map_of_mem htask⟩
      rw [← hw.layers, List.getElem?_append_left (by rwa [List.length_map]), List.getElem?_map, hi]
      rfl
    obtain ⟨j, hj, hd⟩ := (inLayer_of_requires horder hin hrequires).resolve_left hne
    exact hw.finished_below hj hlt hd
  · refine ⟨hw.ended (fun _ _ h => by rw [hdone] at h; cases h), fun t ht => ?_⟩
    have hmem := (horder.required t).mpr ht
    have hlayers := hw.layers
    rw [hw.done hdone, List.append_nil] at hlayers
    obtain ⟨i, hi⟩ := exists_inLayer.mpr (hlayers ▸ hmem)
    obtain ⟨tasks, htasks, task, htask, htarget⟩ := inLayer_begun hi
    have htasks := List.mem_of_getElem? htasks
    refine ⟨task, List.mem_flatten.mpr ⟨tasks, htasks, htask⟩, htarget, ?_⟩
    rw [begun, hdone, List.append_nil] at htasks
    exact hw.finished tasks htasks task htask
  · obtain ⟨hended, hraised⟩ := hw.failed tasks hfailed
    refine ⟨hw.ended (fun _ _ h => by rw [hfailed] at h; cases h), fun task htask => ?_, hraised⟩
    rw [begun, hfailed, List.flatten_append, List.flatten_singleton] at htask
    cases List.mem_append.mp htask with
    | inl hold =>
        obtain ⟨others, hothers, htask⟩ := List.mem_flatten.mp hold
        rw [hw.finished others hothers task htask]
        exact Option.some_ne_none false
    | inr hlast => exact hended task hlast
  · by_cases hrunning : w.Running
    · exact .inl hrunning
    · refine .inr ?_
      cases remaining with
      | zero =>
          refine ⟨.gather, by simp, ?_⟩
          have hended := (hw.queue_nil hphase).2
          simp only [step, hphase, if_pos hended]
          split <;> rfl
      | succ remaining =>
          refine ⟨.get, by simp, ?_⟩
          have hcount := hw.remaining tasks (remaining + 1) hphase
          have hnone : tasks.countP (·.raised = none) = 0 := by
            refine List.countP_eq_zero.mpr (fun task htask h => hrunning ?_)
            exact ⟨tasks, _, hphase, task, htask, of_decide_eq_true h⟩
          cases hqueue : w.queue with
          | nil =>
              rw [hnone, hqueue, List.count_nil] at hcount
              omega
          | cons head queue => cases head <;> simp [step, hphase, hqueue]

/-- The user seeder ends, the beatmap seeder puts an event and raises. -/
def raising : List SeedLabel :=
  [.finish 0 false, .get, .gather, .put 0 0 0, .finish 0 true, .get, .get, .gather]

theorem run_seeders_ordered_raising :
    let order := [[SeederTarget.USER], [.BEATMAP]]
    let tasks := [⟨SeederTarget.BEATMAP, [⟨.BEATMAP, 0, 0⟩], some true⟩]
    let w := ⟨[[⟨.USER, [], some false⟩]], .failed tasks, [], [], [⟨.BEATMAP, 0, 0⟩]⟩
    Runs.run step raising (initially order) = some w ∧
      ∀ task ∈ w.begun.flatten, w.events task.target = task.put := by
  intro order tasks w
  have horder : ExecutionOrder DEPENDENCIES [.BEATMAP] order :=
    (resolveDependencies_ok (show resolveDependencies DEPENDENCIES 5 [.BEATMAP] = .ok order
      from rfl)).1
  have hrun : Runs.run step raising (initially order) = some w := rfl
  exact ⟨hrun, (run_seeders_ordered horder hrun).2.2.1⟩

end Orchestrator

end Graveboards.Seeding
