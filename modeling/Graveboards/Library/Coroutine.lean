import Mathlib.Tactic

/-!
Cooperative coroutines over a shared state. Between two awaits a coroutine
runs without interruption; at an await every other coroutine may run.

A *footprint* records what a coroutine does to one observed component of the
state: for each stretch between awaits, the value the stretch leaves there, if
it writes it at all. Footprints compose along `bind`, and the isolation theorem
at the end says when a coroutine's result is the same under every schedule as
on its own.
-/

namespace Graveboards.Library

/-- `act` applies an uninterrupted effect and continues from the state it
found; `await` gives up control. -/
inductive Coro (σ α : Type) where
  | ret (a : α)
  | act (effect : σ → σ) (next : σ → Coro σ α)
  | await (next : Coro σ α)

namespace Coro

variable {σ α β γ ι : Type}

protected def bind : Coro σ α → (α → Coro σ γ) → Coro σ γ
  | .ret a, f => f a
  | .act effect next, f => .act effect (fun s => (next s).bind f)
  | .await next, f => .await (next.bind f)

instance : Monad (Coro σ) where
  pure := .ret
  bind := Coro.bind

def read : Coro σ σ := .act id .ret

def modify (effect : σ → σ) : Coro σ Unit := .act effect (fun _ => .ret ())

/-- A number of awaits in a row. -/
def awaits : Nat → Coro σ Unit
  | 0 => .ret ()
  | n + 1 => .await (awaits n)

/-- What a coroutine has come to when it stops running. -/
inductive Status (σ α : Type) where
  | done (a : α)
  | waiting (c : Coro σ α)

/-- Run up to the next await or to the end. -/
def resume : Coro σ α → σ → Status σ α × σ
  | .ret a, s => (.done a, s)
  | .act effect next, s => resume (next s) (effect s)
  | .await next, s => (.waiting next, s)

/-- Run to the end with nobody else running. -/
def run : Coro σ α → σ → α × σ
  | .ret a, s => (a, s)
  | .act effect next, s => run (next s) (effect s)
  | .await next, s => run next s

theorem resume_bind (c : Coro σ α) (f : α → Coro σ γ) (s : σ) :
    resume (c.bind f) s = match resume c s with
      | (.done a, s') => resume (f a) s'
      | (.waiting c', s') => (.waiting (c'.bind f), s') := by
  induction c generalizing s with
  | ret a => rfl
  | act effect next ih => exact ih s (effect s)
  | await next _ => rfl

theorem run_eq_resume (c : Coro σ α) (s : σ) :
    run c s = match resume c s with
      | (.done a, s') => (a, s')
      | (.waiting c', s') => run c' s' := by
  induction c generalizing s with
  | ret a => rfl
  | act effect next ih => exact ih s (effect s)
  | await next _ => rfl

/-! Footprints. -/

/-- The observed value after a sequence of stretches that started at `v`. -/
def final (effects : List (Option β)) (v : β) : β :=
  effects.foldl (fun v e => e.getD v) v

@[simp] theorem final_nil (v : β) : final [] v = v := rfl

@[simp] theorem final_cons (e : Option β) (es : List (Option β)) (v : β) :
    final (e :: es) v = final es (e.getD v) := rfl

/-- Two footprints one after the other, with no await between them: the last
stretch of the first and the first of the second are one stretch. -/
def sequence : List (Option β) → List (Option β) → List (Option β)
  | [], fs => fs
  | [e], [] => [e]
  | [e], f :: fs => (f.or e) :: fs
  | e :: e' :: es, fs => e :: sequence (e' :: es) fs

theorem final_sequence (es fs : List (Option β)) (v : β) :
    final (sequence es fs) v = final fs (final es v) := by
  induction es, fs using sequence.induct generalizing v with
  | case1 fs => rfl
  | case2 e => rfl
  | case3 e f fs => cases f <;> simp [sequence]
  | case4 e e' es fs ih => simpa [sequence] using ih (e.getD v)

theorem sequence_ne_nil {es fs : List (Option β)} (hfs : fs ≠ []) : sequence es fs ≠ [] := by
  cases es with
  | nil => exact hfs
  | cons e es =>
      cases es with
      | nil => cases fs <;> simp [sequence]
      | cons => simp [sequence]

theorem sequence_none_left {fs : List (Option β)} (hfs : fs ≠ []) : sequence [none] fs = fs := by
  cases fs with
  | nil => exact absurd rfl hfs
  | cons f fs => simp [sequence]

theorem sequence_none_right {es : List (Option β)} (hes : es ≠ []) : sequence es [none] = es := by
  induction es with
  | nil => exact absurd rfl hes
  | cons e es ih =>
      cases es with
      | nil => simp [sequence]
      | cons e' es => rw [sequence, ih (by simp)]

theorem sequence_assoc (es fs gs : List (Option β)) :
    sequence (sequence es fs) gs = sequence es (sequence fs gs) := by
  induction es, fs using sequence.induct with
  | case1 fs => rfl
  | case2 e => rfl
  | case3 e f fs =>
      cases fs with
      | nil => cases gs <;> simp [sequence, Option.or_assoc]
      | cons f' fs => simp [sequence]
  | case4 e e' es fs ih =>
      have hne : sequence (e' :: es) fs ≠ [] := by
        cases es with
        | nil => cases fs <;> simp [sequence]
        | cons => simp [sequence]
      obtain ⟨x, xs, hx⟩ := List.exists_cons_of_ne_nil hne
      rw [hx] at ih
      simp only [sequence, hx, ih]

/-- `c` runs through the stretches `effects`, whatever state each one starts
in, and returns `out` of the value observed at its end. -/
def Follows (obs : σ → β) : List (Option β) → (β → α) → Coro σ α → Prop
  | [], _, _ => False
  | [e], out, c =>
      ∀ s, ∃ s', resume c s = (.done (out (obs s')), s') ∧ obs s' = e.getD (obs s)
  | e :: e' :: es, out, c =>
      ∀ s, ∃ s' c', resume c s = (.waiting c', s') ∧ obs s' = e.getD (obs s) ∧
        Follows obs (e' :: es) out c'

variable {obs : σ → β}

theorem Follows.ne_nil {effects : List (Option β)} {out : β → α} {c : Coro σ α}
    (h : Follows obs effects out c) : effects ≠ [] := by
  rintro rfl
  exact h

theorem follows_first {e : Option β} {es : List (Option β)} {out : β → α} {c : Coro σ α}
    (hne : es ≠ []) (h : ∀ s, ∃ s' c', resume c s = (.waiting c', s') ∧
      obs s' = e.getD (obs s) ∧ Follows obs es out c') : Follows obs (e :: es) out c := by
  match es, h with
  | [], _ => exact absurd rfl hne
  | e' :: es, h => exact h

theorem follows_ret (a : α) : Follows obs [none] (fun _ => a) (.ret a) :=
  fun s => ⟨s, rfl, rfl⟩

theorem follows_await {effects : List (Option β)} {out : β → α} {c : Coro σ α}
    (h : Follows obs effects out c) : Follows obs (none :: effects) out (.await c) := by
  match effects, h with
  | [], h => exact h.elim
  | e :: es, h => exact fun s => ⟨s, c, rfl, rfl, h⟩

theorem follows_awaits_bind {effects : List (Option β)} {out : β → α} {f : Unit → Coro σ α}
    (n : Nat) (h : Follows obs effects out (f ())) :
    Follows obs (List.replicate n none ++ effects) out ((awaits n).bind f) := by
  induction n with
  | zero => exact h
  | succ n ih => exact follows_await ih

theorem follows_modify (v : β) {effect : σ → σ} (heffect : ∀ s, obs (effect s) = v) :
    Follows obs [some v] (fun _ => ()) (modify effect) :=
  fun s => ⟨effect s, rfl, heffect s⟩

/-- Reading the observed component at the end of the last stretch. -/
theorem follows_read_end (out : β → α) :
    Follows obs [none] out (.act id (fun s => .ret (out (obs s)))) :=
  fun s => ⟨s, rfl, rfl⟩

theorem Follows.bind {effects fs : List (Option β)} {a : α} {out : β → γ} {c : Coro σ α}
    {f : α → Coro σ γ} (hc : Follows obs effects (fun _ => a) c)
    (hf : Follows obs fs out (f a)) :
    Follows obs (sequence effects fs) out (c.bind f) := by
  induction effects, fs using sequence.induct generalizing c with
  | case1 fs => exact hc.elim
  | case2 e => exact hf.elim
  | case3 e g gs =>
      have hvalue (v : β) : (g.or e).getD v = g.getD (e.getD v) := by cases g <;> rfl
      match gs, hf with
      | [], hf =>
          intro s
          obtain ⟨s₁, hresume, hobs⟩ := hc s
          obtain ⟨s₂, hresume', hobs'⟩ := hf s₁
          exact ⟨s₂, by rw [resume_bind, hresume]; exact hresume', by rw [hobs', hobs, hvalue]⟩
      | g' :: gs, hf =>
          intro s
          obtain ⟨s₁, hresume, hobs⟩ := hc s
          obtain ⟨s₂, c', hresume', hobs', hrest⟩ := hf s₁
          exact ⟨s₂, c', by rw [resume_bind, hresume]; exact hresume',
            by rw [hobs', hobs, hvalue], hrest⟩
  | case4 e e' es fs ih =>
      have hne : sequence (e' :: es) fs ≠ [] := by
        cases es with
        | nil => cases fs <;> simp [sequence]
        | cons => simp [sequence]
      obtain ⟨x, xs, hx⟩ := List.exists_cons_of_ne_nil hne
      have hshape : sequence (e :: e' :: es) fs = e :: x :: xs := by rw [sequence, hx]
      rw [hshape]
      intro s
      obtain ⟨s', c', hresume, hobs, hrest⟩ := hc s
      refine ⟨s', c'.bind f, by rw [resume_bind, hresume], hobs, ?_⟩
      rw [← hx]
      exact ih hrest hf

theorem Follows.bind_ret {effects : List (Option β)} {a : α} {b : γ} {c : Coro σ α}
    {f : α → Coro σ γ} (hc : Follows obs effects (fun _ => a) c) (hf : f a = .ret b) :
    Follows obs effects (fun _ => b) (c.bind f) := by
  rw [← sequence_none_right hc.ne_nil]
  exact hc.bind (hf ▸ follows_ret b)

/-- On its own a coroutine returns what its footprint leaves behind. -/
theorem Follows.run {effects : List (Option β)} {out : β → α} {c : Coro σ α}
    (h : Follows obs effects out c) (s : σ) :
    (c.run s).1 = out (final effects (obs s)) ∧ obs (c.run s).2 = final effects (obs s) := by
  induction effects generalizing c s with
  | nil => exact h.elim
  | cons e es ih =>
      match es, h with
      | [], h =>
          obtain ⟨s', hresume, hobs⟩ := h s
          rw [run_eq_resume, hresume]
          exact ⟨by simp [hobs], by simp [hobs]⟩
      | e' :: es, h =>
          obtain ⟨s', c', hresume, hobs, hrest⟩ := h s
          rw [run_eq_resume, hresume, final_cons, ← hobs]
          exact ih hrest s'

/-! Interleaving. -/

variable [DecidableEq ι]

/-- One turn of the scheduler: coroutine `i` runs to its next await. -/
def turn (i : ι) (pool : ι → Status σ α) (s : σ) : (ι → Status σ α) × σ :=
  match pool i with
  | .done _ => (pool, s)
  | .waiting c =>
      let (status, s') := resume c s
      (Function.update pool i status, s')

def interleave : List ι → (ι → Status σ α) → σ → (ι → Status σ α) × σ
  | [], pool, s => (pool, s)
  | i :: schedule, pool, s =>
      let (pool', s') := turn i pool s
      interleave schedule pool' s'

theorem turn_waiting {i : ι} {pool : ι → Status σ α} {c : Coro σ α} (h : pool i = .waiting c)
    (s : σ) : turn i pool s = (Function.update pool i (resume c s).1, (resume c s).2) := by
  simp only [turn, h]

/-- The value observed at the end does not depend on where it started. -/
theorem final_eq_of_mem {effects : List (Option β)} {w : β} (h : some w ∈ effects) (u v : β) :
    final effects u = final effects v := by
  induction effects generalizing u v with
  | nil => cases h
  | cons e es ih =>
      rcases List.mem_cons.mp h with heq | hmem
      · simp [← heq]
      · simpa using ih hmem _ _

theorem final_eq_self {effects : List (Option β)} (h : ∀ w, some w ∉ effects) (v : β) :
    final effects v = v := by
  induction effects generalizing v with
  | nil => rfl
  | cons e es ih =>
      have hhead : e = none := by
        cases e with
        | none => rfl
        | some w => exact absurd List.mem_cons_self (h w)
      subst hhead
      exact ih (fun w hw => h w (List.mem_cons_of_mem _ hw)) v

section Isolation

variable {effects : ι → List (Option β)} {out : ι → β → α} {start : β}

/-- Coroutine `i` cannot be disturbed: its last stretch writes the observed
component itself, or nobody else ever leaves a value there that would change
what `i` returns. -/
def Isolated (effects : ι → List (Option β)) (out : ι → β → α) (start : β) (i : ι) : Prop :=
  (∃ w, (effects i).getLast? = some (some w)) ∨
  (∀ j, j ≠ i → ∀ w, some w ∈ effects j → out i w = out i (final (effects i) start))

/-- Every coroutine that still waits has a suffix of its footprint ahead. -/
def Shaped (obs : σ → β) (effects : ι → List (Option β)) (out : ι → β → α)
    (pool : ι → Status σ α) : Prop :=
  ∀ j c, pool j = .waiting c → ∃ rest, rest <:+ effects j ∧ Follows obs rest (out j) c

/-- Coroutine `i` has returned its result, or will: what it has ahead leads
from the observed value to the result it has on its own. -/
def Tracked (obs : σ → β) (effects : ι → List (Option β)) (out : ι → β → α) (start : β)
    (i : ι) (status : Status σ α) (s : σ) : Prop :=
  match status with
  | .done a => a = out i (final (effects i) start)
  | .waiting c => ∃ rest, rest <:+ effects i ∧ Follows obs rest (out i) c ∧
      out i (final rest (obs s)) = out i (final (effects i) start)

omit [DecidableEq ι] in
/-- A stretch of `c` writes what its footprint says, and leaves the rest. -/
theorem Follows.resume {rest : List (Option β)} {out : β → α} {c : Coro σ α}
    (h : Follows obs rest out c) (s : σ) :
    ∃ e es, rest = e :: es ∧ obs (resume c s).2 = e.getD (obs s) ∧
      ((es = [] ∧ (resume c s).1 = .done (out (obs (resume c s).2))) ∨
        ∃ c', (resume c s).1 = .waiting c' ∧ Follows obs es out c') := by
  match rest, h with
  | [], h => exact h.elim
  | [e], h =>
      obtain ⟨s', hresume, hobs⟩ := h s
      exact ⟨e, [], rfl, by rw [hresume, hobs], Or.inl ⟨rfl, by rw [hresume]⟩⟩
  | e :: e' :: es, h =>
      obtain ⟨s', c', hresume, hobs, hrest⟩ := h s
      exact ⟨e, e' :: es, rfl, by rw [hresume, hobs], Or.inr ⟨c', by rw [hresume], hrest⟩⟩

theorem turn_shaped {pool : ι → Status σ α} (h : Shaped obs effects out pool) (j : ι) (s : σ) :
    Shaped obs effects out (turn j pool s).1 := by
  unfold turn
  cases hj : pool j with
  | done a => exact h
  | waiting c =>
      intro k c' hk
      by_cases hkj : k = j
      · subst hkj
        obtain ⟨rest, hsuffix, hfollows⟩ := h k c hj
        obtain ⟨e, es, rfl, -, hend | ⟨c'', hwait, hes⟩⟩ := hfollows.resume s
        · simp [hend.2] at hk
        · simp only [Function.update_self, hwait, Status.waiting.injEq] at hk
          exact ⟨es, (List.suffix_cons e es).trans hsuffix, hk ▸ hes⟩
      · simp only [Function.update_of_ne hkj] at hk
        exact h k c' hk

omit [DecidableEq ι] in
/-- Another coroutine's write keeps an isolated coroutine on its way. -/
theorem final_after_other {i j : ι} {rest : List (Option β)} {e : Option β} {v : β}
    (hisolated : Isolated effects out start i) (hne : rest ≠ []) (hsuffix : rest <:+ effects i)
    (hij : j ≠ i) (he : e ∈ effects j)
    (h : out i (final rest v) = out i (final (effects i) start)) :
    out i (final rest (e.getD v)) = out i (final (effects i) start) := by
  cases e with
  | none => exact h
  | some u =>
      by_cases hwrites : ∃ w, some w ∈ rest
      · obtain ⟨w, hw⟩ := hwrites
        rw [final_eq_of_mem hw _ v]
        exact h
      · push Not at hwrites
        rw [final_eq_self hwrites, Option.getD_some]
        rcases hisolated with ⟨w, hlast⟩ | hothers
        · obtain ⟨pre, hpre⟩ := hsuffix
          rw [← hpre, List.getLast?_append_of_ne_nil _ hne] at hlast
          exact absurd (List.mem_of_getLast? hlast) (hwrites w)
        · exact hothers j hij u he

theorem turn_tracked {pool : ι → Status σ α} {i : ι} {s : σ}
    (hisolated : Isolated effects out start i) (hshaped : Shaped obs effects out pool)
    (h : Tracked obs effects out start i (pool i) s) (j : ι) :
    Tracked obs effects out start i ((turn j pool s).1 i) (turn j pool s).2 := by
  unfold turn
  cases hj : pool j with
  | done a => exact h
  | waiting c =>
      by_cases hij : j = i
      · subst hij
        rw [hj] at h
        obtain ⟨rest, hsuffix, hfollows, htrack⟩ := h
        obtain ⟨e, es, rfl, hobs, ⟨rfl, hdone⟩ | ⟨c', hwait, hes⟩⟩ := hfollows.resume s
        · simp only [Function.update_self, hdone]
          rw [final_cons, final_nil, ← hobs] at htrack
          exact htrack
        · simp only [Function.update_self, hwait]
          refine ⟨es, (List.suffix_cons e es).trans hsuffix, hes, ?_⟩
          rw [hobs]
          exact htrack
      · simp only [Function.update_of_ne (Ne.symm hij)]
        obtain ⟨jrest, hjsuffix, hjfollows⟩ := hshaped j c hj
        obtain ⟨e, es, rfl, hobs, -⟩ := hjfollows.resume s
        have he : e ∈ effects j := hjsuffix.subset List.mem_cons_self
        cases hi : pool i with
        | done a => rw [hi] at h; exact h
        | waiting ci =>
            rw [hi] at h
            obtain ⟨rest, hsuffix, hfollows, htrack⟩ := h
            refine ⟨rest, hsuffix, hfollows, ?_⟩
            rw [hobs]
            exact final_after_other hisolated hfollows.ne_nil hsuffix hij he htrack

theorem interleave_tracked {i : ι} (hisolated : Isolated effects out start i)
    (schedule : List ι) {pool : ι → Status σ α} {s : σ} (hshaped : Shaped obs effects out pool)
    (h : Tracked obs effects out start i (pool i) s) :
    Tracked obs effects out start i ((interleave schedule pool s).1 i)
      (interleave schedule pool s).2 := by
  induction schedule generalizing pool s with
  | nil => exact h
  | cons j rest ih => exact ih (turn_shaped hshaped j s) (turn_tracked hisolated hshaped h j)

/-! A schedule that disturbs a coroutine that is not isolated. -/

theorem interleave_append (first second : List ι) (pool : ι → Status σ α) (s : σ) :
    interleave (first ++ second) pool s =
      interleave second (interleave first pool s).1 (interleave first pool s).2 := by
  induction first generalizing pool s with
  | nil => rfl
  | cons j rest ih => exact ih _ _

/-- Turns of one coroutine alone, all but those that would end it. -/
theorem interleave_replicate {j : ι} {es rest : List (Option β)} {c : Coro σ α}
    (pool : ι → Status σ α) (s : σ) (hwait : pool j = .waiting c)
    (hfollows : Follows obs (es ++ rest) (out j) c) (hne : rest ≠ []) :
    (∃ c', (interleave (List.replicate es.length j) pool s).1 = Function.update pool j (.waiting c')
      ∧ Follows obs rest (out j) c') ∧
    obs (interleave (List.replicate es.length j) pool s).2 = final es (obs s) := by
  induction es generalizing pool s c with
  | nil =>
      refine ⟨⟨c, ?_, hfollows⟩, rfl⟩
      rw [← hwait, Function.update_eq_self]
      rfl
  | cons e es ih =>
      obtain ⟨e', es', hcons, hobs, ⟨hnil, -⟩ | ⟨c', hresume, hes⟩⟩ := hfollows.resume s
      · obtain ⟨-, htail⟩ := List.cons.inj hcons
        exact absurd (htail.trans hnil) (by simp [hne])
      · obtain ⟨rfl, rfl⟩ := List.cons.inj hcons
        rw [List.length_cons, List.replicate_succ, interleave, turn_waiting hwait, hresume]
        obtain ⟨⟨c'', hpool, hrest⟩, hfinal⟩ :=
          ih (Function.update pool j (.waiting c')) (resume c s).2 (by simp) hes
        refine ⟨⟨c'', ?_, hrest⟩, ?_⟩
        · dsimp only
          rw [hpool, Function.update_idem]
        · dsimp only
          rw [hfinal, hobs]
          rfl

/-- A coroutine that is not isolated returns something else when another one
writes between its last two stretches. -/
theorem disturbed_of_not_isolated {i : ι} (c : ι → Coro σ α) (s : σ)
    (hfollows : ∀ j, Follows obs (effects j) (out j) (c j))
    (h : ¬ Isolated effects out (obs s) i) :
    ∃ schedule a, (interleave schedule (fun j => .waiting (c j)) s).1 i = .done a ∧
      a ≠ out i (final (effects i) (obs s)) := by
  simp only [Isolated, not_or, not_exists, not_forall] at h
  obtain ⟨hlast, j, hij, w, hmem, hout⟩ := h
  obtain ⟨es, hes⟩ : ∃ es, effects i = es ++ [none] := by
    obtain ⟨es, e, hes⟩ := List.eq_nil_or_concat (effects i) |>.resolve_left (hfollows i).ne_nil
    cases e with
    | none => exact ⟨es, by rw [hes, List.concat_eq_append]⟩
    | some w => exact absurd (by rw [hes, List.concat_eq_append]; simp) (hlast w)
  obtain ⟨fs, gs, hfs⟩ := List.append_of_mem hmem
  have hi := hfollows i
  have hj := hfollows j
  rw [hes] at hi
  rw [hfs] at hj
  obtain ⟨⟨ci, hpool₁, hci⟩, -⟩ :=
    interleave_replicate (fun k => .waiting (c k)) s rfl hi (by simp)
  generalize hrun₁ : interleave (List.replicate es.length i) (fun k => .waiting (c k)) s = run₁ at *
  obtain ⟨⟨cj, hpool₂, hcj⟩, -⟩ :=
    interleave_replicate run₁.1 run₁.2 (by rw [hpool₁, Function.update_of_ne hij]) hj (by simp)
  generalize hrun₂ : interleave (List.replicate fs.length j) run₁.1 run₁.2 = run₂ at *
  -- the others are where they were, so `j` leaves `w` and `i` reads it
  obtain ⟨e, es', hcons, hobs, -⟩ := hcj.resume run₂.2
  obtain ⟨rfl, -⟩ := List.cons.inj hcons
  obtain ⟨s', hresume, hobs'⟩ := hci (resume cj run₂.2).2
  refine ⟨List.replicate es.length i ++ (List.replicate fs.length j ++ [j, i]), out i w, ?_, hout⟩
  have hwaitj : run₂.1 j = .waiting cj := by rw [hpool₂, Function.update_self]
  have hwaiti : Function.update run₂.1 j (resume cj run₂.2).1 i = .waiting ci := by
    rw [Function.update_of_ne (Ne.symm hij), hpool₂, Function.update_of_ne (Ne.symm hij), hpool₁,
      Function.update_self]
  rw [interleave_append, hrun₁, interleave_append, hrun₂, interleave, turn_waiting hwaitj]
  dsimp only
  rw [interleave, turn_waiting hwaiti, hresume]
  dsimp only [interleave]
  rw [Function.update_self, hobs', Option.getD_none, hobs, Option.getD_some]

/-- Isolation is exactly what a coroutine needs to return, under every
schedule, what it returns when it runs alone from the same state. -/
theorem interleave_result_iff {i : ι} (c : ι → Coro σ α) (s : σ)
    (hfollows : ∀ j, Follows obs (effects j) (out j) (c j)) :
    (∀ schedule a, (interleave schedule (fun j => .waiting (c j)) s).1 i = .done a →
      a = ((c i).run s).1) ↔ Isolated effects out (obs s) i := by
  rw [((hfollows i).run s).1]
  constructor
  · intro h
    by_contra hisolated
    obtain ⟨schedule, a, hdone, hne⟩ := disturbed_of_not_isolated c s hfollows hisolated
    exact hne (h schedule a hdone)
  · intro hisolated schedule a hdone
    have hshaped : Shaped obs effects out (fun j => .waiting (c j)) := by
      intro j c' hc'
      obtain rfl := Status.waiting.inj hc'
      exact ⟨effects j, List.suffix_rfl, hfollows j⟩
    have hstart : Tracked obs effects out (obs s) i (.waiting (c i)) s :=
      ⟨effects i, List.suffix_rfl, hfollows i, rfl⟩
    have hend := interleave_tracked hisolated schedule hshaped hstart
    rw [hdone] at hend
    exact hend

end Isolation

end Coro

end Graveboards.Library
