import Mathlib.Logic.Relation
import Mathlib.Tactic

/-!
Sessions over one store under READ COMMITTED: a session sees what is committed
and what it has itself written, a key is locked exclusively until the end of the
transaction, and a slice of the store changes only through the writes that touch
it. The last section is about sessions that wait for each other's keys.
-/

namespace Graveboards.Library.Transaction

/-- The open transaction of a session, and where its program stands. -/
structure Session (ω κ π : Type) where
  writes : List ω
  held : List κ
  program : π

/-- `shared` is outside of every transaction (sequences). -/
structure World (n : Nat) (γ δ ω κ π : Type) where
  shared : γ
  committed : δ
  sessions : Fin n → Session ω κ π

namespace World

variable {n : Nat} {γ δ ω κ π : Type}

/-- What the writes make of the store. -/
def written (apply : ω → δ → δ) (writes : List ω) (db : δ) : δ :=
  writes.foldl (fun db x => apply x db) db

/-- What a session sees: the committed rows under its own writes. -/
def view (apply : ω → δ → δ) (w : World n γ δ ω κ π) (t : Fin n) : δ :=
  written apply (w.sessions t).writes w.committed

def setSession (t : Fin n) (session : Session ω κ π) (w : World n γ δ ω κ π) : World n γ δ ω κ π :=
  { w with sessions := Function.update w.sessions t session }

def setProgram (t : Fin n) (program : π) (w : World n γ δ ω κ π) : World n γ δ ω κ π :=
  w.setSession t { w.sessions t with program := program }

def write (t : Fin n) (x : ω) (w : World n γ δ ω κ π) : World n γ δ ω κ π :=
  w.setSession t { w.sessions t with writes := (w.sessions t).writes ++ [x] }

def hold (t : Fin n) (k : κ) (w : World n γ δ ω κ π) : World n γ δ ω κ π :=
  w.setSession t { w.sessions t with held := k :: (w.sessions t).held }

/-- Another session has locked the key. -/
def heldElsewhere (w : World n γ δ ω κ π) (t : Fin n) (k : κ) : Prop :=
  ∃ u, u ≠ t ∧ k ∈ (w.sessions u).held

instance [DecidableEq κ] (w : World n γ δ ω κ π) (t : Fin n) (k : κ) :
    Decidable (w.heldElsewhere t k) :=
  inferInstanceAs (Decidable (∃ u, u ≠ t ∧ k ∈ (w.sessions u).held))

def commit (apply : ω → δ → δ) (t : Fin n) (program : π) (w : World n γ δ ω κ π) :
    World n γ δ ω κ π :=
  { w.setSession t ⟨[], [], program⟩ with committed := w.view apply t }

def rollback (t : Fin n) (program : π) (w : World n γ δ ω κ π) : World n γ δ ω κ π :=
  w.setSession t ⟨[], [], program⟩

section Sessions

variable (w : World n γ δ ω κ π) (t u : Fin n) (program : π) (x : ω) (k : κ)

@[simp] theorem sessions_setSession (session : Session ω κ π) :
    (w.setSession t session).sessions = Function.update w.sessions t session := rfl

@[simp] theorem committed_setSession (session : Session ω κ π) :
    (w.setSession t session).committed = w.committed := rfl

@[simp] theorem shared_setSession (session : Session ω κ π) :
    (w.setSession t session).shared = w.shared := rfl

@[simp] theorem writes_setProgram :
    ((w.setProgram t program).sessions u).writes = (w.sessions u).writes := by
  by_cases h : u = t
  · subst h
    simp [setProgram]
  · simp [setProgram, h]

@[simp] theorem held_setProgram :
    ((w.setProgram t program).sessions u).held = (w.sessions u).held := by
  by_cases h : u = t
  · subst h
    simp [setProgram]
  · simp [setProgram, h]

@[simp] theorem program_setProgram_self :
    ((w.setProgram t program).sessions t).program = program := by
  simp [setProgram]

@[simp] theorem sessions_setProgram_of_ne (h : u ≠ t) :
    (w.setProgram t program).sessions u = w.sessions u := by
  simp [setProgram, h]

@[simp] theorem committed_setProgram : (w.setProgram t program).committed = w.committed := rfl

@[simp] theorem shared_setProgram : (w.setProgram t program).shared = w.shared := rfl

@[simp] theorem writes_write_self :
    ((w.write t x).sessions t).writes = (w.sessions t).writes ++ [x] := by
  simp [write]

@[simp] theorem held_write : ((w.write t x).sessions u).held = (w.sessions u).held := by
  by_cases h : u = t
  · subst h
    simp [write]
  · simp [write, h]

@[simp] theorem program_write : ((w.write t x).sessions u).program = (w.sessions u).program := by
  by_cases h : u = t
  · subst h
    simp [write]
  · simp [write, h]

@[simp] theorem sessions_write_of_ne (h : u ≠ t) : (w.write t x).sessions u = w.sessions u := by
  simp [write, h]

@[simp] theorem committed_write : (w.write t x).committed = w.committed := rfl

@[simp] theorem shared_write : (w.write t x).shared = w.shared := rfl

@[simp] theorem writes_hold : ((w.hold t k).sessions u).writes = (w.sessions u).writes := by
  by_cases h : u = t
  · subst h
    simp [hold]
  · simp [hold, h]

@[simp] theorem program_hold : ((w.hold t k).sessions u).program = (w.sessions u).program := by
  by_cases h : u = t
  · subst h
    simp [hold]
  · simp [hold, h]

@[simp] theorem held_hold_self : ((w.hold t k).sessions t).held = k :: (w.sessions t).held := by
  simp [hold]

@[simp] theorem sessions_hold_of_ne (h : u ≠ t) : (w.hold t k).sessions u = w.sessions u := by
  simp [hold, h]

@[simp] theorem committed_hold : (w.hold t k).committed = w.committed := rfl

@[simp] theorem shared_hold : (w.hold t k).shared = w.shared := rfl

end Sessions

section Views

variable {apply : ω → δ → δ} {w : World n γ δ ω κ π} {t u : Fin n}

theorem written_concat (writes : List ω) (x : ω) (db : δ) :
    written apply (writes ++ [x]) db = apply x (written apply writes db) := by
  simp [written]

theorem view_congr {w' : World n γ δ ω κ π}
    (hwrites : (w'.sessions t).writes = (w.sessions t).writes)
    (hcommitted : w'.committed = w.committed) : w'.view apply t = w.view apply t := by
  rw [view, view, hwrites, hcommitted]

theorem view_of_writes_nil (h : (w.sessions t).writes = []) : w.view apply t = w.committed := by
  rw [view, h]
  rfl

theorem view_commit_self (program : π) :
    (w.commit apply t program).view apply t = w.view apply t := by
  rw [view_of_writes_nil (by simp [commit])]
  rfl

end Views

section Locks

variable {w : World n γ δ ω κ π} {t u : Fin n} {k : κ}

/-- No key is held twice. -/
def Exclusive (w : World n γ δ ω κ π) : Prop :=
  ∀ t u k, k ∈ (w.sessions t).held → k ∈ (w.sessions u).held → t = u

theorem Exclusive.of_held (hw : w.Exclusive) {w' : World n γ δ ω κ π}
    (hheld : ∀ u, (w'.sessions u).held ⊆ (w.sessions u).held) : w'.Exclusive :=
  fun t u k ht hu => hw t u k (hheld t ht) (hheld u hu)

theorem Exclusive.hold (hw : w.Exclusive) (hfree : ¬ w.heldElsewhere t k) :
    (w.hold t k).Exclusive := by
  have howner {u : Fin n} {k' : κ} (hu : k' ∈ ((w.hold t k).sessions u).held) :
      u = t ∧ k' = k ∨ k' ∈ (w.sessions u).held := by
    by_cases h : u = t
    · subst h
      rcases List.mem_cons.mp (by simpa using hu) with rfl | hmem
      · exact .inl ⟨rfl, rfl⟩
      · exact .inr hmem
    · exact .inr (by simpa [h] using hu)
  have honly {u : Fin n} (hu : k ∈ (w.sessions u).held) : u = t := by
    by_contra h
    exact hfree ⟨u, h, hu⟩
  intro u v k' hu hv
  rcases howner hu with ⟨rfl, rfl⟩ | howns
  · rcases howner hv with ⟨rfl, -⟩ | howns'
    · rfl
    · exact (honly howns').symm
  · rcases howner hv with ⟨rfl, rfl⟩ | howns'
    · exact honly howns
    · exact hw u v k' howns howns'

theorem Exclusive.end (hw : w.Exclusive) {session : Session ω κ π} (hheld : session.held = []) :
    (w.setSession t session).Exclusive := by
  apply hw.of_held
  intro u
  by_cases h : u = t
  · subst h
    simp [hheld]
  · simp [h]

end Locks

end World

/-- A part of the store, and the writes that change it. -/
structure Slicing {δ ω : Type} (apply : ω → δ → δ) (ι σ : Type) where
  slice : ι → δ → σ
  Touches : ω → ι → Prop
  frame : ∀ x i db, ¬ Touches x i → slice i (apply x db) = slice i db
  congr : ∀ x i db db', slice i db = slice i db' → slice i (apply x db) = slice i (apply x db')

namespace Slicing

variable {n : Nat} {γ δ ω κ π ι σ : Type} {apply : ω → δ → δ} (S : Slicing apply ι σ)
  {w : World n γ δ ω κ π} {t u : Fin n} {i : ι}

/-- The session has written to the slice. -/
def Writes (w : World n γ δ ω κ π) (t : Fin n) (i : ι) : Prop :=
  ∃ x ∈ (w.sessions t).writes, S.Touches x i

theorem slice_written {writes : List ω} {db : δ} (h : ∀ x ∈ writes, ¬ S.Touches x i) :
    S.slice i (World.written apply writes db) = S.slice i db := by
  induction writes generalizing db with
  | nil => rfl
  | cons x rest ih =>
      have hrest : S.slice i (World.written apply rest (apply x db)) = S.slice i (apply x db) :=
        ih fun y hy => h y (List.mem_cons_of_mem x hy)
      exact hrest.trans (S.frame x i db (h x List.mem_cons_self))

theorem slice_written_congr (writes : List ω) {db db' : δ} (h : S.slice i db = S.slice i db') :
    S.slice i (World.written apply writes db) = S.slice i (World.written apply writes db') := by
  induction writes generalizing db db' with
  | nil => exact h
  | cons x rest ih => exact ih (S.congr x i db db' h)

theorem slice_view (h : ¬ S.Writes w t i) : S.slice i (w.view apply t) = S.slice i w.committed :=
  S.slice_written fun x hx htouches => h ⟨x, hx, htouches⟩

/-- What a session sees of a slice that the committing session has left alone. -/
theorem slice_commit_of_frame (program : π) (h : ¬ S.Writes w t i) (hne : u ≠ t) :
    S.slice i ((w.commit apply t program).view apply u) = S.slice i (w.view apply u) := by
  have hwrites : ((w.commit apply t program).sessions u).writes = (w.sessions u).writes := by
    simp [World.commit, hne]
  rw [World.view, hwrites]
  exact S.slice_written_congr _ (S.slice_view h)

/-- What a session sees of a slice that it has itself left alone. -/
theorem slice_commit_of_own (program : π) (h : ¬ S.Writes w u i) (hne : u ≠ t) :
    S.slice i ((w.commit apply t program).view apply u) = S.slice i (w.view apply t) := by
  have hwrites : ((w.commit apply t program).sessions u).writes = (w.sessions u).writes := by
    simp [World.commit, hne]
  rw [World.view, hwrites]
  exact S.slice_written fun x hx htouches => h ⟨x, hx, htouches⟩

end Slicing

section Waiting

open Relation

variable {τ κ : Type} (Holds Wants : τ → κ → Prop)

/-- `t` waits for a key that `u` holds. -/
def WaitsFor (t u : τ) : Prop := t ≠ u ∧ ∃ k, Wants t k ∧ Holds u k

variable {Holds Wants} {before : κ → κ → Prop} {t u : τ}

/-- Along a chain of waits the keys follow the order in which they are taken. -/
theorem keys_of_waits
    (hordered : ∀ t u k k', t ≠ u → Holds t k → Wants t k' → Holds u k' → before k k')
    (h : TransGen (WaitsFor Holds Wants) t u) :
    ∃ k k', Wants t k ∧ (∃ v, t ≠ v ∧ Holds v k) ∧ Holds u k' ∧ ReflTransGen before k k' := by
  induction h with
  | single hwaits =>
      obtain ⟨hne, k, hwants, hholds⟩ := hwaits
      exact ⟨k, k, hwants, ⟨_, hne, hholds⟩, hholds, .refl⟩
  | tail _ hwaits ih =>
      obtain ⟨k, k', hwants, helsewhere, hholds, hchain⟩ := ih
      obtain ⟨hne, next, hwants', hholds'⟩ := hwaits
      exact ⟨k, next, hwants, helsewhere, hholds',
        hchain.tail (hordered _ _ _ _ hne hholds hwants' hholds')⟩

/-- Keys taken in an acyclic order are never waited for in a cycle. -/
theorem no_wait_cycle (hacyclic : ∀ k, ¬ TransGen before k k)
    (hordered : ∀ t u k k', t ≠ u → Holds t k → Wants t k' → Holds u k' → before k k') (t : τ) :
    ¬ TransGen (WaitsFor Holds Wants) t t := by
  intro hcycle
  obtain ⟨k, k', hwants, ⟨v, hne, helsewhere⟩, hholds, hchain⟩ := keys_of_waits hordered hcycle
  exact hacyclic k (.tail' hchain (hordered t v k' k hne hholds hwants helsewhere))

end Waiting

end Graveboards.Library.Transaction
