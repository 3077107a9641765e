import Graveboards.Library.Runs

/-!
Programs that act on shared state only through atomic commands. A script is a
tree of commands with what follows each reply; a world holds the shared state
and any number of scripts, each with its owner, and advances one script by one
command at a time. Between two commands of a script every other script may
run.
-/

namespace Graveboards.Library

inductive Script (κ : Type) (ρ : κ → Type) (α : Type) where
  | done (a : α)
  | call (command : κ) (next : ρ command → Script κ ρ α)

namespace Script

variable {κ : Type} {ρ : κ → Type} {α β σ ι : Type}

def bind : Script κ ρ α → (α → Script κ ρ β) → Script κ ρ β
  | .done a, f => f a
  | .call command next, f => .call command (fun reply => (next reply).bind f)

instance : Monad (Script κ ρ) where
  pure := .done
  bind := bind

/-- One command, with its reply as the result. -/
def perform (command : κ) : Script κ ρ (ρ command) := .call command .done

/-- The command a script waits to have executed. -/
def pending : Script κ ρ α → Option κ
  | .done _ => none
  | .call command _ => some command

def result : Script κ ρ α → Option α
  | .done a => some a
  | .call _ _ => none

/-- Run to the end with nobody else running. -/
def run (exec : (command : κ) → σ → ρ command × σ) : Script κ ρ α → σ → α × σ
  | .done a, s => (a, s)
  | .call command next, s => run exec (next (exec command s).1) (exec command s).2

end Script

/-- Shared state and the scripts running on it. -/
structure World (σ ι : Type) (κ : Type) (ρ : κ → Type) (α : Type) where
  shared : σ
  scripts : List (ι × Script κ ρ α)

namespace World

variable {κ : Type} {ρ : κ → Type} {α σ ι : Type}

def spawn (owner : ι) (script : Script κ ρ α) (w : World σ ι κ ρ α) : World σ ι κ ρ α :=
  { w with scripts := w.scripts ++ [(owner, script)] }

/-- Execute the command script `i` waits for. -/
def advance (exec : (command : κ) → σ → ρ command × σ) (i : Nat) (w : World σ ι κ ρ α) :
    Option (World σ ι κ ρ α) :=
  match w.scripts[i]? with
  | some (owner, .call command next) =>
      some ⟨(exec command w.shared).2,
        w.scripts.set i (owner, next (exec command w.shared).1)⟩
  | _ => none

/-- Put another script in the place of one that has ended. -/
def resume (i : Nat) (next : ι → α → Option (Script κ ρ α)) (w : World σ ι κ ρ α) :
    Option (World σ ι κ ρ α) :=
  match w.scripts[i]? with
  | some (owner, .done a) =>
      (next owner a).map (fun script => { w with scripts := w.scripts.set i (owner, script) })
  | _ => none

def pending (w : World σ ι κ ρ α) (i : Nat) : Option κ :=
  w.scripts[i]?.bind (fun entry => entry.2.pending)

theorem advance_eq_some {exec : (command : κ) → σ → ρ command × σ} {i : Nat}
    {w w' : World σ ι κ ρ α} (h : w.advance exec i = some w') :
    ∃ owner command next, w.scripts[i]? = some (owner, .call command next) ∧
      w' = ⟨(exec command w.shared).2,
        w.scripts.set i (owner, next (exec command w.shared).1)⟩ := by
  unfold advance at h
  split at h
  · next owner command next hentry => exact ⟨owner, command, next, hentry, (Option.some.inj h).symm⟩
  · cases h

theorem resume_eq_some {i : Nat} {next : ι → α → Option (Script κ ρ α)}
    {w w' : World σ ι κ ρ α} (h : w.resume i next = some w') :
    ∃ owner a script, w.scripts[i]? = some (owner, .done a) ∧ next owner a = some script ∧
      w' = { w with scripts := w.scripts.set i (owner, script) } := by
  unfold resume at h
  split at h
  · next owner a hentry =>
      obtain ⟨script, hnext, rfl⟩ := Option.map_eq_some_iff.mp h
      exact ⟨owner, a, script, hentry, hnext, rfl⟩
  · cases h

theorem pending_of_entry {w : World σ ι κ ρ α} {i : Nat} {owner : ι} {command : κ}
    {next : ρ command → Script κ ρ α} (h : w.scripts[i]? = some (owner, .call command next)) :
    w.pending i = some command := by
  simp [pending, h, Script.pending]

end World

end Graveboards.Library
