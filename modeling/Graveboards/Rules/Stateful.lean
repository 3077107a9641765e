import Graveboards.Rules.Evaluator

/-!
`rules/engine/stateful.py`: reserving the state of every stateful rule of a
submission, and undoing the reservations made so far when one of them raises.
What one `reserve` or `rollback` does to the state is left open here.
-/

namespace Graveboards.Rules

open Library

/-- `Reservation`: the validator that reserved, by its rule type, and the token
it returned. -/
structure Reservation where
  validator : String
  token : String
  deriving DecidableEq

/-- The rules `reserve_stateful_rules` calls `reserve` for. -/
def EngineRule.reserves (rule : EngineRule) : Bool :=
  rule.isActive && rule.type ∈ statefulRuleTypes &&
    match getSupportedVersions rule.type with
    | none => false
    | some supported => rule.version ∈ supported

section

variable {σ : Type} (reserve : EngineRule → σ → Except Raise (Option String) × σ)
  (rollback : Reservation → σ → σ)

/-- The loop of `reserve_stateful_rules`, with the reservations made so far.
An exception carries them out of the loop. -/
def reserveLoop : List EngineRule → List Reservation → σ →
    Except (Raise × List Reservation) (List Reservation) × σ
  | [], reservations, s => (.ok reservations, s)
  | rule :: rest, reservations, s =>
      if rule.reserves then
        match reserve rule s with
        | (.ok (some token), s') => reserveLoop rest (reservations ++ [⟨rule.type, token⟩]) s'
        | (.ok none, s') => reserveLoop rest reservations s'
        | (.error e, s') => (.error (e, reservations), s')
      else reserveLoop rest reservations s

def rollbackReservations (reservations : List Reservation) (s : σ) : σ :=
  reservations.foldl (fun s reservation => rollback reservation s) s

def reserveStatefulRules (rules : List EngineRule) (s : σ) :
    Except Raise (List Reservation) × σ :=
  match reserveLoop reserve rules [] s with
  | (.ok reservations, s') => (.ok reservations, s')
  | (.error (e, reservations), s') => (.error e, rollbackReservations rollback reservations s')

end

end Graveboards.Rules
