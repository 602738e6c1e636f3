import CoreAudit.Fault
import CoreAudit.Log

/-!
# Gathering the outcomes of tasks

Tasks end in any order; their outcomes are gathered as they end and handed over in the order in
which the tasks were submitted. Unless faults are asked for as outcomes, the first fault that is
gathered ends the gathering.

Models `_gather_results`: `take` is one turn of its inner loop, `result` its value.

* **`Gathering.take`**: one more outcome.
* `pending_take`: a task is taken once; no other is lost.
* **`Gathering.result`**: what a gathering comes to, in the order of submission.
-/

namespace CoreAudit.Pool

/-- What becomes of the other tasks when one ends in a fault, and whether faults are outcomes. -/
structure Policy where
  cancelOnFault : Bool
  returnFaults : Bool
  deriving Repr, DecidableEq

/-- The outcomes gathered so far: the tasks that are still to be gathered, in order, the outcomes
with their tasks' places, and the fault that ended the gathering, if one did. -/
structure Gathering (α : Type) where
  pending : List Nat
  outcomes : List (Nat × Except Fault α)
  raised : Option Fault

namespace Gathering

variable {α : Type}

/-- Nothing is gathered of so many tasks. -/
def start (tasks : Nat) : Gathering α := ⟨List.range tasks, [], none⟩

/-- Nothing more is gathered. -/
def isOver (g : Gathering α) : Bool := g.raised.isSome || g.pending.isEmpty

/-- A task's outcome can be taken: the gathering goes on and has not had it. -/
def awaits (g : Gathering α) (i : Nat) : Bool := g.raised.isNone && g.pending.elem i

/-- One more outcome; a fault ends the gathering unless faults are outcomes. -/
def take (policy : Policy) (g : Gathering α) (i : Nat) (outcome : Except Fault α) :
    Gathering α :=
  if g.awaits i then
    let g := { g with pending := g.pending.erase i }
    match outcome with
    | .ok x => { g with outcomes := g.outcomes ++ [(i, .ok x)] }
    | .error f =>
      if policy.returnFaults then { g with outcomes := g.outcomes ++ [(i, .error f)] }
      else { g with raised := some f }
  else g

/-- The tasks that a gathering ended by a task's fault wants cancelled. -/
def cancels (policy : Policy) (g : Gathering α) : List Nat :=
  if policy.cancelOnFault && g.raised.isSome then g.pending else []

/-- The record that a task's fault leaves. -/
def faultRecord (channel : Channel) (f : Fault) : LogRecord :=
  ⟨.error, channel, "task.error type=".toList ++ f.className ++ " msg=".toList ++ f.message⟩

/-- What the gathering of so many tasks comes to: the outcomes in the order of submission, or the
fault that ended it. -/
def result (g : Gathering α) (tasks : Nat) : Except Fault (List (Except Fault α)) :=
  match g.raised with
  | some f => .error f
  | none => .ok ((List.range tasks).filterMap fun i => g.outcomes.lookup i)

/-- An outcome that is awaited is no longer pending, and no other task is lost. -/
theorem pending_take {policy : Policy} {g : Gathering α} {i : Nat} (h : g.awaits i = true)
    (outcome : Except Fault α) : (g.take policy i outcome).pending = g.pending.erase i := by
  unfold take
  rw [if_pos h]
  cases outcome with
  | ok x => rfl
  | error f =>
    cases policy.returnFaults <;> rfl

/-- An outcome that is not awaited changes nothing. -/
theorem take_of_not_awaits {policy : Policy} {g : Gathering α} {i : Nat}
    (h : g.awaits i = false) (outcome : Except Fault α) : g.take policy i outcome = g := by
  simp [take, h]

end Gathering

end CoreAudit.Pool
