import CoreAudit.Budget
import CoreAudit.Fault

/-!
# What a started process does

A process is known by its behaviour towards whoever started it: what each successive wait for its
output brings, what becomes of each signal, what is found of it each time it is looked at, and the
code that it exits with. A process can have exited while others still hold its output open.

Models what `spawn` and `BinarySolverRunner.run` see of a process. Out of scope: standard error,
which is not read.

Headline: **`Event`**: everything that is done to a process or asked of the prover in the process.
-/

namespace CoreAudit

/-- A signal to a process and everything it started. -/
inductive Signal where
  | terminate
  | kill
  deriving Repr, DecidableEq

/-- What a wait for output brings. -/
inductive Reply where
  /-- The output is complete; a process without an output stream gives none. -/
  | output (bytes : Option Bytes)
  /-- The budget of the wait is over. -/
  | silence
  | fault (f : Fault)
  deriving Repr, DecidableEq

/-- One wait: the seconds it takes and what it brings. -/
structure Exchange where
  duration : Float
  reply : Reply
  deriving Repr

/-- What becomes of a signal to a session or to a process. -/
inductive Delivery where
  | delivered
  /-- No process is left that the signal could reach. -/
  | gone
  | refused (text : Text)
  deriving Repr, DecidableEq

/-- The behaviour of a process. When the exchanges are used up its output is complete and empty;
when the deliveries are used up every signal is delivered. -/
structure ProcessScript where
  number : Nat
  exchanges : List Exchange
  deliveries : List Delivery
  exitCode : Int
  /-- Whether the process is found to have exited, each time it is looked at. When these are used up
  it is not. -/
  sightings : List Bool
  deriving Repr

/-- What becomes of a start. -/
inductive Launch where
  | started (script : ProcessScript)
  | refused (f : Fault)
  deriving Repr

/-- Something that was done to a process, or asked of the prover in the process. -/
inductive Event where
  /-- A wait for output with a budget, if there is one. -/
  | await (budget : Option Budget)
  | signalSession (s : Signal)
  | reap
  | closeOutput
  /-- The exit code is asked for. -/
  | poll
  /-- The process alone is signalled. -/
  | signalProcess (s : Signal)
  | proverCreated
  | proverBudget (milliseconds : Int)
  | proverReads (path : Text)
  | proverChecks
  deriving Repr

end CoreAudit
