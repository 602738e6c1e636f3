import CoreAudit.Log
import CoreAudit.Process.Script
import CoreAudit.Run
import CoreAudit.Verdict

/-!
# The prover in the process

Where no executable of a prover is found, a library in the process reads the formula and checks
it. Its budget is in whole milliseconds, at least one; a failure of the library is a run with exit
code one and no output.

Models `Z3APIRunner`. What the library does with a formula is given (`ProverScript`).

* **`milliseconds?`**: the budget in milliseconds, or the fault that there is none.
* **`Prover.ask`**: what comes of asking the prover.
-/

namespace CoreAudit

/-- What the prover does with a formula: the seconds that reading and checking take, the failures
of either, and the answer. -/
structure ProverScript where
  readDuration : Float
  readFailure : Option Text
  checkDuration : Float
  checkFailure : Option Text
  answer : Verdict
  deriving Repr

namespace Prover

/-- The name under which the prover is spoken of. -/
def name : Text := "z3-api".toList

/-- What came of asking the prover. -/
structure Asked where
  result : Except Fault RunResult
  events : List Event
  records : List LogRecord

/-- A budget in whole milliseconds, at least one. -/
def milliseconds? : Budget → Except Fault Int
  | .blank => .error (.blank .budget)
  | .seconds x =>
    let scaled := x * 1000.0
    match Number.truncate? scaled with
    | some n => .ok (max 1 n)
    | none => .error (if scaled.isNaN then .budgetNotNumber else .budgetInfinite)

/-- The events before the formula is read; a budget that is no number of milliseconds is a
fault, found when the prover is already there. -/
def opening : Option Budget → Except Fault (List Event)
  | none => .ok [.proverCreated]
  | some budget => (milliseconds? budget).map fun n => [.proverCreated, .proverBudget n]

/-- A failure of the library. -/
def failed (path failure : Text) (elapsed : Float) (events : List Event) : Asked :=
  ⟨.ok ⟨[], elapsed, some 1, false⟩, events,
    [⟨.debug, .tools, "z3 failed on ".toList ++ path ++ ": ".toList ++ failure⟩]⟩

/-- The answer came when the budget was over. -/
def isLate (budget : Option Budget) (elapsed : Float) : Bool :=
  match budget.bind Budget.seconds? with
  | some x => x ≤ elapsed
  | none => false

/-- Reads the formula and checks it, after the events so far. -/
def check (script : ProverScript) (path : Text) (budget : Option Budget) (events : List Event) :
    Asked :=
  let events := events ++ [.proverReads path]
  let elapsed := 0.0 + script.readDuration
  match script.readFailure with
  | some failure => failed path failure elapsed events
  | none =>
    let events := events ++ [.proverChecks]
    let elapsed := elapsed + script.checkDuration
    match script.checkFailure with
    | some failure => failed path failure elapsed events
    | none =>
      ⟨.ok ⟨script.answer.word ++ ['\n'], elapsed, some 0, isLate budget elapsed⟩, events, []⟩

/-- Asks the prover about the formula in a file. -/
def ask (script : ProverScript) (path : Text) (budget : Option Budget) : Asked :=
  match opening budget with
  | .error f => ⟨.error f, [.proverCreated], []⟩
  | .ok events => check script path budget events

end Prover

end CoreAudit
