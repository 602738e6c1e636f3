import CoreAudit.Pool.Schedule
import CoreAudit.Runner.Perform
import CoreAudit.Vote

/-!
# Validation of a core

Every validator of a logic runs on the reduced benchmark, in a directory of its own and under a
budget of its own. A run that is late or cannot be made is an unknown vote; a run in time votes by
its first line.

Models `run_validator`, `collect_votes` and `validate` of `ValidationOrchestrator`. A validator's
run is one task of the pool and changes the session in one step (`Pool.Schedule`).

* **`Validation.verdictOf`**: the vote of a run.
* **`Validation.collect`**: the votes of all validators, one after the other or by a pool.
* `verdictOf_of_timedOut`: a late run is an unknown vote.
-/

namespace CoreAudit

/-- How cores are validated: the budget of a validator, and how many may run at a time. -/
structure Validation where
  timeout : Budget
  jobs : Nat
  deriving Repr

namespace Validation

/-- The vote of a run. -/
def verdictOf (result : RunResult) : Verdict :=
  if result.timedOut then .unknown else Verdict.classify result.firstLine

/-- A late run is an unknown vote, whatever it printed. -/
theorem verdictOf_of_timedOut {result : RunResult} (h : result.timedOut = true) :
    verdictOf result = .unknown := if_pos h

/-- The runner of a validator, which is known from then on. -/
def runnerFor (id : Text) : Act Runner := do
  let s ← get
  match s.toolbox.validators.get? id with
  | some runner => pure runner
  | none =>
    let (runner, records) := Runner.ofSettings s.settings id
    Act.records records
    modify fun s => { s with toolbox :=
      { s.toolbox with validators := s.toolbox.validators.put id runner } }
    pure runner

/-- The record of a vote. -/
def voteRecord (v : Vote) : LogRecord :=
  ⟨.info, .validation, "Validator ".toList ++ v.identifier ++ ": ".toList ++ v.verdict.word
    ++ " (".toList ++ Number.places 3 v.elapsed ++ "s)".toList⟩

/-- The record of a run that could not be made. -/
def failureRecord (id : Text) (f : Fault) : LogRecord :=
  ⟨.error, .validation, "Could not run validator ".toList ++ id ++ ": ".toList ++ f.message⟩

/-- The vote that a run comes to. A fault of input and output is an unknown vote that took no
time; any other fault goes on. -/
def voteOf (id : Text) : Except Fault RunResult → Except Fault Vote × List LogRecord
  | .ok result =>
    let vote : Vote := ⟨id, verdictOf result, result.elapsed⟩
    (.ok vote, [voteRecord vote])
  | .error f =>
    if f.isInputOutput then (.ok ⟨id, .unknown, 0.0⟩, [failureRecord id f])
    else (.error f, [])

/-- One validator's vote on a formula. -/
def vote (v : Validation) (formula workdir id : Text) : Act Vote := do
  let runner ← runnerFor id
  Act.makePath workdir
  let result ← Act.attempt (runner.run ⟨some formula, [], some v.timeout, none, some workdir⟩)
  let (vote, records) := voteOf id result
  Act.records records
  Act.ofExcept vote

/-- The name of the directory of the validator at a place. -/
def directoryName (place : Nat) (id : Text) : Text := Text.ofNat place ++ '-' :: id

/-- The directory of the validator at a place. -/
def directory (workdir : Text) (place : Nat) (id : Text) : Text :=
  Path.join workdir (directoryName place id)

/-- The votes to be cast, in the order of the validators. -/
def tasks (v : Validation) (formula workdir : Text) (ids : List Text) : List (Act Vote) :=
  ids.mapIdx fun place id => v.vote formula (directory workdir place id) id

/-- What the pool of validators makes of a fault. -/
def policy : Pool.Policy := ⟨true, false⟩

/-- The votes of all validators, in their order: one after the other, or by a pool under a
schedule. A pool is given the runners beforehand, and its time is not limited. -/
def collect (v : Validation) (schedule : List Pool.Move) (formula workdir : Text)
    (ids : List Text) : Act (List Vote) := do
  let tasks := v.tasks formula workdir ids
  if v.jobs ≤ 1 ∨ ids.length ≤ 1 then tasks.mapM id
  else
    ids.forM fun id => discard (runnerFor id)
    let outcomes ←
      Pool.run (min v.jobs tasks.length) policy .validation (Pool.unlimited schedule) tasks
    Act.ofExcept (Pool.values outcomes)

/-- The record of an adjudication. -/
def tallyRecord (t : Tally) : LogRecord :=
  ⟨.info, .validation, "Unsat core ".toList
    ++ (if t.accepts then "validated".toList else "rejected".toList) ++ ": ".toList
    ++ Text.ofNat t.confirmations ++ " confirmations, ".toList ++ Text.ofNat t.rejections
    ++ " rejections".toList⟩

/-- The votes of all validators on a formula, with their tally recorded. -/
def validate (v : Validation) (schedule : List Pool.Move) (formula workdir : Text)
    (ids : List Text) : Act (List Vote) := do
  let votes ← v.collect schedule formula workdir ids
  Act.records [tallyRecord (Tally.ofVotes votes)]
  pure votes

end Validation

end CoreAudit
