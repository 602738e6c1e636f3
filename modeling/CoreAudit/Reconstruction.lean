import CoreAudit.Runner.Perform
import CoreAudit.Transcript
import CoreAudit.UnsatCore

/-!
# Reconstruction of a core

The scrambler is fed the benchmark and reads the cleaned transcript from a file; it prints the
benchmark restricted to the core that the transcript names. A scrambler that runs out of its
budget gives no core.

Models `CoreReconstructor`.

* **`Reconstruction.arguments`**: what the scrambler is told.
* **`Reconstruction.reading`**: what a run of the scrambler says.
* `reading_of_timedOut`: a run that timed out gives no core.
-/

namespace CoreAudit

/-- How cores are rebuilt: the seed that orders the result, of which zero keeps the order of the
benchmark, and the budget. -/
structure Reconstruction where
  seed : Int
  timeout : Budget
  deriving Repr

namespace Reconstruction

/-- The file that the scrambler reads the transcript from. -/
def coreName : Text := "unsat_core.txt".toList

/-- What the scrambler is told. -/
def arguments (r : Reconstruction) (corePath : Text) : List Text :=
  ["-seed".toList, Text.ofInt r.seed, "-term_annot".toList, "false".toList, "-core".toList,
    corePath]

/-- The scrambler, if one is known or can be found; it is known from then on. -/
def scrambler : Act Runner := do
  let s ← get
  match s.toolbox.scrambler, s.settings.path .scrambler with
  | some runner, _ => pure runner
  | none, some path =>
    let runner := Runner.executable (.named path [] s.settings.killAfter Tool.scrambler.name)
    set { s with toolbox := { s.toolbox with scrambler := some runner } }
    pure runner
  | none, none => throw .noScrambler

/-- The scrambler failed and printed nothing. -/
def failedSilently (result : RunResult) : Bool :=
  result.stdout.isEmpty && result.returnCode.any (· != 0)

/-- The record of a scrambler that failed and printed nothing. -/
def failureRecords (result : RunResult) : List LogRecord :=
  match result.returnCode with
  | some code =>
    if failedSilently result then
      [⟨.error, .scrambler, "Scrambler exited with code ".toList ++ Text.ofInt code
        ++ " and no output".toList⟩]
    else []
  | none => []

/-- The record of a scrambler that ran out of its budget. -/
def timeoutRecord (result : RunResult) : LogRecord :=
  ⟨.error, .scrambler,
    "Scrambler timed out after ".toList ++ Number.places 1 result.elapsed ++ ['s']⟩

/-- The core that a run of the scrambler gives, with the records that reading it leaves. -/
def reading (result : RunResult) : Except Fault (Option UnsatCore) × List LogRecord :=
  if result.timedOut then (.ok none, [timeoutRecord result])
  else
    match Reading.ofOutput result.stdout with
    | .error f => (.error f, failureRecords result)
    | .ok r => (.ok r.core?, failureRecords result ++ r.records)

/-- A run that timed out gives no core, whatever it printed. -/
theorem reading_of_timedOut {result : RunResult} (h : result.timedOut = true) :
    (reading result).1 = .ok none := by simp [reading, h]

/-- The core that the scrambler rebuilds of a benchmark's file and a transcript's. -/
def rebuildFrom (r : Reconstruction) (benchmark corePath workdir : Text) :
    Act (Option UnsatCore) := do
  let runner ← scrambler
  let result ← runner.run ⟨none, r.arguments corePath, some r.timeout, some benchmark,
    some workdir⟩
  let (core, records) := reading result
  Act.records records
  Act.ofExcept core

/-- The core that the scrambler rebuilds of a benchmark's file and a transcript. -/
def rebuild (r : Reconstruction) (benchmark : Text) (transcript : Transcript) (workdir : Text) :
    Act (Option UnsatCore) := do
  let corePath := Path.join workdir coreName
  Act.writeFile corePath transcript.text
  r.rebuildFrom benchmark corePath workdir

end Reconstruction

end CoreAudit
