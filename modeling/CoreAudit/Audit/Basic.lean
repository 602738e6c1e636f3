import CoreAudit.Audit.Outcome
import CoreAudit.Benchmark
import CoreAudit.LogicTable.Basic
import CoreAudit.Reconstruction
import CoreAudit.Validation

/-!
# Audits

An audit checks one solver's answer on one benchmark. Only an unsat answer needs tools: its core is
rebuilt, the benchmark reduced to it is written out, and the validators of the benchmark's logic
vote on it. All of that happens in a scratch directory that is gone afterwards, unless it is asked
for.

Models `UnsatCorePipeline` (`run`, `_check_core`, `process_files`). `Audit.run` is for a transcript
and a benchmark that are texts; what else can be handed over in memory is in `Audit.Handed`. Out of
scope: a scratch directory that cannot be made.

Headlines:
* **`Audit.run`**: the audit of a transcript and a benchmark in memory.
* **`Audit.runFiles`**: the audit of two files.
* **`run_of_not_unsat`**: without an unsat answer no tool is touched and no file written.
-/

namespace CoreAudit

/-- How answers are audited. -/
structure Audit where
  reconstruction : Reconstruction
  validation : Validation
  table : LogicTable
  keepsScratch : Bool
  deriving Repr

namespace Audit

/-- The file that a benchmark in memory is written to. -/
def benchmarkName : Text := "benchmark.smt2".toList

/-- The file that the reduced benchmark is written to. -/
def reducedName : Text := "reduced.smt2".toList

/-- The record that an audit opens with. -/
def openingRecord (t : Transcript) (b : Benchmark) : LogRecord :=
  ⟨.debug, .audit, "Solver answered ".toList ++ t.verdictText.quoted ++ " (".toList
    ++ t.status.word ++ "), benchmark has ".toList ++ Text.ofNat b.assertCount
    ++ " assertions".toList⟩

/-- The path of the benchmark's file; a benchmark in memory is written to one. -/
def benchmarkFile (b : Benchmark) (workdir : Text) : Act Text :=
  match b.path with
  | some path => pure path
  | none => do
    let path := Path.join workdir benchmarkName
    Act.writeFile path b.text
    pure path

/-- Has the validators of the benchmark's logic vote on a core. -/
def voteOn (a : Audit) (schedule : List Pool.Move) (b : Benchmark) (core : UnsatCore)
    (workdir : Text) : Act Outcome := do
  Act.records (UnsatCore.reductionRecords b.assertCount core.size)
  let logic ← Act.ofExcept b.logic
  let ids ← Act.ofExcept (a.table.validatorsFor logic)
  let reduced := Path.join workdir reducedName
  Act.writeFile reduced core.formula
  let votes ← a.validation.validate schedule reduced workdir ids
  pure ⟨b.assertCount, .checked core votes⟩

/-- Rebuilds the core of an unsat answer and has it voted on. -/
def checkCore (a : Audit) (schedule : List Pool.Move) (t : Transcript) (b : Benchmark)
    (workdir : Text) : Act Outcome := do
  let benchmark ← benchmarkFile b workdir
  match ← a.reconstruction.rebuild benchmark t workdir with
  | none => pure ⟨b.assertCount, .unparsable⟩
  | some core => a.voteOn schedule b core workdir

/-- Leaves a scratch directory: it is removed, or kept and spoken of. -/
def leave (a : Audit) (scratch : Location) : Act Unit :=
  if a.keepsScratch then
    Act.record .info .audit ("Kept working directory ".toList ++ FileTree.pathOf scratch)
  else Act.remove scratch

/-- The audit of an unsat answer, in a scratch directory. -/
def checkInScratch (a : Audit) (schedule : List Pool.Move) (t : Transcript) (b : Benchmark) :
    Act Outcome := do
  let scratch ← Act.makeScratch
  Act.ensuring (a.leave scratch) (a.checkCore schedule t b (FileTree.pathOf scratch))

/-- The audit of a transcript and a benchmark. Validators that run side by side do so under the
schedule. -/
def run (a : Audit) (schedule : List Pool.Move) (t : Transcript) (b : Benchmark) :
    Act Outcome := do
  Act.records (b.records ++ [openingRecord t b])
  match t.status with
  | .sat => pure ⟨b.assertCount, .answeredSat⟩
  | .unknown => pure ⟨b.assertCount, .answeredUnknown⟩
  | .unsat => a.checkInScratch schedule t b

/-- The audit of a solver's output file and a benchmark's file. -/
def runFiles (a : Audit) (schedule : List Pool.Move) (transcript benchmark : Text) :
    Act Outcome := do
  let t ← Transcript.ofBytes <$> Act.readFile transcript
  let b ← Benchmark.ofBytes benchmark <$> Act.readFile benchmark
  a.run schedule t b

/-- Without an unsat answer no tool is touched and no file written: only records are left. -/
theorem run_of_not_unsat (a : Audit) (schedule : List Pool.Move) (t : Transcript)
    (b : Benchmark) (s : Session) (h : t.status ≠ .unsat) :
    ∃ finding, a.run schedule t b s = (.ok ⟨b.assertCount, finding⟩,
      s.mark ((b.records ++ [openingRecord t b]).map .record)) := by
  unfold run
  rw [Act.bind_run, Act.records, Act.mark_run]
  cases ht : t.status with
  | sat => exact ⟨.answeredSat, rfl⟩
  | unknown => exact ⟨.answeredUnknown, rfl⟩
  | unsat => exact absurd ht h

end Audit

end CoreAudit
