import CoreAudit.Audit.Basic

/-!
# Batches of audits

Many pairs of files are audited side by side by a pool. A pair that cannot be audited has its
fault in place of a report.

Models `process_many`. A pair's audit is one task of the pool and changes the session in one step
(`Pool.Schedule`).

* `Audit.runPair`: the report of one pair.
* **`Audit.runMany`**: the reports of all pairs, in their order.
-/

namespace CoreAudit.Audit

/-- The report of a pair of a solver's output file and a benchmark's file. -/
def runPair (a : Audit) (schedule : List Pool.Move) : List Text → Act Report
  | [transcript, benchmark] => Outcome.report <$> a.runFiles schedule transcript benchmark
  | members => throw (.notPair members.length)

/-- What the pool of a batch makes of a fault. -/
def batchPolicy : Pool.Policy := ⟨true, true⟩

/-- The reports of many pairs, audited by at most `jobs` workers at a time: the pairs under one
schedule, the validators of the pair at a place under another. -/
def runMany (a : Audit) (jobs : Int) (schedule : List Pool.Move)
    (validators : Nat → List Pool.Move) (pairs : List (List Text)) :
    Act (List (Except Fault Report)) :=
  Pool.run (Pool.workersFor jobs) batchPolicy .pool (Pool.unlimited schedule)
    (pairs.mapIdx fun place pair => a.runPair (validators place) pair)

end CoreAudit.Audit
