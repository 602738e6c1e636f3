import CoreAudit.Audit.Basic
import CoreAudit.LetterTranscript

/-!
# Audits of strings

A transcript and a benchmark that are handed over in memory are strings, which can hold halves of
pairs. An audit of an unsat answer writes both in its scratch directory, and ends in a fault where
one of them cannot be written: the file was opened by then and stays empty. Where neither has a half
the audit is that of the texts (`Audit.run`).

Models `UnsatCorePipeline.run` and `CoreReconstructor.reconstruct` for strings. Out of scope: a
benchmark with a path whose text was replaced by a string with halves.

Headline: **`Audit.runHanded`**: the audit of a transcript and a benchmark as they are handed over.
-/

namespace CoreAudit

/-- A benchmark as it is handed over: one of a text, or a string in memory. -/
inductive HandedBenchmark where
  | text (b : Benchmark)
  | string (script : Letters)
  deriving Repr, DecidableEq

namespace HandedBenchmark

/-- The benchmark of texts that it is, or its first gap. -/
def texts : HandedBenchmark → Except Letters.Gap Benchmark
  | text b => .ok b
  | string script => script.toText.map (⟨·, none⟩)

/-- The benchmark that it is scanned like. -/
def plain : HandedBenchmark → Benchmark
  | text b => b
  | string script => ⟨script.plain, none⟩

/-- The path of the benchmark's file; a benchmark in memory is written to one. -/
def file (b : HandedBenchmark) (workdir : Text) : Act Text :=
  match b with
  | text b => Audit.benchmarkFile b workdir
  | string script => do
    let path := Path.join workdir Audit.benchmarkName
    Act.writeLetters path script
    pure path

end HandedBenchmark

namespace Reconstruction

/-- The core that the scrambler rebuilds of a benchmark's file and a transcript of strings. -/
def rebuildLetters (r : Reconstruction) (benchmark : Text) (t : LetterTranscript)
    (workdir : Text) : Act (Option UnsatCore) := do
  let corePath := Path.join workdir coreName
  t.write corePath
  r.rebuildFrom benchmark corePath workdir

end Reconstruction

namespace Audit

/-- The record that an audit opens with. -/
def openingLetters (t : LetterTranscript) (b : Benchmark) : LogRecord :=
  ⟨.debug, .audit, "Solver answered ".toList ++ t.verdictText.quoted ++ " (".toList
    ++ t.status.word ++ "), benchmark has ".toList ++ Text.ofNat b.assertCount
    ++ " assertions".toList⟩

/-- Rebuilds the core of an unsat answer and has it voted on. The logic of the benchmark is asked
for once it was written, so it is that of a text. -/
def checkHanded (a : Audit) (schedule : List Pool.Move) (t : LetterTranscript)
    (b : HandedBenchmark) (workdir : Text) : Act Outcome := do
  let benchmark ← b.file workdir
  match ← a.reconstruction.rebuildLetters benchmark t workdir with
  | none => pure ⟨b.plain.assertCount, .unparsable⟩
  | some core => a.voteOn schedule b.plain core workdir

/-- The audit of an unsat answer, in a scratch directory. -/
def checkHandedInScratch (a : Audit) (schedule : List Pool.Move) (t : LetterTranscript)
    (b : HandedBenchmark) : Act Outcome := do
  let scratch ← Act.makeScratch
  Act.ensuring (a.leave scratch) (a.checkHanded schedule t b (FileTree.pathOf scratch))

/-- The audit of a transcript and a benchmark as they are handed over. -/
def runHanded (a : Audit) (schedule : List Pool.Move) (t : LetterTranscript)
    (b : HandedBenchmark) : Act Outcome := do
  Act.records (b.plain.records ++ [openingLetters t b.plain])
  match t.status with
  | .sat => pure ⟨b.plain.assertCount, .answeredSat⟩
  | .unknown => pure ⟨b.plain.assertCount, .answeredUnknown⟩
  | .unsat => a.checkHandedInScratch schedule t b

end Audit

end CoreAudit
