import CoreAudit.Proofs.Files.Confined
import CoreAudit.Proofs.Steady

/-!
# Audits as far as the scrambler

In a tree in which every entry lies in a directory, an audit of an unsat answer always gets as far
as its scrambler: the scratch directory is new and has a proper name, so that the benchmark and the
transcript are written in it. What is there when the scrambler is run is known exactly.

Headline: **`reconstruct_eq`**: a reconstruction is the run of the scrambler in a prepared session.
-/

namespace CoreAudit

namespace Reconstruction

open Audit

variable {s : Session} {name : Text}

/-- The session in which the scrambler is run, which is known from then on: the transcript is
written in the scratch directory. -/
def ready (t : Transcript) (name : Text) (s : Session) : Session :=
  { s with
    files := s.files.put [name, coreName] (.file (Text.Utf8.encode t.text) false)
    toolbox := { s.toolbox with scrambler := s.scramblerOf } }

/-- What a run of the scrambler is read as. -/
def readingOf (run : Except Fault RunResult × Session) :
    Except Fault (Option UnsatCore) × Session :=
  match run with
  | (.error f, u) => (.error f, u)
  | (.ok result, u) => ((reading result).1, u.mark ((reading result).2.map .record))

/-- The scrambler is found in the session in which it is run. -/
theorem scrambler_ready (t : Transcript) (name : Text) (s : Session) :
    scrambler { s with
        files := s.files.put [name, coreName] (.file (Text.Utf8.encode t.text) false) } =
      match s.scramblerOf with
      | some runner => (.ok runner, ready t name s)
      | none => (.error .noScrambler, ready t name s) := by
  obtain ⟨host, here, files, settings, ⟨known, validators⟩, trace⟩ := s
  rw [scrambler_run]
  unfold Session.scramblerOf ready Session.scramblerOf
  dsimp only
  cases known with
  | some runner => rfl
  | none => cases settings.path .scrambler <;> rfl

/-- The transcript is written beside the benchmark, and the scrambler is run, if there is one. -/
theorem rebuild_eq (r : Reconstruction) (benchmark : Text) (t : Transcript)
    (S : s.files.Scratch name [benchmarkName]) :
    r.rebuild benchmark t (FileTree.pathOf [name]) s =
      match s.scramblerOf with
      | none => (.error .noScrambler, ready t name s)
      | some runner => readingOf (runner.run
        ⟨none, r.arguments (Path.join (FileTree.pathOf [name]) coreName), some r.timeout,
          some benchmark, some (FileTree.pathOf [name])⟩ (ready t name s)) := by
  obtain ⟨hwrite, _⟩ := S.write isName_coreName (by decide) s.here (Text.Utf8.encode t.text)
  have hscrambler := scrambler_ready t name s
  unfold rebuild rebuildFrom
  rw [Act.bind_of_ok (Act.writeFile_run hwrite)]
  rcases hfound : s.scramblerOf with _ | runner
  · rw [hfound] at hscrambler
    exact Act.bind_of_error hscrambler
  · rw [hfound] at hscrambler
    rw [Act.bind_of_ok hscrambler, Act.bind_run]
    dsimp only
    generalize runner.run _ (ready t name s) = run
    rcases run with ⟨f | result, u⟩
    · rfl
    · dsimp only
      rw [Act.bind_of_ok (Act.records_run _ u), Act.ofExcept_run]
      rfl

end Reconstruction

namespace Audit

open Reconstruction

variable {s : Session} {name : Text}

/-- The files after the benchmark is written in the scratch directory, unless it has one of its
own. -/
def withBenchmark (b : Benchmark) (name : Text) (files : FileTree) : FileTree :=
  match b.path with
  | some _ => files
  | none => files.put [name, benchmarkName] (.file (Text.Utf8.encode b.text) false)

theorem scratch_withBenchmark {files : FileTree} (b : Benchmark) (S : files.Scratch name []) :
    (withBenchmark b name files).Scratch name [benchmarkName] := by
  unfold withBenchmark
  cases b.path with
  | some path => exact ⟨S.isName, S.leads, fun file _ => S.free file (by simp)⟩
  | none => exact (S.write isName_benchmarkName (by simp) [] (Text.Utf8.encode b.text)).2

theorem confined_withBenchmark {files : FileTree} (b : Benchmark) (S : files.Scratch name []) :
    FileTree.Confined name files (withBenchmark b name files) := by
  unfold withBenchmark
  cases b.path with
  | some path => exact .refl (S.leads []).directory
  | none => exact S.confined List.not_mem_nil _

theorem benchmarkFile_eq (b : Benchmark) (S : s.files.Scratch name []) :
    benchmarkFile b (FileTree.pathOf [name]) s =
      (.ok (benchmarkPath b (FileTree.pathOf [name])),
        { s with files := withBenchmark b name s.files }) := by
  unfold benchmarkFile benchmarkPath withBenchmark
  cases b.path with
  | some path => rfl
  | none =>
    obtain ⟨hwrite, _⟩ := S.write isName_benchmarkName (by simp) s.here (Text.Utf8.encode b.text)
    exact Act.bind_of_ok (Act.writeFile_run hwrite)

/-- The session in which the scrambler is run: the benchmark and the transcript are written in the
scratch directory. -/
def prepared (t : Transcript) (b : Benchmark) (s : Session) : Session :=
  ready t (s.files.freeName s.host.scratchStem)
    { opened t b s with
      files := withBenchmark b (s.files.freeName s.host.scratchStem) (opened t b s).files }

/-- The scratch directory when the scrambler is run. -/
theorem scratch_prepared (t : Transcript) (b : Benchmark) (hclosed : s.files.Closed)
    (hname : Path.IsName (s.files.freeName s.host.scratchStem)) :
    (prepared t b s).files.Scratch (s.files.freeName s.host.scratchStem)
      [coreName, benchmarkName] :=
  ((scratch_withBenchmark b (FileTree.Scratch.make hclosed hname)).write isName_coreName
    (by decide) s.here (Text.Utf8.encode t.text)).2

/-- What is written for the scrambler is written in the scratch directory. -/
theorem confined_prepared (t : Transcript) (b : Benchmark) (hclosed : s.files.Closed)
    (hname : Path.IsName (s.files.freeName s.host.scratchStem)) :
    FileTree.Confined (s.files.freeName s.host.scratchStem)
      (s.files.put [s.files.freeName s.host.scratchStem] .directory) (prepared t b s).files := by
  have S := FileTree.Scratch.make hclosed hname
  have S' := scratch_withBenchmark b S
  unfold prepared Reconstruction.ready opened Session.scratch
  dsimp only
  generalize s.files.freeName s.host.scratchStem = name at S S'
  exact (confined_withBenchmark b S).trans (S'.confined (by decide) _)

/-- **A reconstruction is the run of the scrambler in a prepared session**, if there is one. -/
theorem reconstruct_eq (a : Audit) (t : Transcript) (b : Benchmark) (hclosed : s.files.Closed)
    (hname : Path.IsName (s.files.freeName s.host.scratchStem)) :
    a.reconstruct t b (FileTree.pathOf s.scratch) (opened t b s) =
      match s.scramblerOf with
      | none => (.error .noScrambler, prepared t b s)
      | some runner => readingOf
        (runner.run (a.scramblerRequest b (FileTree.pathOf s.scratch)) (prepared t b s)) := by
  have S : (opened t b s).files.Scratch (s.files.freeName s.host.scratchStem) [] :=
    FileTree.Scratch.make hclosed hname
  have S' := scratch_withBenchmark b S
  unfold reconstruct prepared scramblerRequest Session.scratch
  generalize s.files.freeName s.host.scratchStem = name at S S'
  have hsame : (opened t b s).scramblerOf = s.scramblerOf := rfl
  rw [Act.bind_of_ok (benchmarkFile_eq b S), ← hsame]
  generalize opened t b s = v at S'
  exact rebuild_eq (s := { v with files := withBenchmark b name v.files }) a.reconstruction _ t S'

/-- The scrambler is run, and the files are left as they were prepared. -/
theorem files_reconstruct (a : Audit) (t : Transcript) (b : Benchmark) (hclosed : s.files.Closed)
    (hname : Path.IsName (s.files.freeName s.host.scratchStem)) :
    (a.reconstruct t b (FileTree.pathOf s.scratch) (opened t b s)).2.files =
      (prepared t b s).files := by
  rw [a.reconstruct_eq t b hclosed hname]
  rcases s.scramblerOf with _ | runner
  · rfl
  · obtain ⟨marks, hmarks⟩ :=
      runner.exists_marks (a.scramblerRequest b (FileTree.pathOf s.scratch)) (prepared t b s)
    dsimp only
    rcases hend : runner.run (a.scramblerRequest b (FileTree.pathOf s.scratch)) (prepared t b s)
      with ⟨f | result, x⟩ <;> rw [hend] at hmarks <;> cases hmarks <;> rfl

end Audit

end CoreAudit
