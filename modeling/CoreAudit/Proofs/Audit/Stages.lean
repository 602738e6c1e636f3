import CoreAudit.Proofs.Audit.Scratch

/-!
# Stages of an audit

The audit of an unsat answer goes through stages. Its scratch directory is made, the core is
rebuilt in it, the validators of the benchmark's logic are looked up, and the core is voted on. What
a stage comes to decides whether there is a next one; here each stage is told apart from what comes
after it.

Headlines:
* **`run_eq_proceed`**: an audit of an unsat answer goes on from what the reconstruction comes to.
* **`voteOn_of_unresolved`**: without a resolved logic nothing but a record is left.
* **`voteOn_of_panel`**: with one, the formula is written and the validators are asked.
-/

namespace CoreAudit

/-- The fault is that a logic is not declared or not listed. -/
def Fault.isOfLogic : Fault → Bool
  | unknownLogic _ | missingLogic _ => true
  | _ => false

namespace LogicTable

variable {table : LogicTable} {b : Benchmark} {ids : List Text} {f : Fault}

/-- The logic cannot be resolved: it is not declared or not listed. -/
def Unresolved (table : LogicTable) (b : Benchmark) (f : Fault) : Prop :=
  b.logic = .error f ∨ ∃ logic, b.logic = .ok logic ∧ table.validatorsFor logic = .error f

/-- The validators of a benchmark's logic, or why there are none. -/
def panel (table : LogicTable) (b : Benchmark) : Except Fault (List Text) :=
  b.logic >>= table.validatorsFor

theorem panel_eq_error_iff : table.panel b = .error f ↔ table.Unresolved b f := by
  unfold panel Unresolved
  cases b.logic with
  | error g =>
    constructor
    · exact fun h => Or.inl (congrArg Except.error (Except.error.inj h))
    · rintro (h | ⟨_, hlogic, _⟩)
      · exact congrArg Except.error (Except.error.inj h)
      · cases hlogic
  | ok logic =>
    constructor
    · exact fun h => Or.inr ⟨logic, rfl, h⟩
    · rintro (h | ⟨_, hlogic, h⟩)
      · cases h
      · cases hlogic
        exact h

theorem panel_eq_ok_iff : table.panel b = .ok ids ↔
    ∃ logic, b.logic = .ok logic ∧ table.validatorsFor logic = .ok ids := by
  unfold panel
  cases b.logic with
  | error g => exact iff_of_false (fun h => nomatch h) (fun ⟨_, hlogic, _⟩ => nomatch hlogic)
  | ok logic =>
    constructor
    · exact fun h => ⟨logic, rfl, h⟩
    · rintro ⟨_, hlogic, h⟩
      cases hlogic
      exact h

theorem Unresolved.isOfLogic (h : table.Unresolved b f) : f.isOfLogic = true := by
  rcases h with hlogic | ⟨logic, _, hlisted⟩
  · unfold Benchmark.logic at hlogic
    split at hlogic
    · cases hlogic
    · rw [← Except.error.inj hlogic]
      rfl
  · unfold validatorsFor PolicyTable.lookUp at hlisted
    split at hlisted
    · cases hlisted
    · rw [← Except.error.inj hlisted]
      rfl

end LogicTable

/-- Where an audit makes its scratch directory. -/
def Session.scratch (s : Session) : Location := [s.files.freeName s.host.scratchStem]

namespace Audit

variable {a : Audit} {schedule : List Pool.Move} {t : Transcript} {b : Benchmark} {s : Session}
  {core : UnsatCore} {workdir : Text} {ids : List Text} {f : Fault}

/-- The session in which the audit of an unsat answer works: its opening records are left, and its
scratch directory is made. -/
def opened (t : Transcript) (b : Benchmark) (s : Session) : Session :=
  { s.mark ((b.records ++ [openingRecord t b]).map .record) with
    files := s.files.put s.scratch .directory }

/-- The core of an unsat answer, rebuilt in a directory. -/
def reconstruct (a : Audit) (t : Transcript) (b : Benchmark) (workdir : Text) :
    Act (Option UnsatCore) := do
  let benchmark ← benchmarkFile b workdir
  a.reconstruction.rebuild benchmark t workdir

/-- The audit of two files, by what is read of them. -/
theorem runFiles_run (a : Audit) (schedule : List Pool.Move) (transcript benchmark : Text)
    (s : Session) : a.runFiles schedule transcript benchmark s =
      match s.files.read s.here transcript with
      | .error problem => (.error (.file problem (some transcript)), s)
      | .ok bytes =>
        match s.files.read s.here benchmark with
        | .error problem => (.error (.file problem (some benchmark)), s)
        | .ok bytes' =>
          a.run schedule (Transcript.ofBytes bytes) (Benchmark.ofBytes benchmark bytes') s := by
  unfold runFiles
  rw [Act.bind_run, Act.map_run, Act.readFile_run]
  rcases s.files.read s.here transcript with problem | bytes
  · rfl
  dsimp only [Except.mapError, Except.map]
  rw [Act.bind_run, Act.map_run, Act.readFile_run]
  rcases s.files.read s.here benchmark with problem | bytes' <;> rfl

/-- A core is checked by going on from what the reconstruction comes to. -/
theorem checkCore_eq_proceed :
    a.checkCore schedule t b workdir s =
      a.proceed schedule b workdir (a.reconstruct t b workdir s).1
        (a.reconstruct t b workdir s).2 := by
  unfold checkCore reconstruct
  rw [Act.bind_run, Act.bind_run]
  rcases benchmarkFile b workdir s with ⟨f | benchmark, u⟩
  · rfl
  · dsimp only
    rw [Act.bind_run]
    rcases a.reconstruction.rebuild benchmark t workdir u with ⟨f | _ | core, v⟩ <;> rfl

/-- **The audit of an unsat answer goes on from what the reconstruction in its scratch directory
comes to**, and leaves the directory in the end. -/
theorem run_eq_proceed (h : t.status = .unsat) :
    a.run schedule t b s = Act.ensuring (a.leave s.scratch)
      (a.proceed schedule b (FileTree.pathOf s.scratch)
        (a.reconstruct t b (FileTree.pathOf s.scratch) (opened t b s)).1)
      (a.reconstruct t b (FileTree.pathOf s.scratch) (opened t b s)).2 := by
  have hscratch : Act.makeScratch (s.mark ((b.records ++ [openingRecord t b]).map .record)) =
      (.ok s.scratch, opened t b s) := rfl
  rw [run_of_unsat h, checkInScratch, Act.bind_of_ok hscratch]
  unfold Act.ensuring
  rw [checkCore_eq_proceed]

/-- Without a resolved logic nothing is left but the record of the core's size. -/
theorem voteOn_of_unresolved (h : a.table.Unresolved b f) :
    a.voteOn schedule b core workdir s = (.error f,
      s.mark ((UnsatCore.reductionRecords b.assertCount core.size).map .record)) := by
  unfold voteOn
  rw [Act.bind_of_ok (Act.records_run _ s)]
  rcases h with hlogic | ⟨logic, hlogic, hlisted⟩
  · rw [hlogic]
    exact Act.bind_of_error (Act.ofExcept_run _ _)
  · rw [hlogic, Act.bind_of_ok (Act.ofExcept_run _ _), hlisted]
    exact Act.bind_of_error (Act.ofExcept_run _ _)

/-- With a resolved logic the formula is written, and its validators vote on it. -/
theorem voteOn_of_panel (h : a.table.panel b = .ok ids) :
    a.voteOn schedule b core workdir s = (do
        Act.writeFile (Path.join workdir reducedName) core.formula
        let votes ← a.validation.validate schedule (Path.join workdir reducedName) workdir ids
        pure ⟨b.assertCount, .checked core votes⟩ : Act Outcome)
      (s.mark ((UnsatCore.reductionRecords b.assertCount core.size).map .record)) := by
  obtain ⟨logic, hlogic, hlisted⟩ := LogicTable.panel_eq_ok_iff.mp h
  unfold voteOn
  rw [Act.bind_of_ok (Act.records_run _ s), hlogic, Act.bind_of_ok (Act.ofExcept_run _ _), hlisted,
    Act.bind_of_ok (Act.ofExcept_run _ _)]

end Audit

end CoreAudit
