import CoreAudit.Proofs.Audit.Scratch
import CoreAudit.Proofs.Script.Automaton
import CoreAudit.Proofs.Validation.Concurrency

/-!
# Audits that end with votes

Where the scrambler rebuilds a core and the table lists the benchmark's logic, the core is voted on:
the reduced benchmark is written in the scratch directory, and so are the directories of the
validators, whose names cannot be those of the audit's own files.

Headline: **`run_checked`**: an audit ends with the votes that the validators' answers come to.
-/

namespace CoreAudit.Audit

open Validation

variable {a : Audit} {schedule : List Pool.Move} {t : Transcript} {b : Benchmark} {s : Session}
  {core : UnsatCore} {logic : Text} {ids : List Text} {outcome : Text → Except Fault RunResult}

theorem isName_reducedName : Path.IsName reducedName :=
  ⟨⟨by decide, by decide, by decide, by decide, by decide⟩, by decide⟩

theorem directoryName_not_mem (place : Nat) (id : Text) :
    directoryName place id ∉ [reducedName, Reconstruction.coreName, benchmarkName] := by
  intro h
  obtain ⟨c, rest, hname, hdigit⟩ := directoryName_eq_cons place id
  simp only [List.mem_cons, List.not_mem_nil, or_false] at h
  rcases h with h | h | h <;>
    (rw [h] at hname; cases hname; exact absurd hdigit (by decide))

/-- The validators have proper names: no slash and no null character is in them, and their
directories' names are not too long. -/
structure ProperNames (ids : List Text) : Prop where
  plain : ∀ id ∈ ids, '/' ∉ id ∧ '\x00' ∉ id
  short : ∀ name ∈ ids.mapIdx directoryName, Path.isTooLong name = false

/-- A scratch directory holds the directories of validators with proper names. -/
theorem holds_scratch {files : FileTree} {name : Text} (N : ProperNames ids)
    (S : files.Scratch name [reducedName, Reconstruction.coreName, benchmarkName])
    (here : Location) :
    files.Holds here (FileTree.pathOf [name]) [name] (ids.mapIdx directoryName) := by
  have hisName : ∀ file ∈ ids.mapIdx directoryName, Path.IsName file := by
    intro file hfile
    have hshort := N.short file hfile
    obtain ⟨i, hi, rfl⟩ := List.mem_mapIdx.mp hfile
    obtain ⟨hslash, hnull⟩ := N.plain ids[i] (List.getElem_mem hi)
    exact ⟨isPiece_directoryName hslash hnull, hshort⟩
  refine ⟨S.leads here, hisName, fun file hfile => S.length_lt (hisName file hfile), ?_⟩
  intro file hfile
  obtain ⟨i, hi, rfl⟩ := List.mem_mapIdx.mp hfile
  exact Or.inl (S.free _ (directoryName_not_mem i _))

/-- The directories of validators with proper names can be made in a scratch directory. -/
theorem makeable_scratch {files : FileTree} {name : Text} (N : ProperNames ids)
    (S : files.Scratch name [reducedName, Reconstruction.coreName, benchmarkName])
    (here : Location) :
    files.Makeable here (directories (FileTree.pathOf [name]) ids) := by
  rw [directories_eq_map]
  exact FileTree.makeable_join (holds_scratch N S here)

/-- A core is voted on by validators whose answers are given in advance. -/
theorem voteOn_run {name : Text}
    (S : s.files.Scratch name [Reconstruction.coreName, benchmarkName])
    (hlogic : b.logic = .ok logic) (hids : a.table.validatorsFor logic = .ok ids)
    (N : ProperNames ids) (A : Answers ids outcome s) :
    ∃ u, a.voteOn schedule b core (FileTree.pathOf [name]) s =
      (.ok ⟨b.assertCount, .checked core (ids.map fun id => ballot id (outcome id))⟩, u) := by
  let recorded := s.mark ((UnsatCore.reductionRecords b.assertCount core.size).map .record)
  obtain ⟨w, hwrite, htoolbox, _, _, S'⟩ :=
    writeFile_scratch (s := recorded) S isName_reducedName (by decide) core.formula
  have A' : Answers ids outcome w := by
    refine ⟨fun id hid => ?_, A.fault⟩
    rw [htoolbox]
    exact A.runner id hid
  obtain ⟨u, hvotes, _⟩ := validate_run a.validation.timeout a.validation.jobs schedule
    (Path.join (FileTree.pathOf [name]) reducedName) A' (makeable_scratch N S' w.here)
  refine ⟨u, ?_⟩
  unfold voteOn
  rw [Act.bind_of_ok (Act.records_run _ s), hlogic, Act.bind_of_ok (Act.ofExcept_run _ _), hids,
    Act.bind_of_ok (Act.ofExcept_run _ _), Act.bind_of_ok hwrite, Act.bind_of_ok hvotes]
  rfl

/-- **An audit whose core is rebuilt ends with the votes that the validators' answers come to.** -/
theorem run_checked (schedule : List Pool.Move) {label : Text} {result : RunResult}
    (hclosed : s.files.Closed) (hname : Path.IsName (s.files.freeName s.host.scratchStem))
    (hstatus : t.status = .unsat)
    (hscrambler : s.toolbox.scrambler = some (.scripted label fun _ => .ok result))
    (hcore : (Reconstruction.reading result).1 = .ok (some core))
    (hlogic : b.logic = .ok logic) (hids : a.table.validatorsFor logic = .ok ids)
    (N : ProperNames ids) (A : Answers ids outcome s) :
    ∃ u, a.run schedule t b s =
      (.ok ⟨b.assertCount, .checked core (ids.map fun id => ballot id (outcome id))⟩, u) := by
  obtain ⟨scratch, v, hrun, htoolbox, _, ⟨name, rfl, S⟩, _⟩ :=
    run_scripted a schedule b hclosed hname hstatus hscrambler
  have A' : Answers ids outcome v := by
    refine ⟨fun id hid => ?_, A.fault⟩
    rw [htoolbox]
    exact A.runner id hid
  obtain ⟨w, hvotes⟩ := voteOn_run (a := a) S hlogic hids N A'
  rw [hcore] at hrun
  obtain ⟨u, hleave, _⟩ := a.leave_run [name] w
  refine ⟨u, ?_⟩
  rw [hrun]
  show Act.ensuring (a.leave [name]) (a.voteOn schedule b core (FileTree.pathOf [name])) v = _
  rw [Act.ensuring_run (t := u) (by rw [hvotes]; exact hleave), hvotes]

/-! ## An audit by two validators -/

/-- The answer of a solver that names its core. -/
def pairTranscript : Transcript := ⟨["unsat".toList, "(goal)".toList]⟩

/-- A benchmark with one assertion. -/
def pairBenchmark : Benchmark :=
  ⟨"(set-logic QF_LIA)\n(assert (! (= 0 1) :named goal))\n(check-sat)\n".toList, none⟩

/-- An audit by two validators, of which two run at a time. -/
def pairAudit : Audit :=
  ⟨⟨0, .seconds 300.0⟩, ⟨.seconds 120.0, 2⟩,
    ⟨[(Letters.ofText "QF_LIA".toList, [Tool.z3.name, Tool.cvc5.name])]⟩, false⟩

/-- The first validator prints an answer, the second cannot be run. -/
def pairOutcome (answer id : Text) : Except Fault RunResult :=
  if id = Tool.z3.name then .ok ⟨answer, 0.5, some 0, false⟩ else .error (.raised .missingFile id)

/-- A session with the scrambler and the two validators. -/
def pairSession (result : RunResult) (answer : Text) : Session :=
  .fresh .empty ⟨some (.scripted Tool.scrambler.name fun _ => .ok result),
    [Tool.z3.name, Tool.cvc5.name].map fun id => (id, .scripted id fun _ => pairOutcome answer id)⟩

theorem closed_empty : FileTree.empty.Closed := by
  intro loc name h
  have hne : loc ++ [name] ≠ [] := List.append_ne_nil_of_right_ne_nil _ (List.cons_ne_nil _ _)
  rw [FileTree.get?, if_neg hne] at h
  exact absurd rfl h

theorem isName_pairSession (result : RunResult) (answer : Text) :
    Path.IsName ((pairSession result answer).files.freeName
      (pairSession result answer).host.scratchStem) := by
  show Path.IsName (FileTree.empty.freeName "audit".toList)
  exact ⟨⟨by decide, by decide, by decide, by decide, by decide⟩, by decide⟩

theorem answers_pair (result : RunResult) (answer : Text) :
    Answers [Tool.z3.name, Tool.cvc5.name] (pairOutcome answer) (pairSession result answer) where
  runner := by
    intro id hid
    simp only [List.mem_cons, List.not_mem_nil, or_false] at hid
    rcases hid with rfl | rfl <;> rfl
  fault := by
    intro id hid f hf
    simp only [List.mem_cons, List.not_mem_nil, or_false] at hid
    rcases hid with rfl | rfl
    · cases hf
    · cases hf
      rfl

theorem logic_pairBenchmark : pairBenchmark.logic = .ok "QF_LIA".toList := by
  unfold Benchmark.logic Benchmark.facts
  rw [Script.commands_eq_scanner]
  rfl

/-- Whatever core the scrambler rebuilds, the two validators vote on it. -/
theorem run_pair {result : RunResult} (hcore : (Reconstruction.reading result).1 = .ok (some core))
    (answer : Text) :
    ∃ u, pairAudit.run [] pairTranscript pairBenchmark (pairSession result answer) =
      (.ok ⟨pairBenchmark.assertCount,
        .checked core ([Tool.z3.name, Tool.cvc5.name].map fun id =>
          ballot id (pairOutcome answer id))⟩, u) := by
  have hstatus : pairTranscript.status = .unsat := by decide
  have hids : pairAudit.table.validatorsFor "QF_LIA".toList =
      .ok [Tool.z3.name, Tool.cvc5.name] := by rfl
  have N : ProperNames [Tool.z3.name, Tool.cvc5.name] := ⟨by decide, by decide⟩
  exact run_checked [] closed_empty (isName_pairSession result answer) hstatus rfl hcore
    logic_pairBenchmark hids N (answers_pair result answer)

end CoreAudit.Audit
