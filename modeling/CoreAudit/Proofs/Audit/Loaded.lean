import CoreAudit.Proofs.Audit.Beside
import CoreAudit.Proofs.Audit.Gating
import CoreAudit.Proofs.Script.LineEnds
import CoreAudit.Proofs.Text.Encoding

/-!
# Audits of files and of texts

An audit of two files reads the texts that they hold and goes on as an audit of these texts does,
but for two things. The line ends of the benchmark are unified before it is scanned, and the
scrambler is fed the file itself, where a benchmark in memory is copied to the scratch directory
first.

The outcome is the same wherever the two ways of reading find the same facts in the benchmark and
the directories of the validators bypass the copy. The facts are the same as long as carriage
returns end comments: one in a comment with more than white space after it in its line is a line end
for the file and none in memory.

Headlines:
* **`runFiles_agrees`**: an audit of two files comes to what an audit of their texts comes to.
* **`exists_runFiles_ne`**: neither of the two conditions can be left out.
-/

namespace CoreAudit.Audit

open Validation FileTree

variable {a : Audit} {t : Transcript} {b : Benchmark} {s : Session}

/-- An audit of two files is one of their texts, with the line ends of the benchmark unified. -/
theorem runFiles_loaded {schedule : List Pool.Move} {raw script transcript benchmark : Text}
    (htranscript : s.files.read s.here transcript = .ok (Text.Utf8.encode raw))
    (hbenchmark : s.files.read s.here benchmark = .ok (Text.Utf8.encode script)) :
    a.runFiles schedule transcript benchmark s =
      a.run schedule (.ofText raw) ⟨script.unifyLineEnds, some benchmark⟩ s := by
  rw [runFiles_run, htranscript, hbenchmark]
  dsimp only
  rw [Transcript.ofBytes, Benchmark.ofBytes, Text.Utf8.decode_encode, Text.Utf8.decode_encode]

/-- **An audit of two files comes to what an audit of their texts comes to.**

The scrambler is called alike: it is fed the bytes of the script, from another file, and reads the
same cleaned transcript. The outcomes are the same, or the faults are of the same class, if the same
facts are found in the script with its line ends unified, and the directories of all validators
bypass the copy of the script. The facts are the same if carriage returns end comments. -/
theorem runFiles_agrees (a : Audit) (schedule : List Pool.Move) (raw script : Text)
    {transcript benchmark : Text} (F : Fit s) (T : a.Rehearsed s)
    (hname : Path.IsName (s.files.freeName s.host.scratchStem))
    (htranscript : s.files.read s.here transcript = .ok (Text.Utf8.encode raw))
    (hbenchmark : s.files.read s.here benchmark = .ok (Text.Utf8.encode script)) :
    ((Transcript.ofText raw).status = .unsat → s.scramblerOf ≠ none →
      ∃ c, c.Shows script (Transcript.ofText raw).text ∧
        s.firstCall? (a.run schedule (.ofText raw) ⟨script, none⟩ s).2 = some c ∧
        s.firstCall? (a.runFiles schedule transcript benchmark s).2 =
          some (c.fedFrom benchmark)) ∧
    ((Benchmark.mk script.unifyLineEnds none).facts = (Benchmark.mk script none).facts →
      a.SparesCopy s →
      (a.runFiles schedule transcript benchmark s).1.mapError Fault.className =
        (a.run schedule (.ofText raw) ⟨script, none⟩ s).1.mapError Fault.className) ∧
    (Script.returnsEndComments .code script = true →
      (Benchmark.mk script.unifyLineEnds none).facts = (Benchmark.mk script none).facts) := by
  rw [runFiles_loaded htranscript hbenchmark]
  have hmemory : (Benchmark.mk script none).path = none := rfl
  have hfile : (Benchmark.mk script.unifyLineEnds (some benchmark)).path = some benchmark := rfl
  obtain ⟨hcall, houtcome⟩ := run_beside schedule F T hname (.ofText raw) hmemory hfile hbenchmark
  exact ⟨hcall, houtcome, fun h => Benchmark.facts_unifyLineEnds h _ _⟩

/-- The output of a solver and a benchmark, in files. -/
def loadedFiles (raw script : Text) : FileTree :=
  (FileTree.empty.put ["out.txt".toList] (.file (Text.Utf8.encode raw) false)).put
    ["b.smt2".toList] (.file (Text.Utf8.encode script) false)

/-- A session with the files, the scrambler and two validators. -/
def loadedSession (raw script : Text) : Session :=
  { pairSession (headerResult ['1']) "unsat\n".toList with files := loadedFiles raw script }

theorem fit_loadedSession (raw script : Text) : Fit (loadedSession raw script) := by
  have hfirst : (FileTree.empty.put ([] ++ ["out.txt".toList])
      (.file (Text.Utf8.encode raw) false)).Closed :=
    closed_empty.put rfl (Or.inr fun h => nomatch h)
  have hsecond : (FileTree.put _ ([] ++ ["b.smt2".toList])
      (.file (Text.Utf8.encode script) false)).Closed :=
    hfirst.put rfl (Or.inr fun h => nomatch h)
  exact ⟨hsecond, rfl⟩

/-- The files hold what they are made of. -/
theorem read_loadedSession (raw script : Text) :
    (loadedSession raw script).files.read (loadedSession raw script).here "out.txt".toList =
        .ok (Text.Utf8.encode raw) ∧
      (loadedSession raw script).files.read (loadedSession raw script).here "b.smt2".toList =
        .ok (Text.Utf8.encode script) := ⟨rfl, rfl⟩

theorem rehearsed_loadedSession (raw script : Text) :
    pairAudit.Rehearsed (loadedSession raw script) where
  scrambler := by
    intro runner hrunner
    cases hrunner
    exact ⟨_, _, rfl, fun _ _ => rfl⟩
  validator := by
    intro row hrow id hid
    rw [List.mem_singleton.mp hrow] at hid
    simp only [List.mem_cons, List.not_mem_nil, or_false] at hid
    rcases hid with rfl | rfl <;> exact ⟨_, _, rfl⟩

/-- An answer and a benchmark with line ends of all kinds. -/
def mixedAnswer : Text := "unsat\r\n(goal)\r".toList

@[inherit_doc mixedAnswer]
def mixedScript : Text :=
  "(set-logic\rQF_LIA)\r\n; one\r \n(assert (! (= 0 1) :named |go\ral|))\r(check-sat)\n".toList

/-- Line ends of all kinds change nothing but the path of the file that the scrambler is fed. -/
theorem runFiles_agrees_mixed :
    (∃ c, c.Shows mixedScript (Transcript.ofText mixedAnswer).text ∧
      (loadedSession mixedAnswer mixedScript).firstCall? (pairAudit.run [] (.ofText mixedAnswer)
        ⟨mixedScript, none⟩ (loadedSession mixedAnswer mixedScript)).2 = some c ∧
      (loadedSession mixedAnswer mixedScript).firstCall? (pairAudit.runFiles [] "out.txt".toList
        "b.smt2".toList (loadedSession mixedAnswer mixedScript)).2 =
          some (c.fedFrom "b.smt2".toList)) ∧
    (pairAudit.runFiles [] "out.txt".toList "b.smt2".toList
        (loadedSession mixedAnswer mixedScript)).1.mapError Fault.className =
      (pairAudit.run [] (.ofText mixedAnswer) ⟨mixedScript, none⟩
        (loadedSession mixedAnswer mixedScript)).1.mapError Fault.className := by
  have hname : (loadedSession mixedAnswer mixedScript).files.freeName
      (loadedSession mixedAnswer mixedScript).host.scratchStem = "audit0".toList := by
    decide +kernel
  have N : Path.IsName ((loadedSession mixedAnswer mixedScript).files.freeName
      (loadedSession mixedAnswer mixedScript).host.scratchStem) :=
    hname ▸ ⟨⟨by decide, by decide, by decide, by decide, by decide⟩, by decide⟩
  obtain ⟨hcall, houtcome, hfacts⟩ := runFiles_agrees pairAudit [] mixedAnswer mixedScript
    (fit_loadedSession mixedAnswer mixedScript) (rehearsed_loadedSession mixedAnswer mixedScript)
    N (read_loadedSession mixedAnswer mixedScript).1
    (read_loadedSession mixedAnswer mixedScript).2
  exact ⟨hcall (by decide) (Option.some_ne_none _),
    houtcome (hfacts (by decide)) (sparesCopy_of_not_mem N.isSimple (by decide))⟩

/-! ## A carriage return in a comment -/

/-- A benchmark with an assertion after a carriage return in a comment. -/
def strayReturn : Text := "(set-logic QF_LIA)\n; c\r(assert true)\n(check-sat)\n".toList

/-- An assertion after a carriage return in a comment is counted in the file only. -/
theorem run_strayReturn :
    (pairAudit.runFiles [] "out.txt".toList "b.smt2".toList
        (loadedSession "unknown\n".toList strayReturn)).1 = .ok ⟨1, .answeredUnknown⟩ ∧
      (pairAudit.run [] (.ofText "unknown\n".toList) ⟨strayReturn, none⟩
        (loadedSession "unknown\n".toList strayReturn)).1 = .ok ⟨0, .answeredUnknown⟩ := by
  have hstatus : (Transcript.ofText "unknown\n".toList).status = .unknown := by decide
  have hrun : ∀ b : Benchmark, (pairAudit.run [] (.ofText "unknown\n".toList) b
      (loadedSession "unknown\n".toList strayReturn)).1 =
        .ok ⟨b.assertCount, .answeredUnknown⟩ := by
    intro b
    unfold run
    rw [Act.bind_of_ok (Act.records_run _ _), hstatus]
    rfl
  have hcount : (Benchmark.mk strayReturn none).assertCount = 0 ∧
      (Benchmark.mk strayReturn.unifyLineEnds (some "b.smt2".toList)).assertCount = 1 := by
    unfold Benchmark.assertCount Benchmark.facts
    rw [Script.commands_eq_scanner, Script.commands_eq_scanner]
    exact ⟨rfl, rfl⟩
  rw [runFiles_loaded (read_loadedSession _ _).1 (read_loadedSession _ _).2, hrun, hrun, hcount.1,
    hcount.2]
  exact ⟨rfl, rfl⟩

/-! ## A directory in the place of the copy -/

/-- A validation by one validator comes to its vote, if its directory can be made. -/
theorem validate_sole (v : Validation) (schedule : List Pool.Move) (formula workdir : Text)
    {id : Text} {w : Session} {result : RunResult}
    (hrunner : w.toolbox.validators.get? id = some (.scripted id fun _ => .ok result)) :
    (v.validate schedule formula workdir [id] w).1 =
      (w.files.makePath w.here (directory workdir 0 id)).2.elim (.ok [ballot id (.ok result)])
        fun problem => .error (.file problem (some (directory workdir 0 id))) := by
  have hcollect : v.collect schedule formula workdir [id] w =
      (v.vote formula (directory workdir 0 id) id >>= fun vote => pure [vote] : Act _) w := by
    have hsole : [id].length ≤ 1 := Nat.le_refl _
    unfold collect
    rw [if_pos (Or.inr hsole)]
    rfl
  unfold validate
  rw [Act.bind_run, hcollect]
  rcases hmake : (w.files.makePath w.here (directory workdir 0 id)).2 with _ | problem
  · obtain ⟨u, hvote, _⟩ := vote_run v formula hrunner (fun f hf => nomatch hf) hmake
    rw [Act.bind_of_ok hvote]
    rfl
  · rw [Act.bind_of_error (vote_run_error v formula hrunner hmake)]
    rfl

/-- The files when the core is voted on. -/
def pollingFiles (t : Transcript) (b : Benchmark) (core : UnsatCore) (s : Session) : FileTree :=
  (prepared t b s).files.put (s.scratch ++ [reducedName])
    (.file (Text.Utf8.encode core.formula) false)

/-- **An audit by one validator comes to its vote**, if its directory can be made. -/
theorem run_sole {core : UnsatCore} {id : Text} {result : RunResult} (schedule : List Pool.Move)
    (F : Fit s) (hname : Path.IsName (s.files.freeName s.host.scratchStem))
    (hstatus : t.status = .unsat) (hcore : a.rebuilt t b s = .ok (some core))
    (hids : a.table.panel b = .ok [id])
    (hrunner : s.toolbox.validators.get? id = some (.scripted id fun _ => .ok result)) :
    (a.run schedule t b s).1 =
      ((pollingFiles t b core s).makePath s.here (directory (pathOf s.scratch) 0 id)).2.elim
        (.ok ⟨b.assertCount, .checked core [ballot id (.ok result)]⟩)
        fun problem => .error (.file problem (some (directory (pathOf s.scratch) 0 id))) := by
  obtain ⟨v, hrebuilt, R, hfiles⟩ := reconstruct_settles a t b (.refl F.closed) hname
  rw [hcore] at hrebuilt
  let recorded := v.mark ((UnsatCore.reductionRecords b.assertCount core.size).map .record)
  let polling : Session := { recorded with files := pollingFiles t b core s }
  have hwritten : Act.writeFile (Path.join (pathOf s.scratch) reducedName) core.formula recorded =
      (.ok (), polling) := by
    obtain ⟨hwrite, _⟩ := R.scratch.write isName_reducedName (by decide) v.here
      (Text.Utf8.encode core.formula)
    rw [hfiles] at hwrite
    refine Act.writeFile_run ?_
    show v.files.write v.here _ _ = _
    rw [hfiles]
    exact hwrite
  have hknown : v.toolbox.validators.get? id = some (.scripted id fun _ => .ok result) := by
    rw [Rebuilds.validators hrebuilt]
    exact hrunner
  have hhere : polling.here = s.here := R.steady.here
  have hvotes := validate_sole a.validation schedule (Path.join (pathOf s.scratch) reducedName)
    (pathOf s.scratch) (w := polling) hknown
  rw [hhere] at hvotes
  rw [run_eq_proceed hstatus, hrebuilt, Act.ensuring_run (a.leave_eq_ok s.scratch _)]
  show (a.voteOn schedule b core (pathOf s.scratch) v).1 = _
  rw [voteOn_of_panel hids, Act.bind_of_ok hwritten, Act.bind_run]
  rcases hvalidate : a.validation.validate schedule (Path.join (pathOf s.scratch) reducedName)
    (pathOf s.scratch) [id] polling with ⟨votes, x⟩
  rw [hvalidate] at hvotes
  obtain rfl : votes = _ := hvotes
  show _ = (polling.files.makePath s.here _).2.elim _ _
  rcases (polling.files.makePath s.here (directory (pathOf s.scratch) 0 id)).2 with _ | problem <;>
    rfl

/-- The name of a validator that leads from its directory to the copy of a benchmark in memory. -/
def copyName : Text := "x/../benchmark.smt2".toList

/-- An audit by that validator. -/
def copyAudit : Audit :=
  { pairAudit with table := ⟨[(Letters.ofText "QF_LIA".toList, [copyName])]⟩ }

/-- A session with the files, the scrambler and that validator. -/
def copySession : Session :=
  { loadedSession "unsat\n(goal)\n".toList pairBenchmark.text with
    toolbox := ⟨some (.scripted Tool.scrambler.name fun _ => .ok (headerResult ['1'])),
      [(copyName, .scripted copyName fun _ => .ok confirmation)]⟩ }

theorem panel_copy {b : Benchmark} (h : b.text = pairBenchmark.text) :
    copyAudit.table.panel b = .ok [copyName] := by
  have hlogic : b.logic = .ok "QF_LIA".toList := by
    unfold Benchmark.logic Benchmark.facts
    rw [h, Script.commands_eq_scanner]
    rfl
  exact LogicTable.panel_eq_ok_iff.mpr ⟨_, hlogic, rfl⟩

/-- The files when the formula is written, with a benchmark in memory or in a file. -/
def copyPolling (b : Benchmark) : FileTree :=
  pollingFiles (.ofText "unsat\n(goal)\n".toList) b ⟨1, "(check-sat)\n".toList⟩ copySession

/-- In memory there is a file already where the directory of the validator is to be made. -/
theorem makePath_copy :
    ((copyPolling pairBenchmark).makePath copySession.here
        (directory (pathOf copySession.scratch) 0 copyName)).2 = some .taken ∧
      ((copyPolling ⟨pairBenchmark.text, some "b.smt2".toList⟩).makePath copySession.here
        (directory (pathOf copySession.scratch) 0 copyName)).2 = none := by
  decide +kernel

/-- Only from the file the validator is asked. -/
theorem run_copyName :
    (copyAudit.run [] (.ofText "unsat\n(goal)\n".toList) pairBenchmark copySession).1 =
        .error (.file .taken (some (directory (pathOf copySession.scratch) 0 copyName))) ∧
      ∃ o, (copyAudit.runFiles [] "out.txt".toList "b.smt2".toList copySession).1 = .ok o := by
  have hfree : copySession.files.freeName copySession.host.scratchStem = "audit0".toList := by
    decide +kernel
  have N : Path.IsName (copySession.files.freeName copySession.host.scratchStem) :=
    hfree ▸ ⟨⟨by decide, by decide, by decide, by decide, by decide⟩, by decide⟩
  have F : Fit copySession := ⟨(fit_loadedSession _ _).closed, rfl⟩
  have hstatus : (Transcript.ofText "unsat\n(goal)\n".toList).status = .unsat := by decide
  have hlines : pairBenchmark.text.unifyLineEnds = pairBenchmark.text := by decide +kernel
  have hcore : ∀ b, copyAudit.rebuilt (.ofText "unsat\n(goal)\n".toList) b copySession =
      .ok (some ⟨1, "(check-sat)\n".toList⟩) := fun _ => rfl
  have hrun : ∀ b : Benchmark, b.text = pairBenchmark.text →
      (copyAudit.run [] (.ofText "unsat\n(goal)\n".toList) b copySession).1 = _ := fun b h =>
    run_sole [] F N hstatus (hcore b) (panel_copy h) rfl
  obtain ⟨hmemory, hfile⟩ := makePath_copy
  unfold copyPolling at hmemory hfile
  constructor
  · rw [hrun _ rfl, hmemory]
    rfl
  · obtain ⟨hraw, hscript⟩ := read_loadedSession "unsat\n(goal)\n".toList pairBenchmark.text
    rw [runFiles_loaded (s := copySession) hraw hscript, hlines,
      hrun ⟨pairBenchmark.text, some "b.smt2".toList⟩ rfl, hfile]
    exact ⟨_, rfl⟩

/-- **An audit of two files can come to something else than one of their texts**: a carriage return
in a comment is a line end in the file only, and the name of a validator can lead to where only a
benchmark in memory has its copy. -/
theorem exists_runFiles_ne :
    ((pairAudit.runFiles [] "out.txt".toList "b.smt2".toList
        (loadedSession "unknown\n".toList strayReturn)).1 = .ok ⟨1, .answeredUnknown⟩ ∧
      (pairAudit.run [] (.ofText "unknown\n".toList) ⟨strayReturn, none⟩
        (loadedSession "unknown\n".toList strayReturn)).1 = .ok ⟨0, .answeredUnknown⟩) ∧
    (copyAudit.run [] (.ofText "unsat\n(goal)\n".toList) pairBenchmark copySession).1 =
        .error (.file .taken (some (directory (pathOf copySession.scratch) 0 copyName))) ∧
      ∃ o, (copyAudit.runFiles [] "out.txt".toList "b.smt2".toList copySession).1 = .ok o :=
  ⟨run_strayReturn, run_copyName⟩

end CoreAudit.Audit
