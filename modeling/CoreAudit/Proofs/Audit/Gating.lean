import CoreAudit.Proofs.Audit.Causes
import CoreAudit.Proofs.Audit.Prepared

/-!
# What each stage of an audit depends on

An audit takes a stage only where the one before asks for it. An answer that is not unsat ends it at
once, before a tool is looked for or a file is made. Where no core is rebuilt it ends before a
validator is looked at: nothing up to there depends on which validators are known, on the settings
for them or on the table (`Act.IsBlind`). Only a rebuilt core needs a logic that the table lists,
and without one nothing more is done either.

Headlines:
* **`isBlind_reconstruct`**: what the scrambler rebuilds does not depend on the validators.
* **`run_of_rebuilt_none`**, **`run_of_unresolved`**: the two ways to end after a reconstruction.
* **`stages_gated`**: what the outcome of an audit depends on, stage by stage.
-/

namespace CoreAudit

/-- The session with other runners known for the validators, and with other settings. -/
def Session.withPanel (s : Session) (validators : Keyed Text Runner) (settings : Settings) :
    Session :=
  { s with settings, toolbox := { s.toolbox with validators } }

/-- The settings give the same scrambler. -/
structure Settings.SameScrambler (s s' : Settings) : Prop where
  path : s'.path .scrambler = s.path .scrambler
  grace : s'.killAfter = s.killAfter

/-- The session without all that a run does not look at: known runners, settings and the trace. -/
def Session.bare (s : Session) : Session := ⟨s.host, s.here, s.files, .standard, .empty, []⟩

theorem Runner.run_eq_bare (r : Runner) (v : Invocation) (s : Session) :
    r.run v s = ((r.run v s.bare).1, s.mark (r.run v s.bare).2.trace) := by
  cases r with
  | executable x =>
    show x.run v s = ((x.run v s.bare).1, s.mark (x.run v s.bare).2.trace)
    have hfed : Executable.fed v.stdin s.bare = Executable.fed v.stdin s := by
      unfold Executable.fed
      rcases v.stdin with _ | _ | ⟨c, path⟩
      · rfl
      · rfl
      · unfold Executable.feed
        dsimp only
        rw [Act.map_run, Act.map_run, Act.readFile_run, Act.readFile_run]
        rfl
    have hopened : x.opened v s.bare = x.opened v s := by
      unfold Executable.opened
      rw [hfed]
      rfl
    have hmarks : x.openingMarks v s.bare = x.openingMarks v s := by
      unfold Executable.openingMarks
      rw [hfed]
      rfl
    rw [Executable.run_eq, Executable.run_eq, hopened, hmarks]
    rcases x.opened v s with f | script <;> rfl
  | prover =>
    unfold Runner.run Prover.run
    dsimp only
    rw [Act.bind_of_ok (Act.get_run s), Act.bind_of_ok (Act.mark_run _ _),
      Act.bind_of_ok (Act.records_run _ _), Act.ofExcept_run, Session.mark_mark,
      Act.bind_of_ok (Act.get_run s.bare), Act.bind_of_ok (Act.mark_run _ _),
      Act.bind_of_ok (Act.records_run _ _), Act.ofExcept_run, Session.mark_mark]
    rfl
  | scripted label reply =>
    rw [Runner.run_scripted, Runner.run_scripted]
    rfl

namespace Act

variable {α β : Type}

/-- The action does not look at the validators: with others it does the same, and it leaves them as
they are. -/
def IsBlind (act : Act α) : Prop :=
  ∀ (s : Session) (validators : Keyed Text Runner) (settings : Settings),
    s.settings.SameScrambler settings →
    act (s.withPanel validators settings) =
      ((act s).1, (act s).2.withPanel validators settings)

theorem IsBlind.kept {act : Act α} (h : IsBlind act) (s : Session) :
    (act s).2.settings = s.settings ∧ (act s).2.toolbox.validators = s.toolbox.validators := by
  have hsame : s.withPanel s.toolbox.validators s.settings = s := rfl
  have hact := h s s.toolbox.validators s.settings ⟨rfl, rfl⟩
  rw [hsame] at hact
  have hend := congrArg Prod.snd hact
  constructor
  · rw [hend]
    rfl
  · rw [hend]
    rfl

theorem isBlind_pure (x : α) : IsBlind (pure x) := fun _ _ _ _ => rfl

theorem isBlind_ofExcept (r : Except Fault α) : IsBlind (ofExcept r) := by
  intro s validators settings _
  rw [ofExcept_run, ofExcept_run]

theorem isBlind_records (rs : List LogRecord) : IsBlind (records rs) := fun _ _ _ _ => rfl

theorem IsBlind.bind {act : Act α} {next : α → Act β} (h : IsBlind act)
    (hnext : ∀ x, IsBlind (next x)) : IsBlind (act >>= next) := by
  intro s validators settings hsame
  have hkept := (h.kept s).1
  rw [bind_run, bind_run, h s validators settings hsame]
  rcases hact : act s with ⟨f | x, t⟩
  · rfl
  · rw [hact] at hkept
    refine hnext x t validators settings ?_
    rw [hkept]
    exact hsame

theorem isBlind_writeFile (path text : Text) : IsBlind (writeFile path text) := by
  intro s validators settings _
  rcases hwrite : s.files.write s.here path (Text.Utf8.encode text) with problem | files
  · rw [writeFile_run_error hwrite]
    exact writeFile_run_error hwrite
  · rw [writeFile_run hwrite]
    exact writeFile_run hwrite

theorem isBlind_run (r : Runner) (v : Invocation) : IsBlind (r.run v) := by
  intro s validators settings _
  rw [r.run_eq_bare v s, r.run_eq_bare v (s.withPanel validators settings)]
  rfl

theorem isBlind_scrambler : IsBlind Reconstruction.scrambler := by
  intro s validators settings hsame
  have hfound : (s.withPanel validators settings).scramblerOf = s.scramblerOf := by
    unfold Session.scramblerOf Session.withPanel
    dsimp only
    rw [hsame.path, hsame.grace]
  rw [Reconstruction.scrambler_run, Reconstruction.scrambler_run, hfound]
  rcases s.scramblerOf with _ | runner <;> rfl

end Act

namespace Audit

open Act

/-- **What the scrambler rebuilds does not depend on the validators.** -/
theorem isBlind_reconstruct (a : Audit) (t : Transcript) (b : Benchmark) (workdir : Text) :
    IsBlind (a.reconstruct t b workdir) := by
  refine IsBlind.bind ?_ fun benchmark => ?_
  · unfold benchmarkFile
    cases b.path with
    | some path => exact isBlind_pure path
    | none => exact (isBlind_writeFile _ _).bind fun _ => isBlind_pure _
  · exact (isBlind_writeFile _ _).bind fun _ => isBlind_scrambler.bind fun runner =>
      (isBlind_run runner _).bind fun _ => (isBlind_records _).bind fun _ => isBlind_ofExcept _

/-- The reconstruction of an audit, in its scratch directory, comes to this core, or to none, and
leaves this session. -/
def Rebuilds (a : Audit) (t : Transcript) (b : Benchmark) (s : Session) (core? : Option UnsatCore)
    (u : Session) : Prop :=
  a.reconstruct t b (FileTree.pathOf s.scratch) (opened t b s) = (.ok core?, u)

variable {a : Audit} {t : Transcript} {b : Benchmark} {s u : Session} {core : UnsatCore} {f : Fault}

theorem Rebuilds.validators {core? : Option UnsatCore} (h : a.Rebuilds t b s core? u) :
    u.toolbox.validators = s.toolbox.validators := by
  have hkept := ((a.isBlind_reconstruct t b (FileTree.pathOf s.scratch)).kept (opened t b s)).2
  unfold Rebuilds at h
  rw [h] at hkept
  exact hkept

/-- With other validators, another table and another way to validate, a reconstruction comes to the
same. -/
theorem Rebuilds.withPanel {a' : Audit} {core? : Option UnsatCore}
    {validators : Keyed Text Runner} {settings : Settings}
    (h : a.Rebuilds t b s core? u) (hsame : a'.reconstruction = a.reconstruction)
    (hsettings : s.settings.SameScrambler settings) :
    a'.Rebuilds t b (s.withPanel validators settings) core? (u.withPanel validators settings) := by
  have hrebuilt := a.isBlind_reconstruct t b (FileTree.pathOf s.scratch) (opened t b s) validators
    settings hsettings
  unfold Rebuilds at h ⊢
  rw [h] at hrebuilt
  rw [← hrebuilt]
  unfold reconstruct
  rw [hsame]
  rfl

/-- **An answer that is not unsat ends every audit in the same way**, with nothing but records. -/
theorem exists_run_of_not_unsat (b : Benchmark) (hstatus : t.status ≠ .unsat) : ∃ o,
    ∀ (a : Audit) (schedule : List Pool.Move) (s : Session), a.run schedule t b s =
      (.ok o, s.mark ((b.records ++ [openingRecord t b]).map .record)) := by
  unfold run
  cases ht : t.status with
  | sat => exact ⟨⟨b.assertCount, .answeredSat⟩, fun a schedule s => rfl⟩
  | unknown => exact ⟨⟨b.assertCount, .answeredUnknown⟩, fun a schedule s => rfl⟩
  | unsat => exact absurd ht hstatus

/-- **Without a core an audit ends**, and nothing comes after the reconstruction. -/
theorem run_of_rebuilt_none (schedule : List Pool.Move) (hstatus : t.status = .unsat)
    (h : a.Rebuilds t b s none u) :
    a.run schedule t b s =
      (.ok ⟨b.assertCount, .unparsable⟩, (a.leave s.scratch u).2) := by
  unfold Rebuilds at h
  rw [run_eq_proceed hstatus, h]
  exact Act.ensuring_run (a.leave_eq_ok s.scratch u)

/-- **Without a resolved logic an audit ends**, and nothing but a record comes after the
reconstruction. -/
theorem run_of_unresolved (schedule : List Pool.Move) (hstatus : t.status = .unsat)
    (h : a.Rebuilds t b s (some core) u) (hunresolved : a.table.Unresolved b f) :
    a.run schedule t b s = (.error f, (a.leave s.scratch
      (u.mark ((UnsatCore.reductionRecords b.assertCount core.size).map .record))).2) := by
  unfold Rebuilds at h
  rw [run_eq_proceed hstatus, h]
  have hvote : a.proceed schedule b (FileTree.pathOf s.scratch) (.ok (some core)) u = (.error f, _) :=
    voteOn_of_unresolved hunresolved
  rw [Act.ensuring_run (a.leave_eq_ok s.scratch _), hvote]

/-- An audit ends in a fault of the logic iff a core was rebuilt and the logic cannot be resolved.
-/
theorem run_isOfLogic_iff (schedule : List Pool.Move)
    (hdocile : ∀ f, s.Raises (a.voters b) f → f.isOwn = false)
    (hrebuilt : t.status = .unsat → ∃ core? u, a.Rebuilds t b s core? u) :
    (∃ f, (a.run schedule t b s).1 = .error f ∧ f.isOfLogic = true) ↔
      t.status = .unsat ∧ ∃ core u f, a.Rebuilds t b s (some core) u ∧ a.table.Unresolved b f := by
  constructor
  · rintro ⟨f, hrun, hlogic⟩
    obtain ⟨hstatus, _⟩ := Cause.of_run hrun
    obtain ⟨core?, u, h⟩ := hrebuilt hstatus
    refine ⟨hstatus, ?_⟩
    cases core? with
    | none =>
      rw [run_of_rebuilt_none schedule hstatus h] at hrun
      cases hrun
    | some core =>
      refine ⟨core, u, f, h, ?_⟩
      have hkept := (steady_opened t b s).trans
        (a.isSteady_reconstruct t b (FileTree.pathOf s.scratch) (opened t b s))
      unfold Rebuilds at h
      rw [h] at hkept
      rw [run_eq_proceed hstatus, h, Act.ensuring_run (a.leave_eq_ok s.scratch _)] at hrun
      rcases of_voteOn_eq_error hrun with hunresolved | ⟨problem, path, rfl⟩ | hraises
      · exact hunresolved
      · cases hlogic
      · have hown := hdocile f ((hkept : s.Steady u).raises hraises)
        rw [Fault.isOwn_of_isOfLogic hlogic] at hown
        cases hown
  · rintro ⟨hstatus, core, u, f, h, hunresolved⟩
    refine ⟨f, ?_, hunresolved.isOfLogic⟩
    rw [run_of_unresolved schedule hstatus h hunresolved]

/-- A scrambler is missed only where one is needed and none is known or set. -/
theorem of_run_eq_noScrambler {schedule : List Pool.Move}
    (hdocile : ∀ f, s.Raises (a.voters b) f → f.isOwn = false)
    (h : (a.run schedule t b s).1 = .error .noScrambler) :
    t.status = .unsat ∧ s.scramblerOf = none := by
  obtain ⟨hstatus, hcause⟩ := Cause.of_run h
  refine ⟨hstatus, ?_⟩
  cases hcause with
  | noScrambler unknown => exact unknown
  | unreadable unread => rcases Reading.of_size?_eq_error unread with h | h <;> cases h
  | unresolved unlisted => cases unlisted.isOfLogic
  | raised raises => cases hdocile _ raises

/-- With a scrambler whose answer is given in advance, the reconstruction is what it says. -/
theorem exists_rebuilds {label : Text} {result : RunResult} {core? : Option UnsatCore} (a : Audit)
    (t : Transcript) (b : Benchmark) (hclosed : s.files.Closed)
    (hname : Path.IsName (s.files.freeName s.host.scratchStem))
    (hscrambler : s.scramblerOf = some (.scripted label fun _ => .ok result))
    (hread : (Reconstruction.reading result).1 = .ok core?) : ∃ u, a.Rebuilds t b s core? u := by
  unfold Rebuilds
  rw [a.reconstruct_eq t b hclosed hname, hscrambler]
  dsimp only
  rw [Runner.run_scripted, Reconstruction.readingOf, hread]
  exact ⟨_, rfl⟩

/-- Without a scrambler an unsat answer ends the audit. -/
theorem run_eq_noScrambler (a : Audit) (schedule : List Pool.Move) (b : Benchmark)
    (hstatus : t.status = .unsat) (hclosed : s.files.Closed)
    (hname : Path.IsName (s.files.freeName s.host.scratchStem)) (hnone : s.scramblerOf = none) :
    (a.run schedule t b s).1 = .error .noScrambler := by
  rw [run_eq_proceed hstatus, Act.ensuring_run (a.leave_eq_ok _ _),
    a.reconstruct_eq t b hclosed hname, hnone]
  rfl

/-- **Every stage of an audit is gated by the one before.**

An answer that is not unsat ends the audit in the same way whatever the audit and the session are,
and nothing but records is left. An unsat answer whose reconstruction gives no core ends it in the
same way with any other table, validators and settings of theirs, under which the reconstruction
comes to the same, and with any other benchmark of as many assertions whose reconstruction gives no
core either; nothing comes after the reconstruction, which gets to know no validator. Once the
reconstruction has returned, and if no tool raises such a fault itself, the audit ends in a fault of
the logic iff a core was rebuilt and the logic cannot be resolved, and then one record is all that
comes after the reconstruction. And a scrambler is missed only by an unsat answer without one. -/
theorem stages_gated :
    (∀ (t : Transcript) (b : Benchmark), t.status ≠ .unsat → ∃ o,
      ∀ (a : Audit) (schedule : List Pool.Move) (s : Session), a.run schedule t b s =
        (.ok o, s.mark ((b.records ++ [openingRecord t b]).map .record))) ∧
    (∀ (a : Audit) (schedule : List Pool.Move) (t : Transcript) (b : Benchmark) (s u : Session),
      t.status = .unsat → a.Rebuilds t b s none u →
      a.run schedule t b s = (.ok ⟨b.assertCount, .unparsable⟩, (a.leave s.scratch u).2) ∧
      u.toolbox.validators = s.toolbox.validators ∧
      (∀ (a' : Audit) (schedule' : List Pool.Move) (validators : Keyed Text Runner)
        (settings : Settings), a'.reconstruction = a.reconstruction →
        s.settings.SameScrambler settings →
        a'.run schedule' t b (s.withPanel validators settings) =
          (.ok ⟨b.assertCount, .unparsable⟩,
            (a'.leave s.scratch (u.withPanel validators settings)).2)) ∧
      ∀ (a' : Audit) (schedule' : List Pool.Move) (b' : Benchmark) (s' u' : Session),
        b'.assertCount = b.assertCount → a'.Rebuilds t b' s' none u' →
        (a'.run schedule' t b' s').1 = (a.run schedule t b s).1) ∧
    (∀ (a : Audit) (schedule : List Pool.Move) (t : Transcript) (b : Benchmark) (s : Session),
      (∀ f, s.Raises (a.voters b) f → f.isOwn = false) →
      (t.status = .unsat → ∃ core? u, a.Rebuilds t b s core? u) →
      ((∃ f, (a.run schedule t b s).1 = .error f ∧ f.isOfLogic = true) ↔
        t.status = .unsat ∧
          ∃ core u f, a.Rebuilds t b s (some core) u ∧ a.table.Unresolved b f) ∧
      ∀ core u f, t.status = .unsat → a.Rebuilds t b s (some core) u →
        a.table.Unresolved b f →
        u.toolbox.validators = s.toolbox.validators ∧
        (∀ (validators : Keyed Text Runner) (settings : Settings),
          s.settings.SameScrambler settings →
          a.Rebuilds t b (s.withPanel validators settings) (some core)
            (u.withPanel validators settings)) ∧
        a.run schedule t b s = (.error f, (a.leave s.scratch
          (u.mark ((UnsatCore.reductionRecords b.assertCount core.size).map .record))).2)) ∧
    (∀ (a : Audit) (schedule : List Pool.Move) (t : Transcript) (b : Benchmark) (s : Session),
      (∀ f, s.Raises (a.voters b) f → f.isOwn = false) →
      (a.run schedule t b s).1 = .error .noScrambler →
      t.status = .unsat ∧ s.scramblerOf = none) := by
  refine ⟨fun t b hstatus => ?_, fun a schedule t b s u hstatus h => ⟨?_, h.validators, ?_, ?_⟩,
    fun a schedule t b s hdocile hrebuilt => ⟨?_, ?_⟩,
    fun a schedule t b s hdocile h => of_run_eq_noScrambler hdocile h⟩
  · exact exists_run_of_not_unsat b hstatus
  · exact run_of_rebuilt_none schedule hstatus h
  · intro a' schedule' validators settings hsame hsettings
    exact run_of_rebuilt_none schedule' hstatus (h.withPanel hsame hsettings)
  · intro a' schedule' b' s' u' hcount h'
    rw [run_of_rebuilt_none schedule hstatus h, run_of_rebuilt_none schedule' hstatus h', hcount]
  · exact run_isOfLogic_iff schedule hdocile hrebuilt
  · intro core u f hstatus h hunresolved
    exact ⟨h.validators, fun _ _ hsettings => h.withPanel rfl hsettings,
      run_of_unresolved schedule hstatus h hunresolved⟩

/-- A scrambler that finds no core. -/
def refusal : RunResult := ⟨"ERROR\n".toList, 0.5, some 0, false⟩

/-- A benchmark that declares no logic. -/
def plainBenchmark : Benchmark := ⟨"(check-sat)\n".toList, none⟩

theorem unresolved_plainBenchmark :
    pairAudit.table.Unresolved plainBenchmark (.missingLogic "benchmark".toList) := by
  refine Or.inl ?_
  unfold Benchmark.logic Benchmark.facts
  rw [Script.commands_eq_scanner]
  rfl

theorem voters_plainBenchmark : pairAudit.voters plainBenchmark = [] := by
  rw [voters, LogicTable.panel_eq_error_iff.mpr unresolved_plainBenchmark]
  rfl

/-- Where no validator can be asked, only a scrambler raises faults. -/
theorem not_raises_plainBenchmark
    (h : ∀ runner v u, s.scramblerOf = some runner → (runner.run v u).1 ≠ .error f) :
    ¬ s.Raises (pairAudit.voters plainBenchmark) f := by
  rw [voters_plainBenchmark]
  rintro ⟨runner, hscrambler | ⟨_, hid, _⟩, v, u, _, hfails⟩
  · exact h runner v u hscrambler hfails
  · cases hid

/-- The four ways to end early: a sat answer; a scrambler that finds no core, with two validators
and with none; a benchmark without a logic; and no scrambler. -/
theorem stages_gated_pair :
    (∃ o, ∀ (a : Audit) (schedule : List Pool.Move) (s : Session),
      (a.run schedule ⟨["sat".toList]⟩ plainBenchmark s).1 = .ok o) ∧
    (pairAudit.run [] pairTranscript pairBenchmark (pairSession refusal [])).1 =
      .ok ⟨pairBenchmark.assertCount, .unparsable⟩ ∧
    (pairAudit.run [] pairTranscript pairBenchmark
      ((pairSession refusal []).withPanel [] .standard)).1 =
        .ok ⟨pairBenchmark.assertCount, .unparsable⟩ ∧
    (∃ f, (pairAudit.run [] pairTranscript plainBenchmark
      (pairSession (headerResult ['1']) [])).1 = .error f ∧ f.isOfLogic = true) ∧
    (pairAudit.run [] pairTranscript plainBenchmark (.fresh .empty .empty)).1 =
      .error .noScrambler ∧ (Session.fresh .empty .empty).scramblerOf = none := by
  obtain ⟨hone, htwo, hthree, hfour⟩ := stages_gated
  have hstatus : pairTranscript.status = .unsat := by decide
  have hname (result : RunResult) := isName_pairSession result []
  refine ⟨?_, ?_, ?_, ?_, ?_⟩
  · obtain ⟨o, ho⟩ := hone ⟨["sat".toList]⟩ plainBenchmark (by decide)
    exact ⟨o, fun a schedule s => by rw [ho a schedule s]⟩
  · obtain ⟨u, hrebuilt⟩ := exists_rebuilds pairAudit pairTranscript pairBenchmark closed_empty
      (hname refusal) rfl (by rfl)
    rw [(htwo pairAudit [] pairTranscript pairBenchmark _ u hstatus hrebuilt).1]
  · obtain ⟨u, hrebuilt⟩ := exists_rebuilds pairAudit pairTranscript pairBenchmark closed_empty
      (hname refusal) rfl (by rfl)
    rw [(htwo pairAudit [] pairTranscript pairBenchmark _ u hstatus hrebuilt).2.2.1 pairAudit []
      [] .standard rfl ⟨rfl, rfl⟩]
  · obtain ⟨u, hrebuilt⟩ := exists_rebuilds pairAudit pairTranscript plainBenchmark closed_empty
      (hname (headerResult ['1'])) rfl (by rfl)
    refine (hthree pairAudit [] pairTranscript plainBenchmark _ ?_ ?_).1.mpr
      ⟨hstatus, _, u, _, hrebuilt, unresolved_plainBenchmark⟩
    · refine fun f hraises => absurd hraises (not_raises_plainBenchmark fun runner v w hrunner => ?_)
      cases hrunner
      rw [Runner.run_scripted]
      exact fun h => nomatch h
    · exact fun _ => ⟨_, u, hrebuilt⟩
  · have hrun := run_eq_noScrambler pairAudit [] plainBenchmark hstatus closed_empty
      (hname refusal) (s := .fresh .empty .empty) rfl
    refine ⟨hrun, (hfour pairAudit [] pairTranscript plainBenchmark _ ?_ hrun).2⟩
    exact fun f hraises => absurd hraises (not_raises_plainBenchmark fun _ _ _ h => nomatch h)

end Audit

end CoreAudit
