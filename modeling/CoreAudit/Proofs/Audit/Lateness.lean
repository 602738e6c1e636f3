import CoreAudit.Proofs.Validation.Runs
import CoreAudit.Reconstruction

/-!
# Output after the budget

A process that is silent until its budget is over is signalled, and whatever it prints before or
after that counts for nothing: as a validator it has an unknown vote, as the scrambler it gives no
core. A process that cannot be started, or waited for, costs its validator the vote and disturbs no
other. So a decisive vote is read off output that was complete within the budget (`Punctual`).

Headlines:
* **`punctual_ballot`**: what a vote tells about the process behind it.
* **`rebuild_of_silence`**: a scrambler that is late gives no core.
* **`late_output_never_counts`**: both, for whole validations under every schedule.
-/

namespace CoreAudit

namespace Process

/-- What becomes of a start under the limits of a run. -/
def outcome (limits : Limits) : Launch → Except Fault RunResult
  | .started script => (supervise limits script).result
  | .refused f => .error f

/-- A start is refused, or the last wait for the process that was started raises a fault. -/
inductive Fails : Launch → Fault → Prop
  | start (f : Fault) : Fails (.refused f) f
  | wait {script : ProcessScript} {last : Nat} {f : Fault} (h : Lasts script last)
      (hreply : script.reply last = .fault f) : Fails (.started script) f

variable {limits : Limits} {launch : Launch}

theorem outcome_eq_error_iff {f : Fault} : outcome limits launch = .error f ↔ Fails launch f := by
  constructor
  · intro h
    cases launch with
    | refused g =>
      cases h
      exact .start f
    | started script =>
      obtain ⟨last, L⟩ := exists_lasts script
      exact .wait L ((result_eq_error_iff limits L f).mp h)
  · rintro (_ | ⟨L, hreply⟩)
    · rfl
    · exact (result_eq_error_iff limits L f).mpr hreply

end Process

/-- The run of an executable that is fed nothing comes to what becomes of its start. -/
theorem Executable.run_unfed (x : Executable) {v : Invocation} (hstdin : v.stdin = none)
    (s : Session) :
    (x.run v s).1 = Process.outcome (x.limits v s) (s.host.launch (x.startOf v none s)) := by
  have hopened : x.opened v s = launched (s.host.launch (x.startOf v none s)) := by
    unfold opened
    rw [hstdin]
    rfl
  rw [run_eq, hopened]
  cases s.host.launch (x.startOf v none s) <;> rfl

/-! ## Validators -/

namespace Validation

open Process

/-- What a vote tells about the process behind it. -/
structure Punctual (limits : Limits) (launch : Launch) (id : Text) (vote : Vote) : Prop where
  /-- A process that is silent until its budget is over has no say, whatever it prints. -/
  late : ∀ script result, launch = .started script → script.reply 0 = .silence →
    outcome limits launch = .ok result → vote = ⟨id, .unknown, result.elapsed⟩
  failed : ∀ f, Fails launch f → vote = ⟨id, .unknown, 0.0⟩
  /-- A decisive vote is read off output that was complete within the budget. -/
  decisive : vote.verdict ≠ .unknown → ∃ script bytes result,
    launch = .started script ∧ script.reply 0 = .output bytes ∧
      outcome limits launch = .ok result ∧ result.stdout = Text.Utf8.decode (bytes.getD []) ∧
      vote.verdict = Verdict.classify result.firstLine

/-- **A ballot is punctual.** -/
theorem punctual_ballot (limits : Limits) (launch : Launch) (id : Text) :
    Punctual limits launch id (ballot id (outcome limits launch)) where
  late := by
    rintro script result rfl hsilence hresult
    rw [hresult, ballot, verdictOf_of_timedOut (timedOut_of_silence hsilence hresult)]
  failed := by
    intro f hfails
    rw [outcome_eq_error_iff.mpr hfails]
    rfl
  decisive := by
    intro hdecisive
    rcases hresult : outcome limits launch with f | result
    · rw [hresult] at hdecisive
      exact absurd rfl hdecisive
    · rw [hresult] at hdecisive
      have hintime : result.timedOut = false := by
        rw [← Bool.not_eq_true]
        exact fun hlate => hdecisive (verdictOf_of_timedOut hlate)
      cases launch with
      | refused g => cases hresult
      | started script =>
        obtain ⟨bytes, hreply, hstdout⟩ := output_of_inTime hresult hintime
        refine ⟨script, bytes, result, rfl, hreply, rfl, hstdout, ?_⟩
        show verdictOf result = _
        rw [verdictOf, hintime, if_neg Bool.false_ne_true]

/-- Behind the validator at a place there is an executable, and the host makes of its start what
`launch` says, whichever validators ran before it. -/
structure Staffed (v : Validation) (formula workdir : Text) (ids : List Text) (s : Session) (i : Nat)
    (id : Text) (x : Executable) (launch : Launch) : Prop where
  runner : s.runnerOf id = .executable x
  launch : ∀ u, Midway workdir ids s u →
    s.host.launch (x.startOf (request v.timeout formula workdir i id).2 none u) = launch

/-- The run of a validator's executable comes to what becomes of its start. -/
theorem Staffed.run {v : Validation} {formula workdir : Text} {ids : List Text} {s u : Session}
    {i : Nat} {id : Text} {x : Executable} {launch : Launch}
    (S : Staffed v formula workdir ids s i id x launch) (M : Midway workdir ids s u) :
    ((s.runnerOf id).run (request v.timeout formula workdir i id).2 u).1 =
      outcome (x.limits (request v.timeout formula workdir i id).2 s) launch := by
  have hlimits : x.limits (request v.timeout formula workdir i id).2 u =
      x.limits (request v.timeout formula workdir i id).2 s := by
    unfold Executable.limits
    rw [M.host]
  rw [S.runner, ← S.launch u M, ← M.host, ← hlimits]
  exact x.run_unfed rfl u

end Validation

/-! ## The scrambler -/

namespace Reconstruction

/-- What the scrambler is asked. -/
def request (r : Reconstruction) (benchmark workdir : Text) : Invocation :=
  ⟨none, r.arguments (Path.join workdir coreName), some r.timeout, some benchmark, some workdir⟩

variable {r : Reconstruction} {benchmark workdir : Text} {transcript : Transcript}
  {before written known : Session}

/-- A run of the scrambler that is late gives no core. -/
theorem rebuild_of_timedOut {runner : Runner} {result : RunResult}
    (hwrite : Act.writeFile (Path.join workdir coreName) transcript.text before =
      (.ok (), written))
    (hscrambler : scrambler written = (.ok runner, known))
    (hrun : (runner.run (r.request benchmark workdir) known).1 = .ok result)
    (hlate : result.timedOut = true) :
    (r.rebuild benchmark transcript workdir before).1 = .ok none := by
  unfold request at hrun
  unfold rebuild rebuildFrom
  rw [Act.bind_of_ok hwrite, Act.bind_of_ok hscrambler, Act.bind_of_ok (Prod.ext hrun rfl)]
  dsimp only
  rw [Act.bind_of_ok (Act.records_run _ _), Act.ofExcept_run]
  exact reading_of_timedOut hlate

/-- **A scrambler that is silent until its budget is over gives no core**, whatever it prints. -/
theorem rebuild_of_silence {x : Executable} {script : ProcessScript} {result : RunResult}
    (hwrite : Act.writeFile (Path.join workdir coreName) transcript.text before =
      (.ok (), written))
    (hscrambler : scrambler written = (.ok (.executable x), known))
    (hopened : x.opened (r.request benchmark workdir) known = .ok script)
    (hsilence : script.reply 0 = .silence)
    (hrun : (x.run (r.request benchmark workdir) known).1 = .ok result) :
    (r.rebuild benchmark transcript workdir before).1 = .ok none := by
  refine rebuild_of_timedOut hwrite hscrambler hrun ?_
  rw [Executable.run_eq, hopened] at hrun
  exact Process.timedOut_of_silence hsilence hrun

end Reconstruction

/-! ## Whole validations -/

namespace Validation

open Process

/-- **Output after the budget never counts.** The votes of a validation are the ballots of its runs,
however many validators run at a time and under every schedule, and the vote of a validator with an
executable behind it is punctual. Where the directories can be made, only a run's fault that is not
one of input and output ends the validation. A scrambler that is late gives no core. -/
theorem late_output_never_counts (v : Validation) (schedule : List Pool.Move)
    (formula workdir : Text) (ids : List Text) (s : Session)
    (result : Nat → Text → Except Fault RunResult) (P : Plays v formula workdir ids s result) :
    (∀ votes, (v.validate schedule formula workdir ids s).1 = .ok votes →
      votes = (runs ids result).map ToolRun.ballot ∧
        ∀ i id x launch, ids[i]? = some id → Staffed v formula workdir ids s i id x launch →
          ∃ vote, votes[i]? = some vote ∧
            Punctual (x.limits (request v.timeout formula workdir i id).2 s) launch id vote) ∧
    (s.files.Makeable s.here (directories workdir ids) → ∀ f,
      (v.validate schedule formula workdir ids s).1 = .error f →
        ∃ i id, ids[i]? = some id ∧ result i id = .error f ∧ f.isInputOutput = false) ∧
    ∀ (r : Reconstruction) (benchmark scratch : Text) (transcript : Transcript) (y : Executable)
      (before written known : Session) (script : ProcessScript) (printed : RunResult),
      Act.writeFile (Path.join scratch Reconstruction.coreName) transcript.text before =
        (.ok (), written) →
      Reconstruction.scrambler written = (.ok (.executable y), known) →
      y.opened (r.request benchmark scratch) known = .ok script → script.reply 0 = .silence →
      (y.run (r.request benchmark scratch) known).1 = .ok printed →
      (r.rebuild benchmark transcript scratch before).1 = .ok none := by
  refine ⟨fun votes hvotes => ?_, fun hmake f hf => of_validate_eq_error P hmake hf, ?_⟩
  · obtain rfl := validate_eq_ballots P hvotes
    refine ⟨rfl, fun i id x launch hid S => ⟨_, ?_, punctual_ballot _ launch id⟩⟩
    have M := Midway.refl workdir ids s
    rw [runs, List.getElem?_map, List.getElem?_mapIdx, hid, ← S.run M, P i id hid s M]
    rfl
  · intro r benchmark scratch transcript y before written known script printed
    exact Reconstruction.rebuild_of_silence

/-! ## A late scrambler and three validators -/

/-- A process that is silent for two seconds and prints an answer when it is asked to end. -/
def lateProcess : ProcessScript :=
  ⟨7, [⟨2.0, .silence⟩, ⟨0.5, .output (some (Text.Utf8.encode "unsat\n".toList))⟩], [], 0, []⟩

/-- What the prompt validator prints. -/
def promptOutput : Bytes := Text.Utf8.encode "sat\n".toList

theorem decode_promptOutput : Text.Utf8.decode promptOutput = "sat\n".toList := by decide +kernel

/-- A process that prints an answer at once. -/
def promptProcess : ProcessScript := ⟨8, [⟨0.5, .output (some promptOutput)⟩], [], 0, []⟩

/-- Three validators. -/
def lateTrio : List Text := [Tool.z3.name, Tool.cvc5.name, Tool.mathsat.name]

/-- The first validator is late, the second cannot be started, and the third is prompt. -/
def trioLaunch : Nat → Launch
  | 0 => .started lateProcess
  | 1 => .refused (.raised .permission [])
  | _ => .started promptProcess

/-- The executable under a name. -/
def plainTool (id : Text) : Executable := ⟨id, [], .seconds 1.0, id⟩

/-- A host that knows processes by the directories they run in; every other process is late. -/
def trioHost : Host where
  launch start :=
    (((lateTrio.mapIdx fun i id => (directory ['w'] i id, trioLaunch i)).lookup
      (start.workdir.getD [])).getD (.started lateProcess))
  sessions := true
  prover := ⟨0.0, none, 0.0, none, .unknown⟩
  scratchStem := "audit".toList

/-- A session with a benchmark, a directory, the three validators and a scrambler. -/
def lateSession : Session :=
  { Session.fresh ⟨[([['b']], .file [] false), ([['w']], .directory)]⟩
      ⟨some (.executable (plainTool Tool.scrambler.name)),
        lateTrio.map fun id => (id, .executable (plainTool id))⟩ with
    host := trioHost }

theorem staffed_late (v : Validation) (formula : Text) {i : Nat} {id : Text}
    (hid : lateTrio[i]? = some id) :
    Staffed v formula ['w'] lateTrio lateSession i id (plainTool id) (trioLaunch i) := by
  rcases i with _ | _ | _ | i
  · cases hid
    exact ⟨rfl, fun _ _ => rfl⟩
  · cases hid
    exact ⟨rfl, fun _ _ => rfl⟩
  · cases hid
    exact ⟨rfl, fun _ _ => rfl⟩
  · cases hid

theorem makeable_late :
    lateSession.files.Makeable lateSession.here (directories ['w'] lateTrio) := by
  have L : lateSession.files.Leads lateSession.here ['w'] [['w']] :=
    ⟨by decide, by decide, by decide, by rfl, by rfl⟩
  refine makeable_directories L (by decide) (by decide) fun name hname => Or.inl ?_
  revert name
  decide

/-- Only the prompt validator has a say, and the late scrambler gives no core. -/
theorem late_trio_never_counts :
    (∃ votes, ((Validation.mk (.seconds 2.0) 2).validate [.start 2, .start 0] "f".toList ['w']
        lateTrio lateSession).1 = .ok votes ∧
      votes.map Vote.verdict = [.unknown, .unknown, .sat]) ∧
    ((Reconstruction.mk 0 (.seconds 2.0)).rebuild ['b'] ⟨[]⟩ ['w'] lateSession).1 = .ok none := by
  have P : Plays ⟨.seconds 2.0, 2⟩ "f".toList ['w'] lateTrio lateSession fun i id =>
      outcome ⟨id, some (.seconds 2.0), .seconds 1.0, true⟩ (trioLaunch i) :=
    fun i id hid u M => (staffed_late _ _ hid).run M
  obtain ⟨hvotes, hfaults, hscrambler⟩ := late_output_never_counts (Validation.mk (.seconds 2.0) 2)
    [.start 2, .start 0] "f".toList ['w'] lateTrio lateSession _ P
  constructor
  · rcases hresult : ((Validation.mk (.seconds 2.0) 2).validate [.start 2, .start 0] "f".toList ['w']
        lateTrio lateSession).1 with f | votes
    · obtain ⟨i, id, _, hfault, hclass⟩ := hfaults makeable_late f hresult
      rcases i with _ | _ | i <;> cases hfault
      cases hclass
    · refine ⟨votes, rfl, ?_⟩
      have hprompt := @supervise_of_output
        ⟨Tool.mathsat.name, some (.seconds 2.0), .seconds 1.0, true⟩ promptProcess _ _ _ rfl rfl
      rw [Option.getD_some, decode_promptOutput] at hprompt
      rw [(hvotes votes hresult).1]
      change [.unknown, .unknown,
        (ballot Tool.mathsat.name (supervise _ promptProcess).result).verdict] = _
      rw [hprompt]
      rfl
  · exact hscrambler _ _ _ _ (plainTool Tool.scrambler.name) _ _ _ lateProcess _ rfl rfl rfl rfl rfl

end Validation

end CoreAudit
