import CoreAudit.Process.Supervision
import CoreAudit.Session

/-!
# Running a tool

A run through any runner leaves its traces in the session: the start of an executable and all that
is done to its process, the questions to the prover, or the call of a runner with answers given in
advance.

Models `SolverRunner.run`.

* **`Runner.run`**: the run of a runner.
* `run_scripted`: a runner with answers given in advance answers by them, and the call is recorded
  with what the files held.
-/

namespace CoreAudit

/-- What a call shows of the files. -/
def Invocation.call (v : Invocation) (s : Session) : Call :=
  let named := Named.ofTree s.files s.here
  { input := v.input.map named
    args := v.args.map named
    timeout := v.timeout
    stdin := v.stdin.map named
    workdir := v.workdir
    workdirExists := v.workdir.any fun dir =>
      match s.files.find s.here dir with
      | .ok (_, .directory) => true
      | _ => false }

namespace Executable

/-- The bytes that a tool is fed; an empty path feeds it nothing. -/
def feed : Option Text → Act (Option Bytes)
  | none => pure none
  | some [] => pure none
  | some path => some <$> Act.readFile path

/-- The process that a start leads to, or the fault of a start that is refused. -/
def launched : Launch → Except Fault ProcessScript
  | .started script => .ok script
  | .refused f => .error f

/-- The run of an executable under supervision. -/
def run (x : Executable) (v : Invocation) : Act RunResult := do
  let command := x.command v.args v.input
  Act.record .debug .tools ("Command: ".toList ++ Text.quotedList command)
  let stdin ← feed v.stdin
  let s ← get
  let start : Start :=
    ⟨command.map (Named.ofTree s.files s.here), v.workdir, stdin, s.host.sessions⟩
  Act.mark [.start start]
  let script ← Act.ofExcept (launched (s.host.launch start))
  let done := Process.supervise ⟨x.name, v.timeout, x.grace, s.host.sessions⟩ script
  Act.mark (done.events.map .event)
  Act.records done.records
  Act.ofExcept done.result

end Executable

/-- The prover in the process, asked about a formula. -/
def Prover.run (v : Invocation) : Act RunResult := do
  let asked := Prover.ask (← get).host.prover (v.input.getD []) v.timeout
  Act.mark (asked.events.map .event)
  Act.records asked.records
  Act.ofExcept asked.result

/-- The run of a runner. -/
def Runner.run (r : Runner) (v : Invocation) : Act RunResult :=
  match r with
  | .executable x => x.run v
  | .prover => Prover.run v
  | .scripted label reply => do
    let call := v.call (← get)
    Act.mark [.call label call]
    Act.ofExcept (reply call)

/-- A runner with answers given in advance answers by them, and the call is recorded with what the
files held. -/
theorem Runner.run_scripted (label : Text) (reply : Call → Except Fault RunResult)
    (v : Invocation) (s : Session) :
    (Runner.scripted label reply).run v s =
      (reply (v.call s), s.mark [.call label (v.call s)]) := by
  simp only [Runner.run, Act.bind_run, Act.get_run, Act.mark_run, Act.ofExcept_run]

end CoreAudit
