import CoreAudit.Prover
import CoreAudit.Run
import CoreAudit.Settings

/-!
# Runners

Every tool is reached through a runner: an executable, the prover in the process, or a runner
whose answers are given in advance, which stands in for a tool.

Models `BinarySolverRunner.command` and `default_runner`.

* **`Executable.command`**: the command line of a run.
* **`Runner.ofSettings`**: the runner of a validator, with the record that choosing it leaves.
-/

namespace CoreAudit

/-- An executable with the arguments that it is always given, the time it has to end when asked
to, and the name under which it is spoken of. -/
structure Executable where
  path : Text
  baseArgs : List Text
  grace : Budget
  name : Text
  deriving Repr

namespace Executable

/-- An executable that is spoken of by a name, or by its file's name where that is empty. -/
def named (path : Text) (baseArgs : List Text) (grace : Budget) (name : Text) : Executable :=
  ⟨path, baseArgs, grace, if name.isEmpty then Path.baseName path else name⟩

/-- The command line of a run; the input is its last word. -/
def command (x : Executable) (args : List Text) (input : Option Text) : List Text :=
  (x.path :: x.baseArgs ++ args) ++ input.toList

/-- The executable in one line. -/
def describe (x : Executable) : Text :=
  "BinarySolverRunner(".toList ++ x.path.quoted ++ ", base_args=".toList
    ++ Text.quotedList x.baseArgs ++ [')']

end Executable

/-- A runner. -/
inductive Runner where
  | executable (x : Executable)
  | prover
  /-- The answers are a function of the call, which is recorded under a label. -/
  | scripted (label : Text) (reply : Call → Except Fault RunResult)

namespace Runner

/-- The name of a runner. -/
def name : Runner → Text
  | executable x => x.name
  | prover => Prover.name
  | scripted label _ => label

/-- The runner of a validator, with the record that choosing it leaves. A validator that is not
there is run all the same, by its name alone, unless the prover in the process can stand in. -/
def ofSettings (s : Settings) (id : Text) : Runner × List LogRecord :=
  let entry := s.validatorConfig.get? id
  let args := (entry.map Settings.ValidatorEntry.args).getD []
  match (entry.filter Settings.ValidatorEntry.available).bind Settings.ValidatorEntry.path with
  | some path => (.executable (.named path args s.killAfter id), [])
  | none =>
    if id = Tool.z3.name then
      (.prover, [⟨.info, .validation,
        "z3 binary not found, validating through the z3 Python API".toList⟩])
    else
      (.executable (.named id args s.killAfter id), [⟨.warning, .validation,
        "Validator ".toList ++ id ++ " not found, its votes will be unknown".toList⟩])

end Runner

end CoreAudit
