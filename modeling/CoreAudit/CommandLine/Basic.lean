import CoreAudit.Audit.Basic
import CoreAudit.CommandLine.Arguments
import CoreAudit.CommandLine.Help
import CoreAudit.LogicTable.BuiltIn

/-!
# The command line

The command line audits one pair of files and writes the report to the standard output or to a
file. What can go wrong under the program's own rules is reported in one line and ends it with
exit code one; anything else goes on to the caller.

Models `_configure_tools`, `build_pipeline` and `main`. Out of scope: audits by a validator with half
of a pair in its name, which a policy table can ask for (`PolicyTable.texts`).

Headlines:
* **`CommandLine.main`**: how a command line ends.
* **`Ending.exitCode?`**: the exit code of an ending.
* **`output_eq_nil_of_ne_zero`**: a run that does not end well prints nothing but messages.
-/

namespace CoreAudit.CommandLine

/-- How a command line ends. -/
inductive Ending where
  /-- The help text was asked for. -/
  | help (text : Text)
  /-- The command line cannot be read. -/
  | misused (c : Complaint)
  /-- One of the two files is not there, or a fault is reported; the records are shown from the
  level on. -/
  | reported (level : Level) (text : Text)
  /-- The report goes to the standard output, unless it went to a file. -/
  | finished (level : Level) (report : Option Text)
  /-- A fault goes on to the caller; the records up to it are shown, if a level is known. -/
  | escaped (level : Option Level) (f : Fault)
  deriving Repr

namespace Ending

/-- The exit code; a fault that goes on has none. -/
def exitCode? : Ending → Option Nat
  | help _ => some 0
  | misused _ => some 2
  | reported _ _ => some 1
  | finished _ _ => some 0
  | escaped _ _ => none

/-- What is written to the standard output. -/
def output : Ending → Text
  | help text => text
  | finished _ (some report) => report
  | _ => []

/-- The level from which on records are shown. -/
def level? : Ending → Option Level
  | reported level _ => some level
  | finished level _ => some level
  | escaped level _ => level
  | _ => none

/-- The line that an ending leaves behind the records. -/
def remark : Ending → Text
  | misused c => "corecheck: error: ".toList ++ c.message ++ ['\n']
  | reported _ text => "Error: ".toList ++ text ++ ['\n']
  | _ => []

/-- A record as it is shown. -/
def shownRecord (r : LogRecord) : Text :=
  r.channel.name ++ " - ".toList ++ r.level.name ++ " - ".toList ++ r.text

/-- The records that are shown. -/
def shownRecords (e : Ending) (records : List LogRecord) : List LogRecord :=
  match e.level? with
  | some level => records.filter fun r => decide (level.rank ≤ r.level.rank)
  | none => []

/-- What is written to the standard error stream. -/
def messages (e : Ending) (records : List LogRecord) : Text :=
  Text.unlines ((e.shownRecords records).map shownRecord) ++ e.remark

/-- A run that does not end well prints nothing but messages. -/
theorem output_eq_nil_of_ne_zero {e : Ending} (h : e.exitCode? ≠ some 0) : e.output = [] := by
  cases e with
  | help => exact absurd rfl h
  | finished => exact absurd rfl h
  | misused | reported | escaped => rfl

end Ending

/-- A text that says something: no text and the empty text do not. -/
def given : Option Text → Option Text
  | some [] => none
  | t => t

/-- Gives a tool a path. -/
def setTool (name path : Text) : Act Unit := do
  let s ← get
  let settings ← Act.ofExcept (s.settings.setPath s.files s.here name path)
  set { s with settings }

/-- Gives the tool of a `NAME=PATH` entry its path. -/
def setSolver : Option Text → Act Unit
  | none => throw (.blank .solverPath)
  | some entry =>
    match entry.cut '=' with
    | (name, some path) => setTool name path
    | (_, none) => throw (.notAssignment entry)

/-- Changes the settings as the arguments ask. -/
def configure (a : Arguments) : Act Unit := do
  match given a.scrambler with
  | some path => setTool Tool.scrambler.name path
  | none => pure ()
  a.solverPaths.forM setSolver
  modify fun s => { s with settings :=
    { s.settings with
      killAfter := a.killAfter.getD s.settings.killAfter
      validationTimeout := a.timeout.getD s.settings.validationTimeout } }

/-- The policy table that the arguments ask for. -/
def table (a : Arguments) : Act LogicTable :=
  match given a.logicTable with
  | some path => do
    let table ← Act.ofExcept (PolicyTable.ofBytes (← Act.readFile path))
    pure table.texts
  | none => pure LogicTable.builtIn

/-- The number of jobs that the arguments ask for. -/
def jobs (a : Arguments) : Except Fault Nat :=
  match a.jobs with
  | some n => .ok (Pool.workersFor n)
  | none => .error (.blank .jobs)

/-- The audit that the arguments ask for. -/
def auditOf (a : Arguments) : Act Audit := do
  let table ← table a
  let jobs ← Act.ofExcept (jobs a)
  let settings := (← get).settings
  pure
    { reconstruction :=
        ⟨settings.scramblerSeed, a.scramblerTimeout.getD settings.scramblerTimeout⟩
      validation := ⟨settings.validationTimeout, jobs⟩
      table
      keepsScratch := a.keepScratch }

/-- The report that the arguments ask for. -/
def report (schedule : List Pool.Move) (a : Arguments) (transcript benchmark : Text) :
    Act Report := do
  configure a
  let audit ← auditOf a
  Outcome.report <$> audit.runFiles schedule transcript benchmark

/-- The first of the paths that leads nowhere. A name that is too long is a fault, and so is a
file that is left blank. -/
def firstMissing : List (Option Text) → Act (Option Text)
  | [] => pure none
  | none :: _ => throw (.blank .file)
  | some path :: rest => do
    let s ← get
    match s.files.resolve s.here path with
    | .ok _ => firstMissing rest
    | .error .tooLong => throw (.file .tooLong (some path))
    | .error _ => pure (some path)

/-- The name of the file at a place. -/
def Arguments.file (a : Arguments) (place : Nat) : Text := (a.files[place]?.join).getD []

/-- How a fault ends the command line while the report is made. -/
def faultEnding (level : Level) (f : Fault) : Ending :=
  if f.isReported then .reported level f.message else .escaped (some level) f

/-- Writes a report to where it should go. -/
def deliver (a : Arguments) (level : Level) (r : Report) : Act Ending :=
  match given a.output with
  | some path => do
    Act.writeFile path r.text
    pure (.finished level none)
  | none => pure (.finished level (some r.text))

/-- The audit of the files that the arguments name, with records shown from the level on. -/
def audit (schedule : List Pool.Move) (a : Arguments) (level : Level) : Act Ending := do
  match ← firstMissing a.files with
  | some path => pure (.reported level ("File not found: ".toList ++ path))
  | none =>
    match ← Act.attempt (report schedule a (a.file 0) (a.file 1)) with
    | .error f => pure (faultEnding level f)
    | .ok r => deliver a level r

/-- The level from which on records are shown unless the command line says otherwise. -/
def standardLevel (debugs : Bool) : Level := if debugs then .debug else .warning

/-- How a command line ends. Where `debugs` is set all records are shown unless the command line
says otherwise; validators that run side by side do so under the schedule. -/
def main (debugs : Bool) (schedule : List Pool.Move) (argv : List Text) (s : Session) :
    Ending × Session :=
  match Request.ofWords (standardLevel debugs) argv with
  | .error c => (.misused c, s)
  | .ok .help => (.help (Help.text s.settings), s)
  | .ok (.audit a) =>
    match a.logLevel with
    | none => (.escaped none (.blank .level), s)
    | some level =>
      match audit schedule a level s with
      | (.ok ending, s) => (ending, s)
      | (.error f, s) => (.escaped (some level) f, s)

end CoreAudit.CommandLine
