import CoreAudit.Log
import CoreAudit.Process.Script
import CoreAudit.Run

/-!
# Supervision of a process

A process that outlives its budget is asked to end, and killed if it is still there after a grace
period. Whatever happens, its session is killed, it is reaped and its output is closed before the
supervision ends, also where a wait raises a fault.

Models `_signal_group`, `spawn` and `BinarySolverRunner.run`, on both kinds of platforms: those that
can signal a session and those that cannot (`sessions`).

* **`supervise`**: the result, the events and the records of a supervised process.
* `supervise_of_output`: output in time is a result that did not time out.
-/

namespace CoreAudit.Process

/-- The limits of a run, and the name under which it is spoken of. -/
structure Limits where
  name : Text
  budget : Option Budget
  /-- The time between the request to end and the kill, and between the kill and giving up. -/
  grace : Budget
  /-- Sessions can be signalled as a whole; otherwise only the process itself can be. -/
  sessions : Bool
  deriving Repr

/-- A process under way: what is left of its script, the seconds that passed, its exit code once
it is known, and the traces so far. -/
structure Running where
  script : ProcessScript
  elapsed : Float
  returnCode : Option Int
  events : List Event
  records : List LogRecord
  deriving Repr

namespace Running

/-- A process that was just started. -/
def start (script : ProcessScript) : Running := ⟨script, 0.0, none, [], []⟩

/-- Leaves a trace of an event. -/
def trace (r : Running) (e : Event) : Running := { r with events := r.events ++ [e] }

/-- Leaves a record. -/
def note (r : Running) (level : Level) (text : Text) : Running :=
  { r with records := r.records ++ [⟨level, .tools, text⟩] }

/-- Waits for the output. Complete output makes the exit code known. -/
def await (r : Running) (budget : Option Budget) : Reply × Running :=
  let r := r.trace (.await budget)
  match r.script.exchanges with
  | [] => (.output none, { r with returnCode := some r.script.exitCode })
  | x :: rest =>
    let r := { r with
      script := { r.script with exchanges := rest }
      elapsed := r.elapsed + x.duration }
    match x.reply with
    | .output bytes => (.output bytes, { r with returnCode := some r.script.exitCode })
    | reply => (reply, r)

/-- Looks whether the process has exited, unless that is known. Then its exit code is known. -/
def look (r : Running) : Running :=
  match r.returnCode, r.script.sightings with
  | none, exited :: rest =>
    { r with
      script := { r.script with sightings := rest }
      returnCode := if exited then some r.script.exitCode else none }
  | _, _ => r

/-- Sends a signal. One that cannot be delivered is recorded at most. -/
def send (r : Running) : Running :=
  match r.script.deliveries with
  | [] => r
  | d :: rest =>
    let r := { r with script := { r.script with deliveries := rest } }
    match d with
    | .refused text =>
      r.note .error ("Error interrupting process ".toList ++ Text.ofNat r.script.number
        ++ ": ".toList ++ text)
    | _ => r

/-- Signals the process alone. A process that has exited is not signalled: it is asked for its exit
code first, and looked at once more when the signal is sent. -/
def signalAlone (r : Running) (s : Signal) : Running :=
  let r := (r.trace .poll).look
  if r.returnCode.isSome then r
  else
    let r := (r.trace (.signalProcess s)).look
    if r.returnCode.isSome then r else r.send

/-- Signals the process: the whole session where that can be done, whether the process has exited or
not, else the process alone. -/
def signal (r : Running) (limits : Limits) (s : Signal) : Running :=
  if limits.sessions then (r.trace (.signalSession s)).send else r.signalAlone s

/-- Kills the session, reaps the process and closes its output. -/
def cleanup (r : Running) (limits : Limits) : Running :=
  ((r.signal limits .kill).trace .reap).trace .closeOutput

/-- The output, and whether it came after the budget. A process that has not finished its output
within the budget is asked to end, then killed, then given up. -/
def answer (r : Running) (limits : Limits) : Except Fault (Option Bytes × Bool) × Running :=
  match r.await limits.budget with
  | (.fault f, r) => (.error f, r)
  | (.output bytes, r) => (.ok (bytes, false), r)
  | (.silence, r) =>
    let r := (r.note .debug (limits.name ++ " exceeded ".toList ++ Budget.fullOrNone limits.budget
      ++ "s, terminating".toList)).signal limits .terminate
    match r.await (some limits.grace) with
    | (.fault f, r) => (.error f, r)
    | (.output bytes, r) => (.ok (bytes, true), r)
    | (.silence, r) =>
      let r := (r.note .debug (limits.name ++ " ignored SIGTERM, killing".toList)).signal
        limits .kill
      match r.await (some limits.grace) with
      | (.fault f, r) => (.error f, r)
      | (.output bytes, r) => (.ok (bytes, true), r)
      | (.silence, r) =>
        (.ok (none, true),
          r.note .error (limits.name ++ " left output open after being killed".toList))

end Running

/-- What came of a supervised process. -/
structure Supervised where
  result : Except Fault RunResult
  events : List Event
  records : List LogRecord

/-- Supervises a process from its start to its end. -/
def supervise (limits : Limits) (script : ProcessScript) : Supervised :=
  let (answer, r) := (Running.start script).answer limits
  let result := answer.map fun (bytes, late) =>
    (⟨Text.Utf8.decode (bytes.getD []), r.elapsed, r.returnCode, late⟩ : RunResult)
  let done := r.cleanup limits
  ⟨result, done.events, done.records⟩

/-- Output in time is a result that did not time out. -/
theorem supervise_of_output {limits : Limits} {script : ProcessScript} {x : Exchange}
    {rest : List Exchange} {bytes : Option Bytes} (hx : script.exchanges = x :: rest)
    (hr : x.reply = .output bytes) :
    (supervise limits script).result = .ok
      ⟨Text.Utf8.decode (bytes.getD []), 0.0 + x.duration, some script.exitCode, false⟩ := by
  simp only [supervise, Running.answer, Running.await, Running.trace, Running.start, hx, hr]
  rfl

end CoreAudit.Process
