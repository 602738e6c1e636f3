import CoreAudit.Proofs.Action
import CoreAudit.Proofs.Process.Rounds

/-!
# Runs of executables

A run of an executable is the attempt to start it (`Executable.opened`) and, where that leads to a
process, its supervision. A run leaves marks in the session and changes nothing else of it.

Headlines:
* `run_eq`: a run by what the attempt to start leads to.
* **`run_escalates`**: a process that was started is escalated against, killed and reaped, however
  its run ends; where none is started, nothing is done.
-/

namespace CoreAudit

namespace Session

theorem events_mark (s : Session) (marks : List Mark) :
    (s.mark marks).events = s.events ++ marks.filterMap Mark.event? := List.filterMap_append

theorem mark_mark (s : Session) (marks more : List Mark) :
    (s.mark marks).mark more = s.mark (marks ++ more) := by
  unfold mark
  rw [List.append_assoc]

end Session

namespace Mark

theorem filterMap_event?_events (es : List Event) : (es.map event).filterMap event? = es := by
  rw [List.filterMap_map]
  exact List.filterMap_some

end Mark

namespace Executable

/-- The bytes that a tool is fed, or the fault of a file that cannot be read. -/
def fed (stdin : Option Text) (s : Session) : Except Fault (Option Bytes) := (feed stdin s).1

theorem feed_mark (stdin : Option Text) (s : Session) (marks : List Mark) :
    feed stdin (s.mark marks) = (fed stdin s, s.mark marks) := by
  rcases stdin with _ | _ | ⟨c, path⟩
  · rfl
  · rfl
  · have hread : ∀ t : Session, feed (some (c :: path)) t =
        (((t.files.read t.here (c :: path)).mapError (Fault.file · (some (c :: path)))).map some,
          t) := by
      intro t
      unfold feed Act.readFile
      dsimp only
      rw [← bind_pure_comp, bind_assoc, Act.bind_of_ok (Act.get_run t)]
      rcases t.files.read t.here (c :: path) with problem | bytes <;> rfl
    unfold fed
    rw [hread, hread]
    rfl

/-- The start that is asked for. -/
def startOf (x : Executable) (v : Invocation) (stdin : Option Bytes) (s : Session) : Start :=
  ⟨(x.command v.args v.input).map (Named.ofTree s.files s.here), v.workdir, stdin, s.host.sessions⟩

/-- What the attempt to start leads to: a process, or the fault of a file that the tool cannot be
fed or of a start that is refused. -/
def opened (x : Executable) (v : Invocation) (s : Session) : Except Fault ProcessScript :=
  match fed v.stdin s with
  | .error f => .error f
  | .ok stdin => launched (s.host.launch (x.startOf v stdin s))

/-- The marks of the attempt to start. -/
def openingMarks (x : Executable) (v : Invocation) (s : Session) : List Mark :=
  .record ⟨.debug, .tools, "Command: ".toList ++ Text.quotedList (x.command v.args v.input)⟩ ::
    match fed v.stdin s with
    | .error _ => []
    | .ok stdin => [.start (x.startOf v stdin s)]

/-- The limits of a run. -/
def limits (x : Executable) (v : Invocation) (s : Session) : Process.Limits :=
  ⟨x.name, v.timeout, x.grace, s.host.sessions⟩

variable (x : Executable) (v : Invocation) (s : Session)

theorem filterMap_event?_openingMarks : (x.openingMarks v s).filterMap Mark.event? = [] := by
  unfold openingMarks
  split <;> rfl

/-- A run by what the attempt to start leads to. -/
theorem run_eq : x.run v s =
    match x.opened v s with
    | .error f => (.error f, s.mark (x.openingMarks v s))
    | .ok script =>
      let done := Process.supervise (x.limits v s) script
      (done.result, s.mark
        (x.openingMarks v s ++ done.events.map .event ++ done.records.map .record)) := by
  unfold run opened openingMarks Act.record
  rw [Act.bind_of_ok (Act.records_run _ s), List.map_singleton, Act.bind_run, feed_mark]
  rcases fed v.stdin s with f | stdin
  · rfl
  dsimp only
  rw [Act.bind_of_ok (Act.get_run _), Act.bind_of_ok (Act.mark_run _ _), Session.mark_mark]
  -- The mark of the command changes neither the files nor the host.
  change (do
    let script ← Act.ofExcept (launched (s.host.launch (x.startOf v stdin s)))
    Act.mark ((Process.supervise (x.limits v s) script).events.map .event)
    Act.records (Process.supervise (x.limits v s) script).records
    Act.ofExcept (Process.supervise (x.limits v s) script).result : Act RunResult)
      (s.mark [_, .start (x.startOf v stdin s)]) = _
  rw [Act.bind_run, Act.ofExcept_run]
  rcases launched (s.host.launch (x.startOf v stdin s)) with f | script
  · rfl
  · dsimp only
    rw [Act.bind_of_ok (Act.mark_run _ _), Act.bind_of_ok (Act.records_run _ _), Act.ofExcept_run,
      Session.mark_mark, Session.mark_mark, List.append_assoc]

/-- **A process that is started is escalated against, killed and reaped, however its run ends.**
Where none is started the run ends in the fault of the attempt, and nothing is done. -/
theorem run_escalates (hsessions : s.host.sessions = true) :
    (∀ f, x.opened v s = .error f →
      (x.run v s).1 = .error f ∧ (x.run v s).2.events = s.events) ∧
    ∀ script, x.opened v s = .ok script →
      ∃ events, (x.run v s).2.events = s.events ++ events ∧
        Process.Escalated (x.limits v s) script events (x.run v s).1 := by
  rw [run_eq]
  refine ⟨fun f h => ?_, fun script h => ?_⟩
  · rw [h]
    refine ⟨rfl, ?_⟩
    rw [Session.events_mark, filterMap_event?_openingMarks, List.append_nil]
  · rw [h]
    refine ⟨_, ?_, Process.supervise_escalated (x.limits v s) script hsessions⟩
    rw [Session.events_mark, List.filterMap_append, List.filterMap_append,
      filterMap_event?_openingMarks, Mark.filterMap_event?_events,
      Mark.filterMap_records (fun _ => rfl), List.append_nil, List.nil_append]

/-- A process that is silent twice, whose session is gone when it is asked to end and must not be
signalled after that, and whose last wait raises a fault. -/
def stubborn : ProcessScript :=
  ⟨7, [⟨2.0, .silence⟩, ⟨1.0, .silence⟩, ⟨0.5, .fault (.raised .interrupted [])⟩],
    [.gone, .refused "Operation not permitted".toList], 0, []⟩

/-- A session on a host that starts the stubborn process whatever is asked. -/
def stubbornSession : Session :=
  { Session.fresh ⟨[]⟩ .empty with
    host := ⟨fun _ => .started stubborn, true, ⟨0.0, none, 0.0, none, .unknown⟩, "audit".toList⟩ }

/-- A tool that has one second to end. -/
def secondTool : Executable := .named ['t'] [] (.seconds 1.0) []

/-- A question with a budget of two seconds. -/
def briefly : Invocation := ⟨none, [], some (.seconds 2.0), none, none⟩

/-- The stubborn process is killed and reaped, although the run ends in a fault. -/
theorem run_stubborn :
    (secondTool.run briefly stubbornSession).1 = .error (.raised .interrupted []) ∧
      (secondTool.run briefly stubbornSession).2.events =
        [.await (some (.seconds 2.0)), .signalSession .terminate, .await (some (.seconds 1.0)),
          .signalSession .kill, .await (some (.seconds 1.0)), .signalSession .kill, .reap,
          .closeOutput] := by
  obtain ⟨events, hevents, E⟩ := (run_escalates secondTool briefly stubbornSession rfl).2 stubborn
    rfl
  obtain ⟨last, L, rfl, hfault⟩ := E.course
  obtain rfl : last = 2 := by
    have hlt := L.lt
    have hfirst : last ≠ 0 := by
      rintro rfl
      exact L.settled (by omega) rfl
    have hsecond : last ≠ 1 := by
      rintro rfl
      exact L.settled (by omega) rfl
    omega
  exact ⟨(hfault _).mpr rfl, hevents⟩

end Executable

end CoreAudit
