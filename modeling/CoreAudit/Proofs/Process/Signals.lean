import CoreAudit.Proofs.Process.Escalation
import CoreAudit.Proofs.Runner.Sight

/-!
# What becomes of signals

A signal may reach the processes that it is sent to, find none of them left, or be refused; and
where a session cannot be signalled as a whole, the process is asked whether it is still there and
is signalled alone. A run shows none of this but in the signals themselves, in the records, and in
one more place: a process that has exited while others hold its output open tells its exit code to
one who asks whether it is still there, and to nobody else.

Headlines:
* `supervise_inStep`: supervisions of processes that answer waits alike differ in the exit code at
  most.
* **`run_signals_unseen`**: what becomes of signals changes neither the waits of a run nor its
  result, the exit code of a process that is silent to the last apart.
* `exists_returnCode_ne`: that exit code does depend on how signals are sent.
-/

namespace CoreAudit

namespace Event

theorem filterMap_wait?_unsignalled (events : List Event) :
    (unsignalled events).filterMap wait? = events.filterMap wait? := by
  unfold unsignalled
  rw [List.filterMap_filter]
  congr 1
  funext e
  cases e <;> rfl

end Event

/-- Two processes that do the same towards whoever waits for them. What becomes of signals to them
and what is found when they are looked at may differ. -/
structure ProcessScript.InStep (p q : ProcessScript) : Prop where
  exchanges : p.exchanges = q.exchanges
  exitCode : p.exitCode = q.exitCode

theorem ProcessScript.InStep.reply {p q : ProcessScript} (h : p.InStep q) : p.reply = q.reply := by
  funext i
  unfold ProcessScript.reply
  rw [h.exchanges]

/-- The result without its exit code. -/
def RunResult.uncoded (r : RunResult) : RunResult := { r with returnCode := none }

namespace Process

open Event (unsignalled)

/-! ## Supervisions -/

variable {limits limits' : Limits} {p q : ProcessScript} {last : Nat}

/-- **Supervisions of processes in step differ in the exit code, the signals and the records at
most.** -/
theorem supervise_inStep (hbudget : limits.budget = limits'.budget)
    (hgrace : limits.grace = limits'.grace) (h : p.InStep q) :
    (supervise limits p).result.map RunResult.uncoded =
        (supervise limits' q).result.map RunResult.uncoded ∧
      (codeOf limits.sessions p = codeOf limits'.sessions q →
        (supervise limits p).result = (supervise limits' q).result) ∧
      unsignalled (supervise limits p).events = unsignalled (supervise limits' q).events := by
  obtain ⟨last, hlasts⟩ := exists_lasts p
  have hlasts' : Lasts q last :=
    ⟨hlasts.lt, h.reply ▸ hlasts.silent, h.reply ▸ hlasts.settled⟩
  have helapsed : p.elapsed = q.elapsed := by
    funext waits
    unfold ProcessScript.elapsed
    rw [h.exchanges]
  have hrounds : rounds limits = rounds limits' := by
    unfold rounds
    rw [hbudget, hgrace]
  obtain ⟨-, hevents, hresult⟩ := supervise_lasts limits hlasts
  obtain ⟨-, hevents', hresult'⟩ := supervise_lasts limits' hlasts'
  rw [hevents, hevents', hresult, hresult', h.reply, helapsed]
  unfold escalation
  rw [hrounds]
  refine ⟨?_, fun hcode => by rw [hcode], rfl⟩
  rcases answerOf (decide (0 < last)) (q.reply last) with f | ⟨bytes, late⟩ <;> rfl

theorem codeOf_of_not_silent (sessions : Bool) (h : ¬p.Silent) :
    codeOf sessions p = some p.exitCode := if_neg fun hand => h hand.1

theorem codeOf_of_sessions (p : ProcessScript) :
    codeOf true p = if p.Silent then none else some p.exitCode := by simp [codeOf]

/-- Processes in step tell the same exit code, unless they are silent to the last and are not both
signalled with their sessions. -/
theorem codeOf_inStep (h : p.InStep q) {sessions sessions' : Bool}
    (hor : (sessions = true ∧ sessions' = true) ∨ ¬p.Silent) :
    codeOf sessions p = codeOf sessions' q := by
  have hsilent : q.Silent ↔ p.Silent := by
    unfold ProcessScript.Silent
    rw [h.reply]
  rcases hor with ⟨rfl, rfl⟩ | hloud
  · simp only [codeOf_of_sessions, hsilent, h.exitCode]
  · rw [codeOf_of_not_silent _ hloud, codeOf_of_not_silent _ (mt hsilent.mp hloud), h.exitCode]

theorem returnCode_eq {r : RunResult} (hr : (supervise limits p).result = .ok r) :
    r.returnCode = codeOf limits.sessions p := by
  obtain ⟨last, h⟩ := exists_lasts p
  rw [(supervise_lasts limits h).2.2] at hr
  generalize answerOf (decide (0 < last)) (p.reply last) = answer at hr
  cases answer with
  | error f => cases hr
  | ok answer =>
    cases hr
    rfl

/-- What a process that was started has been through when its supervision is over, and what the
supervision gives, the signals left aside. -/
structure Attended (limits : Limits) (script : ProcessScript) (events : List Event)
    (result : Except Fault RunResult) : Prop where
  /-- The waits of the rounds up to the last, then the reaping. The supervision ends in a fault
  where the last wait does, and in no other. -/
  course : ∃ last, Lasts script last ∧
    unsignalled events = ((rounds limits).take (last + 1)).map (.await ·.budget) ++
      [.reap, .closeOutput] ∧
    ∀ f, result = .error f ↔ script.reply last = .fault f

/-- The waits of an escalation and the cleanup are left when the signals are taken out. -/
theorem unsignalled_escalation (limits : Limits) (last : Nat) :
    unsignalled (escalation limits last ++ cleanup) =
      ((rounds limits).take (last + 1)).map (.await ·.budget) ++ [.reap, .closeOutput] := by
  have hround : ∀ r : Round, unsignalled r.events = [.await r.budget] := by
    rintro ⟨_ | signal, budget⟩ <;> rfl
  have hrounds : ∀ rs : List Round,
      unsignalled (rs.flatMap Round.events) = rs.map (.await ·.budget) := by
    intro rs
    induction rs with
    | nil => rfl
    | cons r rs ih => rw [List.flatMap_cons, Event.unsignalled_append, hround, ih]; rfl
  rw [Event.unsignalled_append, escalation, hrounds]
  rfl

/-- **However signals are sent and whatever becomes of them, the last wait is followed by the
reaping**, and a fault of the supervision is one of that wait. -/
theorem supervise_attended (limits : Limits) (script : ProcessScript) :
    Attended limits script (supervise limits script).events (supervise limits script).result := by
  obtain ⟨last, h⟩ := exists_lasts script
  refine ⟨last, h, ?_, result_eq_error_iff limits h⟩
  rw [(supervise_lasts limits h).2.1, unsignalled_escalation]

end Process

/-! ## Runs -/

/-- Two launches that come to the same: processes in step, or the same refusal. -/
inductive Launch.InStep : Launch → Launch → Prop
  | started {p q : ProcessScript} (h : p.InStep q) : InStep (.started p) (.started q)
  | refused (f : Fault) : InStep (.refused f) (.refused f)

/-- Two sessions in which the same files are seen, on hosts that come to the same for every start.
What becomes of signals may differ, and so may the way in which they are sent. -/
structure Session.InStep (s u : Session) : Prop where
  files : s.files = u.files
  here : s.here = u.here
  launch : ∀ start : Start, (s.host.launch { start with ownSession := s.host.sessions }).InStep
    (u.host.launch { start with ownSession := u.host.sessions })

/-- What a mark tells when signals and records are left aside, and of a start, whether the process
gets a session of its own. -/
def Mark.unsignalled? : Mark → Option Mark
  | record _ => none
  | event e => if e.isSignalling then none else some (event e)
  | start st => some (start { st with ownSession := true })
  | call label c => some (call label c)

theorem Mark.filterMap_unsignalled?_events (es : List Event) :
    (es.map Mark.event).filterMap Mark.unsignalled? = (Event.unsignalled es).map Mark.event := by
  induction es with
  | nil => rfl
  | cons e es ih =>
    cases e <;> simp_all [Mark.unsignalled?, Event.unsignalled, Event.isSignalling]

namespace Executable

variable (x : Executable) (v : Invocation) {s u : Session}

theorem fed_inStep (h : s.InStep u) : fed v.stdin s = fed v.stdin u := by
  cases v.stdin with
  | none => rfl
  | some path => exact fed_congr (by rw [h.files, h.here])

/-- The starts that are asked for differ at most in whether the process gets a session of its
own. -/
theorem startOf_inStep (h : s.InStep u) (stdin : Option Bytes) :
    x.startOf v stdin u = { x.startOf v stdin s with ownSession := u.host.sessions } := by
  unfold startOf
  rw [h.files, h.here]

/-- The attempts to start come to the same. -/
theorem opened_inStep (h : s.InStep u) :
    (∃ f, x.opened v s = .error f ∧ x.opened v u = .error f) ∨
      ∃ p q, x.opened v s = .ok p ∧ x.opened v u = .ok q ∧ p.InStep q := by
  unfold opened
  rw [← fed_inStep v h]
  rcases fed v.stdin s with f | stdin
  · exact .inl ⟨f, rfl, rfl⟩
  · dsimp only
    have hlaunch := h.launch (x.startOf v stdin s)
    rw [← startOf_inStep x v h] at hlaunch
    change (s.host.launch (x.startOf v stdin s)).InStep (u.host.launch (x.startOf v stdin u))
      at hlaunch
    generalize s.host.launch (x.startOf v stdin s) = a at hlaunch
    generalize u.host.launch (x.startOf v stdin u) = b at hlaunch
    cases hlaunch with
    | started hstep => exact .inr ⟨_, _, rfl, rfl, hstep⟩
    | refused f => exact .inl ⟨f, rfl, rfl⟩

theorem openingMarks_inStep (h : s.InStep u) :
    (x.openingMarks v s).filterMap Mark.unsignalled? =
      (x.openingMarks v u).filterMap Mark.unsignalled? := by
  unfold openingMarks
  rw [← fed_inStep v h]
  rcases fed v.stdin s with f | stdin
  · rfl
  · dsimp only
    rw [startOf_inStep x v h]
    rfl

/-- The events of a run are those of its supervision. -/
theorem filterMap_event?_marks (done : Process.Supervised) :
    (x.openingMarks v s ++ done.events.map Mark.event ++
      done.records.map Mark.record).filterMap Mark.event? = done.events := by
  rw [List.filterMap_append, List.filterMap_append, filterMap_event?_openingMarks,
    Mark.filterMap_event?_events, Mark.filterMap_records (fun _ => rfl), List.append_nil,
    List.nil_append]

/-- **What becomes of signals is not seen in a run**, be it one that ends in a fault. In sessions in
step a run leaves marks that differ in signals, records and the sessions of processes only, so its
waits are the same; and it has the same result but for the exit code of a process that is silent to
the last, which is known iff the process was looked at and found to have exited. A process that was
started is reaped after the last wait, and a fault of the run is one of that wait. -/
theorem run_signals_unseen (h : s.InStep u) :
    (x.run v s).1.map RunResult.uncoded = (x.run v u).1.map RunResult.uncoded ∧
      (s.host.sessions = true → u.host.sessions = true → (x.run v s).1 = (x.run v u).1) ∧
      (∀ script, x.opened v s = .ok script →
        (¬script.Silent → (x.run v s).1 = (x.run v u).1) ∧
        ∀ r, (x.run v s).1 = .ok r →
          r.returnCode = Process.codeOf s.host.sessions script) ∧
      ∃ marks marks', (x.run v s).2 = s.mark marks ∧ (x.run v u).2 = u.mark marks' ∧
        marks.filterMap Mark.unsignalled? = marks'.filterMap Mark.unsignalled? ∧
        (marks.filterMap Mark.event?).filterMap Event.wait? =
          (marks'.filterMap Mark.event?).filterMap Event.wait? ∧
        ∀ script, x.opened v s = .ok script →
          Process.Attended (x.limits v s) script (marks.filterMap Mark.event?) (x.run v s).1 := by
  have hopening := openingMarks_inStep x v h
  rw [run_eq, run_eq]
  rcases opened_inStep x v h with ⟨f, hs, hu⟩ | ⟨p, q, hs, hu, hstep⟩
  · rw [hs, hu]
    refine ⟨rfl, fun _ _ => rfl, nofun, _, _, rfl, rfl, hopening, ?_, nofun⟩
    rw [filterMap_event?_openingMarks, filterMap_event?_openingMarks]
  · rw [hs, hu]
    have hbudget : (x.limits v s).budget = (x.limits v u).budget := rfl
    have hgrace : (x.limits v s).grace = (x.limits v u).grace := rfl
    obtain ⟨huncoded, hresult, hevents⟩ := Process.supervise_inStep hbudget hgrace hstep
    have hrecords : ∀ rs : List LogRecord,
        (rs.map Mark.record).filterMap Mark.unsignalled? = [] :=
      fun rs => Mark.filterMap_records (fun _ => rfl) rs
    refine ⟨huncoded, fun hsessions hsessions' => hresult ?_, fun script hscript => ?_,
      _, _, rfl, rfl, ?_, ?_, fun script hscript => ?_⟩
    · exact Process.codeOf_inStep hstep (.inl ⟨hsessions, hsessions'⟩)
    · cases hscript
      exact ⟨fun hloud => hresult (Process.codeOf_inStep hstep (.inr hloud)),
        fun r hr => Process.returnCode_eq hr⟩
    · simp only [List.filterMap_append, hopening, Mark.filterMap_unsignalled?_events, hevents,
        hrecords]
    · rw [filterMap_event?_marks, filterMap_event?_marks, ← Event.filterMap_wait?_unsignalled,
        hevents, Event.filterMap_wait?_unsignalled]
    · cases hscript
      rw [filterMap_event?_marks]
      exact Process.supervise_attended _ _

/-- The session of the stubborn process on a host where sessions cannot be signalled as a whole. -/
def lonelySession : Session :=
  { stubbornSession with host := { stubbornSession.host with sessions := false } }

/-- A process whose session is gone and must not be signalled is waited for as one that is asked
whether it is still there and signalled alone. -/
theorem run_stubborn_unseen :
    stubbornSession.InStep lonelySession ∧
      (secondTool.run briefly stubbornSession).1 = (secondTool.run briefly lonelySession).1 ∧
      ∃ marks marks', (secondTool.run briefly stubbornSession).2 = stubbornSession.mark marks ∧
        (secondTool.run briefly lonelySession).2 = lonelySession.mark marks' ∧
        (marks.filterMap Mark.event?).filterMap Event.wait? =
          (marks'.filterMap Mark.event?).filterMap Event.wait? := by
  have hstep : stubbornSession.InStep lonelySession := ⟨rfl, rfl, fun _ => .started ⟨rfl, rfl⟩⟩
  obtain ⟨-, -, hscript, marks, marks', hs, hu, -, hwaits, -⟩ :=
    run_signals_unseen secondTool briefly hstep
  exact ⟨hstep, (hscript stubborn rfl).1 (by decide), marks, marks', hs, hu, hwaits⟩

/-- A process that exits with a code of its own while others hold its output open. -/
def outlived : ProcessScript :=
  ⟨9, [⟨2.0, .silence⟩, ⟨1.0, .silence⟩, ⟨1.0, .silence⟩], [], 3, [true]⟩

/-- A session on a host that starts the outlived process whatever is asked, where sessions can be
signalled as a whole or not. -/
def outlivedSession (sessions : Bool) : Session :=
  { stubbornSession with
    host := { stubbornSession.host with launch := fun _ => .started outlived, sessions := sessions } }

/-- **The exit code depends on how signals are sent**: where a session is signalled as a whole
nobody asks for the exit code of a process whose output stays open, and where it cannot be, the
question in front of the first signal is answered. The starts differ as well: only a process that is
signalled with its session gets one of its own. -/
theorem exists_returnCode_ne :
    (outlivedSession true).InStep (outlivedSession false) ∧
      ∃ r t, (secondTool.run briefly (outlivedSession true)).1 = .ok r ∧
        (secondTool.run briefly (outlivedSession false)).1 = .ok t ∧
        r.returnCode = none ∧ t.returnCode = some 3 ∧
        (secondTool.run briefly (outlivedSession true)).2.starts.map Start.ownSession = [true] ∧
        (secondTool.run briefly (outlivedSession false)).2.starts.map Start.ownSession = [false] :=
  ⟨⟨rfl, rfl, fun _ => .started ⟨rfl, rfl⟩⟩, _, _, rfl, rfl, rfl, rfl, rfl, rfl⟩

end Executable

end CoreAudit
