import CoreAudit.Proofs.Process.Signals
import CoreAudit.Proofs.Validation.Runs

/-!
# Where a run begins

A run through any runner leaves one mark with which it begins (`Runner.opening`): the call of a
runner with answers given in advance, the start of an executable, or that the prover in the process
reads the formula. The call and the start show what the files held at that moment. Of the other
marks none begins a run, and no record is one of the scrambler's stage.

Headlines:
* **`Runner.run_marks`**: a run that is fed nothing begins with one mark.
* **`Runner.foreign_run`**: no record of a run is one of the scrambler's stage.
* `Runner.RanIn`: a run that is found among other marks.
-/

namespace CoreAudit

/-- A run of a tool begins with the mark. -/
def Mark.isOpening : Mark → Bool
  | call _ _ | start _ | event (.proverReads _) => true
  | _ => false

/-- The mark is a record of the scrambler's stage. -/
def Mark.isOfScrambler : Mark → Bool
  | record r => decide (r.channel = .scrambler)
  | _ => false

theorem Mark.not_isOfScrambler_records {rs : List LogRecord}
    (h : ∀ r ∈ rs, r.channel ≠ .scrambler) {m : Mark} (hm : m ∈ rs.map Mark.record) :
    m.isOfScrambler = false := by
  obtain ⟨r, hr, rfl⟩ := List.mem_map.mp hm
  exact decide_eq_false (h r hr)

theorem Mark.filter_isOfScrambler_eq_nil {ms : List Mark}
    (h : ∀ m ∈ ms, m.isOfScrambler = false) : ms.filter Mark.isOfScrambler = [] := by
  rw [List.filter_eq_nil_iff]
  intro m hm
  rw [h m hm]
  exact Bool.false_ne_true

namespace Process

namespace Running

/-- All records are those of tools. -/
def TellsOfTools (r : Running) : Prop := ∀ x ∈ r.records, x.channel = .tools

variable {r : Running}

theorem TellsOfTools.note (h : r.TellsOfTools) (level : Level) (text : Text) :
    (r.note level text).TellsOfTools := by
  intro x hx
  rcases List.mem_append.mp hx with hx | hx
  · exact h x hx
  · rw [List.mem_singleton.mp hx]

theorem TellsOfTools.look (h : r.TellsOfTools) : r.look.TellsOfTools := by
  unfold Running.look
  split <;> exact h

theorem TellsOfTools.send (h : r.TellsOfTools) : r.send.TellsOfTools := by
  unfold Running.send
  split
  · exact h
  · dsimp only
    split
    · exact TellsOfTools.note (r := { r with script := _ }) h _ _
    · exact h

theorem TellsOfTools.signalAlone (h : r.TellsOfTools) (s : Signal) :
    (r.signalAlone s).TellsOfTools := by
  have hasked : (r.trace .poll).look.TellsOfTools := TellsOfTools.look h
  have hsent : ((r.trace .poll).look.trace (.signalProcess s)).look.TellsOfTools :=
    TellsOfTools.look hasked
  unfold Running.signalAlone
  dsimp only
  split
  · exact hasked
  · split
    · exact hsent
    · exact hsent.send

theorem TellsOfTools.signal (h : r.TellsOfTools) (limits : Limits) (s : Signal) :
    (r.signal limits s).TellsOfTools := by
  unfold Running.signal
  split
  · exact TellsOfTools.send (r := r.trace (.signalSession s)) h
  · exact h.signalAlone s

theorem TellsOfTools.await (h : r.TellsOfTools) (budget : Option Budget) :
    ∃ reply u, r.await budget = (reply, u) ∧ u.TellsOfTools := by
  have htold : (r.await budget).2.TellsOfTools := by
    unfold Running.await
    dsimp only
    split
    · exact h
    · split <;> exact h
  exact ⟨_, _, rfl, htold⟩

theorem TellsOfTools.answer (h : r.TellsOfTools) (limits : Limits) :
    (r.answer limits).2.TellsOfTools := by
  unfold Running.answer
  obtain ⟨reply, r₁, hfirst, h₁⟩ := h.await limits.budget
  rw [hfirst]
  rcases reply with bytes | _ | f
  · exact h₁
  · dsimp only
    obtain ⟨reply, r₂, hsecond, h₂⟩ :=
      ((h₁.note .debug _).signal limits .terminate).await (some limits.grace)
    rw [hsecond]
    rcases reply with bytes | _ | f
    · exact h₂
    · dsimp only
      obtain ⟨reply, r₃, hthird, h₃⟩ :=
        ((h₂.note .debug _).signal limits .kill).await (some limits.grace)
      rw [hthird]
      rcases reply with bytes | _ | f
      · exact h₃
      · exact h₃.note _ _
      · exact h₃
    · exact h₂
  · exact h₁

end Running

theorem channel_of_supervise {limits : Limits} {script : ProcessScript} {x : LogRecord}
    (hx : x ∈ (supervise limits script).records) : x.channel = .tools := by
  have hstart : (Running.start script).TellsOfTools := fun _ h => absurd h List.not_mem_nil
  exact ((hstart.answer limits).signal limits .kill) x hx

theorem not_isOpening_supervise {limits : Limits} {script : ProcessScript} {e : Event}
    (he : e ∈ (supervise limits script).events) : (Mark.event e).isOpening = false := by
  obtain ⟨_, _, hunsignalled, _⟩ := (supervise_attended limits script).course
  cases hsignal : e.isSignalling with
  | true => cases e <;> first | rfl | cases hsignal
  | false =>
    have hleft : e ∈ Event.unsignalled (supervise limits script).events :=
      List.mem_filter.mpr ⟨he, by rw [hsignal]; rfl⟩
    rw [hunsignalled] at hleft
    rcases List.mem_append.mp hleft with hwait | hend
    · obtain ⟨_, _, rfl⟩ := List.mem_map.mp hwait
      rfl
    · simp only [List.mem_cons, List.not_mem_nil, or_false] at hend
      rcases hend with rfl | rfl <;> rfl

end Process

/-! ## Runs of runners -/

namespace Runner

/-- The mark with which a run begins. -/
def opening (r : Runner) (v : Invocation) (s : Session) : Mark :=
  match r with
  | executable x => .start (x.startOf v none s)
  | prover => .event (.proverReads (v.input.getD []))
  | scripted label _ => .call label (v.call s)

/-- What is known of the marks of a run that is fed nothing. -/
structure RunMarks (r : Runner) (v : Invocation) (s : Session) (marks : List Mark) : Prop where
  /-- The run has left these marks. -/
  left : (r.run v s).2 = s.mark marks
  /-- It has begun, unless it ends in a fault that is not one of input and output. -/
  opened : (∀ f, (r.run v s).1 = .error f → f.isInputOutput = true) → r.opening v s ∈ marks
  /-- No other run has begun. -/
  alone : ∀ m ∈ marks, m.isOpening = true → m = r.opening v s

/-- The start of an executable is followed by what is done to its process and by records. -/
theorem exists_executable_marks (x : Executable) (v : Invocation) (s : Session)
    (hstdin : v.stdin = none) :
    ∃ after, (x.run v s).2 = s.mark (.record ⟨.debug, .tools,
          "Command: ".toList ++ Text.quotedList (x.command v.args v.input)⟩ ::
            .start (x.startOf v none s) :: after) ∧
      ∀ m ∈ after, m.isOpening = false := by
  have hfed : Executable.fed v.stdin s = .ok none := by
    rw [hstdin]
    rfl
  rw [Executable.run_eq]
  unfold Executable.openingMarks
  rw [hfed]
  rcases x.opened v s with f | script
  · exact ⟨[], rfl, fun m hm => absurd hm List.not_mem_nil⟩
  · refine ⟨(Process.supervise (x.limits v s) script).events.map .event ++
      (Process.supervise (x.limits v s) script).records.map .record, rfl, fun m hm => ?_⟩
    rcases List.mem_append.mp hm with hm | hm
    · obtain ⟨e, he, rfl⟩ := List.mem_map.mp hm
      exact Process.not_isOpening_supervise he
    · obtain ⟨_, _, rfl⟩ := List.mem_map.mp hm
      rfl

theorem not_isInputOutput_opening {budget : Option Budget} {f : Fault}
    (h : Prover.opening budget = .error f) : f.isInputOutput = false := by
  unfold Prover.opening at h
  split at h
  · cases h
  · unfold Prover.milliseconds? at h
    split at h
    · cases h
      rfl
    · dsimp only at h
      split at h
      · cases h
      · cases h
        split <;> rfl

/-- What comes before the formula is read opens no run. -/
theorem isOpening_of_opening {budget : Option Budget} {before : List Event}
    (h : Prover.opening budget = .ok before) {e : Event} (he : e ∈ before) :
    (Mark.event e).isOpening = false := by
  cases budget with
  | none =>
    cases h
    rw [List.mem_singleton.mp he]
    rfl
  | some budget =>
    unfold Prover.opening at h
    dsimp only at h
    rcases hbudget : Prover.milliseconds? budget with f | n <;> rw [hbudget] at h
    · cases h
    · cases h
      simp only [List.mem_cons, List.not_mem_nil, or_false] at he
      rcases he with rfl | rfl <;> rfl

/-- The formula is read, nothing else that is done to it opens a run, and what is told is told by
tools. -/
theorem events_check (script : ProverScript) (path : Text) (budget : Option Budget)
    (before : List Event) :
    .proverReads path ∈ (Prover.check script path budget before).events ∧
      (∀ e ∈ (Prover.check script path budget before).events, (Mark.event e).isOpening = true →
        e ∈ before ∨ e = .proverReads path) ∧
      ∀ r ∈ (Prover.check script path budget before).records, r.channel = .tools := by
  have hread : ∀ e ∈ before ++ [Event.proverReads path], (Mark.event e).isOpening = true →
      e ∈ before ∨ e = .proverReads path :=
    fun e he _ => (List.mem_append.mp he).imp_right List.mem_singleton.mp
  have hchecked : ∀ e ∈ before ++ [Event.proverReads path] ++ [.proverChecks],
      (Mark.event e).isOpening = true → e ∈ before ∨ e = .proverReads path := by
    intro e he hopens
    rcases List.mem_append.mp he with he | he
    · exact hread e he hopens
    · rw [List.mem_singleton.mp he] at hopens
      cases hopens
  have hfailed : ∀ failure elapsed events,
      ∀ r ∈ (Prover.failed path failure elapsed events).records, r.channel = .tools := by
    intro _ _ _ r hr
    rw [List.mem_singleton.mp hr]
  unfold Prover.check
  dsimp only
  rcases script.readFailure with _ | failure
  · rcases script.checkFailure with _ | failure
    · exact ⟨by simp, hchecked, fun r hr => absurd hr List.not_mem_nil⟩
    · exact ⟨by simp [Prover.failed], hchecked, hfailed _ _ _⟩
  · exact ⟨by simp [Prover.failed], hread, hfailed _ _ _⟩

/-- What the prover is asked: it reads the formula, unless its budget is no number of milliseconds,
and nothing else opens a run. -/
theorem events_ask (script : ProverScript) (path : Text) (budget : Option Budget) :
    ((∀ f, (Prover.ask script path budget).result = .error f → f.isInputOutput = true) →
        .proverReads path ∈ (Prover.ask script path budget).events) ∧
      (∀ e ∈ (Prover.ask script path budget).events, (Mark.event e).isOpening = true →
        e = .proverReads path) ∧
      ∀ r ∈ (Prover.ask script path budget).records, r.channel = .tools := by
  unfold Prover.ask
  rcases hopening : Prover.opening budget with f | before
  · refine ⟨fun hdocile => ?_, fun e he hopens => ?_, fun r hr => absurd hr List.not_mem_nil⟩
    · have hfault := hdocile f rfl
      rw [not_isInputOutput_opening hopening] at hfault
      cases hfault
    · rw [List.mem_singleton.mp he] at hopens
      cases hopens
  · obtain ⟨hreads, halone, htold⟩ := events_check script path budget before
    refine ⟨fun _ => hreads, fun e he hopens => ?_, htold⟩
    rcases halone e he hopens with hbefore | hself
    · rw [isOpening_of_opening hopening hbefore] at hopens
      cases hopens
    · exact hself

/-- What the prover is asked is what a run through it leaves. -/
theorem run_prover (v : Invocation) (s : Session) :
    Runner.prover.run v s =
      ((Prover.ask s.host.prover (v.input.getD []) v.timeout).result,
        s.mark ((Prover.ask s.host.prover (v.input.getD []) v.timeout).events.map .event ++
          (Prover.ask s.host.prover (v.input.getD []) v.timeout).records.map .record)) := by
  unfold run Prover.run
  dsimp only
  rw [Act.bind_of_ok (Act.get_run s), Act.bind_of_ok (Act.mark_run _ _),
    Act.bind_of_ok (Act.records_run _ _), Act.ofExcept_run, Session.mark_mark]

/-- **A run begins with one mark**, whatever the runner. -/
theorem run_marks (r : Runner) (v : Invocation) (s : Session) (hstdin : v.stdin = none) :
    ∃ marks, RunMarks r v s marks := by
  cases r with
  | executable x =>
    obtain ⟨after, hrun, hafter⟩ := exists_executable_marks x v s hstdin
    refine ⟨_, hrun, fun _ => List.mem_cons_of_mem _ List.mem_cons_self, fun m hm hopens => ?_⟩
    rcases List.mem_cons.mp hm with rfl | hm
    · cases hopens
    · rcases List.mem_cons.mp hm with rfl | hm
      · rfl
      · rw [hafter m hm] at hopens
        cases hopens
  | prover =>
    obtain ⟨hreads, halone, _⟩ := events_ask s.host.prover (v.input.getD []) v.timeout
    have hrun := run_prover v s
    refine ⟨_, congrArg Prod.snd hrun, fun hdocile => ?_, fun m hm hopens => ?_⟩
    · rw [hrun] at hdocile
      exact List.mem_append_left _ (List.mem_map.mpr ⟨_, hreads hdocile, rfl⟩)
    · rcases List.mem_append.mp hm with hm | hm
      · obtain ⟨e, he, rfl⟩ := List.mem_map.mp hm
        rw [halone e he hopens]
        rfl
      · obtain ⟨_, _, rfl⟩ := List.mem_map.mp hm
        cases hopens
  | scripted label reply =>
    refine ⟨[.call label (v.call s)], ?_, fun _ => List.mem_singleton.mpr rfl, ?_⟩
    · rw [run_scripted]
    · exact fun m hm _ => List.mem_singleton.mp hm

/-- **No record of a run is one of the scrambler's stage**, whatever it is fed. -/
theorem foreign_run (r : Runner) (v : Invocation) (s : Session) :
    ∃ marks, (r.run v s).2 = s.mark marks ∧ ∀ m ∈ marks, m.isOfScrambler = false := by
  cases r with
  | executable x =>
    have hopening : ∀ m ∈ x.openingMarks v s, m.isOfScrambler = false := by
      unfold Executable.openingMarks
      intro m hm
      rcases List.mem_cons.mp hm with rfl | hm
      · rfl
      · split at hm
        · cases hm
        · rw [List.mem_singleton.mp hm]
          rfl
    show ∃ marks, (x.run v s).2 = s.mark marks ∧ ∀ m ∈ marks, m.isOfScrambler = false
    rw [Executable.run_eq]
    rcases x.opened v s with f | script
    · exact ⟨_, rfl, hopening⟩
    · refine ⟨_, rfl, fun m hm => ?_⟩
      rcases List.mem_append.mp hm with hm | hm
      · rcases List.mem_append.mp hm with hm | hm
        · exact hopening m hm
        · obtain ⟨_, _, rfl⟩ := List.mem_map.mp hm
          rfl
      · obtain ⟨_, hr, rfl⟩ := List.mem_map.mp hm
        rw [Mark.isOfScrambler, Process.channel_of_supervise hr]
        rfl
  | prover =>
    obtain ⟨_, _, htold⟩ := events_ask s.host.prover (v.input.getD []) v.timeout
    refine ⟨_, congrArg Prod.snd (run_prover v s), fun m hm => ?_⟩
    rcases List.mem_append.mp hm with hm | hm
    · obtain ⟨_, _, rfl⟩ := List.mem_map.mp hm
      rfl
    · obtain ⟨r, hr, rfl⟩ := List.mem_map.mp hm
      rw [Mark.isOfScrambler, htold r hr]
      rfl
  | scripted label reply =>
    refine ⟨[.call label (v.call s)], by rw [run_scripted], fun m hm => ?_⟩
    rw [List.mem_singleton.mp hm]
    rfl

/-! ## Runs among other marks -/

/-- Among the marks that were left after a trace are those of a run, which was made in the
session. -/
def RanIn (r : Runner) (v : Invocation) (start later : List Mark) (u : Session) : Prop :=
  ∃ before marks after, u.trace = start ++ before ∧ (r.run v u).2 = u.mark marks ∧
    later = before ++ (marks ++ after)

namespace RanIn

variable {r : Runner} {v : Invocation} {start later : List Mark} {u : Session}

theorem append (h : r.RanIn v start later u) (more : List Mark) :
    r.RanIn v start (later ++ more) u := by
  obtain ⟨before, marks, after, htrace, hrun, rfl⟩ := h
  exact ⟨before, marks, after ++ more, htrace, hrun, by simp only [List.append_assoc]⟩

theorem prepend {first : List Mark} (h : r.RanIn v (start ++ first) later u) :
    r.RanIn v start (first ++ later) u := by
  obtain ⟨before, marks, after, htrace, hrun, rfl⟩ := h
  exact ⟨first ++ before, marks, after, by rw [htrace, List.append_assoc], hrun,
    (List.append_assoc _ _ _).symm⟩

/-- A run that is among the marks opened among them, unless it ended in a fault that is not one of
input and output. -/
theorem opening_mem (h : r.RanIn v start later u) (hstdin : v.stdin = none)
    (hdocile : ∀ f, (r.run v u).1 = .error f → f.isInputOutput = true) :
    r.opening v u ∈ later := by
  obtain ⟨before, marks, after, _, hrun, rfl⟩ := h
  obtain ⟨others, M⟩ := run_marks r v u hstdin
  have hmarks : marks = others :=
    List.append_cancel_left (congrArg Session.trace (hrun.symm.trans M.left))
  rw [hmarks]
  exact List.mem_append_right _ (List.mem_append_left _ (M.opened hdocile))

end RanIn

end Runner

end CoreAudit
