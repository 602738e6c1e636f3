import CoreAudit.Proofs.Process.Steps
import Mathlib.Tactic.Choose

/-!
# Rounds of a supervision

A supervision goes in rounds: it waits for the output under the budget, then asks the process to end
and waits once more, then kills it and waits a last time (`rounds`). A round is the last one if its
wait brings anything but silence, or if it is the third (`Lasts`). How far a supervision goes is
decided by what the waits bring (`ProcessScript.reply`) and by nothing else: whether signals are
delivered does not matter.

Headlines:
* **`answer_lasts`**: the answer of a supervision is that of its last round.
* `supervise_lasts`: a supervision is an escalation followed by the fixed cleanup.
* **`supervise_escalated`**: what every supervision has been through, and what it gives.
-/

namespace CoreAudit

/-- What the wait at a place brings: once the exchanges are used up, the output is complete. -/
def ProcessScript.reply (script : ProcessScript) (i : Nat) : Reply :=
  (script.exchanges[i]?.map Exchange.reply).getD (.output none)

/-- The seconds that some waits take. -/
def ProcessScript.elapsed (script : ProcessScript) (waits : Nat) : Float :=
  (script.exchanges.take waits).foldl (· + ·.duration) 0.0

/-- The output of the process is not complete when the last wait is over. -/
def ProcessScript.Silent (script : ProcessScript) : Prop := ∀ i < 3, script.reply i = .silence

instance (script : ProcessScript) : Decidable script.Silent :=
  inferInstanceAs (Decidable (∀ i < 3, script.reply i = .silence))

namespace Event

/-- The budget of a wait, if the event is one. -/
def wait? : Event → Option (Option Budget)
  | await budget => some budget
  | _ => none

/-- The event reaps the process. -/
def isReap : Event → Bool
  | reap => true
  | _ => false

end Event

namespace Process

open Event (unsignalled)

/-- A round: the signal in front of its wait, if there is one, and the budget of the wait. -/
structure Round where
  signal : Option Signal
  budget : Option Budget

/-- The events of a round. -/
def Round.events (r : Round) : List Event :=
  (r.signal.map Event.signalSession).toList ++ [.await r.budget]

/-- The rounds of a supervision. -/
def rounds (limits : Limits) : List Round :=
  [⟨none, limits.budget⟩, ⟨some .terminate, some limits.grace⟩, ⟨some .kill, some limits.grace⟩]

/-- The events of the rounds up to the given one. -/
def escalation (limits : Limits) (last : Nat) : List Event :=
  ((rounds limits).take (last + 1)).flatMap Round.events

/-- The events that end every supervision. -/
def cleanup : List Event := [.signalSession .kill, .reap, .closeOutput]

/-- The round is the last one of a supervision: the waits before it brought silence, and its own
brings something else unless it is the third. -/
structure Lasts (script : ProcessScript) (last : Nat) : Prop where
  lt : last < 3
  silent : ∀ i < last, script.reply i = .silence
  settled : last < 2 → script.reply last ≠ .silence

theorem exists_lasts (script : ProcessScript) : ∃ last, Lasts script last := by
  by_cases h₀ : script.reply 0 = .silence
  · by_cases h₁ : script.reply 1 = .silence
    · refine ⟨2, by omega, fun i hi => ?_, fun h => absurd h (by omega)⟩
      obtain rfl | rfl : i = 0 ∨ i = 1 := by omega
      · exact h₀
      · exact h₁
    · refine ⟨1, by omega, fun i hi => ?_, fun _ => h₁⟩
      obtain rfl : i = 0 := by omega
      exact h₀
  · exact ⟨0, by omega, fun i hi => absurd hi (by omega), fun _ => h₀⟩

/-! ## The steps of a supervision -/

/-- A process under way after some waits and signals. Where sessions can be signalled as a whole the
events are known to the last one. -/
structure After (limits : Limits) (script : ProcessScript) (waits signals : Nat)
    (events : List Event) (r : Running) : Prop where
  exchanges : r.script.exchanges = script.exchanges.drop waits
  exitCode : r.script.exitCode = script.exitCode
  elapsed : r.elapsed = script.elapsed waits
  /-- Only while the waits bring silence is the exit code a matter of looks. -/
  looked : (∀ i < waits, script.reply i = .silence) → Looked script (limits.looks signals) r
  attended : unsignalled r.events = unsignalled events
  course : limits.sessions = true → r.events = events

namespace After

variable {limits : Limits} {script : ProcessScript} {waits signals : Nat} {events : List Event}
  {r : Running}

theorem start (limits : Limits) (script : ProcessScript) :
    After limits script 0 0 [] (Running.start script) := by
  refine ⟨rfl, rfl, rfl, fun _ => ?_, rfl, fun _ => rfl⟩
  have hlooks : limits.looks 0 = 0 := by simp [Limits.looks]
  rw [hlooks]
  exact .start script

theorem note (h : After limits script waits signals events r) (level : Level) (text : Text) :
    After limits script waits signals events (r.note level text) :=
  ⟨h.exchanges, h.exitCode, h.elapsed, fun hsilent => (h.looked hsilent).note level text,
    h.attended, h.course⟩

theorem trace (h : After limits script waits signals events r) (e : Event) :
    After limits script waits signals (events ++ [e]) (r.trace e) := by
  refine ⟨h.exchanges, h.exitCode, h.elapsed, fun hsilent => (h.looked hsilent).trace e, ?_,
    fun hsessions => congrArg (· ++ [e]) (h.course hsessions)⟩
  simp only [Running.trace, Event.unsignalled_append, h.attended]

theorem signal (h : After limits script waits signals events r) (s : Signal) :
    After limits script waits (signals + 1) (events ++ [.signalSession s]) (r.signal limits s) := by
  have hbeside := r.signal_beside limits s
  have hunseen : unsignalled [Event.signalSession s] = [] := rfl
  refine ⟨hbeside.exchanges.trans h.exchanges, hbeside.exitCode.trans h.exitCode,
    hbeside.elapsed.trans h.elapsed, fun hsilent => (h.looked hsilent).signal s, ?_,
    fun hsessions => ?_⟩
  · rw [hbeside.events, h.attended, Event.unsignalled_append, hunseen, List.append_nil]
  · rw [r.signal_events hsessions, h.course hsessions]

/-- A wait brings the next reply, and is one event. -/
theorem await (h : After limits script waits signals events r) (budget : Option Budget) :
    ∃ u, r.await budget = (script.reply waits, u) ∧
      After limits script (waits + 1) signals (events ++ [.await budget]) u ∧
      ∀ bytes, script.reply waits = .output bytes → u.returnCode = some script.exitCode := by
  have A := r.await_awaited budget
  have hnext : r.script.exchanges.head? = script.exchanges[waits]? := by
    rw [h.exchanges, List.head?_drop]
  have hreply : (r.await budget).1 = script.reply waits := by
    rw [A.next, hnext]
    rfl
  rw [hreply] at A
  have helapsed : (r.await budget).2.elapsed = script.elapsed (waits + 1) := by
    unfold ProcessScript.elapsed
    rw [A.elapsed, hnext, h.elapsed, List.take_add_one, List.foldl_append]
    rfl
  refine ⟨_, Prod.ext hreply rfl, ⟨?_, ?_, helapsed, fun hsilent => ?_, ?_, fun hsessions => ?_⟩,
    fun bytes hbytes => ?_⟩
  · rw [A.script, ← List.tail_drop, ← h.exchanges]
  · rw [A.script, ← h.exitCode]
  · have hlooked := h.looked fun i hi => hsilent i (Nat.lt_succ_of_lt hi)
    have hcode := A.code_of_silence (hsilent waits (Nat.lt_succ_self waits))
    refine ⟨?_, ?_, ?_⟩
    · rw [A.script, ← hlooked.exitCode]
    · rw [hcode]
      exact hlooked.found
    · rw [hcode, A.script]
      exact hlooked.unfound
  · rw [A.events, Event.unsignalled_append, h.attended, ← Event.unsignalled_append]
  · rw [A.events, h.course hsessions]
  · rw [A.code_of_output bytes hbytes, h.exitCode]

/-- A round after the first: a record, the signal and the wait under the grace period. -/
theorem round (h : After limits script waits signals events r) (level : Level) (s : Signal)
    (text : Text) :
    ∃ u, ((r.note level text).signal limits s).await (some limits.grace) =
        (script.reply waits, u) ∧
      After limits script (waits + 1) (signals + 1)
        (events ++ Round.events ⟨some s, some limits.grace⟩) u ∧
      ∀ bytes, script.reply waits = .output bytes → u.returnCode = some script.exitCode := by
  obtain ⟨u, hu, A, hcode⟩ := ((h.note level text).signal s).await (some limits.grace)
  rw [List.append_assoc] at A
  exact ⟨u, hu, A, hcode⟩

theorem cleanup (h : After limits script waits signals events r) :
    After limits script waits (signals + 1) (events ++ Process.cleanup) (r.cleanup limits) := by
  have hend := ((h.signal .kill).trace .reap).trace .closeOutput
  rw [List.append_assoc, List.append_assoc] at hend
  exact hend

end After

/-! ## The answer of a supervision -/

/-- The answer that a wait leads to if it is the last one; `late` tells whether another wait was
before it. Silence at the very end leaves no output. -/
def answerOf (late : Bool) : Reply → Except Fault (Option Bytes × Bool)
  | .output bytes => .ok (bytes, late)
  | .silence => .ok (none, late)
  | .fault f => .error f

/-- The exit code that is known in the end, where sessions are signalled as a whole or not. A
process that is silent to the last tells it only to one who looks at it: a session is signalled
without a look, and a process alone is looked at twice for each of the two signals before the last
wait. -/
def codeOf (sessions : Bool) (script : ProcessScript) : Option Int :=
  if script.Silent ∧ (sessions = true ∨ true ∉ script.sightings.take 4) then none
  else some script.exitCode

variable {limits : Limits} {script : ProcessScript} {last : Nat}

/-- **The answer is that of the last round, after the events of the rounds up to it.** -/
theorem answer_lasts (limits : Limits) (h : Lasts script last) :
    ∃ r, (Running.start script).answer limits =
        (answerOf (decide (0 < last)) (script.reply last), r) ∧
      After limits script (last + 1) last (escalation limits last) r ∧
      ∀ bytes, script.reply last = .output bytes → r.returnCode = some script.exitCode := by
  obtain ⟨r₁, hfirst, A₁, hcode₁⟩ := (After.start limits script).await limits.budget
  choose r₂ hsecond A₂ hcode₂ using A₁.round .debug .terminate
  unfold Running.answer
  rw [hfirst]
  rcases last with _ | last
  · rcases hreply : script.reply 0 with bytes | _ | f
    · exact ⟨r₁, rfl, A₁, hreply ▸ hcode₁⟩
    · exact absurd hreply (h.settled (by omega))
    · exact ⟨r₁, rfl, A₁, nofun⟩
  rw [h.silent 0 (by omega)]
  dsimp only
  rw [hsecond]
  rcases last with _ | last
  · rcases hreply : script.reply 1 with bytes | _ | f
    · exact ⟨_, rfl, A₂ _, hreply ▸ hcode₂ _⟩
    · exact absurd hreply (h.settled (by omega))
    · exact ⟨_, rfl, A₂ _, nofun⟩
  rw [h.silent 1 (by omega)]
  dsimp only
  obtain ⟨r₃, hthird, A₃, hcode₃⟩ := (A₂ _).round .debug .kill _
  rw [hthird]
  obtain rfl : last = 0 := by
    have := h.lt
    omega
  rcases hreply : script.reply 2 with bytes | _ | f
  · exact ⟨r₃, rfl, A₃, hreply ▸ hcode₃⟩
  · exact ⟨_, rfl, A₃.note _ _, nofun⟩
  · exact ⟨r₃, rfl, A₃, nofun⟩

/-! ## What a supervision comes to -/

theorem Lasts.silent_of_silence (h : Lasts script last) (hlast : script.reply last = .silence) :
    last = 2 ∧ script.Silent := by
  have hlt := h.lt
  have htwo : last = 2 := by
    refine Decidable.byContradiction fun hne => h.settled (by omega) hlast
  refine ⟨htwo, fun i hi => ?_⟩
  rcases Nat.lt_or_ge i last with hi | hi
  · exact h.silent i hi
  · obtain rfl : i = last := by omega
    exact hlast

/-- The exit code of a process that is silent to the last is known iff one of the looks that came
with the two signals found that it had exited. -/
theorem Looked.returnCode_eq {r : Running} (h : Looked script (limits.looks 2) r)
    (hsilent : script.Silent) : r.returnCode = codeOf limits.sessions script := by
  have hunfound : true ∉ script.sightings.take (limits.looks 2) ↔
      limits.sessions = true ∨ true ∉ script.sightings.take 4 := by
    unfold Limits.looks
    cases limits.sessions <;> simp
  unfold codeOf
  by_cases hfound : true ∈ script.sightings.take (limits.looks 2)
  · rw [h.found hfound, if_neg fun hand => hunfound.mpr hand.2 hfound]
  · rw [(h.unfound hfound).1, if_pos ⟨hsilent, hunfound.mp hfound⟩]

/-- **A supervision is an escalation up to its last round, followed by the cleanup**; its result is
the answer of that round. Signals are seen in the exit code at most. -/
theorem supervise_lasts (limits : Limits) (h : Lasts script last) :
    (limits.sessions = true →
        (supervise limits script).events = escalation limits last ++ cleanup) ∧
      unsignalled (supervise limits script).events =
        unsignalled (escalation limits last ++ cleanup) ∧
      (supervise limits script).result =
        (answerOf (decide (0 < last)) (script.reply last)).map fun (bytes, late) =>
          ⟨Text.Utf8.decode (bytes.getD []), script.elapsed (last + 1), codeOf limits.sessions script,
            late⟩ := by
  obtain ⟨r, hanswer, A, hcode⟩ := answer_lasts limits h
  have hend := A.cleanup
  unfold supervise
  rw [hanswer]
  refine ⟨hend.course, hend.attended, ?_⟩
  dsimp only
  rw [A.elapsed]
  unfold codeOf
  rcases hreply : script.reply last with bytes | _ | f
  · have hloud : ¬script.Silent := by
      intro hsilent
      rw [hsilent last h.lt] at hreply
      cases hreply
    rw [hcode bytes hreply, if_neg fun hand => hloud hand.1]
  · obtain ⟨rfl, hsilent⟩ := h.silent_of_silence hreply
    rw [(A.looked hsilent).returnCode_eq hsilent, codeOf]
  · rfl

theorem result_eq_error_iff (limits : Limits) (h : Lasts script last) (f : Fault) :
    (supervise limits script).result = .error f ↔ script.reply last = .fault f := by
  rw [(supervise_lasts limits h).2.2]
  rcases script.reply last with bytes | _ | g <;> simp [answerOf, Except.map]

theorem timedOut_eq (h : Lasts script last) {r : RunResult}
    (hr : (supervise limits script).result = .ok r) : r.timedOut = decide (0 < last) := by
  rw [(supervise_lasts limits h).2.2] at hr
  generalize script.reply last = reply at hr
  cases reply with
  | output bytes | silence =>
    cases hr
    rfl
  | fault g => cases hr

/-- **Where the first wait brings silence, the result is late**, whatever comes after it. -/
theorem timedOut_of_silence (hsilence : script.reply 0 = .silence) {r : RunResult}
    (hr : (supervise limits script).result = .ok r) : r.timedOut = true := by
  obtain ⟨last, h⟩ := exists_lasts script
  rw [timedOut_eq h hr, decide_eq_true_iff, Nat.pos_iff_ne_zero]
  rintro rfl
  exact h.settled (by omega) hsilence

/-- **A result in time is the output that the first wait brought.** -/
theorem output_of_inTime {r : RunResult} (hr : (supervise limits script).result = .ok r)
    (hintime : r.timedOut = false) :
    ∃ bytes, script.reply 0 = .output bytes ∧ r.stdout = Text.Utf8.decode (bytes.getD []) := by
  obtain ⟨last, h⟩ := exists_lasts script
  obtain rfl : last = 0 := by
    rw [timedOut_eq h hr, decide_eq_false_iff_not] at hintime
    omega
  rw [(supervise_lasts limits h).2.2] at hr
  cases hreply : script.reply 0 with
  | output bytes =>
    rw [hreply] at hr
    cases hr
    exact ⟨bytes, rfl, rfl⟩
  | silence => exact absurd hreply (h.settled (by omega))
  | fault g =>
    rw [hreply] at hr
    cases hr

/-! ## What a process has been through -/

/-- What a process that was started has been through when its supervision is over, and what the
supervision gives. -/
structure Escalated (limits : Limits) (script : ProcessScript) (events : List Event)
    (result : Except Fault RunResult) : Prop where
  /-- An escalation up to the last round, then the cleanup. The supervision ends in a fault where
  the last wait does. -/
  course : ∃ last, Lasts script last ∧ events = escalation limits last ++ cleanup ∧
    ∀ f, result = .error f ↔ script.reply last = .fault f
  timedOut_iff : ∀ r, result = .ok r →
    (r.timedOut = true ↔ .signalSession .terminate ∈ events)
  waits : events.filterMap Event.wait? <+: [limits.budget, some limits.grace, some limits.grace]
  reaped_once : events.countP Event.isReap = 1

theorem terminate_mem_iff (h : last < 3) :
    .signalSession .terminate ∈ escalation limits last ++ cleanup ↔ 0 < last := by
  obtain rfl | rfl | rfl : last = 0 ∨ last = 1 ∨ last = 2 := by omega
  all_goals simp [escalation, rounds, Round.events, cleanup]

/-- The waits are those of the rounds. -/
theorem filterMap_wait? (limits : Limits) (last : Nat) :
    (escalation limits last ++ cleanup).filterMap Event.wait? =
      ((rounds limits).take (last + 1)).map Round.budget := by
  have hcleanup : cleanup.filterMap Event.wait? = [] := rfl
  have hround : ∀ r : Round, r.events.filterMap Event.wait? = [r.budget] := by
    rintro ⟨_ | signal, budget⟩ <;> rfl
  rw [List.filterMap_append, hcleanup, List.append_nil, escalation, List.filterMap_flatMap,
    List.map_eq_flatMap]
  simp only [hround]

theorem countP_isReap (limits : Limits) (last : Nat) :
    (escalation limits last ++ cleanup).countP Event.isReap = 1 := by
  have hround : ∀ r : Round, r.events.countP Event.isReap = 0 := by
    rintro ⟨_ | signal, budget⟩ <;> rfl
  have hrounds : (escalation limits last).countP Event.isReap = 0 := by
    rw [List.countP_eq_zero]
    intro e he
    obtain ⟨r, _, he⟩ := List.mem_flatMap.mp he
    exact List.countP_eq_zero.mp (hround r) e he
  rw [List.countP_append, hrounds]
  rfl

/-- **Every supervision is an escalation and a cleanup, with one reaping.** -/
theorem supervise_escalated (limits : Limits) (script : ProcessScript)
    (hsessions : limits.sessions = true) :
    Escalated limits script (supervise limits script).events (supervise limits script).result := by
  obtain ⟨last, h⟩ := exists_lasts script
  obtain ⟨hevents, _⟩ := supervise_lasts limits h
  rw [hevents hsessions]
  refine ⟨⟨last, h, rfl, result_eq_error_iff limits h⟩, fun r hr => ?_, ?_, countP_isReap limits last⟩
  · rw [terminate_mem_iff h.lt, timedOut_eq h hr, decide_eq_true_iff]
  · rw [filterMap_wait?]
    exact (List.take_prefix _ _).map _

end Process

end CoreAudit
