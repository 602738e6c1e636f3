import CoreAudit.Process.Supervision

/-!
# The steps of a supervision

A wait brings the next reply and takes its time. A signal is an event, and perhaps a record; to a
process that is not signalled with its session it is also two looks, and a process that is found to
have exited tells its exit code. A signal changes nothing else: the waits to come, the seconds that
passed and the events that belong to no signal stay (`Running.Beside`).

Headlines:
* `Running.await_awaited`: what a wait does.
* `Running.signal_beside`: a signal leaves everything else as it is.
* **`Looked.signal`**: after every signal the exit code is known iff one of the looks so far found
  that the process had exited.
-/

namespace CoreAudit

namespace Event

/-- The event belongs to a signal: it is the signal, or the question in front of it whether the
process is still there. -/
def isSignalling : Event → Bool
  | signalSession _ | poll | signalProcess _ => true
  | _ => false

/-- The events without those of signals. -/
def unsignalled (events : List Event) : List Event := events.filter (!·.isSignalling)

theorem unsignalled_append (events more : List Event) :
    unsignalled (events ++ more) = unsignalled events ++ unsignalled more :=
  List.filter_append ..

end Event

namespace Process

open Event (unsignalled)

namespace Running

/-- Two processes under way that differ in what belongs to signals only: the signals themselves,
what becomes of them, the looks and what they find, and the records. -/
structure Beside (r t : Running) : Prop where
  exchanges : r.script.exchanges = t.script.exchanges
  exitCode : r.script.exitCode = t.script.exitCode
  elapsed : r.elapsed = t.elapsed
  events : unsignalled r.events = unsignalled t.events

variable {r t u : Running}

theorem Beside.trans (h : r.Beside t) (h' : t.Beside u) : r.Beside u :=
  ⟨h.exchanges.trans h'.exchanges, h.exitCode.trans h'.exitCode, h.elapsed.trans h'.elapsed,
    h.events.trans h'.events⟩

theorem trace_beside (r : Running) {e : Event} (he : e.isSignalling = true) :
    (r.trace e).Beside r := by
  refine ⟨rfl, rfl, rfl, ?_⟩
  simp [trace, unsignalled, he]

theorem send_eq (r : Running) : ∃ deliveries records,
    r.send = { r with script := { r.script with deliveries := deliveries }, records := records } := by
  unfold send
  split
  · exact ⟨_, _, rfl⟩
  · dsimp only
    split <;> exact ⟨_, _, rfl⟩

theorem send_beside (r : Running) : r.send.Beside r := by
  obtain ⟨deliveries, records, h⟩ := r.send_eq
  rw [h]
  exact ⟨rfl, rfl, rfl, rfl⟩

theorem look_beside (r : Running) : r.look.Beside r := by
  unfold look
  split <;> exact ⟨rfl, rfl, rfl, rfl⟩

theorem signalAlone_beside (r : Running) (s : Signal) : (r.signalAlone s).Beside r := by
  have hasked : (r.trace .poll).look.Beside r := (look_beside _).trans (r.trace_beside rfl)
  have hsent : (((r.trace .poll).look.trace (.signalProcess s)).look).Beside r :=
    (look_beside _).trans ((trace_beside _ rfl).trans hasked)
  unfold signalAlone
  dsimp only
  split
  · exact hasked
  · split
    · exact hsent
    · exact (send_beside _).trans hsent

/-- **A signal leaves everything else as it is**, however it is sent and whatever becomes of it. -/
theorem signal_beside (r : Running) (limits : Limits) (s : Signal) :
    (r.signal limits s).Beside r := by
  unfold signal
  split
  · exact (send_beside _).trans (r.trace_beside rfl)
  · exact r.signalAlone_beside s

theorem signal_events (r : Running) {limits : Limits} (hsessions : limits.sessions = true)
    (s : Signal) : (r.signal limits s).events = r.events ++ [.signalSession s] := by
  unfold signal
  rw [if_pos hsessions]
  obtain ⟨deliveries, records, h⟩ := (r.trace (.signalSession s)).send_eq
  rw [h]
  rfl

theorem look_of_isSome (h : r.returnCode.isSome) : r.look = r := by
  obtain ⟨code, hcode⟩ := Option.isSome_iff_exists.mp h
  unfold look
  rw [hcode]

end Running

/-- What a wait with a budget does to a process under way: the reply and what comes of it. -/
structure Awaited (r : Running) (budget : Option Budget) (reply : Reply) (u : Running) : Prop where
  next : reply = (r.script.exchanges.head?.map Exchange.reply).getD (.output none)
  script : u.script = { r.script with exchanges := r.script.exchanges.tail }
  elapsed : u.elapsed = r.script.exchanges.head?.toList.foldl (· + ·.duration) r.elapsed
  events : u.events = r.events ++ [.await budget]
  code_of_silence : reply = .silence → u.returnCode = r.returnCode
  code_of_output : ∀ bytes, reply = .output bytes → u.returnCode = some r.script.exitCode

/-- A wait brings the next reply. Only complete output makes the exit code known. -/
theorem Running.await_awaited (r : Running) (budget : Option Budget) :
    Awaited r budget (r.await budget).1 (r.await budget).2 := by
  obtain ⟨⟨number, exchanges, deliveries, code, sightings⟩, elapsed, returnCode, events, records⟩ := r
  rcases exchanges with _ | ⟨⟨duration, reply⟩, rest⟩
  · exact ⟨rfl, rfl, rfl, rfl, nofun, fun _ _ => rfl⟩
  · cases reply with
    | output bytes => exact ⟨rfl, rfl, rfl, rfl, nofun, fun _ _ => rfl⟩
    | silence => exact ⟨rfl, rfl, rfl, rfl, fun _ => rfl, nofun⟩
    | fault f => exact ⟨rfl, rfl, rfl, rfl, nofun, nofun⟩

/-! ## What the looks find -/

/-- A process under way whose output did not end, after some looks: its exit code is known iff one
of them found that it had exited, and else they were used up. -/
structure Looked (script : ProcessScript) (looks : Nat) (r : Running) : Prop where
  exitCode : r.script.exitCode = script.exitCode
  found : true ∈ script.sightings.take looks → r.returnCode = some script.exitCode
  unfound : true ∉ script.sightings.take looks →
    r.returnCode = none ∧ r.script.sightings = script.sightings.drop looks

/-- The looks that come with a number of signals. -/
def Limits.looks (limits : Limits) (signals : Nat) : Nat :=
  if limits.sessions then 0 else 2 * signals

namespace Looked

variable {script : ProcessScript} {looks : Nat} {r : Running}

theorem start (script : ProcessScript) : Looked script 0 (Running.start script) :=
  ⟨rfl, fun h => by simp at h, fun _ => ⟨rfl, rfl⟩⟩

theorem trace (h : Looked script looks r) (e : Event) : Looked script looks (r.trace e) :=
  ⟨h.exitCode, h.found, h.unfound⟩

theorem note (h : Looked script looks r) (level : Level) (text : Text) :
    Looked script looks (r.note level text) := ⟨h.exitCode, h.found, h.unfound⟩

theorem send (h : Looked script looks r) : Looked script looks r.send := by
  obtain ⟨deliveries, records, hsend⟩ := r.send_eq
  rw [hsend]
  exact ⟨h.exitCode, h.found, h.unfound⟩

theorem of_isSome (h : Looked script looks r) (hsome : r.returnCode.isSome) {more : Nat}
    (hmore : looks ≤ more) : Looked script more r := by
  have hfound : true ∈ script.sightings.take looks := by
    refine Decidable.byContradiction fun hunfound => ?_
    rw [(h.unfound hunfound).1] at hsome
    cases hsome
  have hmem := (List.take_prefix_take_left hmore).subset hfound
  exact ⟨h.exitCode, fun _ => h.found hfound, fun hunfound => absurd hmem hunfound⟩

/-- **A look at a process that is not known to have exited takes the next sighting.** -/
theorem look (h : Looked script looks r) : Looked script (looks + 1) r.look := by
  by_cases hsome : r.returnCode.isSome
  · rw [Running.look_of_isSome hsome]
    exact h.of_isSome hsome (Nat.le_succ looks)
  · have hunfound : true ∉ script.sightings.take looks := by
      intro hfound
      rw [h.found hfound] at hsome
      exact hsome rfl
    obtain ⟨hcode, hsightings⟩ := h.unfound hunfound
    have htake : script.sightings.take (looks + 1) =
        script.sightings.take looks ++ (script.sightings.drop looks).head?.toList := by
      rw [List.take_add_one, List.head?_drop]
    have hrest : script.sightings.drop (looks + 1) = (script.sightings.drop looks).tail := by
      rw [List.tail_drop]
    rw [← hsightings] at htake hrest
    unfold Running.look
    rw [hcode]
    rcases hleft : r.script.sightings with _ | ⟨exited, rest⟩
    · rw [hleft] at htake hrest
      refine ⟨h.exitCode, fun hfound => absurd hfound ?_, fun _ => ⟨hcode, ?_⟩⟩
      · simpa [htake] using hunfound
      · rw [hleft, hrest]
        rfl
    · rw [hleft] at htake hrest
      cases exited with
      | true =>
        refine ⟨h.exitCode, fun _ => congrArg some h.exitCode, fun hnot => absurd ?_ hnot⟩
        simp [htake]
      | false =>
        refine ⟨h.exitCode, fun hfound => absurd hfound ?_, fun _ => ⟨rfl, hrest.symm⟩⟩
        simpa [htake] using hunfound

theorem signalAlone (h : Looked script looks r) (s : Signal) :
    Looked script (looks + 2) (r.signalAlone s) := by
  have hasked := (h.trace .poll).look
  have hsent := (hasked.trace (.signalProcess s)).look
  unfold Running.signalAlone
  dsimp only
  split
  case isTrue hsome => exact hasked.of_isSome hsome (Nat.le_succ _)
  case isFalse =>
    split
    · exact hsent
    · exact hsent.send

/-- **A signal to a process alone is two looks**; a session is signalled without a look. -/
theorem signal {limits : Limits} {signals : Nat} (h : Looked script (limits.looks signals) r)
    (s : Signal) : Looked script (limits.looks (signals + 1)) (r.signal limits s) := by
  unfold Running.signal
  unfold Limits.looks at h ⊢
  split
  case isTrue hsessions =>
    rw [if_pos hsessions] at h
    exact (h.trace _).send
  case isFalse hsessions =>
    rw [if_neg hsessions] at h
    exact h.signalAlone s

end Looked

end Process

end CoreAudit
