import CoreAudit.Proofs.Action

/-!
# What runners are asked

The calls of runners with answers given in advance are in the trace of a session. `Session.asked`
lists what was asked by them, with the labels of the runners and without what the files held at
the moment, so that two sessions can be compared in which the files differ.

Headlines:
* **`invocation_call`**: a call asks what the invocation asks.
* `asked_mark_records`, `asked_mark_call`: what marks add.
-/

namespace CoreAudit

/-- What a runner was asked, without what it could see of the files. -/
def Call.invocation (c : Call) : Invocation :=
  ⟨c.input.map Named.word, c.args.map Named.word, c.timeout, c.stdin.map Named.word, c.workdir⟩

theorem Invocation.invocation_call (v : Invocation) (s : Session) : (v.call s).invocation = v := by
  obtain ⟨input, args, timeout, stdin, workdir⟩ := v
  have hword : Named.word ∘ Named.ofTree s.files s.here = id := rfl
  unfold call Call.invocation
  dsimp only
  rw [Option.map_map, Option.map_map, List.map_map, hword, Option.map_id, List.map_id]
  rfl

/-- What is asked by a mark, with the label of the runner. -/
def Mark.asked? : Mark → Option (Text × Invocation)
  | call label c => some (label, c.invocation)
  | _ => none

namespace Session

/-- What runners with answers given in advance were asked, in order. -/
def asked (s : Session) : List (Text × Invocation) := s.trace.filterMap Mark.asked?

/-- Records ask nothing. -/
theorem asked_mark_records (s : Session) (rs : List LogRecord) :
    (s.mark (rs.map .record)).asked = s.asked := by
  unfold asked mark
  rw [List.filterMap_append, Mark.filterMap_records (fun _ => rfl), List.append_nil]

/-- A call asks once. -/
theorem asked_mark_call (s : Session) (label : Text) (c : Call) :
    (s.mark [.call label c]).asked = s.asked ++ [(label, c.invocation)] :=
  List.filterMap_append

theorem getLast?_records_mark (s : Session) (r : LogRecord) :
    (s.mark [.record r]).records.getLast? = some r := by
  have hrecords := s.records_mark [r]
  rw [List.map_singleton] at hrecords
  rw [hrecords, List.getLast?_append]
  rfl

end Session

end CoreAudit
