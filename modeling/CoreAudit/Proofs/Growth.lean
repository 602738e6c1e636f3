import CoreAudit.Proofs.Steady

/-!
# Traces only grow

Actions leave their marks behind those that are there and take none back, whichever way they end.
So what happened up to some point of an audit is the beginning of what happened in all of it.

Headlines:
* **`grows_validate`**: no validation takes a mark back, under any schedule.
* **`grows_voteOn`**, **`grows_leave`**: nor does what an audit does after its reconstruction.
-/

namespace CoreAudit

namespace Act

variable {α β : Type}

/-- The action takes no marks back, whichever way it ends. -/
def Grows (act : Act α) : Prop := ∀ s : Session, s.trace <+: (act s).2.trace

theorem grows_of_trace_eq {act : Act α} (h : ∀ s, (act s).2.trace = s.trace) : Grows act :=
  fun s => ⟨[], (List.append_nil _).trans (h s).symm⟩

theorem grows_pure (x : α) : Grows (pure x) := grows_of_trace_eq fun _ => rfl

theorem grows_ofExcept (r : Except Fault α) : Grows (ofExcept r) :=
  grows_of_trace_eq fun s => by rw [ofExcept_run]

theorem Grows.bind {act : Act α} {next : α → Act β} (h : Grows act)
    (hnext : ∀ x, Grows (next x)) : Grows (act >>= next) := by
  intro s
  rw [bind_run]
  have hact := h s
  rcases hrun : act s with ⟨f | x, t⟩
  · rw [hrun] at hact
    exact hact
  · rw [hrun] at hact
    exact hact.trans (hnext x t)

theorem grows_records (rs : List LogRecord) : Grows (records rs) := fun _ => List.prefix_append _ _

theorem grows_writeFile (path text : Text) : Grows (writeFile path text) := by
  refine grows_of_trace_eq fun s => ?_
  unfold writeFile
  rw [bind_of_ok (get_run s)]
  rcases s.files.write s.here path (Text.Utf8.encode text) with problem | files <;> rfl

theorem grows_makePath (path : Text) : Grows (makePath path) := by
  refine grows_of_trace_eq fun s => ?_
  rcases hmade : (s.files.makePath s.here path).2 with _ | problem
  · rw [makePath_run hmade]
  · rw [makePath_run_error hmade]

theorem grows_run (r : Runner) (v : Invocation) : Grows (r.run v) := by
  intro s
  obtain ⟨marks, hmarks⟩ := r.exists_marks v s
  rw [hmarks]
  exact List.prefix_append _ _

end Act

namespace Validation

open Act

theorem grows_runnerFor (id : Text) : Grows (runnerFor id) := by
  intro s
  unfold runnerFor
  rw [bind_of_ok (get_run s)]
  rcases s.toolbox.validators.get? id with _ | runner
  · exact List.prefix_append _ _
  · exact List.prefix_rfl

theorem grows_prepare (ids : List Text) : Grows (ids.forM fun id => discard (runnerFor id)) := by
  intro s
  induction ids generalizing s with
  | nil => exact List.prefix_rfl
  | cons id ids ih =>
    obtain ⟨runner, t, hfound⟩ := exists_runnerFor_ok id s
    have hfirst := grows_runnerFor id s
    rw [hfound] at hfirst
    rw [prepare_cons hfound]
    exact hfirst.trans (ih t)

theorem grows_vote (v : Validation) (formula workdir id : Text) :
    Grows (v.vote formula workdir id) := by
  refine (grows_runnerFor id).bind fun runner => (grows_makePath workdir).bind fun _ => ?_
  refine Grows.bind (fun s => grows_run runner _ s) fun outcome => ?_
  exact (grows_records _).bind fun _ => grows_ofExcept _

/-- **A validation takes no marks back**, under any schedule. -/
theorem grows_validate (v : Validation) (schedule : List Pool.Move) (formula workdir : Text)
    (ids : List Text) : Grows (v.validate schedule formula workdir ids) := by
  intro s
  have C : Pool.Contract (v.tasks formula workdir ids) (fun _ t => s.trace <+: t.trace)
      (fun _ _ => True) := by
    refine ⟨fun _ h => h.trans (List.prefix_append _ _), ?_⟩
    intro _ t i task htask _ h
    obtain ⟨id, _, rfl⟩ := getElem?_tasks htask
    exact ⟨trivial, h.trans (v.grows_vote formula _ id t)⟩
  have hprepare := grows_prepare ids s
  obtain ⟨_, hend⟩ := validate_upholds C List.prefix_rfl fun u hu => by rwa [hu] at hprepare
  exact hend

end Validation

namespace Audit

open Act Validation

/-- **Votes on a core take no marks back.** -/
theorem grows_voteOn (a : Audit) (schedule : List Pool.Move) (b : Benchmark) (core : UnsatCore)
    (workdir : Text) : Grows (a.voteOn schedule b core workdir) :=
  (grows_records _).bind fun _ => (grows_ofExcept _).bind fun _ =>
    (grows_ofExcept _).bind fun _ => (grows_writeFile _ _).bind fun _ =>
      (grows_validate _ _ _ _ _).bind fun _ => grows_pure _

theorem grows_leave (a : Audit) (scratch : Location) : Grows (a.leave scratch) := by
  unfold leave
  split
  · exact grows_records _
  · exact fun _ => List.prefix_rfl

end Audit

end CoreAudit
