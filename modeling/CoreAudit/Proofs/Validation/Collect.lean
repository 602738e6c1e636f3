import CoreAudit.Proofs.Pool.Run
import CoreAudit.Validation

/-!
# The votes that are collected

Votes are cast one after the other or by a pool under a schedule. Where the tasks that cast them
keep a contract, both ways keep it: whatever the schedule is, the votes are those of the
validators in their order, and every validator votes exactly once.

Headlines:
* **`collect_ok`**: what is known of collected votes and of the session after them.
* **`exists_collect_ok`**: where no task can fail, the votes are collected.
* `of_collect_error`: where they are not, the fault is that of a task.
* `collect_upholds`: the contract is kept also where they are not.
* **`identifiers_of_collect`**: collected votes are those of the validators, in order.
-/

namespace CoreAudit

namespace Pool

theorem values_eq_ok {α : Type} {outcomes : List (Except Fault α)} {xs : List α}
    (h : values outcomes = .ok xs) : outcomes = xs.map .ok := by
  induction outcomes generalizing xs with
  | nil =>
    cases h
    rfl
  | cons outcome outcomes ih =>
    cases outcome with
    | error f => cases h
    | ok x =>
      rw [values] at h
      rcases hrest : values outcomes with f | ys
      · rw [hrest] at h
        cases h
      · rw [hrest] at h
        cases h
        rw [ih hrest]
        rfl

theorem exists_values_eq_ok {α : Type} {outcomes : List (Except Fault α)}
    (h : ∀ (i : Nat) (f : Fault), outcomes[i]? ≠ some (.error f)) : ∃ xs, values outcomes = .ok xs := by
  induction outcomes with
  | nil => exact ⟨[], rfl⟩
  | cons outcome outcomes ih =>
    cases outcome with
    | error f => exact absurd rfl (h 0 f)
    | ok x =>
      obtain ⟨xs, hxs⟩ := ih fun i f => h (i + 1) f
      exact ⟨x :: xs, by rw [values, hxs]; rfl⟩

theorem of_values_eq_error {α : Type} {outcomes : List (Except Fault α)} {f : Fault}
    (h : values outcomes = .error f) : ∃ i : Nat, outcomes[i]? = some (.error f) := by
  induction outcomes with
  | nil => cases h
  | cons outcome outcomes ih =>
    cases outcome with
    | error g =>
      cases h
      exact ⟨0, rfl⟩
    | ok x =>
      rw [values] at h
      rcases hrest : values outcomes with g | ys
      · rw [hrest] at h
        cases h
        obtain ⟨i, hi⟩ := ih hrest
        exact ⟨i + 1, hi⟩
      · rw [hrest] at h
        cases h

end Pool

namespace Validation

variable {v : Validation} {formula workdir : Text} {ids : List Text}

theorem length_tasks : (v.tasks formula workdir ids).length = ids.length := List.length_mapIdx

/-- The task at a place casts the vote of the validator there. -/
theorem getElem?_tasks {i : Nat} {task : Act Vote}
    (h : (v.tasks formula workdir ids)[i]? = some task) :
    ∃ id, ids[i]? = some id ∧ task = v.vote formula (directory workdir i id) id := by
  rw [tasks, List.getElem?_mapIdx, Option.map_eq_some_iff] at h
  obtain ⟨id, hid, rfl⟩ := h
  exact ⟨id, hid, rfl⟩

theorem exists_runnerFor_ok (id : Text) (s : Session) :
    ∃ runner t, runnerFor id s = (.ok runner, t) := by
  unfold runnerFor
  rw [Act.bind_of_ok (Act.get_run s)]
  rcases s.toolbox.validators.get? id with _ | runner
  · exact ⟨_, _, rfl⟩
  · exact ⟨runner, s, rfl⟩

/-- Runners are found beforehand one after the other. -/
theorem prepare_cons {id : Text} {runner : Runner} {s t : Session}
    (h : runnerFor id s = (.ok runner, t)) (ids : List Text) :
    ((id :: ids).forM fun id => discard (runnerFor id)) s =
      (ids.forM fun id => discard (runnerFor id)) t := by
  have hfirst : (discard (runnerFor id) : Act PUnit) s = (.ok (), t) := by
    show (runnerFor id >>= fun _ => pure ()) s = _
    rw [Act.bind_of_ok h]
    rfl
  show (discard (runnerFor id) >>= fun _ => ids.forM fun id => discard (runnerFor id)) s = _
  rw [Act.bind_of_ok hfirst]

theorem exists_prepare_ok (ids : List Text) (s : Session) :
    ∃ t, (ids.forM fun id => discard (runnerFor id)) s = (.ok (), t) := by
  induction ids generalizing s with
  | nil => exact ⟨s, rfl⟩
  | cons id ids ih =>
    obtain ⟨runner, u, hrunner⟩ := exists_runnerFor_ok id s
    rw [prepare_cons hrunner]
    exact ih u

variable {I : List Nat → Session → Prop} {P : Nat → Except Fault Vote → Prop}
  {schedule : List Pool.Move} {s t : Session}

/-- **Collected votes are those that the tasks cast, in the order of the validators, and every task
was run exactly once; in order, where one runs after the other.** -/
theorem collect_ok (C : Pool.Contract (v.tasks formula workdir ids) I P) (h : I [] s)
    (hprepare : ∀ u, (ids.forM fun id => discard (runnerFor id)) s = (.ok (), u) → I [] u)
    {votes : List Vote} (hrun : v.collect schedule formula workdir ids s = (.ok votes, t)) :
    ∃ started, started.Perm (List.range ids.length) ∧
      (v.jobs ≤ 1 → started = List.range ids.length) ∧ I started t ∧
      votes.length = ids.length ∧ ∀ i vote, votes[i]? = some vote → P i (.ok vote) := by
  unfold collect at hrun
  split at hrun
  · obtain ⟨hend, hlength, hvotes⟩ := C.mapM_ok h hrun
    rw [length_tasks] at hend hlength
    exact ⟨_, .refl _, fun _ => rfl, hend, hlength, hvotes⟩
  · rename_i hpool
    rw [not_or, Nat.not_le, Nat.not_le] at hpool
    have hworkers : 0 < min v.jobs (v.tasks formula workdir ids).length := by
      rw [length_tasks]
      omega
    rw [Act.bind_eq_ok] at hrun
    obtain ⟨_, u, hbefore, hrun⟩ := hrun
    rw [Act.bind_eq_ok] at hrun
    obtain ⟨outcomes, w, hpool', hrun⟩ := hrun
    rw [Act.ofExcept_eq_ok] at hrun
    obtain ⟨hvalues, rfl⟩ := hrun
    obtain ⟨started, hperm, hend, hlength, houtcomes⟩ :=
      C.run_ok hworkers (hprepare u hbefore) hpool'
    have hvotes := Pool.values_eq_ok hvalues
    rw [length_tasks] at hperm hlength
    rw [hvotes] at hlength houtcomes
    rw [List.length_map] at hlength
    refine ⟨started, hperm, fun hjobs => ?_, hend, hlength, fun i vote hi => ?_⟩
    · omega
    · exact houtcomes i (.ok vote) (by rw [List.getElem?_map, hi]; rfl)

/-- **Where no task can fail, the votes are collected.** -/
theorem exists_collect_ok (schedule : List Pool.Move)
    (C : Pool.Contract (v.tasks formula workdir ids) I P)
    (hok : ∀ i f, ¬ P i (.error f)) (h : I [] s)
    (hprepare : ∀ u, (ids.forM fun id => discard (runnerFor id)) s = (.ok (), u) → I [] u) :
    ∃ votes t, v.collect schedule formula workdir ids s = (.ok votes, t) := by
  unfold collect
  split
  · exact C.exists_mapM_ok hok h
  · rename_i hpool
    rw [not_or, Nat.not_le, Nat.not_le] at hpool
    have hworkers : 0 < min v.jobs (v.tasks formula workdir ids).length := by
      rw [length_tasks]
      omega
    obtain ⟨u, hbefore⟩ := exists_prepare_ok ids s
    have hstart := hprepare u hbefore
    obtain ⟨outcomes, w, hrun⟩ :
        ∃ outcomes w, Pool.run (min v.jobs (v.tasks formula workdir ids).length) policy
          .validation (Pool.unlimited schedule) (v.tasks formula workdir ids) u =
            (.ok outcomes, w) := C.exists_run_ok hok hworkers hstart schedule
    obtain ⟨_, _, _, _, houtcomes⟩ := C.run_ok hworkers hstart hrun
    have hvalues : ∀ (i : Nat) (f : Fault), outcomes[i]? ≠ some (.error f) :=
      fun i f hi => hok i f (houtcomes i (.error f) hi)
    obtain ⟨votes, hvotes⟩ := Pool.exists_values_eq_ok hvalues
    refine ⟨votes, w, ?_⟩
    rw [Act.bind_of_ok hbefore, Act.bind_of_ok hrun, hvotes]
    rfl

/-- **A fault that keeps votes from being collected is that of a task.** -/
theorem of_collect_error (C : Pool.Contract (v.tasks formula workdir ids) I P) (h : I [] s)
    (hprepare : ∀ u, (ids.forM fun id => discard (runnerFor id)) s = (.ok (), u) → I [] u)
    {f : Fault} (hrun : v.collect schedule formula workdir ids s = (.error f, t)) :
    ∃ i, P i (.error f) := by
  unfold collect at hrun
  split at hrun
  · exact C.of_mapM_error h hrun
  · rename_i hpool
    rw [not_or, Nat.not_le, Nat.not_le] at hpool
    have hworkers : 0 < min v.jobs (v.tasks formula workdir ids).length := by
      rw [length_tasks]
      omega
    obtain ⟨u, hbefore⟩ := exists_prepare_ok ids s
    have hstart := hprepare u hbefore
    rw [Act.bind_of_ok hbefore] at hrun
    rcases hpool' : Pool.run (min v.jobs (v.tasks formula workdir ids).length) policy .validation
      (Pool.unlimited schedule) (v.tasks formula workdir ids) u with ⟨g | outcomes, w⟩
    · rw [Act.bind_run, hpool'] at hrun
      cases hrun
      exact (C.of_run_error hworkers hstart hpool').2
    · rw [Act.bind_of_ok hpool', Act.ofExcept_run] at hrun
      obtain ⟨i, hi⟩ := Pool.of_values_eq_error (congrArg Prod.fst hrun)
      obtain ⟨_, _, _, _, houtcomes⟩ := C.run_ok hworkers hstart hpool'
      exact ⟨i, houtcomes i _ hi⟩

/-- **The contract is kept also where the votes are not collected.** -/
theorem collect_upholds (C : Pool.Contract (v.tasks formula workdir ids) I P) (h : I [] s)
    (hprepare : ∀ u, (ids.forM fun id => discard (runnerFor id)) s = (.ok (), u) → I [] u) :
    ∃ started, I started (v.collect schedule formula workdir ids s).2 := by
  unfold collect
  split
  · exact C.mapM_upholds h
  · obtain ⟨u, hbefore⟩ := exists_prepare_ok ids s
    obtain ⟨started, hrun⟩ := C.run_upholds (hprepare u hbefore) (Pool.unlimited schedule)
    refine ⟨started, ?_⟩
    rw [Act.bind_of_ok hbefore, Act.bind_run]
    rcases hend : Pool.run (min v.jobs (v.tasks formula workdir ids).length) policy .validation
      (Pool.unlimited schedule) (v.tasks formula workdir ids) u with ⟨f | outcomes, t⟩
    · rw [hend] at hrun
      exact hrun
    · rw [hend] at hrun
      dsimp only
      rw [Act.ofExcept_run]
      exact hrun

/-- The record of the tally keeps it too. -/
theorem validate_upholds (C : Pool.Contract (v.tasks formula workdir ids) I P) (h : I [] s)
    (hprepare : ∀ u, (ids.forM fun id => discard (runnerFor id)) s = (.ok (), u) → I [] u) :
    ∃ started, I started (v.validate schedule formula workdir ids s).2 := by
  obtain ⟨started, hend⟩ : ∃ started, I started (v.collect schedule formula workdir ids s).2 :=
    collect_upholds C h hprepare
  refine ⟨started, ?_⟩
  unfold validate
  rw [Act.bind_run]
  rcases hvotes : v.collect schedule formula workdir ids s with ⟨f | votes, t⟩
  · rw [hvotes] at hend
    exact hend
  · rw [hvotes] at hend
    exact C.records [tallyRecord (Tally.ofVotes votes)] hend

/-! ## Whose votes they are -/

theorem identifier_of_vote {id : Text} {vote : Vote}
    (h : v.vote formula workdir id s = (.ok vote, t)) : vote.identifier = id := by
  unfold Validation.vote at h
  rw [Act.bind_eq_ok] at h
  obtain ⟨runner, _, _, h⟩ := h
  rw [Act.bind_eq_ok] at h
  obtain ⟨_, _, _, h⟩ := h
  rw [Act.bind_eq_ok] at h
  obtain ⟨outcome, _, _, h⟩ := h
  dsimp only at h
  rw [Act.bind_eq_ok] at h
  obtain ⟨_, _, _, h⟩ := h
  rw [Act.ofExcept_eq_ok] at h
  obtain ⟨h, _⟩ := h
  unfold voteOf at h
  cases outcome with
  | ok result =>
    cases h
    rfl
  | error f =>
    dsimp only at h
    split at h
    · cases h
      rfl
    · cases h

/-- Whatever the session, a vote that a task casts is its validator's. -/
theorem identifier_contract :
    Pool.Contract (v.tasks formula workdir ids) (fun _ _ => True)
      (fun i outcome => ∀ vote, outcome = .ok vote → ids[i]? = some vote.identifier) where
  records := fun _ _ => trivial
  task := by
    intro started s i task htask _ _
    obtain ⟨id, hid, rfl⟩ := getElem?_tasks htask
    refine ⟨fun vote hvote => ?_, trivial⟩
    have hrun : v.vote formula (directory workdir i id) id s =
        (.ok vote, (v.vote formula (directory workdir i id) id s).2) := Prod.ext hvote rfl
    rw [identifier_of_vote hrun]
    exact hid

/-- **Collected votes are those of the validators, in order**, under every schedule. -/
theorem identifiers_of_collect {votes : List Vote}
    (h : v.collect schedule formula workdir ids s = (.ok votes, t)) :
    votes.map Vote.identifier = ids := by
  obtain ⟨_, _, _, _, hlength, hvotes⟩ :=
    collect_ok identifier_contract trivial (fun _ _ => trivial) h
  refine List.ext_getElem? fun i => ?_
  rw [List.getElem?_map]
  rcases hi : votes[i]? with _ | vote
  · rw [List.getElem?_eq_none_iff, hlength, ← List.getElem?_eq_none_iff] at hi
    rw [hi]
    rfl
  · exact (hvotes i vote hi vote rfl).symm

/-- Validated votes are collected votes, and nothing else than their tally is recorded. -/
theorem validate_eq_ok {votes : List Vote} :
    v.validate schedule formula workdir ids s = (.ok votes, t) ↔
      ∃ u, v.collect schedule formula workdir ids s = (.ok votes, u) ∧
        t = u.mark [.record (tallyRecord (Tally.ofVotes votes))] := by
  unfold validate
  rw [Act.bind_eq_ok]
  constructor
  · rintro ⟨collected, u, hcollect, h⟩
    rw [Act.bind_of_ok (Act.records_run _ u), Act.pure_eq_ok] at h
    obtain ⟨rfl, rfl⟩ := h
    exact ⟨u, hcollect, rfl⟩
  · rintro ⟨u, hcollect, rfl⟩
    exact ⟨votes, u, hcollect, rfl⟩

/-- A validation ends in the faults that keep its votes from being collected. -/
theorem of_validate_error {f : Fault}
    (h : (v.validate schedule formula workdir ids s).1 = .error f) :
    (v.collect schedule formula workdir ids s).1 = .error f := by
  unfold validate at h
  rw [Act.bind_run] at h
  rcases hcollect : v.collect schedule formula workdir ids s with ⟨g | votes, u⟩
  · rw [hcollect] at h
    exact h
  · rw [hcollect] at h
    cases h

end Validation

end CoreAudit
