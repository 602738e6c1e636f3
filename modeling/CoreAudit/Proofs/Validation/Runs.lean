import CoreAudit.Proofs.Process.Escalation
import CoreAudit.Proofs.Validation.Concurrency

/-!
# Runs of validators

Validators may be of any kind: executables, the prover in the process, or runners with answers given
in advance. Where it is known what the run of every validator comes to (`Plays`), whichever others
ran before it, the votes of a validation are the ballots of these runs, one after the other and side
by side. A run that ends in a fault of input and output costs the vote of its validator and nothing
else; every other fault ends the validation.

Headlines:
* **`Midway.vote`**: a vote in the middle of a validation is that of one run.
* `Midway.of_validate`: a validation makes directories of validators and no other change.
* `Answers.plays`: runners with answers given in advance play by them.
* **`validate_eq_ballots`**: votes that are validated are the ballots of the runs.
* **`of_validate_eq_error`**: only a fault that is not one of input and output ends a validation.
-/

namespace CoreAudit

/-- The runner of a validator: the one that is known, else the one of the settings. -/
def Session.runnerOf (s : Session) (id : Text) : Runner :=
  (s.toolbox.validators.get? id).getD (Runner.ofSettings s.settings id).1

theorem Runner.exists_marks (r : Runner) (v : Invocation) (s : Session) :
    ∃ marks, (r.run v s).2 = s.mark marks := by
  cases r with
  | executable x =>
    show ∃ marks, (x.run v s).2 = s.mark marks
    rw [Executable.run_eq]
    rcases x.opened v s with f | script
    · exact ⟨_, rfl⟩
    · exact ⟨_, rfl⟩
  | prover =>
    unfold Runner.run Prover.run
    dsimp only
    rw [Act.bind_of_ok (Act.get_run s), Act.bind_of_ok (Act.mark_run _ _),
      Act.bind_of_ok (Act.records_run _ _), Act.ofExcept_run, Session.mark_mark]
    exact ⟨_, rfl⟩
  | scripted label reply =>
    rw [Runner.run_scripted]
    exact ⟨_, rfl⟩

namespace Validation

/-- What is known of a session in the middle of a validation: the host and the settings are those of
the start, so are the runners, and nothing but directories of validators was made. -/
structure Midway (workdir : Text) (ids : List Text) (s t : Session) : Prop where
  host : t.host = s.host
  here : t.here = s.here
  settings : t.settings = s.settings
  runnerOf : ∀ id, t.runnerOf id = s.runnerOf id
  files : ∃ made, (∀ p ∈ made, p ∈ directories workdir ids) ∧
    t.files = s.files.makePaths s.here made

/-- The same, just after the directory of the validator at a place was to be made. -/
structure Midway.Made (workdir : Text) (ids : List Text) (s : Session) (place : Nat) (id : Text)
    (t : Session) : Prop extends Midway workdir ids s t where
  made : ∃ made, (∀ p ∈ made, p ∈ directories workdir ids) ∧
    t.files = s.files.makePaths s.here (made ++ [directory workdir place id])

variable {v : Validation} {formula workdir : Text} {ids : List Text} {s t : Session} {i : Nat}
  {id : Text}

namespace Midway

theorem refl (workdir : Text) (ids : List Text) (s : Session) : Midway workdir ids s s :=
  ⟨rfl, rfl, rfl, fun _ => rfl, [], fun _ hp => absurd hp List.not_mem_nil, rfl⟩

theorem mark (M : Midway workdir ids s t) (marks : List Mark) : Midway workdir ids s (t.mark marks) :=
  ⟨M.host, M.here, M.settings, M.runnerOf, M.files⟩

theorem runnerFor (M : Midway workdir ids s t) (id : Text) :
    ∃ u, Validation.runnerFor id t = (.ok (s.runnerOf id), u) ∧ Midway workdir ids s u := by
  have hrunner : (t.toolbox.validators.get? id).getD (Runner.ofSettings t.settings id).1 =
      s.runnerOf id := M.runnerOf id
  unfold Validation.runnerFor
  rw [Act.bind_of_ok (Act.get_run t)]
  rcases hknown : t.toolbox.validators.get? id with _ | runner
  · rw [hknown, Option.getD_none] at hrunner
    dsimp only
    rw [Act.bind_of_ok (Act.records_run _ t), Act.bind_of_ok (Act.modify_run _ _), hrunner]
    refine ⟨_, rfl, M.host, M.here, M.settings, fun other => ?_, M.files⟩
    unfold Session.runnerOf
    dsimp only
    rw [Keyed.get?_put]
    by_cases hother : other = id
    · rw [if_pos hother, hother]
      rfl
    · rw [if_neg hother]
      exact M.runnerOf other
  · rw [hknown, Option.getD_some] at hrunner
    rw [← hrunner]
    exact ⟨t, rfl, M⟩

/-- Finding runners beforehand changes none of them. -/
theorem prepare (M : Midway workdir ids s t) (others : List Text) {u : Session}
    (h : (others.forM fun id => discard (Validation.runnerFor id)) t = (.ok (), u)) :
    Midway workdir ids s u := by
  induction others generalizing t with
  | nil =>
    cases h
    exact M
  | cons id others ih =>
    obtain ⟨w, hfound, M'⟩ := M.runnerFor id
    rw [prepare_cons hfound] at h
    exact ih M' h

/-- The directory of a validator is made, unless it cannot be. -/
theorem makePath (M : Midway workdir ids s t) (hid : ids[i]? = some id) :
    ∃ result u, Act.makePath (directory workdir i id) t = (result, u) ∧ Made workdir ids s i id u ∧
      (s.files.Makeable s.here (directories workdir ids) → result = .ok ()) := by
  obtain ⟨made, hmade, hfiles⟩ := M.files
  have M' : Made workdir ids s i id
      { t with files := (t.files.makePath t.here (directory workdir i id)).1 } := by
    refine ⟨⟨M.host, M.here, M.settings, M.runnerOf, exists_made hid hmade hfiles M.here⟩,
      made, hmade, ?_⟩
    rw [FileTree.makePaths_append, hfiles, M.here]
    rfl
  rcases hproblem : (t.files.makePath t.here (directory workdir i id)).2 with _ | problem
  · exact ⟨_, _, Act.makePath_run hproblem, M', fun _ => rfl⟩
  · refine ⟨_, _, Act.makePath_run_error hproblem, M', fun hmake => ?_⟩
    rw [hfiles, M.here, hmake made hmade _ (directory_mem_directories hid)] at hproblem
    cases hproblem

/-- **A vote in the middle of a validation is what one run of the validator's runner comes to**,
unless the directory that it is run in cannot be made. -/
theorem vote (M : Midway workdir ids s t) (hid : ids[i]? = some id) (v : Validation)
    (formula : Text) :
    ∃ result w, v.vote formula (directory workdir i id) id t = (result, w) ∧
      Midway workdir ids s w ∧
      ((∃ u, Made workdir ids s i id u ∧ result =
          (voteOf id ((s.runnerOf id).run (request v.timeout formula workdir i id).2 u).1).1) ∨
        (∃ f, result = .error f) ∧ ¬ s.files.Makeable s.here (directories workdir ids)) := by
  obtain ⟨found, hfound, M₁⟩ := M.runnerFor id
  obtain ⟨made, u, hmade, M₂, hmakes⟩ := M₁.makePath hid
  unfold Validation.vote
  rw [Act.bind_of_ok hfound]
  cases made with
  | error f =>
    rw [Act.bind_run, hmade]
    refine ⟨_, u, rfl, M₂.toMidway, Or.inr ⟨⟨f, rfl⟩, fun hmake => ?_⟩⟩
    cases hmakes hmake
  | ok _ =>
    obtain ⟨marks, hmarks⟩ :=
      (s.runnerOf id).exists_marks (request v.timeout formula workdir i id).2 u
    have M₃ := M₂.toMidway.mark marks
    rw [← hmarks] at M₃
    rw [Act.bind_of_ok hmade, Act.bind_of_ok (Act.attempt_run _ u)]
    dsimp only
    rw [Act.bind_of_ok (Act.records_run _ _), Act.ofExcept_run]
    exact ⟨_, _, rfl, M₃.mark _, Or.inl ⟨u, M₂, rfl⟩⟩

/-- **A validation makes directories of validators and no other change to the files**, however it
ends. -/
theorem of_validate (v : Validation) (schedule : List Pool.Move) (formula workdir : Text)
    (ids : List Text) (s : Session) :
    Midway workdir ids s (v.validate schedule formula workdir ids s).2 := by
  have C : Pool.Contract (v.tasks formula workdir ids) (fun _ => Midway workdir ids s)
      (fun _ _ => True) := by
    refine ⟨fun _ M => M.mark _, ?_⟩
    intro _ t i task htask _ M
    obtain ⟨id, hid, rfl⟩ := getElem?_tasks htask
    obtain ⟨_, u, hvote, M', _⟩ := M.vote hid v formula
    rw [hvote]
    exact ⟨trivial, M'⟩
  obtain ⟨_, M⟩ : ∃ _started, Midway workdir ids s (v.validate schedule formula workdir ids s).2 :=
    validate_upholds C (.refl workdir ids s) fun _ h => (Midway.refl workdir ids s).prepare ids h
  exact M

end Midway

/-! ## What votes come to -/

/-- The run of every validator comes to the outcome of its place, in whichever session in the middle
of the validation it is made. -/
def Plays (v : Validation) (formula workdir : Text) (ids : List Text) (s : Session)
    (outcome : Nat → Text → Except Fault RunResult) : Prop :=
  ∀ i id, ids[i]? = some id → ∀ u, Midway workdir ids s u →
    ((s.runnerOf id).run (request v.timeout formula workdir i id).2 u).1 = outcome i id

/-- A run of a validator, and what it came to. -/
structure ToolRun where
  identifier : Text
  outcome : Except Fault RunResult

/-- The vote that a run comes to. -/
def ToolRun.ballot (run : ToolRun) : Vote := Validation.ballot run.identifier run.outcome

/-- The runs of a validation, in the order of the validators. -/
def runs (ids : List Text) (outcome : Nat → Text → Except Fault RunResult) : List ToolRun :=
  ids.mapIdx fun i id => ⟨id, outcome i id⟩

theorem ballot_of_voteOf {outcome : Except Fault RunResult} {vote : Vote}
    (h : (voteOf id outcome).1 = .ok vote) : vote = ballot id outcome := by
  cases outcome with
  | ok result =>
    cases h
    rfl
  | error f =>
    rw [voteOf] at h
    split at h
    · cases h
      rfl
    · cases h

theorem of_voteOf_error {outcome : Except Fault RunResult} {f : Fault}
    (h : (voteOf id outcome).1 = .error f) : outcome = .error f ∧ f.isInputOutput = false := by
  cases outcome with
  | ok result => cases h
  | error g =>
    rw [voteOf] at h
    split at h
    · cases h
    · rename_i hfault
      cases h
      exact ⟨rfl, Bool.not_eq_true _ ▸ hfault⟩

/-- Runners whose answers depend on the validator alone play by these answers. -/
theorem Answers.plays {answer : Text → Except Fault RunResult} (A : Answers ids answer s)
    (v : Validation) (formula workdir : Text) :
    Plays v formula workdir ids s fun _ id => answer id := by
  intro i id hid u _
  have hrunner : s.runnerOf id = .scripted id fun _ => answer id := by
    unfold Session.runnerOf
    rw [A.runner id (List.mem_of_getElem? hid)]
    rfl
  rw [hrunner, Runner.run_scripted]

variable {outcome : Nat → Text → Except Fault RunResult} {schedule : List Pool.Move}

/-- **A task that casts a vote casts the ballot of the outcome at its place, whichever tasks were
run before it.** Where the directories can be made, it only fails with a fault of the run. -/
theorem plays_contract (P : Plays v formula workdir ids s outcome) :
    Pool.Contract (v.tasks formula workdir ids) (fun _ => Midway workdir ids s)
      (fun i result => ∃ id, ids[i]? = some id ∧
        (∀ vote, result = .ok vote → vote = ballot id (outcome i id)) ∧
        (s.files.Makeable s.here (directories workdir ids) → ∀ f, result = .error f →
          outcome i id = .error f ∧ f.isInputOutput = false)) where
  records := fun _ M => M.mark _
  task := by
    intro started t i task htask _ M
    obtain ⟨id, hid, rfl⟩ := getElem?_tasks htask
    obtain ⟨result, w, hvote, M', hresult⟩ := M.vote hid v formula
    rw [hvote]
    refine ⟨⟨id, hid, ?_⟩, M'⟩
    rcases hresult with ⟨u, Mu, hrun⟩ | ⟨⟨f, rfl⟩, hmake⟩
    · rw [P i id hid u Mu.toMidway] at hrun
      rw [hrun]
      exact ⟨fun vote hcast => ballot_of_voteOf hcast, fun _ f hfault => of_voteOf_error hfault⟩
    · exact ⟨fun _ hcast => (nomatch hcast), fun h => absurd h hmake⟩

/-- **Votes that are validated are the ballots of the runs**, in the order of the validators. -/
theorem validate_eq_ballots (P : Plays v formula workdir ids s outcome) {votes : List Vote}
    (h : (v.validate schedule formula workdir ids s).1 = .ok votes) :
    votes = (runs ids outcome).map ToolRun.ballot := by
  obtain ⟨u, hcollect, _⟩ := validate_eq_ok.mp (Prod.ext h rfl)
  obtain ⟨_, _, _, _, hlength, hvotes⟩ := collect_ok (plays_contract P) (.refl workdir ids s)
    (fun _ hu => (Midway.refl workdir ids s).prepare ids hu) hcollect
  refine List.ext_getElem? fun i => ?_
  rw [runs, List.getElem?_map, List.getElem?_mapIdx]
  rcases hi : votes[i]? with _ | vote
  · rw [List.getElem?_eq_none_iff, hlength, ← List.getElem?_eq_none_iff] at hi
    rw [hi]
    rfl
  · obtain ⟨id, hid, hcast, _⟩ := hvotes i vote hi
    rw [hid, hcast vote rfl]
    rfl

/-- **Where the directories can be made, only a run's fault that is not one of input and output ends
a validation.** -/
theorem of_validate_eq_error (P : Plays v formula workdir ids s outcome)
    (hmake : s.files.Makeable s.here (directories workdir ids)) {f : Fault}
    (h : (v.validate schedule formula workdir ids s).1 = .error f) :
    ∃ i id, ids[i]? = some id ∧ outcome i id = .error f ∧ f.isInputOutput = false := by
  obtain ⟨i, id, hid, _, hfails⟩ := of_collect_error (plays_contract P) (.refl workdir ids s)
    (fun _ hu => (Midway.refl workdir ids s).prepare ids hu) (Prod.ext (of_validate_error h) rfl)
  exact ⟨i, id, hid, hfails hmake f rfl⟩

end Validation

end CoreAudit
