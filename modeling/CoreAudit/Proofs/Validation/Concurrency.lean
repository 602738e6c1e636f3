import CoreAudit.Proofs.Asked
import CoreAudit.Proofs.Validation.Collect
import CoreAudit.Proofs.Validation.Directory

/-!
# Validators side by side

Runners whose answers depend on the validator alone are asked for every vote exactly once, one
after the other or side by side, and the votes are the same either way. Side by side the runners
are asked in the order in which workers take up the tasks, so that only the order of what is asked
depends on the schedule.

The directory of every validator is made before its runner is asked. One that cannot be made is a
fault of the validation, and its runner is not asked (`not_validate_of_blocked`).

Headlines:
* **`Voting.vote`**: whether a validator is asked and votes depends on its directory alone.
* **`asks_contract`**: what one task adds to a session, wherever it comes in the order.
* **`concurrent_refines_sequential`**: votes, tally and questions do not depend on the schedule.
* **`not_validate_of_blocked`**: without a directory there is no question and there are no votes.
-/

namespace CoreAudit

namespace Validation

/-- The vote that an outcome of a run comes to: a run that cannot be made is undecided. -/
def ballot (id : Text) : Except Fault RunResult → Vote
  | .ok result => ⟨id, verdictOf result, result.elapsed⟩
  | .error _ => ⟨id, .unknown, 0.0⟩

/-- A fault of input and output costs no more than the vote. -/
theorem voteOf_eq_ballot {id : Text} {outcome : Except Fault RunResult}
    (h : ∀ f, outcome = .error f → f.isInputOutput = true) :
    (voteOf id outcome).1 = .ok (ballot id outcome) := by
  cases outcome with
  | ok result => rfl
  | error f =>
    rw [voteOf, if_pos (h f rfl)]
    rfl

/-- What the validator at a place is asked. -/
def request (timeout : Budget) (formula workdir : Text) (place : Nat) (id : Text) :
    Text × Invocation :=
  (id, ⟨some formula, [], some timeout, none, some (directory workdir place id)⟩)

/-- What all validators are asked, in their order. -/
def requests (timeout : Budget) (formula workdir : Text) (ids : List Text) :
    List (Text × Invocation) :=
  ids.mapIdx (request timeout formula workdir)

/-- Every validator has a runner whose answer depends on the validator alone; where it is a fault,
it is one of input and output. -/
structure Answers (ids : List Text) (outcome : Text → Except Fault RunResult) (s : Session) :
    Prop where
  runner : ∀ id ∈ ids,
    s.toolbox.validators.get? id = some (.scripted id fun _ => outcome id)
  fault : ∀ id ∈ ids, ∀ f, outcome id = .error f → f.isInputOutput = true

variable {timeout : Budget} {jobs : Nat} {formula workdir : Text} {ids : List Text}
  {outcome : Text → Except Fault RunResult} {schedule : List Pool.Move} {s : Session}

theorem runnerFor_run {id : Text} {runner : Runner}
    (h : s.toolbox.validators.get? id = some runner) : runnerFor id s = (.ok runner, s) := by
  unfold runnerFor
  rw [Act.bind_of_ok (Act.get_run s), h]
  rfl

theorem prepare_run (h : ∀ id ∈ ids, ∃ runner, s.toolbox.validators.get? id = some runner) :
    (ids.forM fun id => discard (runnerFor id)) s = (.ok (), s) := by
  induction ids with
  | nil => rfl
  | cons id ids ih =>
    obtain ⟨runner, hrunner⟩ := h id List.mem_cons_self
    rw [prepare_cons (runnerFor_run hrunner)]
    exact ih fun other hother => h other (List.mem_cons_of_mem _ hother)

/-- A vote is cast: its directory is made and its runner asked, once. -/
theorem vote_run (v : Validation) (formula : Text) {id dir : Text}
    {answer : Except Fault RunResult}
    (hrunner : s.toolbox.validators.get? id = some (.scripted id fun _ => answer))
    (hfault : ∀ f, answer = .error f → f.isInputOutput = true)
    (hmake : (s.files.makePath s.here dir).2 = none) :
    ∃ t, v.vote formula dir id s = (.ok (ballot id answer), t) ∧
      t.toolbox = s.toolbox ∧ t.here = s.here ∧ t.files = (s.files.makePath s.here dir).1 ∧
      t.asked = s.asked ++ [(id, ⟨some formula, [], some v.timeout, none, some dir⟩)] := by
  unfold Validation.vote
  rw [Act.bind_of_ok (runnerFor_run hrunner), Act.bind_of_ok (Act.makePath_run hmake)]
  rw [Act.bind_of_ok (Act.attempt_run _ _), Runner.run_scripted]
  dsimp only
  rw [Act.bind_of_ok (Act.records_run _ _), Act.ofExcept_run, voteOf_eq_ballot hfault]
  refine ⟨_, rfl, rfl, rfl, rfl, ?_⟩
  rw [Session.asked_mark_records, Session.asked_mark_call, Invocation.invocation_call]
  rfl

/-- A vote is not cast where its directory cannot be made, and its runner is not asked. -/
theorem vote_run_error (v : Validation) (formula : Text) {id dir : Text} {runner : Runner}
    {problem : PathProblem} (hrunner : s.toolbox.validators.get? id = some runner)
    (hmake : (s.files.makePath s.here dir).2 = some problem) :
    v.vote formula dir id s = (.error (.file problem (some dir)),
      { s with files := (s.files.makePath s.here dir).1 }) := by
  unfold Validation.vote
  rw [Act.bind_of_ok (runnerFor_run hrunner), Act.bind_run, Act.makePath_run_error hmake]

/-- What is known of a session while validators vote: the runners are those of the start, and
nothing but directories of validators was made. -/
structure Voting (workdir : Text) (ids : List Text) (s t : Session) : Prop where
  toolbox : t.toolbox = s.toolbox
  here : t.here = s.here
  files : ∃ made, (∀ p ∈ made, p ∈ directories workdir ids) ∧
    t.files = s.files.makePaths s.here made

variable {t : Session} {i : Nat} {id : Text}

theorem directory_mem_directories (hid : ids[i]? = some id) :
    directory workdir i id ∈ directories workdir ids := by
  obtain ⟨hlt, hget⟩ := List.getElem?_eq_some_iff.mp hid
  rw [directories, List.mem_mapIdx]
  exact ⟨i, hlt, by rw [hget]⟩

/-- The directory of one more validator is made. -/
theorem exists_made (hid : ids[i]? = some id) {made : List Text}
    (hmade : ∀ p ∈ made, p ∈ directories workdir ids)
    (hfiles : t.files = s.files.makePaths s.here made) (hhere : t.here = s.here) :
    ∃ made, (∀ p ∈ made, p ∈ directories workdir ids) ∧
      (t.files.makePath t.here (directory workdir i id)).1 = s.files.makePaths s.here made := by
  refine ⟨made ++ [directory workdir i id], fun p hp => ?_, ?_⟩
  · rcases List.mem_append.mp hp with hp | hp
    · exact hmade p hp
    · rw [List.mem_singleton.mp hp]
      exact directory_mem_directories hid
  · rw [hfiles, hhere, FileTree.makePaths_append]
    rfl

/-- **A validator whose directory can be made is asked, once, and votes; one whose directory cannot
be made is not asked and does not vote.** -/
theorem Voting.vote (A : Answers ids outcome s) (V : Voting workdir ids s t)
    (hid : ids[i]? = some id) (timeout : Budget) (jobs : Nat) (formula : Text) :
    ∃ result u, (Validation.mk timeout jobs).vote formula (directory workdir i id) id t =
        (result, u) ∧ Voting workdir ids s u ∧
      (result = .ok (ballot id (outcome id)) ∧
          (t.files.makePath t.here (directory workdir i id)).2 = none ∧
          u.asked = t.asked ++ [request timeout formula workdir i id] ∨
        (∀ vote, result ≠ .ok vote) ∧
          (t.files.makePath t.here (directory workdir i id)).2 ≠ none ∧ u.asked = t.asked) := by
  have hmem : id ∈ ids := List.mem_of_getElem? hid
  obtain ⟨made, hmade, hfiles⟩ := V.files
  have hmakes := exists_made hid hmade hfiles V.here
  have hrunner := A.runner id hmem
  rw [← V.toolbox] at hrunner
  rcases hmake : (t.files.makePath t.here (directory workdir i id)).2 with _ | problem
  · obtain ⟨u, hvote, htoolbox, hhere, hafter, hasked⟩ :=
      vote_run ⟨timeout, jobs⟩ formula hrunner (A.fault id hmem) hmake
    rw [← hafter] at hmakes
    exact ⟨_, u, hvote, ⟨htoolbox.trans V.toolbox, hhere.trans V.here, hmakes⟩,
      Or.inl ⟨rfl, rfl, hasked⟩⟩
  · refine ⟨_, _, vote_run_error _ formula hrunner hmake, ⟨V.toolbox, V.here, hmakes⟩,
      Or.inr ⟨fun vote hok => ?_, Option.some_ne_none problem, rfl⟩⟩
    cases hok

/-- What the validators of some places are asked, in the order of these places. -/
def requestsAt (timeout : Budget) (formula workdir : Text) (ids : List Text) (places : List Nat) :
    List (Text × Invocation) :=
  places.filterMap fun i => ids[i]?.map (request timeout formula workdir i)

/-- One more place. -/
theorem requestsAt_append (hid : ids[i]? = some id) (places : List Nat) :
    requestsAt timeout formula workdir ids (places ++ [i]) =
      requestsAt timeout formula workdir ids places ++ [request timeout formula workdir i id] := by
  rw [requestsAt, List.filterMap_append, List.filterMap_cons, hid]
  rfl

/-- What is known of the session after the validators of some places have voted: each of them was
asked, in this order. -/
structure Asked (timeout : Budget) (formula workdir : Text) (ids : List Text) (s : Session)
    (places : List Nat) (t : Session) : Prop extends Voting workdir ids s t where
  asked : t.asked = s.asked ++ requestsAt timeout formula workdir ids places

/-- **A task asks the runner of its place, once, and casts the vote that the answer comes to,
whichever tasks were run before it.** -/
theorem asks_contract (timeout : Budget) (jobs : Nat) (formula : Text) (A : Answers ids outcome s)
    (hmake : s.files.Makeable s.here (directories workdir ids)) :
    Pool.Contract ((Validation.mk timeout jobs).tasks formula workdir ids)
      (Asked timeout formula workdir ids s)
      (fun i result => ∃ id, ids[i]? = some id ∧ result = .ok (ballot id (outcome id))) where
  records := fun rs h =>
    ⟨⟨h.toolbox, h.here, h.files⟩, (Session.asked_mark_records _ rs).trans h.asked⟩
  task := by
    intro started t i task htask _ h
    obtain ⟨id, hid, rfl⟩ := getElem?_tasks htask
    obtain ⟨result, u, hvote, V, hends⟩ := h.toVoting.vote A hid timeout jobs formula
    rw [hvote]
    rcases hends with ⟨hresult, _, hasked⟩ | ⟨_, hfails, _⟩
    · refine ⟨⟨id, hid, hresult⟩, V, ?_⟩
      rw [hasked, h.asked, requestsAt_append hid, List.append_assoc]
    · obtain ⟨made, hmade, hfiles⟩ := h.files
      rw [hfiles, h.here] at hfails
      exact absurd (hmake made hmade _ (directory_mem_directories hid)) hfails

/-- In order, all validators are asked what they are asked. -/
theorem requestsAt_range :
    requestsAt timeout formula workdir ids (List.range ids.length) =
      requests timeout formula workdir ids := by
  have hthere : ∀ i < ids.length,
      ∃ x, ids[i]?.map (request timeout formula workdir i) = some x := by
    intro i hi
    exact ⟨_, by rw [List.getElem?_eq_getElem hi]; rfl⟩
  obtain ⟨hlength, hvalues⟩ := Pool.filterMap_range hthere
  refine List.ext_getElem? fun i => ?_
  rw [requests, List.getElem?_mapIdx, requestsAt]
  by_cases hi : i < ids.length
  · exact hvalues i hi
  · have hnone : ids[i]? = none := List.getElem?_eq_none (Nat.not_lt.mp hi)
    rw [hnone, List.getElem?_eq_none (by rw [hlength]; exact Nat.not_lt.mp hi)]
    rfl

/-- **Validators are asked once each, in some order, and the votes are what their answers come
to**, however many run at a time and under every schedule; one after the other, they are asked in
their order. -/
theorem validate_run (timeout : Budget) (jobs : Nat) (schedule : List Pool.Move) (formula : Text)
    (A : Answers ids outcome s)
    (hmake : s.files.Makeable s.here (directories workdir ids)) :
    ∃ t, (Validation.mk timeout jobs).validate schedule formula workdir ids s =
        (.ok (ids.map fun id => ballot id (outcome id)), t) ∧
      t.records.getLast? =
        some (tallyRecord (Tally.ofVotes (ids.map fun id => ballot id (outcome id)))) ∧
      ∃ order, order.Perm (requests timeout formula workdir ids) ∧
        (jobs ≤ 1 → order = requests timeout formula workdir ids) ∧
        t.asked = s.asked ++ order := by
  have C := asks_contract timeout jobs formula A hmake
  have hstart : Asked timeout formula workdir ids s [] s :=
    ⟨⟨rfl, rfl, [], fun p hp => absurd hp (by simp), rfl⟩, (List.append_nil _).symm⟩
  have hprepare : ∀ u, (ids.forM fun id => discard (runnerFor id)) s = (.ok (), u) →
      Asked timeout formula workdir ids s [] u := by
    intro u hu
    rw [prepare_run fun id hid => ⟨_, A.runner id hid⟩] at hu
    cases hu
    exact hstart
  have hok : ∀ (i : Nat) (f : Fault), ¬ ∃ id, ids[i]? = some id ∧
      (.error f : Except Fault Vote) = .ok (ballot id (outcome id)) := by
    rintro i f ⟨id, _, h⟩
    cases h
  obtain ⟨votes, u, hcollect⟩ := exists_collect_ok schedule C hok hstart hprepare
  obtain ⟨started, hperm, hinorder, hend, hlength, hvotes⟩ := collect_ok C hstart hprepare hcollect
  have hballots : votes = ids.map fun id => ballot id (outcome id) := by
    refine List.ext_getElem? fun i => ?_
    rw [List.getElem?_map]
    rcases hi : votes[i]? with _ | vote
    · rw [List.getElem?_eq_none_iff, hlength, ← List.getElem?_eq_none_iff] at hi
      rw [hi]
      rfl
    · obtain ⟨id, hid, hvote⟩ := hvotes i vote hi
      cases hvote
      rw [hid]
      rfl
  subst hballots
  refine ⟨_, validate_eq_ok.mpr ⟨u, hcollect, rfl⟩, Session.getLast?_records_mark u _, ?_⟩
  refine ⟨_, ?_, fun hjobs => ?_, (Session.asked_mark_records u [_]).trans hend.asked⟩
  · rw [← requestsAt_range]
    exact hperm.filterMap _
  · rw [hinorder hjobs, requestsAt_range]

/-- **Validators that run side by side come to the same as one after the other.** Whatever their
answers are, however many run at a time and under every schedule, the votes and the tally are the
same, and the validator at every place is asked exactly once: with the formula, the budget and the
directory of its place. One after the other, they are asked in their order. -/
theorem concurrent_refines_sequential (timeout : Budget) (jobs : Int) (schedule : List Pool.Move)
    (formula workdir : Text) (ids : List Text) (outcome : Text → Except Fault RunResult)
    (s : Session) (A : Answers ids outcome s)
    (hmake : s.files.Makeable s.here (directories workdir ids)) :
    ∃ votes one many,
      (Validation.mk timeout 1).validate schedule formula workdir ids s = (.ok votes, one) ∧
      (Validation.mk timeout (Pool.workersFor jobs)).validate schedule formula workdir ids s =
        (.ok votes, many) ∧
      votes = (ids.map fun id => ballot id (outcome id)) ∧
      one.records.getLast? = some (tallyRecord (Tally.ofVotes votes)) ∧
      many.records.getLast? = some (tallyRecord (Tally.ofVotes votes)) ∧
      one.asked = s.asked ++ requests timeout formula workdir ids ∧
      ∃ order, order.Perm (requests timeout formula workdir ids) ∧
        many.asked = s.asked ++ order := by
  obtain ⟨one, hone, htally, order, _, hinorder, hasked⟩ :=
    validate_run timeout 1 schedule formula A hmake
  obtain ⟨many, hmany, htally', order', hperm, _, hasked'⟩ :=
    validate_run timeout (Pool.workersFor jobs) schedule formula A hmake
  rw [hinorder (Nat.le_refl 1)] at hasked
  exact ⟨_, one, many, hone, hmany, rfl, htally, htally', hasked, order', hperm, hasked'⟩

/-- A validator that is named twice, and one that cannot be run. -/
def trio : List Text := [Tool.z3.name, Tool.z3.name, Tool.cvc5.name]

/-- The one confirms, the other cannot be run. -/
def trioOutcome (id : Text) : Except Fault RunResult :=
  if id = Tool.z3.name then .ok ⟨"unsat\n".toList, 0.5, some 0, false⟩
  else .error (.raised .missingFile id)

/-- A directory and the runners of the validators. -/
def trioSession : Session :=
  .fresh ⟨[([['w']], .directory)]⟩ ⟨none, [Tool.z3.name, Tool.cvc5.name].map fun id =>
    (id, .scripted id fun _ => trioOutcome id)⟩

theorem answers_trio : Answers trio trioOutcome trioSession where
  runner := by
    intro id hid
    simp only [trio, List.mem_cons, List.not_mem_nil, or_false] at hid
    rcases hid with rfl | rfl | rfl <;> rfl
  fault := by
    intro id hid f hf
    simp only [trio, List.mem_cons, List.not_mem_nil, or_false] at hid
    rcases hid with rfl | rfl | rfl
    · cases hf
    · cases hf
    · cases hf
      rfl

theorem makeable_trio :
    trioSession.files.Makeable trioSession.here (directories ['w'] trio) := by
  have L : trioSession.files.Leads trioSession.here ['w'] [['w']] :=
    ⟨by decide, by decide, by decide, by rfl, by rfl⟩
  refine makeable_directories L ?_ ?_ ?_
  · decide
  · decide
  · intro name hname
    refine Or.inl ?_
    revert name
    decide

/-- Of three validators two run at a time, and the last one is taken up first. -/
theorem trio_refines_sequential :
    ∃ one many,
      (Validation.mk (.seconds 2.0) 1).validate [.start 2, .start 0] "f".toList ['w'] trio
        trioSession = (.ok (trio.map fun id => ballot id (trioOutcome id)), one) ∧
      (Validation.mk (.seconds 2.0) 2).validate [.start 2, .start 0] "f".toList ['w'] trio
        trioSession = (.ok (trio.map fun id => ballot id (trioOutcome id)), many) ∧
      one.asked = requests (.seconds 2.0) "f".toList ['w'] trio ∧
      many.asked.Perm (requests (.seconds 2.0) "f".toList ['w'] trio) := by
  obtain ⟨votes, one, many, hone, hmany, rfl, _, _, hasked, order, hperm, hasked'⟩ :=
    concurrent_refines_sequential (.seconds 2.0) 2 [.start 2, .start 0] "f".toList ['w'] trio
      trioOutcome trioSession answers_trio makeable_trio
  refine ⟨one, many, hone, hmany, hasked, ?_⟩
  rw [hasked']
  exact hperm

/-! ## A directory that cannot be made -/

/-- What is known of the session after some validators were to vote, of which the one at `place`
has no directory: it was not asked. -/
structure Passed (timeout : Budget) (formula workdir : Text) (ids : List Text) (s : Session)
    (place : Nat) (t : Session) : Prop extends Voting workdir ids s t where
  asked : ∃ places, place ∉ places ∧
    t.asked = s.asked ++ requestsAt timeout formula workdir ids places

/-- A task fails before its runner is asked where its directory cannot be made. -/
theorem passes_contract (timeout : Budget) (jobs : Nat) (formula : Text)
    (A : Answers ids outcome s) {place : Nat} {id : Text} (hplace : ids[place]? = some id)
    (hblocked : Blocked s.files s.here workdir ids place id) :
    Pool.Contract ((Validation.mk timeout jobs).tasks formula workdir ids)
      (fun _ => Passed timeout formula workdir ids s place)
      (fun i result => i = place → ∀ vote, result ≠ .ok vote) where
  records := by
    intro _ _ rs h
    obtain ⟨places, hnot, hasked⟩ := h.asked
    exact ⟨⟨h.toolbox, h.here, h.files⟩, places, hnot,
      (Session.asked_mark_records _ rs).trans hasked⟩
  task := by
    intro _ t i task htask _ h
    obtain ⟨other, hother, rfl⟩ := getElem?_tasks htask
    obtain ⟨places, hnot, hasked⟩ := h.asked
    obtain ⟨result, u, hvote, V, hends⟩ := h.toVoting.vote A hother timeout jobs formula
    rw [hvote]
    rcases hends with ⟨_, hmakes, hasks⟩ | ⟨hfails, _, hasks⟩
    · have hne : i ≠ place := by
        rintro rfl
        rw [hplace] at hother
        cases hother
        obtain ⟨made, hmade, hfiles⟩ := h.files
        rw [hfiles, h.here] at hmakes
        exact hblocked made hmade hmakes
      refine ⟨fun hi => absurd hi hne, V, places ++ [i], ?_, ?_⟩
      · rw [List.mem_append, List.mem_singleton, not_or]
        exact ⟨hnot, Ne.symm hne⟩
      · rw [hasks, hasked, requestsAt_append hother, List.append_assoc]
    · exact ⟨fun _ => hfails, V, places, hnot, hasks.trans hasked⟩

/-- **Where the directory of a validator cannot be made, no votes are collected and that validator
is not asked**, one after the other and side by side. -/
theorem not_validate_of_blocked (timeout : Budget) (jobs : Nat) (schedule : List Pool.Move)
    (formula : Text) (A : Answers ids outcome s) {place : Nat} {id : Text}
    (hplace : ids[place]? = some id) (hblocked : Blocked s.files s.here workdir ids place id) :
    (∀ votes, ((Validation.mk timeout jobs).validate schedule formula workdir ids s).1 ≠
        .ok votes) ∧
      ∃ others, request timeout formula workdir place id ∉ others ∧
        ((Validation.mk timeout jobs).validate schedule formula workdir ids s).2.asked =
          s.asked ++ others := by
  have C := passes_contract timeout jobs formula A hplace hblocked
  have hstart : Passed timeout formula workdir ids s place s :=
    ⟨⟨rfl, rfl, [], fun p hp => absurd hp (by simp), rfl⟩, [], List.not_mem_nil,
      (List.append_nil _).symm⟩
  have hprepare : ∀ u, (ids.forM fun id => discard (runnerFor id)) s = (.ok (), u) →
      Passed timeout formula workdir ids s place u := by
    intro u hu
    rw [prepare_run fun id hid => ⟨_, A.runner id hid⟩] at hu
    cases hu
    exact hstart
  constructor
  · intro votes hvotes
    obtain ⟨u, hcollect, _⟩ := validate_eq_ok.mp (Prod.ext hvotes rfl)
    obtain ⟨_, _, _, _, hlength, hcast⟩ := collect_ok C hstart hprepare hcollect
    have hlt : place < votes.length := by
      rw [hlength]
      exact (List.getElem?_eq_some_iff.mp hplace).1
    exact hcast place votes[place] (List.getElem?_eq_getElem hlt) rfl _ rfl
  · obtain ⟨_, hend⟩ := validate_upholds C hstart hprepare
    obtain ⟨places, hnot, hasked⟩ := hend.asked
    refine ⟨_, fun hmem => ?_, hasked⟩
    rw [requestsAt, List.mem_filterMap] at hmem
    obtain ⟨i, hi, hrequest⟩ := hmem
    rw [Option.map_eq_some_iff] at hrequest
    obtain ⟨other, _, hrequest⟩ := hrequest
    have hdirectory := congrArg (fun r : Text × Invocation => r.2.workdir) hrequest
    obtain ⟨rfl, _⟩ := directory_inj (Option.some.inj hdirectory)
    exact hnot hi

/-- A directory and the runner of one validator, which confirms. -/
def soleSession (id : Text) : Session :=
  .fresh ⟨[([['w']], .directory)]⟩ ⟨none, [(id, .scripted id fun _ =>
    .ok ⟨"unsat\n".toList, 0.5, some 0, false⟩)]⟩

theorem answers_sole (id : Text) :
    Answers [id, id] (fun _ => .ok ⟨"unsat\n".toList, 0.5, some 0, false⟩) (soleSession id) where
  runner := by
    intro other hother
    simp only [List.mem_cons, List.not_mem_nil, or_false, or_self] at hother
    subst hother
    exact (Keyed.get?_put [] other other _).trans (if_pos rfl)
  fault := fun _ _ f hf => nomatch hf

/-- A name that no directory can have. -/
def longName : Text := List.replicate 300 'v'

theorem blocked_longName :
    Blocked (soleSession longName).files (soleSession longName).here ['w'] [longName, longName] 0
      longName := by
  have L : (soleSession longName).files.Leads (soleSession longName).here ['w'] [['w']] :=
    ⟨by decide, by decide, by decide, by rfl, by rfl⟩
  exact blocked_of_tooLong L (by decide +kernel) (by decide +kernel) rfl

/-- A validator whose directory cannot be made is not asked, and no votes are collected: neither
one after the other nor side by side. -/
theorem not_validate_of_longName :
    (∀ jobs votes, ((Validation.mk (.seconds 2.0) jobs).validate [] "f".toList ['w']
        [longName, longName] (soleSession longName)).1 ≠ .ok votes) ∧
      ∀ jobs, request (.seconds 2.0) "f".toList ['w'] 0 longName ∉
        ((Validation.mk (.seconds 2.0) jobs).validate [] "f".toList ['w'] [longName, longName]
          (soleSession longName)).2.asked := by
  have hblocked := fun jobs => not_validate_of_blocked (.seconds 2.0) jobs [] "f".toList
    (answers_sole longName) rfl blocked_longName
  refine ⟨fun jobs => (hblocked jobs).1, fun jobs => ?_⟩
  obtain ⟨others, hnot, hasked⟩ := (hblocked jobs).2
  rw [hasked]
  exact hnot

end Validation

end CoreAudit
