import CoreAudit.Proofs.Number.Finite
import CoreAudit.Proofs.Runner.Opening

/-!
# Votes of the prover in the process

Whatever the library does with a formula, a failure to read it, a failure to check it or an answer,
comes to a run, and a run comes to a vote. The budget is another matter: it is made a whole number
of milliseconds before the library is asked, and a budget that is infinite, no number, or so large
that a thousand times it is infinite, has no such number. The fault is not one of input and output,
so it ends the validation instead of costing the validator its vote.

Headlines:
* **`Prover.milliseconds?_eq_error_iff`**: which budgets are no number of milliseconds.
* **`Prover.result_ask`**: what a run of the prover comes to.
* **`Validation.vote_prover`**: the vote of the prover, or the only faults that it can end in.
-/

namespace CoreAudit

namespace Prover

variable {script : ProverScript} {path : Text} {budget : Budget} {f : Fault} {result : RunResult}
  {elapsed : Float} {late : Bool}

/-- The budget is no number of milliseconds, with this fault. -/
inductive Unmeasured : Budget → Fault → Prop
  | blank : Unmeasured .blank (.blank .budget)
  | notNumber {x : Float} (nan : x.isNaN = true) : Unmeasured (.seconds x) .budgetNotNumber
  | infinite {x : Float} (inf : (x * 1000.0).isInf = true) : Unmeasured (.seconds x) .budgetInfinite

theorem Unmeasured.not_isInputOutput (h : Unmeasured budget f) : f.isInputOutput = false := by
  cases h <;> rfl

/-- **A budget has milliseconds unless it is blank, no number, or infinite when multiplied by a
thousand.** -/
theorem milliseconds?_eq_error_iff : milliseconds? budget = .error f ↔ Unmeasured budget f := by
  cases budget with
  | blank =>
    constructor
    · intro h
      cases h
      exact .blank
    · rintro ⟨⟩
      rfl
  | seconds x =>
    unfold milliseconds?
    dsimp only
    constructor
    · intro h
      rcases hwhole : Number.truncate? (x * 1000.0) with _ | n <;> rw [hwhole] at h
      · by_cases hnan : (x * 1000.0).isNaN = true
        · cases (congrArg Except.error (if_pos hnan)).symm.trans h
          exact .notNumber (Number.isNaN_mul_thousand ▸ hnan)
        · cases (congrArg Except.error (if_neg hnan)).symm.trans h
          exact .infinite ((Number.truncate?_eq_none_iff.mp hwhole).resolve_left hnan)
      · cases h
    · rintro (_ | hnan | hinf)
      · have hnan : (x * 1000.0).isNaN = true := Number.isNaN_mul_thousand.trans hnan
        rw [Number.truncate?_eq_none_iff.mpr (Or.inl hnan)]
        exact congrArg Except.error (if_pos hnan)
      · have hnan := Number.isNaN_of_isInf hinf
        rw [Number.truncate?_eq_none_iff.mpr (Or.inr hinf)]
        exact congrArg Except.error (if_neg (Bool.eq_false_iff.mp hnan))

/-- The library has read and checked the formula, and the answer came within the budget. -/
structure Answers (script : ProverScript) (budget : Budget) : Prop where
  read : script.readFailure = none
  checked : script.checkFailure = none
  inTime : ∀ x, budget = .seconds x → ¬ x ≤ 0.0 + script.readDuration + script.checkDuration

theorem isLate_seconds {x : Float} :
    isLate (some (.seconds x)) elapsed = true ↔ x ≤ elapsed := decide_eq_true_iff

/-- The first line of an answer is read as the answer. -/
theorem classify_answer (answer : Verdict) :
    Verdict.classify (RunResult.firstLine ⟨answer.word ++ ['\n'], elapsed, some 0, late⟩) =
      answer := by
  show Verdict.classify (((answer.word ++ ['\n']).splitLines.head?.map Text.trim).getD []) = answer
  cases answer <;> decide

/-- What is read and checked comes to a run, which says what the library answered, if it did so
within the budget, and nothing otherwise. -/
theorem exists_result_check (script : ProverScript) (path : Text) (x : Float)
    (events : List Event) :
    ∃ result, (check script path (some (.seconds x)) events).result = .ok result ∧
      (Answers script (.seconds x) → Validation.verdictOf result = script.answer) ∧
      (¬ Answers script (.seconds x) → Validation.verdictOf result = .unknown) := by
  unfold check
  dsimp only
  rcases hread : script.readFailure with _ | failure
  · rcases hcheck : script.checkFailure with _ | failure
    · refine ⟨_, rfl, fun A => ?_, fun hnot => ?_⟩
      · have hintime := mt isLate_seconds.mp (A.inTime x rfl)
        exact (if_neg hintime).trans (classify_answer script.answer)
      · refine Validation.verdictOf_of_timedOut (isLate_seconds.mpr ?_)
        by_contra hintime
        exact hnot ⟨hread, hcheck, fun y hy => by cases hy; exact hintime⟩
    · exact ⟨_, rfl, fun A => (nomatch A.checked.symm.trans hcheck), fun _ => rfl⟩
  · exact ⟨_, rfl, fun A => (nomatch A.read.symm.trans hread), fun _ => rfl⟩

/-- A run of the prover is that of its library, after the budget was found to have milliseconds. -/
theorem ask_some (script : ProverScript) (path : Text) (budget : Budget) :
    ask script path (some budget) =
      match milliseconds? budget with
      | .error f => ⟨.error f, [.proverCreated], []⟩
      | .ok n => check script path (some budget) [.proverCreated, .proverBudget n] := by
  unfold ask opening
  dsimp only
  rcases milliseconds? budget with f | n <;> rfl

/-- **What a run of the prover comes to**: a fault iff the budget has no milliseconds, and otherwise
a run that says what the library answered, if it did so within the budget, and nothing else. -/
theorem result_ask (script : ProverScript) (path : Text) (budget : Budget) :
    (∀ f, (ask script path (some budget)).result = .error f ↔ Unmeasured budget f) ∧
      ∀ result, (ask script path (some budget)).result = .ok result →
        (Answers script budget → Validation.verdictOf result = script.answer) ∧
        (¬ Answers script budget → Validation.verdictOf result = .unknown) := by
  rw [ask_some]
  rcases hmeasured : milliseconds? budget with g | n
  · refine ⟨fun f => ?_, fun result h => (nomatch h)⟩
    rw [← milliseconds?_eq_error_iff, hmeasured]
    exact ⟨fun h => congrArg Except.error (Except.error.inj h),
      fun h => congrArg Except.error (Except.error.inj h)⟩
  · cases budget with
    | blank => cases hmeasured
    | seconds x =>
      dsimp only
      obtain ⟨result, hresult, hsays⟩ := exists_result_check script path x
        [.proverCreated, .proverBudget n]
      rw [hresult]
      refine ⟨fun f => ?_, fun _ h => by cases h; exact hsays⟩
      rw [← milliseconds?_eq_error_iff, hmeasured]
      exact iff_of_false (fun h => nomatch h) (fun h => nomatch h)

end Prover

namespace Validation

variable {id : Text} {s : Session}

/-- The runner of a validator is found without a change to the files or the host. -/
theorem exists_runnerFor (id : Text) (s : Session) :
    ∃ t, runnerFor id s = (.ok (s.runnerOf id), t) ∧ t.files = s.files ∧ t.here = s.here ∧
      t.host = s.host := by
  obtain ⟨t, hfound, M⟩ := (Midway.refl [] [] s).runnerFor id
  obtain ⟨made, hmade, hfiles⟩ := M.files
  obtain rfl : made = [] := List.eq_nil_iff_forall_not_mem.mpr fun p hp =>
    List.not_mem_nil (hmade p hp)
  exact ⟨t, hfound, hfiles, M.here, M.host⟩

/-- Where the directory can be made, the prover's vote is that of a run of its library. -/
theorem vote_eq_voteOf (v : Validation) (formula workdir : Text)
    (hrunner : s.runnerOf id = .prover) :
    (v.vote formula workdir id s).1 =
      match (s.files.makePath s.here workdir).2 with
      | some problem => .error (.file problem (some workdir))
      | none => (voteOf id (Prover.ask s.host.prover formula (some v.timeout)).result).1 := by
  obtain ⟨t, hfound, hfiles, hhere, hhost⟩ := exists_runnerFor id s
  rw [hrunner] at hfound
  rw [← hfiles, ← hhere, ← hhost]
  unfold vote
  rw [Act.bind_of_ok hfound]
  rcases hmade : (t.files.makePath t.here workdir).2 with _ | problem
  · rw [Act.bind_of_ok (Act.makePath_run hmade), Act.bind_of_ok (Act.attempt_run _ _),
      Runner.run_prover]
    dsimp only [Option.getD_some]
    rw [Act.bind_of_ok (Act.records_run _ _), Act.ofExcept_run]
  · rw [Act.bind_of_error (Act.makePath_run_error hmade)]

theorem voteOf_of_unmeasured {budget : Budget} {f : Fault} (h : Prover.Unmeasured budget f) :
    (voteOf id (.error f)).1 = .error f :=
  congrArg Prod.fst (if_neg (Bool.eq_false_iff.mp h.not_isInputOutput))

/-- **The prover votes as its library answers within the budget, and is unknown otherwise; it fails
to vote only where its directory cannot be made or the budget has no milliseconds.** -/
theorem vote_prover (v : Validation) (formula workdir : Text)
    (hrunner : s.runnerOf id = .prover) :
    (∀ f, (v.vote formula workdir id s).1 = .error f ↔
        (∃ problem, (s.files.makePath s.here workdir).2 = some problem ∧
          f = .file problem (some workdir)) ∨
        ((s.files.makePath s.here workdir).2 = none ∧ Prover.Unmeasured v.timeout f)) ∧
      ∀ vote, (v.vote formula workdir id s).1 = .ok vote → vote.identifier = id ∧
        (Prover.Answers s.host.prover v.timeout → vote.verdict = s.host.prover.answer) ∧
        (¬ Prover.Answers s.host.prover v.timeout → vote.verdict = .unknown) := by
  rw [vote_eq_voteOf v formula workdir hrunner]
  obtain ⟨hfails, hsays⟩ := Prover.result_ask s.host.prover formula v.timeout
  rcases (s.files.makePath s.here workdir).2 with _ | problem
  · dsimp only
    constructor
    · intro f
      constructor
      · exact fun hvote => Or.inr ⟨rfl, (hfails f).mp (of_voteOf_error hvote).1⟩
      · rintro (⟨_, hnone, _⟩ | ⟨_, hunmeasured⟩)
        · cases hnone
        · rw [(hfails f).mpr hunmeasured, voteOf_of_unmeasured hunmeasured]
    · intro vote hvote
      rcases hresult : (Prover.ask s.host.prover formula (some v.timeout)).result with g | result
      · rw [hresult, voteOf_of_unmeasured ((hfails g).mp hresult)] at hvote
        cases hvote
      · rw [hresult] at hvote
        cases hvote
        exact ⟨rfl, hsays result hresult⟩
  · refine ⟨fun f => ⟨fun hvote => ?_, ?_⟩, fun _ hvote => (nomatch hvote)⟩
    · cases hvote
      exact Or.inl ⟨problem, rfl, rfl⟩
    · rintro (⟨_, hproblem, rfl⟩ | ⟨hnone, _⟩)
      · cases hproblem
        rfl
      · cases hnone

/-- A session in which no solver is found, on a host whose library answers unsat within a second. -/
def answeringSession : Session :=
  let s := Session.fresh .empty .empty
  { s with host := { s.host with prover := ⟨0.5, none, 0.25, none, .unsat⟩ } }

/-- Within five seconds the library answers, and the prover votes unsat. -/
theorem vote_prover_answering :
    answeringSession.runnerOf "z3".toList = .prover ∧
      ∃ vote, (Validation.vote ⟨.seconds 5.0, 1⟩ "core.smt2".toList "work".toList "z3".toList
          answeringSession).1 = .ok vote ∧
        vote.identifier = "z3".toList ∧ vote.verdict = .unsat := by
  have hrunner : answeringSession.runnerOf "z3".toList = .prover := rfl
  obtain ⟨hfails, hsays⟩ :=
    vote_prover ⟨.seconds 5.0, 1⟩ "core.smt2".toList "work".toList hrunner
  refine ⟨hrunner, ?_⟩
  cases hvote : (Validation.vote ⟨.seconds 5.0, 1⟩ "core.smt2".toList "work".toList "z3".toList
      answeringSession).1 with
  | error f =>
    rcases (hfails f).mp hvote with ⟨_, hproblem, _⟩ | ⟨_, hunmeasured⟩
    · cases hproblem
    · rcases hunmeasured with _ | hnan | hinf
      · exact absurd hnan (by decide +kernel)
      · exact absurd hinf (by decide +kernel)
  | ok vote =>
    obtain ⟨hid, hanswered, _⟩ := hsays vote hvote
    refine ⟨vote, rfl, hid, hanswered ⟨rfl, rfl, fun x hx => ?_⟩⟩
    cases hx
    decide +kernel

/-- An infinite budget can be asked for, and the prover ends in a fault that is neither one of input
and output nor reported. -/
theorem exists_vote_eq_budgetInfinite :
    ∃ x, Number.float? "inf".toList = some x ∧
      (Validation.vote ⟨.seconds x, 1⟩ "core.smt2".toList "work".toList "z3".toList
        answeringSession).1 = .error .budgetInfinite ∧
      Fault.budgetInfinite.isInputOutput = false ∧ Fault.budgetInfinite.isReported = false :=
  ⟨_, rfl, rfl, rfl, rfl⟩

end Validation

end CoreAudit
