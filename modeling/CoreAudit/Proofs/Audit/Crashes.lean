import CoreAudit.Audit.Outcome
import CoreAudit.Proofs.Validation.Runs

/-!
# Validators that crash

A validator that is ended by a signal has a negative exit code. No vote is read off an exit code:
what a run printed in time decides, also where it crashed (`HasSay`). So leaving out the crashed
runs of a validation changes the tally exactly if one of them had a say, and where it does not
change the tally it changes nothing that an audit finds.

Headlines:
* **`verdictOf_eq_unknown_iff`**: a vote is undecided iff its run had no say.
* **`checked_congr`**: what an audit finds depends on the tally of the votes.
* **`validate_without_iff`**: when leaving out runs changes nothing.
* **`rejected_of_segfault`**: a validator that prints an answer and crashes can reject a core.
-/

namespace CoreAudit

namespace Tally

theorem ofVotes_eq_zero_iff (votes : List Vote) :
    ofVotes votes = ⟨0, 0⟩ ↔ ∀ vote ∈ votes, vote.verdict = .unknown := by
  unfold ofVotes ofVerdicts
  rw [Tally.mk.injEq, List.count_eq_zero, List.count_eq_zero]
  constructor
  · rintro ⟨hunsat, hsat⟩ vote hvote
    have hmem := List.mem_map_of_mem (f := Vote.verdict) hvote
    cases hverdict : vote.verdict with
    | sat => exact absurd (hverdict ▸ hmem) hsat
    | unsat => exact absurd (hverdict ▸ hmem) hunsat
    | unknown => rfl
  · intro h
    constructor <;>
    · intro hmem
      obtain ⟨vote, hvote, hverdict⟩ := List.mem_map.mp hmem
      rw [h vote hvote] at hverdict
      cases hverdict

/-- The counts of votes are those of some of them and of the others. -/
theorem ofVotes_of_perm {votes kept removed : List Vote} (h : (kept ++ removed).Perm votes) :
    ofVotes votes = ⟨(ofVotes kept).confirmations + (ofVotes removed).confirmations,
      (ofVotes kept).rejections + (ofVotes removed).rejections⟩ := by
  rw [← tally_append]
  exact (tally_perm (h.map Vote.verdict)).symm

theorem ofVotes_eq_iff {votes kept removed : List Vote} (h : (kept ++ removed).Perm votes) :
    ofVotes kept = ofVotes votes ↔ ∀ vote ∈ removed, vote.verdict = .unknown := by
  rw [ofVotes_of_perm h, ← ofVotes_eq_zero_iff]
  generalize ofVotes kept = k
  generalize ofVotes removed = r
  obtain ⟨confirmations, rejections⟩ := k
  obtain ⟨confirmations', rejections'⟩ := r
  simp only [Tally.mk.injEq]
  omega

end Tally

namespace Outcome

/-- **What an audit finds of a core depends on the tally of its votes alone**: how it ended, whether
that counts against the solver, and the reduction. -/
theorem checked_congr {votes others : List Vote} (h : Tally.ofVotes votes = Tally.ofVotes others)
    (n : Nat) (core : UnsatCore) :
    (mk n (.checked core votes)).state = (mk n (.checked core others)).state ∧
      (mk n (.checked core votes)).state.isErroneous =
        (mk n (.checked core others)).state.isErroneous ∧
      (mk n (.checked core votes)).summary.reduction =
        (mk n (.checked core others)).summary.reduction := by
  have hstate : (mk n (.checked core votes)).state = (mk n (.checked core others)).state := by
    unfold state
    dsimp only
    rw [h]
  refine ⟨hstate, congrArg _ hstate, ?_⟩
  unfold Report.Summary.reduction
  show (if (mk n (.checked core votes)).state = .validated then _ else _) = _
  rw [hstate]
  rfl

end Outcome

namespace Validation

/-- The run came in time, and the first line that it printed is one of the two decisive words. -/
structure HasSay (result : RunResult) : Prop where
  inTime : result.timedOut = false
  decisive : result.firstLine.trim = Verdict.sat.word ∨ result.firstLine.trim = Verdict.unsat.word

/-- **A vote is undecided iff its run had no say.** -/
theorem verdictOf_eq_unknown_iff (result : RunResult) :
    verdictOf result = .unknown ↔ ¬ HasSay result := by
  cases hlate : result.timedOut with
  | true =>
    refine ⟨fun _ h => ?_, fun _ => verdictOf_of_timedOut hlate⟩
    rw [h.inTime] at hlate
    cases hlate
  | false =>
    rw [verdictOf, hlate, if_neg Bool.false_ne_true, Verdict.classify_eq_unknown_iff, ← not_or]
    exact ⟨fun h hsay => h hsay.decisive, fun h hword => h ⟨hlate, hword⟩⟩

/-- The run was made, and its result had a say. -/
def ToolRun.HasSay (run : ToolRun) : Prop :=
  ∃ result, run.outcome = .ok result ∧ Validation.HasSay result

theorem ToolRun.verdict_ballot_iff (run : ToolRun) :
    run.ballot.verdict = .unknown ↔ ¬ run.HasSay := by
  obtain ⟨id, outcome⟩ := run
  unfold ToolRun.HasSay
  cases outcome with
  | error f => exact ⟨fun _ ⟨_, h, _⟩ => (nomatch h), fun _ => rfl⟩
  | ok result =>
    show verdictOf result = .unknown ↔ _
    rw [verdictOf_eq_unknown_iff]
    constructor
    · rintro h ⟨_, hresult, hsay⟩
      cases hresult
      exact h hsay
    · exact fun h hsay => h ⟨result, rfl, hsay⟩

variable {v v' : Validation} {schedule schedule' : List Pool.Move}
  {formula formula' workdir workdir' : Text} {ids ids' : List Text} {s s' : Session}
  {outcome outcome' : Nat → Text → Except Fault RunResult} {votes votes' : List Vote}

/-- **When leaving out runs of a validation changes nothing.** A run's vote is undecided iff the run
had no say, whatever its exit code is, and the votes without some runs have the same tally iff none
of these had a say. Then they lead to the same end, which counts against the solver or not as
before, and to the same reduction. -/
theorem validate_without_iff (P : Plays v formula workdir ids s outcome)
    (P' : Plays v' formula' workdir' ids' s' outcome') {removed : List ToolRun}
    (hperm : (runs ids' outcome' ++ removed).Perm (runs ids outcome))
    (h : (v.validate schedule formula workdir ids s).1 = .ok votes)
    (h' : (v'.validate schedule' formula' workdir' ids' s').1 = .ok votes') :
    (∀ (i : Nat) (run : ToolRun), (runs ids outcome)[i]? = some run →
      ∃ vote, votes[i]? = some vote ∧ (vote.verdict = .unknown ↔ ¬ run.HasSay)) ∧
    (∀ (result : RunResult) (code : Option Int),
      verdictOf { result with returnCode := code } = verdictOf result) ∧
    (Tally.ofVotes votes' = Tally.ofVotes votes ↔ ∀ run ∈ removed, ¬ run.HasSay) ∧
    ((∀ run ∈ removed, ¬ run.HasSay) → ∀ (n : Nat) (core : UnsatCore),
      (Outcome.mk n (.checked core votes')).state = (Outcome.mk n (.checked core votes)).state ∧
      (Outcome.mk n (.checked core votes')).state.isErroneous =
        (Outcome.mk n (.checked core votes)).state.isErroneous ∧
      (Outcome.mk n (.checked core votes')).summary.reduction =
        (Outcome.mk n (.checked core votes)).summary.reduction) := by
  obtain rfl := validate_eq_ballots P h
  obtain rfl := validate_eq_ballots P' h'
  have hballots := hperm.map ToolRun.ballot
  rw [List.map_append] at hballots
  have htally : Tally.ofVotes ((runs ids' outcome').map ToolRun.ballot) =
      Tally.ofVotes ((runs ids outcome).map ToolRun.ballot) ↔ ∀ run ∈ removed, ¬ run.HasSay := by
    rw [Tally.ofVotes_eq_iff hballots, List.forall_mem_map]
    simp only [ToolRun.verdict_ballot_iff]
  refine ⟨fun i run hrun => ⟨run.ballot, ?_, run.verdict_ballot_iff⟩, fun _ _ => rfl, htally,
    fun hnone n core => Outcome.checked_congr (htally.mpr hnone) n core⟩
  rw [List.getElem?_map, hrun]
  rfl

/-! ## A validator that is ended by a signal -/

/-- A run that was ended by a signal after it printed something. -/
def segfault (printed : Text) : RunResult := ⟨printed, 0.5, some (-11), false⟩

/-- A session with one validator, which crashes. -/
def crashSession (printed : Text) : Session :=
  .fresh ⟨[([['w']], .directory)]⟩
    ⟨none, [(Tool.z3.name, .scripted Tool.z3.name fun _ => .ok (segfault printed))]⟩

theorem answers_crash (printed : Text) {ids : List Text} (hids : ids ⊆ [Tool.z3.name]) :
    Answers ids (fun _ => .ok (segfault printed)) (crashSession printed) where
  runner := by
    intro id hid
    obtain rfl := List.mem_singleton.mp (hids hid)
    rfl
  fault := fun _ _ _ h => nomatch h

theorem makeable_crash (printed : Text) :
    (crashSession printed).files.Makeable (crashSession printed).here
      (directories ['w'] [Tool.z3.name]) := by
  have L : (crashSession printed).files.Leads (crashSession printed).here ['w'] [['w']] :=
    ⟨by decide, by decide, by decide, by rfl, by rfl⟩
  refine makeable_directories L (by decide) (by decide) fun name hname => Or.inl ?_
  change FileTree.get? ⟨[([['w']], .directory)]⟩ ([['w']] ++ [name]) = none
  revert name
  decide

/-- The votes with the crashed validator, and without it. -/
theorem validate_crash (printed : Text) :
    ((Validation.mk (.seconds 2.0) 1).validate [] "f".toList ['w'] [Tool.z3.name]
        (crashSession printed)).1 = .ok [ballot Tool.z3.name (.ok (segfault printed))] ∧
      ((Validation.mk (.seconds 2.0) 1).validate [] "f".toList ['w'] []
        (crashSession printed)).1 = .ok [] := by
  obtain ⟨t, hwith, _⟩ := validate_run (.seconds 2.0) 1 [] "f".toList
    (answers_crash printed (List.Subset.refl _)) (makeable_crash printed)
  exact ⟨congrArg Prod.fst hwith, rfl⟩

/-- A crash that leaves no answer changes nothing. -/
theorem validate_without_abort :
    (segfault "Aborted\n".toList).returnCode = some (-11) ∧
      ∀ (n : Nat) (core : UnsatCore),
        (Outcome.mk n (.checked core [])).state = (Outcome.mk n (.checked core
          [ballot Tool.z3.name (.ok (segfault "Aborted\n".toList))])).state := by
  obtain ⟨hwith, hwithout⟩ := validate_crash "Aborted\n".toList
  have hsilent : ¬ HasSay (segfault "Aborted\n".toList) := by
    rintro ⟨_, hword | hword⟩ <;> exact absurd hword (by decide)
  have P := (answers_crash "Aborted\n".toList (List.Subset.refl _)).plays ⟨.seconds 2.0, 1⟩
    "f".toList ['w']
  have P' := (answers_crash "Aborted\n".toList (List.nil_subset _)).plays ⟨.seconds 2.0, 1⟩
    "f".toList ['w']
  have hperm : (runs [] (fun _ _ => .ok (segfault "Aborted\n".toList)) ++
      [ToolRun.mk Tool.z3.name (.ok (segfault "Aborted\n".toList))]).Perm
        (runs [Tool.z3.name] fun _ _ => .ok (segfault "Aborted\n".toList)) := .refl _
  obtain ⟨_, _, _, hsame⟩ := validate_without_iff P P' hperm hwith hwithout
  refine ⟨rfl, fun n core => (hsame (fun run hrun => ?_) n core).1⟩
  obtain rfl := List.mem_singleton.mp hrun
  rintro ⟨result, hresult, hsay⟩
  cases hresult
  exact hsilent hsay

/-- **A validator that prints an answer and crashes can reject a core.** Without it the core is
accepted. -/
theorem rejected_of_segfault :
    ((Validation.mk (.seconds 2.0) 1).validate [] "f".toList ['w'] [Tool.z3.name]
        (crashSession "sat\n".toList)).1 =
          .ok [ballot Tool.z3.name (.ok (segfault "sat\n".toList))] ∧
      ((Validation.mk (.seconds 2.0) 1).validate [] "f".toList ['w'] []
        (crashSession "sat\n".toList)).1 = .ok [] ∧
      (segfault "sat\n".toList).returnCode = some (-11) ∧
      (ballot Tool.z3.name (.ok (segfault "sat\n".toList))).verdict = .sat ∧
      ∀ (n : Nat) (core : UnsatCore),
        (Outcome.mk n (.checked core
          [ballot Tool.z3.name (.ok (segfault "sat\n".toList))])).state = .rejected ∧
        (Outcome.mk n (.checked core [])).state = .validated := by
  obtain ⟨hwith, hwithout⟩ := validate_crash "sat\n".toList
  have hsat : (ballot Tool.z3.name (.ok (segfault "sat\n".toList))).verdict = .sat := by
    show verdictOf (segfault "sat\n".toList) = _
    decide
  refine ⟨hwith, hwithout, rfl, hsat, fun n core => ⟨?_, rfl⟩⟩
  rw [Outcome.state_checked]
  unfold Tally.ofVotes Tally.ofVerdicts
  rw [List.map_singleton, hsat]
  decide

end Validation

end CoreAudit
