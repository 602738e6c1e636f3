import CoreAudit.Audit.Basic
import CoreAudit.Proofs.Validation.Collect

/-!
# How audits end

An audit that ends with an outcome has ended in one of four ways, which are the constructors of
`Ending`: at once, where the answer is not unsat; after the scrambler, where no core was rebuilt;
or after the votes, which are then those of the validators that the table lists for the
benchmark's logic.

Headlines:
* **`Ending.of_run`**: every outcome of an audit is that of an ending.
* `checkCore_eq_ok`: what the scrambler rebuilt decides between the endings of an unsat answer.
-/

namespace CoreAudit.Audit

/-- How an audit of a transcript and a benchmark can end with an outcome. -/
inductive Ending (a : Audit) (t : Transcript) (b : Benchmark) : Outcome → Prop where
  | sat (status : t.status = .sat) : Ending a t b ⟨b.assertCount, .answeredSat⟩
  | unknown (status : t.status = .unknown) : Ending a t b ⟨b.assertCount, .answeredUnknown⟩
  | unparsable (status : t.status = .unsat) : Ending a t b ⟨b.assertCount, .unparsable⟩
  | checked (status : t.status = .unsat) (core : UnsatCore) (votes : List Vote) (logic : Text)
      (logic_eq : b.logic = .ok logic)
      (listed : a.table.validatorsFor logic = .ok (votes.map Vote.identifier)) :
      Ending a t b ⟨b.assertCount, .checked core votes⟩

variable {a : Audit} {schedule : List Pool.Move} {t : Transcript} {b : Benchmark}
  {s u : Session} {o : Outcome}

/-- A core that is voted on is voted on by the validators of the benchmark's logic. -/
theorem voteOn_eq_ok {core : UnsatCore} {workdir : Text}
    (h : a.voteOn schedule b core workdir s = (.ok o, u)) :
    ∃ votes logic, b.logic = .ok logic ∧
      a.table.validatorsFor logic = .ok (votes.map Vote.identifier) ∧
      o = ⟨b.assertCount, .checked core votes⟩ := by
  unfold voteOn at h
  rw [Act.bind_eq_ok] at h
  obtain ⟨_, _, _, h⟩ := h
  rw [Act.bind_eq_ok] at h
  obtain ⟨logic, _, hlogic, h⟩ := h
  rw [Act.ofExcept_eq_ok] at hlogic
  rw [Act.bind_eq_ok] at h
  obtain ⟨ids, _, hids, h⟩ := h
  rw [Act.ofExcept_eq_ok] at hids
  rw [Act.bind_eq_ok] at h
  obtain ⟨_, _, _, h⟩ := h
  rw [Act.bind_eq_ok] at h
  obtain ⟨votes, _, hvotes, h⟩ := h
  rw [Act.pure_eq_ok] at h
  obtain ⟨w, hcollect, _⟩ := Validation.validate_eq_ok.mp hvotes
  refine ⟨votes, logic, hlogic.1, ?_, h.1.symm⟩
  rw [Validation.identifiers_of_collect hcollect]
  exact hids.1

/-- The scrambler has run when a core is checked: the core that it rebuilt is voted on. -/
theorem checkCore_eq_ok {workdir : Text} (h : a.checkCore schedule t b workdir s = (.ok o, u)) :
    ∃ benchmark core? v w, benchmarkFile b workdir s = (.ok benchmark, v) ∧
      a.reconstruction.rebuild benchmark t workdir v = (.ok core?, w) ∧
      match core? with
      | none => o = ⟨b.assertCount, .unparsable⟩
      | some core => a.voteOn schedule b core workdir w = (.ok o, u) := by
  unfold checkCore at h
  rw [Act.bind_eq_ok] at h
  obtain ⟨benchmark, v, hbenchmark, h⟩ := h
  rw [Act.bind_eq_ok] at h
  obtain ⟨core?, w, hrebuild, h⟩ := h
  refine ⟨benchmark, core?, v, w, hbenchmark, hrebuild, ?_⟩
  cases core? with
  | none => exact (Act.pure_eq_ok.mp h).1.symm
  | some core => exact h

/-- The audit of an unsat answer, after its opening records. -/
theorem run_of_unsat (h : t.status = .unsat) :
    a.run schedule t b s = a.checkInScratch schedule t b
      (s.mark ((b.records ++ [openingRecord t b]).map .record)) := by
  unfold run
  rw [Act.bind_of_ok (Act.records_run _ s), h]

theorem checkInScratch_eq_ok (h : a.checkInScratch schedule t b s = (.ok o, u)) :
    ∃ workdir v w, v.toolbox = s.toolbox ∧ a.checkCore schedule t b workdir v = (.ok o, w) := by
  unfold checkInScratch at h
  rw [Act.bind_eq_ok] at h
  obtain ⟨scratch, v, hscratch, h⟩ := h
  obtain ⟨w, hcheck⟩ := Act.of_ensuring_eq_ok h
  refine ⟨_, v, w, ?_, hcheck⟩
  cases hscratch
  rfl

/-- **Every outcome of an audit is that of an ending.** -/
theorem Ending.of_run (h : a.run schedule t b s = (.ok o, u)) : Ending a t b o := by
  cases hstatus : t.status with
  | sat =>
    unfold run at h
    rw [Act.bind_of_ok (Act.records_run _ s), hstatus, Act.pure_eq_ok] at h
    rw [← h.1]
    exact .sat hstatus
  | unknown =>
    unfold run at h
    rw [Act.bind_of_ok (Act.records_run _ s), hstatus, Act.pure_eq_ok] at h
    rw [← h.1]
    exact .unknown hstatus
  | unsat =>
    rw [run_of_unsat hstatus] at h
    obtain ⟨workdir, v, w, _, hcheck⟩ := checkInScratch_eq_ok h
    obtain ⟨_, core?, _, _, _, _, hcore⟩ := checkCore_eq_ok hcheck
    cases core? with
    | none =>
      rw [hcore]
      exact .unparsable hstatus
    | some core =>
      obtain ⟨votes, logic, hlogic, hlisted, rfl⟩ := voteOn_eq_ok hcore
      exact .checked hstatus core votes logic hlogic hlisted

end CoreAudit.Audit
