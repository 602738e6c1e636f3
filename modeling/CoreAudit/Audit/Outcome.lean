import CoreAudit.Report.Summary
import CoreAudit.UnsatCore
import CoreAudit.Vote

/-!
# Outcomes of an audit

A solver's answer is sat, unknown or unsat; for an unsat answer the core is unparsable or it was
voted on. Everything that a report states follows from that.

Models `PipelineResult`: its fields that depend on each other are one inductive (`Finding`).

* **`Outcome.summary`**: what a report is laid out from.
* `state_checked`: a core that was voted on is accepted unless rejections outnumber.
-/

namespace CoreAudit

/-- What an audit found. -/
inductive Finding where
  | answeredSat
  | answeredUnknown
  | unparsable
  /-- The core was voted on. -/
  | checked (core : UnsatCore) (votes : List Vote)
  deriving Repr

/-- What an audit found, with the number of the benchmark's assertions. -/
structure Outcome where
  assertCount : Nat
  finding : Finding
  deriving Repr

namespace Outcome

/-- How the audit ended. -/
def state (o : Outcome) : State :=
  match o.finding with
  | .answeredSat => .verdictSat
  | .answeredUnknown => .verdictUnknown
  | .unparsable => .unparsable
  | .checked _ votes => if (Tally.ofVotes votes).accepts then .validated else .rejected

/-- What the solver answered. -/
def status (o : Outcome) : Verdict :=
  match o.finding with
  | .answeredSat => .sat
  | .answeredUnknown => .unknown
  | _ => .unsat

/-- The core, if there is one. -/
def core? (o : Outcome) : Option UnsatCore :=
  match o.finding with
  | .checked core _ => some core
  | _ => none

/-- The number of assertions that the core leaves out: zero for an unparsable core, unknown where
the answer was not unsat. -/
def coreReduction? (o : Outcome) : Option Int :=
  match o.finding with
  | .checked core _ => some (UnsatCore.reduction o.assertCount core.size)
  | .unparsable => some 0
  | _ => none

/-- The votes; there are none unless there is a core. -/
def votes (o : Outcome) : List Vote :=
  match o.finding with
  | .checked _ votes => votes
  | _ => []

/-- The tally of the votes, if there is a core. -/
def tally? (o : Outcome) : Option Tally :=
  match o.finding with
  | .checked _ votes => some (Tally.ofVotes votes)
  | _ => none

/-- A vote as a report states it. -/
def voteLine (v : Vote) : Report.VoteLine := ⟨v.identifier, v.verdict.word, .time v.elapsed⟩

/-- What a report is laid out from. -/
def summary (o : Outcome) : Report.Summary :=
  { state := o.state
    status := o.status
    assertCount := o.assertCount
    coreSize := o.core?.map fun c => (c.size : Int)
    coreReduction := o.coreReduction?
    votes := o.votes.map voteLine
    count := o.tally?.map fun t => ⟨t.confirmations, t.rejections⟩ }

/-- The report of an outcome. -/
def report (o : Outcome) : Report := o.summary.report

/-- A core that was voted on is accepted unless its rejections outnumber its confirmations. -/
theorem state_checked (n : Nat) (core : UnsatCore) (votes : List Vote) :
    (Outcome.mk n (.checked core votes)).state = .rejected ↔
      (Tally.ofVotes votes).confirmations < (Tally.ofVotes votes).rejections := by
  simp only [state, Tally.accepts, decide_eq_true_eq]
  split <;> simp <;> omega

end Outcome

end CoreAudit
