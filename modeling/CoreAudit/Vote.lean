import CoreAudit.Verdict

/-!
# Votes

Every validator of a logic votes on the reduced benchmark: unsat confirms the core, sat rejects
it, unknown is no vote. The core is accepted unless the rejections outnumber the confirmations.

Models `ValidatorVote`, `AdjudicationResult` and `adjudicate`.

* **`tally_append`**: a tally counts vote by vote.
* **`tally_perm`**: the order of the votes does not matter.
* **`tally_filter_decided`**: undecided votes do not matter.
-/

namespace CoreAudit

/-- One validator's vote and the time it took, in seconds. -/
structure Vote where
  identifier : Text
  verdict : Verdict
  elapsed : Float
  deriving Repr

/-- The number of confirmations and of rejections. -/
structure Tally where
  confirmations : Nat
  rejections : Nat
  deriving Repr, DecidableEq

namespace Tally

/-- The tally of a list of verdicts. -/
def ofVerdicts (vs : List Verdict) : Tally := ⟨vs.count .unsat, vs.count .sat⟩

/-- The tally of a list of votes. -/
def ofVotes (votes : List Vote) : Tally := ofVerdicts (votes.map Vote.verdict)

/-- The core is accepted; a tie, also without any decisive vote, accepts. -/
def accepts (t : Tally) : Bool := decide (t.rejections ≤ t.confirmations)

/-- A tally counts vote by vote. -/
theorem tally_append (a b : List Vote) :
    ofVotes (a ++ b) =
      ⟨(ofVotes a).confirmations + (ofVotes b).confirmations,
        (ofVotes a).rejections + (ofVotes b).rejections⟩ := by
  simp [ofVotes, ofVerdicts, List.count_append]

/-- The order of the votes does not matter. -/
theorem tally_perm {a b : List Vote} (h : (a.map Vote.verdict).Perm (b.map Vote.verdict)) :
    ofVotes a = ofVotes b := by
  simp [ofVotes, ofVerdicts, h.count_eq]

/-- Undecided votes do not matter. -/
theorem tally_filter_decided (votes : List Vote) :
    ofVotes (votes.filter fun v => v.verdict != .unknown) = ofVotes votes := by
  induction votes with
  | nil => rfl
  | cons v votes ih =>
    obtain ⟨_, verdict, _⟩ := v
    cases verdict <;> simp_all [ofVotes, ofVerdicts]

end Tally

end CoreAudit
