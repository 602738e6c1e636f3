import CoreAudit.Report.Basic
import CoreAudit.Verdict

/-!
# Laying out a report

The facts of a finished audit are stated in a fixed order under fixed keys, which the tools that
read reports rely on.

Models `build_report` (`Summary.report`, the report of a finished audit) and `PipelineState`.
-/

namespace CoreAudit

/-- How an audit ends. -/
inductive State where
  | verdictSat
  | verdictUnknown
  | unparsable
  | validated
  | rejected
  deriving Repr, DecidableEq

namespace State

/-- The name of a state. -/
def name : State → Text
  | verdictSat => "sat".toList
  | verdictUnknown => "unknown".toList
  | unparsable => "parse-failed".toList
  | validated => "validated".toList
  | rejected => "rejected".toList

/-- The solver's answer counts against it. -/
def isErroneous : State → Bool
  | verdictSat | rejected => true
  | _ => false

end State

namespace Report

/-- One validator's vote as a report states it. -/
structure VoteLine where
  identifier : Text
  result : Text
  time : Value
  deriving Repr

/-- The counts of an adjudication as a report states them. -/
structure Count where
  confirmations : Int
  rejections : Int
  deriving Repr, DecidableEq

/-- The core is accepted; a tie accepts. -/
def Count.accepts (c : Count) : Bool := decide (c.rejections ≤ c.confirmations)

/-- What a report is laid out from. -/
structure Summary where
  state : State
  status : Verdict
  assertCount : Int
  coreSize : Option Int
  coreReduction : Option Int
  votes : List VoteLine
  count : Option Count
  deriving Repr

namespace Summary

/-- The number of assertions gained, if it is known: that of a validated core, and zero in every
other state. -/
def reduction (s : Summary) : Option Int :=
  if s.state = .validated then s.coreReduction else some 0

/-- A truth value in the short form. -/
def digit (b : Bool) : Value := .text (if b then ['1'] else ['0'])

/-- A number that may not be known. -/
def known : Option Int → Value
  | some n => .int n
  | none => .absent

/-- What the answer is called: a verdict that is neither sat nor unsat is unknown. -/
def answerName : Verdict → Text
  | .unknown => "starexec-unknown".toList
  | v => v.word

/-- The facts of a vote. -/
def voteFacts (v : VoteLine) : List (Text × Value) :=
  [(v.identifier ++ "-result".toList, .text v.result), (v.identifier ++ "-time".toList, v.time)]

/-- The facts of an adjudication. -/
def countFacts (votes : List VoteLine) (c : Count) : List (Text × Value) :=
  [("number-of-validators".toList, .int votes.length)] ++ votes.flatMap voteFacts ++
    [("unsat-core-rejections".toList, .int c.rejections),
     ("unsat-core-confirmations".toList, .int c.confirmations),
     ("unsat-core-validated".toList, .flag c.accepts)]

/-- The facts of a core, which only an unsat answer has. -/
def coreFacts (s : Summary) : List (Text × Value) :=
  [("parsable-unsat-core".toList, .flag s.coreSize.isSome)] ++
    (s.coreSize.map fun n => ("size-unsat-core".toList, Value.int n)).toList ++
    [("reduction".toList, known s.coreReduction)] ++
    (s.count.map (countFacts s.votes)).getD []

/-- All facts, in their order. -/
def facts (s : Summary) : List (Text × Value) :=
  [("check-sat-result-is-erroneous".toList, digit (s.status == .sat)),
   ("starexec-result".toList, .text (answerName s.status))] ++
    (if s.status = .sat then [] else [("number-of-assert-commands".toList, .int s.assertCount)]) ++
    (if s.status = .unsat then s.coreFacts else []) ++
    [("result-is-erroneous".toList, digit s.state.isErroneous),
     ("reduction".toList, known s.reduction)]

/-- The report of a finished audit. -/
def report (s : Summary) : Report := empty.addAll s.facts

end Summary

end Report

end CoreAudit
