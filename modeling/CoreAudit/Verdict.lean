import CoreAudit.Text.Blank

/-!
# Verdicts

A solver and every validator answer `sat`, `unsat` or nothing usable. Models `classify`.

* **`classify_word`**: a verdict's word is read as that verdict.
* `classify_eq_unknown_iff`: every other answer is unknown.
-/

namespace CoreAudit

/-- What an answer says. -/
inductive Verdict where
  | sat
  | unsat
  | unknown
  deriving Repr, DecidableEq

namespace Verdict

/-- The word of a verdict. -/
def word : Verdict → Text
  | sat => "sat".toList
  | unsat => "unsat".toList
  | unknown => "unknown".toList

/-- The verdict of an answer line. Blanks around the word do not matter, upper case does. -/
def classify (answer : Text) : Verdict :=
  let t := answer.trim
  if t = sat.word then sat
  else if t = unsat.word then unsat
  else unknown

/-- A verdict's word is read as that verdict. -/
theorem classify_word (v : Verdict) : classify v.word = v := by cases v <;> decide

/-- An answer is unknown unless, trimmed, it is one of the two decisive words. -/
theorem classify_eq_unknown_iff (answer : Text) :
    classify answer = unknown ↔ answer.trim ≠ sat.word ∧ answer.trim ≠ unsat.word := by
  unfold classify
  by_cases hs : answer.trim = sat.word
  · simp [hs]
  · by_cases hu : answer.trim = unsat.word
    · simp [hu, show unsat.word ≠ sat.word by decide]
    · simp [hs, hu]

end Verdict

end CoreAudit
