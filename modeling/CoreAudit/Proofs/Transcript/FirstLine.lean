import CoreAudit.Proofs.Transcript.Reread
import CoreAudit.Validation

/-!
# One rule for all answers

The answer of a solver is read off its transcript, which is cleaned line by line; that of a
validator is read off the first line that it prints, which is not cleaned. The two readings are the
same wherever the harness has no part in the first line. Where it has, the first line as it stands
says nothing, whatever the transcript says.

Headlines:
* **`head?_lines_of_bare`**: a first line that is bare is the first line of the transcript.
* **`classify_firstLine_of_decorated`**: one that is not is no answer.
* **`answers_read_alike`**: solvers and validators are read by one rule.
-/

namespace CoreAudit

namespace Text

theorem exists_trim_cons {c : Char} (hc : isBlank c = false) (t : Text) :
    ∃ rest, trim (c :: t) = c :: rest := by
  have hkept : ¬ isBlank c = true := by
    rw [hc]
    exact Bool.false_ne_true
  rw [trim, List.dropWhile_cons_of_neg hkept, trimEnd, List.reverse_cons, List.dropWhile_append]
  split
  · rw [List.dropWhile_cons_of_neg hkept]
    exact ⟨[], rfl⟩
  · exact ⟨(t.reverse.dropWhile isBlank).reverse, by rw [List.reverse_append]; rfl⟩

end Text

namespace Stamp

open Text

theorem not_isBlank_of_isDecimal {c : Char} (h : Digit.isDecimal c = true) : isBlank c = false :=
  not_inRanges_of_isDecimal (by decide) h

theorem exists_cons_of_isStamp {stamp : Text} (h : IsStamp stamp) :
    ∃ c rest, stamp = c :: rest ∧ Digit.isDecimal c = true := by
  obtain ⟨a, b, ⟨whole, hne, hdigits, hwhole⟩, _, rfl⟩ := h
  obtain ⟨c, rest, rfl⟩ := List.exists_cons_of_ne_nil hne
  have hc : Digit.isDecimal c = true := by
    rw [List.all_cons, Bool.and_eq_true] at hdigits
    exact hdigits.1
  rcases hwhole with rfl | ⟨places, _, _, rfl⟩
  · exact ⟨c, _, rfl, hc⟩
  · exact ⟨c, _, rfl, hc⟩

end Stamp

namespace Transcript

open Text

variable {raw : Text} {result : RunResult}

/-- The harness has a part in the first line: it is an acknowledgement, or starts with a stamp. -/
def StartsDecorated (raw : Text) : Prop :=
  ∃ line, raw.splitLines.head? = some line ∧
    (line = acknowledgement ∨ ∃ stamp, Stamp.IsStamp stamp ∧ stamp <+: line)

/-- **A first line in which the harness has no part is the first line of the transcript.** -/
theorem head?_lines_of_bare (h : ¬ StartsDecorated raw) :
    (ofText raw).lines.head? = raw.splitLines.head? := by
  show (normalize raw.splitLines).head? = raw.splitLines.head?
  rcases hlines : raw.splitLines with _ | ⟨line, rest⟩
  · rfl
  · have hunbroken := not_isLineEnd_of_mem_splitLines (hlines ▸ List.mem_cons_self)
    have hkept : clean? line = some line := by
      rw [clean?_eq_some_self_iff hunbroken]
      refine ⟨fun hack => h ⟨line, by rw [hlines]; rfl, Or.inl hack⟩, fun stamp hstamp hfront => ?_⟩
      exact h ⟨line, by rw [hlines]; rfl, Or.inr ⟨stamp, hstamp, hfront⟩⟩
    rw [normalize, List.filterMap_cons, hkept]
    rfl

theorem classify_of_isDecimal {c : Char} (hc : Digit.isDecimal c = true) (t : Text) :
    Verdict.classify (c :: t) = .unknown := by
  obtain ⟨rest, htrim⟩ := exists_trim_cons (Stamp.not_isBlank_of_isDecimal hc) t
  rw [Verdict.classify_eq_unknown_iff, htrim]
  constructor <;> rintro h <;> rw [(List.cons.inj h).1] at hc <;> revert hc <;> decide

/-- **A first line in which the harness has a part is no answer.** -/
theorem classify_firstLine_of_decorated (h : StartsDecorated result.stdout) :
    Verdict.classify result.firstLine = .unknown := by
  obtain ⟨line, hhead, hline⟩ := h
  have hfirst : result.firstLine = line.trim := by
    rw [RunResult.firstLine, hhead]
    rfl
  rw [hfirst]
  rcases hline with rfl | ⟨stamp, hstamp, rest, rfl⟩
  · decide
  · obtain ⟨c, more, rfl, hc⟩ := Stamp.exists_cons_of_isStamp hstamp
    obtain ⟨left, htrim⟩ := exists_trim_cons (Stamp.not_isBlank_of_isDecimal hc) (more ++ rest)
    rw [List.cons_append, htrim]
    exact classify_of_isDecimal hc left

/-- **Solvers and validators are read by one rule**: for every output in the first line of which the
harness has no part, the first line says what the transcript says, and that is the vote of a
validator that was in time. An output in the first line of which it has a part is no answer of a
validator, whatever the transcript says. -/
theorem answers_read_alike (result : RunResult) :
    (¬ StartsDecorated result.stdout →
      Verdict.classify result.firstLine = (ofText result.stdout).status ∧
        (result.timedOut = false →
          Validation.verdictOf result = (ofText result.stdout).status)) ∧
      (StartsDecorated result.stdout → Verdict.classify result.firstLine = .unknown) := by
  refine ⟨fun hbare => ?_, classify_firstLine_of_decorated⟩
  have hsame : result.firstLine = (ofText result.stdout).verdictText := by
    rw [RunResult.firstLine, verdictText, head?_lines_of_bare hbare]
  have hstatus : Verdict.classify result.firstLine = (ofText result.stdout).status := by
    rw [hsame, status]
  refine ⟨hstatus, fun htime => ?_⟩
  rw [Validation.verdictOf, htime, ← hstatus]
  rfl

/-- An answer between blanks, with a line end that is not that of a file, and a line after it. -/
def spacedAnswer : RunResult :=
  ⟨"\u2003unsat\u00a0\u2028sat\r\n".toList, 0.0, some 0, false⟩

/-- An answer with the stamp of the harness in front of it. -/
def stampedAnswer : RunResult := ⟨firstStamp ++ "unsat\n".toList, 0.0, some 0, false⟩

/-- The spaced answer is unsat for solvers and validators. The stamped one is unsat for a solver
and no answer of a validator. -/
theorem read_spacedAnswer_stampedAnswer :
    (¬ StartsDecorated spacedAnswer.stdout ∧
      Verdict.classify spacedAnswer.firstLine = .unsat ∧
      Validation.verdictOf spacedAnswer = .unsat) ∧
      StartsDecorated stampedAnswer.stdout ∧
      Verdict.classify stampedAnswer.firstLine = .unknown ∧
      (ofText stampedAnswer.stdout).status = .unsat := by
  have hbare : ¬ StartsDecorated spacedAnswer.stdout := by
    rintro ⟨line, hhead, hline⟩
    obtain rfl : "\u2003unsat\u00a0".toList = line := Option.some.inj hhead
    rcases hline with hack | ⟨stamp, hstamp, hfront⟩
    · revert hack
      decide
    · exact Stamp.cut?_eq_none_iff.mp (by decide) stamp hstamp hfront
  have hstamped : StartsDecorated stampedAnswer.stdout :=
    ⟨firstStamp ++ "unsat".toList, rfl, Or.inr ⟨firstStamp, isStamp_firstStamp, ⟨_, rfl⟩⟩⟩
  have hstatus : (ofText spacedAnswer.stdout).status = .unsat := by decide
  obtain ⟨hread, hvote⟩ := (answers_read_alike spacedAnswer).1 hbare
  exact ⟨⟨hbare, hread.trans hstatus, (hvote rfl).trans hstatus⟩, hstamped,
    (answers_read_alike stampedAnswer).2 hstamped, by decide⟩

end Transcript

end CoreAudit
