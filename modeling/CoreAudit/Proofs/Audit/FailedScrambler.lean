import CoreAudit.Proofs.Audit.Checked

/-!
# Scramblers that fail

A scrambler that runs out of its budget gives no core. One that crashes does, if what it printed
starts with a line that announces a core: the exit code is recorded where nothing was printed, and
does not matter otherwise. `Announces` says which lines these are, and `reading_eq_none_iff` that
nothing else decides whether a run gives a core.

An audit ends without a core in exactly the same cases. It has then asked the scrambler and no
validator, and its report does not count against the solver.

Headlines:
* **`reading_eq_none_iff`**: a run gives no core iff it was late or announces none.
* **`run_unparsable_iff`**: an audit ends without a core in the same cases.
* **`rejected_of_crash`**: a formula that a crashed scrambler printed can reject a core.
-/

namespace CoreAudit

namespace Text

theorem mentions_iff {t needle : Text} : t.mentions needle = true ↔ needle <:+: t := by
  induction t with
  | nil => rw [mentions, List.isEmpty_iff, List.infix_nil]
  | cons c t ih => rw [mentions, Bool.or_eq_true, ih, List.isPrefixOf_iff_prefix, List.infix_cons_iff]

end Text

namespace Reading

/-- The line announces a core, with the digits of its size: there is no error mark in it, and it
starts with a header around the digits. -/
structure Announces (line digits : Text) : Prop where
  unmarked : ¬ errorMark <:+: line
  nonempty : digits ≠ []
  decimal : ∀ c ∈ digits, Text.Digit.isDecimal c = true
  header : headerStart ++ digits ++ headerEnd <+: line

/-- The digits of a header are found iff the line starts with the header around them. -/
theorem headerDigits?_eq_some_iff {line digits : Text} :
    headerDigits? line = some digits ↔ digits ≠ [] ∧
      (∀ c ∈ digits, Text.Digit.isDecimal c = true) ∧
      headerStart ++ digits ++ headerEnd <+: line := by
  unfold headerDigits?
  dsimp only
  constructor
  · intro h
    split at h
    · rename_i hheader
      cases h
      rw [Bool.and_eq_true, Bool.and_eq_true, List.isPrefixOf_iff_prefix,
        List.isPrefixOf_iff_prefix, Bool.not_eq_true', List.isEmpty_eq_false_iff] at hheader
      obtain ⟨⟨⟨rest, rfl⟩, hne⟩, ⟨tail, htail⟩⟩ := hheader
      rw [List.drop_left] at hne htail ⊢
      refine ⟨hne, fun c hc => ?_, tail, ?_⟩
      · exact List.all_eq_true.mp List.all_takeWhile c hc
      · rw [List.append_assoc, List.append_assoc, htail, List.takeWhile_append_dropWhile]
    · cases h
  · rintro ⟨hne, hdecimal, tail, rfl⟩
    have hrest : (headerStart ++ digits ++ headerEnd ++ tail).drop headerStart.length =
        digits ++ (headerEnd ++ tail) := by
      rw [List.append_assoc, List.append_assoc, List.drop_left]
    have hend : ∀ tail : Text, (headerEnd ++ tail).takeWhile Text.Digit.isDecimal = [] ∧
        (headerEnd ++ tail).dropWhile Text.Digit.isDecimal = headerEnd ++ tail :=
      fun _ => ⟨rfl, rfl⟩
    have htake : (digits ++ (headerEnd ++ tail)).takeWhile Text.Digit.isDecimal = digits := by
      rw [List.takeWhile_append_of_pos hdecimal, (hend tail).1, List.append_nil]
    have hdrop : (digits ++ (headerEnd ++ tail)).dropWhile Text.Digit.isDecimal =
        headerEnd ++ tail := by
      rw [List.dropWhile_append_of_pos hdecimal, (hend tail).2]
    have hstart : headerStart.isPrefixOf (headerStart ++ digits ++ headerEnd ++ tail) = true := by
      rw [List.isPrefixOf_iff_prefix, List.append_assoc, List.append_assoc]
      exact List.prefix_append _ _
    have hprefix : headerEnd.isPrefixOf (headerEnd ++ tail) = true := by
      rw [List.isPrefixOf_iff_prefix]
      exact List.prefix_append _ _
    rw [hrest, htake, hdrop, hstart, hprefix, List.isEmpty_eq_false_iff.mpr hne]
    rfl

theorem announces_iff {line digits : Text} :
    Announces line digits ↔ line.mentions errorMark = false ∧ headerDigits? line = some digits := by
  rw [headerDigits?_eq_some_iff, Bool.eq_false_iff, ne_eq, Text.mentions_iff]
  exact ⟨fun h => ⟨h.unmarked, h.nonempty, h.decimal, h.header⟩,
    fun h => ⟨h.1, h.2.1, h.2.2.1, h.2.2.2⟩⟩

end Reading

namespace Reconstruction

open Reading

/-- The first line that a run printed. -/
def headline (result : RunResult) : Text := (result.stdout.cut '\n').1

theorem reading_of_inTime {result : RunResult} (h : result.timedOut = false) :
    (reading result).1 = (ofOutput result.stdout).map core? := by
  unfold reading
  rw [h, if_neg Bool.false_ne_true]
  cases ofOutput result.stdout <;> rfl

theorem core?_ofOutput_iff (output : Text) :
    (ofOutput output).map core? = .ok none ↔ ∀ digits, ¬ Announces (output.cut '\n').1 digits := by
  unfold ofOutput
  rcases output.cut '\n' with ⟨line, body⟩
  dsimp only
  cases hmark : line.mentions errorMark with
  | true =>
    refine ⟨fun _ digits h => ?_, fun _ => rfl⟩
    rw [announces_iff, hmark] at h
    exact Bool.false_ne_true h.1.symm
  | false =>
    rw [if_neg Bool.false_ne_true]
    cases hdigits : headerDigits? line with
    | none =>
      refine ⟨fun _ digits h => ?_, fun _ => rfl⟩
      rw [announces_iff, hdigits] at h
      cases h.2
    | some digits =>
      have hannounces : Announces line digits := announces_iff.mpr ⟨hmark, hdigits⟩
      refine ⟨fun h => ?_, fun h => absurd hannounces (h digits)⟩
      dsimp only at h
      cases hsize : size? digits with
      | error f =>
        rw [hsize] at h
        cases h
      | ok size =>
        rw [hsize] at h
        cases h

/-- **A run of the scrambler gives no core iff it was late or its first line announces none.** The
exit code does not matter. -/
theorem reading_eq_none_iff (result : RunResult) :
    (reading result).1 = .ok none ↔
      result.timedOut = true ∨ ∀ digits, ¬ Announces (headline result) digits := by
  cases hlate : result.timedOut with
  | true => exact ⟨fun _ => Or.inl rfl, fun _ => reading_of_timedOut hlate⟩
  | false =>
    rw [reading_of_inTime hlate, core?_ofOutput_iff]
    exact ⟨Or.inr, fun h => h.resolve_left Bool.false_ne_true⟩

end Reconstruction

namespace Audit

open Reading Reconstruction

variable {t : Transcript} {b : Benchmark} {s : Session} {label : Text} {result : RunResult}

/-- An audit that goes on from a core or from a fault does not end without a core. -/
theorem proceed_ne_unparsable {a : Audit} {schedule : List Pool.Move} {workdir : Text}
    {reading : Except Fault (Option UnsatCore)} (h : reading ≠ .ok none) (u : Session) :
    ∀ n, (a.proceed schedule b workdir reading u).1 ≠ .ok ⟨n, .unparsable⟩ := by
  intro n hn
  rcases reading with f | _ | core
  · cases hn
  · exact h rfl
  · obtain ⟨votes, logic, _, _, ho⟩ := voteOn_eq_ok (Prod.ext hn rfl)
    cases ho

/-- **What decides whether an audit ends without a core is that the scrambler was late or announced
none; whether it crashed is not asked.** The audit has then asked the scrambler once and started or
asked nothing else, and its report does not count against the solver. -/
theorem run_unparsable_iff (a : Audit) (schedule : List Pool.Move) (t : Transcript)
    (b : Benchmark) (s : Session) (label : Text) (result : RunResult)
    (hclosed : s.files.Closed) (hname : Path.IsName (s.files.freeName s.host.scratchStem))
    (hstatus : t.status = .unsat)
    (hscrambler : s.toolbox.scrambler = some (.scripted label fun _ => .ok result)) :
    ((reading result).1 = .ok none ↔
        result.timedOut = true ∨ ∀ digits, ¬ Announces (headline result) digits) ∧
      ((a.run schedule t b s).1 = .ok ⟨b.assertCount, .unparsable⟩ ↔
        result.timedOut = true ∨ ∀ digits, ¬ Announces (headline result) digits) ∧
      ((reading result).1 = .ok none →
        (∃ workdir, s.AskedSince (a.run schedule t b s).2
          [(label, a.scramblerRequest b workdir)]) ∧
        (Outcome.mk b.assertCount .unparsable).report.get? "result-is-erroneous".toList =
          some ['0']) := by
  obtain ⟨scratch, u, hrun, _, _, _, hasked⟩ :=
    run_scripted a schedule b hclosed hname hstatus hscrambler
  have hends : (reading result).1 = .ok none → ∃ v,
      a.run schedule t b s = (.ok ⟨b.assertCount, .unparsable⟩, v) ∧ s.AskedSince v
        [(label, a.scramblerRequest b (FileTree.pathOf scratch))] := by
    intro hnone
    obtain ⟨v, hleave, hleft⟩ := a.leave_run scratch u
    refine ⟨v, ?_, hasked.trans hleft⟩
    rw [hrun, hnone]
    exact Act.ensuring_run hleave
  refine ⟨reading_eq_none_iff result, ?_, fun hnone => ?_⟩
  · rw [← reading_eq_none_iff]
    constructor
    · intro hunparsable
      refine Classical.byContradiction fun hne => ?_
      rw [hrun] at hunparsable
      obtain ⟨v, hproceed⟩ := Act.of_ensuring_eq_ok (Prod.ext hunparsable rfl)
      exact proceed_ne_unparsable hne u b.assertCount (congrArg Prod.fst hproceed)
    · intro hnone
      obtain ⟨v, hv, _⟩ := hends hnone
      rw [hv]
  · obtain ⟨v, hv, hasks⟩ := hends hnone
    refine ⟨⟨FileTree.pathOf scratch, ?_⟩, rfl⟩
    rw [hv]
    exact hasks

/-- A scrambler that prints a header and crashes in the middle of the formula. -/
def crashResult : RunResult := ⟨";; parsed 1 names:\n(check-sat)\n".toList, 0.5, some 1, false⟩

theorem announces_crashResult : Announces (headline crashResult) ['1'] :=
  announces_iff.mpr ⟨by decide, by decide⟩

/-- The audit of an unsat answer does not end without a core although the scrambler crashed. -/
theorem run_crashed_ne_unparsable :
    crashResult.returnCode = some 1 ∧
      (pairAudit.run [] pairTranscript pairBenchmark (pairSession crashResult [])).1 ≠
        .ok ⟨pairBenchmark.assertCount, .unparsable⟩ := by
  obtain ⟨_, hiff, _⟩ := run_unparsable_iff pairAudit [] pairTranscript pairBenchmark
    (pairSession crashResult []) Tool.scrambler.name crashResult closed_empty
    (isName_pairSession crashResult []) (by decide) rfl
  refine ⟨rfl, fun h => ?_⟩
  rcases hiff.mp h with hlate | hnone
  · cases hlate
  · exact hnone ['1'] announces_crashResult

/-- **What a crashed scrambler printed can reject a core**: the audit votes on it, and the report
counts against the solver. -/
theorem rejected_of_crash :
    ∃ o u, pairAudit.run [] pairTranscript pairBenchmark
        (pairSession crashResult "sat\n".toList) = (.ok o, u) ∧
      crashResult.returnCode = some 1 ∧ o.core? = some ⟨1, "(check-sat)\n".toList⟩ ∧
      o.state = .rejected ∧ o.report.get? "result-is-erroneous".toList = some ['1'] := by
  have hcore : (reading crashResult).1 = .ok (some ⟨1, "(check-sat)\n".toList⟩) := by rfl
  obtain ⟨u, hrun⟩ := run_pair hcore "sat\n".toList
  exact ⟨_, u, hrun, rfl, rfl, by rfl, by rfl⟩

end Audit

end CoreAudit
