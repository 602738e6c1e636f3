import CoreAudit.Proofs.Audit.Fatal
import CoreAudit.Proofs.Audit.Prepared
import CoreAudit.Proofs.Files.Subdivided
import CoreAudit.Proofs.Validation.Openings

/-!
# What the scrambler reports

The scrambler writes a header line with the size of a core, and a body. Of the line only the number
is read, whatever its leading zeros and the names that follow it; the body is not looked at. So the
core of an audit is the reported one, its reduction is what the header says, with a warning iff that
is negative, and every run of a validator is made when the reduced benchmark holds the body and
nothing else.

Not all validators need be run: where the directory of one cannot be made, or its run raises a fault
that is not one of input and output, the audit ends in that fault.

Headlines:
* `Text.Digit.numeral_ofNat`: a number is read back from its digits, leading zeros or not.
* **`Reading.ofOutput_printed`**: a header line and a body are read as a core of them.
* **`Audit.run_reports`**: what the scrambler reports reaches the validators.
* `Audit.not_run_of_longName`: a validator whose directory cannot be made is not run.
-/

namespace CoreAudit

/-! ## Header lines -/

theorem Text.cut_eq {mark : Char} {line : Text} (h : mark ∉ line) (body : Text) :
    (line ++ mark :: body).cut mark = (line, some body) := by
  have hne : ∀ c ∈ line, (c != mark) = true := fun c hc => by
    rw [bne_iff_ne]
    rintro rfl
    exact h hc
  have hmark : (mark != mark) = false := bne_self_eq_false mark
  unfold Text.cut
  rw [List.takeWhile_append_of_pos hne, List.dropWhile_append_of_pos hne,
    List.takeWhile_cons_of_neg (by rw [hmark]; exact Bool.false_ne_true),
    List.dropWhile_cons_of_neg (by rw [hmark]; exact Bool.false_ne_true), List.append_nil]
  rfl

namespace Text.Digit

theorem isDigit_of_isDigit {c : Char} (h : c.isDigit = true) : isDigit c = true := by
  rw [isDigit, value?_of_isDigit h]
  rfl

theorem foldl_eq_ofDigitChars {digits : Text} (h : ∀ c ∈ digits, c.isDigit = true) (n : Nat) :
    digits.foldl (fun n c => n * 10 + (value? c).getD 0) n = Nat.ofDigitChars 10 digits n := by
  induction digits generalizing n with
  | nil => rfl
  | cons c digits ih =>
    rw [List.foldl_cons, value?_of_isDigit (h c List.mem_cons_self),
      ih fun d hd => h d (List.mem_cons_of_mem _ hd), Nat.ofDigitChars_cons, Option.getD_some,
      Nat.mul_comm]
    rfl

/-- **A number is read back from its digits, leading zeros or not.** -/
theorem numeral_ofNat (zeros n : Nat) :
    numeral (List.replicate zeros '0' ++ Text.ofNat n) = n := by
  have hzeros : (List.replicate zeros '0').foldl (fun n c => n * 10 + (value? c).getD 0) 0 = 0 := by
    induction zeros with
    | zero => rfl
    | succ zeros ih => exact ih
  have hdigits : ∀ c ∈ Text.ofNat n, c.isDigit = true := fun c hc =>
    Nat.isDigit_of_mem_toDigits (by decide) (by decide) hc
  unfold numeral
  rw [List.foldl_append, hzeros, foldl_eq_ofDigitChars hdigits]
  exact Nat.ofDigitChars_toDigits (by decide) (by decide)

end Text.Digit

namespace Reading

/-- A header line: the size of a core, maybe with leading zeros, and what else is on the line. -/
def headerLine (zeros size : Nat) (remainder : Text) : Text :=
  headerStart ++ (List.replicate zeros '0' ++ Text.ofNat size) ++ headerEnd ++ remainder

/-- What the scrambler prints that reports a core: a header line, and the body after it. -/
def printed (zeros size : Nat) (remainder body : Text) : Text :=
  headerLine zeros size remainder ++ '\n' :: body

/-- The line is one line without the error mark, and its number can be read. -/
structure IsHeader (zeros size : Nat) (remainder : Text) : Prop where
  short : zeros + (Text.ofNat size).length ≤ Number.maxDigits
  single : '\n' ∉ headerLine zeros size remainder
  unmarked : ¬ errorMark <:+: headerLine zeros size remainder

instance (zeros size : Nat) (remainder : Text) : Decidable (IsHeader zeros size remainder) :=
  decidable_of_iff
    (zeros + (Text.ofNat size).length ≤ Number.maxDigits ∧
      '\n' ∉ headerLine zeros size remainder ∧
      (headerLine zeros size remainder).mentions errorMark = false)
    ⟨fun h => ⟨h.1, h.2.1, fun hmark => by rw [← Text.mentions_iff, h.2.2] at hmark; cases hmark⟩,
      fun h => ⟨h.short, h.single, Bool.eq_false_iff.mpr fun hmark =>
        h.unmarked (Text.mentions_iff.mp hmark)⟩⟩

variable {zeros size : Nat} {remainder : Text}

theorem isDigit_of_mem_number {c : Char} (hc : c ∈ List.replicate zeros '0' ++ Text.ofNat size) :
    Text.Digit.isDigit c = true := by
  rcases List.mem_append.mp hc with hc | hc
  · rw [List.eq_of_mem_replicate hc]
    decide
  · exact Text.Digit.isDigit_of_isDigit (Nat.isDigit_of_mem_toDigits (by decide) (by decide) hc)

/-- A header line announces a core with the digits of its number. -/
theorem IsHeader.announces (h : IsHeader zeros size remainder) :
    Announces (headerLine zeros size remainder)
      (List.replicate zeros '0' ++ Text.ofNat size) where
  unmarked := h.unmarked
  nonempty := List.append_ne_nil_of_right_ne_nil _ Nat.toDigits_ne_nil
  decimal := fun _ hc => Text.Digit.isDecimal_of_isDigit (isDigit_of_mem_number hc)
  header := List.prefix_append _ _

/-- **A header line and a body are read as a core of that size and body**, whatever else is on the
line, and whatever the body is. -/
theorem ofOutput_printed (h : IsHeader zeros size remainder) (body : Text) :
    ofOutput (printed zeros size remainder body) = .ok (.parsed ⟨size, body⟩) := by
  have hcut : (printed zeros size remainder body).cut '\n' =
      (headerLine zeros size remainder, some body) := Text.cut_eq h.single body
  have hread : (List.replicate zeros '0' ++ Text.ofNat size).all Text.Digit.isDigit = true :=
    List.all_eq_true.mpr fun _ => isDigit_of_mem_number
  have hannounces : Announces ((printed zeros size remainder body).cut '\n').1
      (List.replicate zeros '0' ++ Text.ofNat size) := by
    rw [hcut]
    exact h.announces
  rw [ofOutput_of_announces hannounces, hcut, size?_of_isDigit hread, Text.Digit.numeral_ofNat]
  · rfl
  · rw [List.length_append, List.length_replicate]
    exact h.short

end Reading

/-- A run in time that printed a report of a core gives the core, and leaves no record. -/
theorem Reconstruction.reading_printed {result : RunResult} {zeros size : Nat}
    {remainder body : Text} (hlate : result.timedOut = false)
    (houtput : result.stdout = Reading.printed zeros size remainder body)
    (h : Reading.IsHeader zeros size remainder) :
    reading result = (.ok (some ⟨size, body⟩), []) := by
  have hsilent : failedSilently result = false := by
    have hempty : result.stdout.isEmpty = false := by
      rw [houtput]
      rfl
    rw [failedSilently, hempty, Bool.false_and]
  have hfailure : failureRecords result = [] := by
    unfold failureRecords
    rw [hsilent]
    cases result.returnCode <;> rfl
  unfold reading
  rw [if_neg (by rw [hlate]; exact Bool.false_ne_true), houtput, Reading.ofOutput_printed h, hfailure]
  rfl

/-! ## Audits -/

namespace Audit

open Validation FileTree Reconstruction

variable {a : Audit} {schedule : List Pool.Move} {t : Transcript} {b : Benchmark} {s w : Session}
  {core : UnsatCore} {name : Text} {ids : List Text}

/-- The session in which a core is voted on: what there is to say of its size is said, and its
formula is written in the scratch directory. -/
def polled (b : Benchmark) (core : UnsatCore) (name : Text) (w : Session) : Session :=
  { w.mark ((UnsatCore.reductionRecords b.assertCount core.size).map .record) with
    files := w.files.put [name, reducedName] (.file (Text.Utf8.encode core.formula) false) }

/-- With a resolved logic the votes on a core are those of a validation in that session. -/
theorem voteOn_eq (schedule : List Pool.Move) (hpanel : a.table.panel b = .ok ids)
    (S : w.files.Scratch name [coreName, benchmarkName]) :
    a.voteOn schedule b core (pathOf [name]) w =
      ((a.validation.validate schedule (Path.join (pathOf [name]) reducedName) (pathOf [name]) ids
          (polled b core name w)).1.map fun votes => ⟨b.assertCount, .checked core votes⟩,
        (a.validation.validate schedule (Path.join (pathOf [name]) reducedName) (pathOf [name]) ids
          (polled b core name w)).2) := by
  obtain ⟨hwrite, _⟩ := S.write isName_reducedName (by decide) w.here (Text.Utf8.encode core.formula)
  have hwritten : Act.writeFile (Path.join (pathOf [name]) reducedName) core.formula
      (w.mark ((UnsatCore.reductionRecords b.assertCount core.size).map .record)) =
        (.ok (), polled b core name w) := Act.writeFile_run hwrite
  rw [voteOn_of_panel hpanel, Act.bind_of_ok hwritten, bind_pure_comp, Act.map_run]

/-- **The reduced benchmark holds the formula of the core**, whichever directories of validators
were made beside it. -/
theorem written_polled (b : Benchmark) (core : UnsatCore) (ids : List Text)
    (S : w.files.Scratch name [coreName, benchmarkName]) :
    Written (Path.join (pathOf [name]) reducedName) (pathOf [name]) ids
      (Text.Utf8.encode core.formula) (polled b core name w) := by
  intro u M
  obtain ⟨made, _, hfiles⟩ := M.files
  obtain ⟨_, S'⟩ := S.write isName_reducedName (by decide) w.here (Text.Utf8.encode core.formula)
  have hkept := retains_makePaths (polled b core name w).files (polled b core name w).here made
  have hformula : (polled b core name w).files.get? [name, reducedName] =
      some (.file (Text.Utf8.encode core.formula) false) := by
    show (w.files.put _ _).get? _ = _
    rw [get?_put w.files (List.cons_ne_nil _ _), if_pos rfl]
  rw [hfiles, M.here]
  exact read_join ((S'.leads _).mono fun l h => hkept l _ h) isName_reducedName
    (S'.length_lt isName_reducedName) (hkept _ _ hformula)

/-- **A run of the scrambler that reports a core reconstructs it**, and nothing but the run is left
in the session. -/
theorem reconstruct_reports (a : Audit) (t : Transcript) (b : Benchmark) {runner : Runner}
    {result : RunResult} {marks : List Mark} {zeros size : Nat} {remainder body : Text}
    (hclosed : s.files.Closed) (hname : Path.IsName (s.files.freeName s.host.scratchStem))
    (hscrambler : s.scramblerOf = some runner)
    (hrun : runner.run (a.scramblerRequest b (pathOf s.scratch)) (prepared t b s) =
      (.ok result, (prepared t b s).mark marks))
    (hlate : result.timedOut = false)
    (houtput : result.stdout = Reading.printed zeros size remainder body)
    (hheader : Reading.IsHeader zeros size remainder) :
    a.reconstruct t b (pathOf s.scratch) (opened t b s) =
      (.ok (some ⟨size, body⟩), (prepared t b s).mark marks) := by
  rw [a.reconstruct_eq t b hclosed hname, hscrambler]
  dsimp only
  rw [hrun, readingOf, reading_printed hlate houtput hheader]
  dsimp only
  rw [List.map_nil, Session.mark_mark, List.append_nil]

/-- What is known of the votes on a core that was reported, of what they come to and of the marks
that they leave in a session. -/
structure Polls (a : Audit) (b : Benchmark) (core : UnsatCore) (name : Text) (w : Session)
    (result : Except Fault Outcome) (later : List Mark) : Prop where
  /-- The records of the scrambler's stage are those of a negative reduction. -/
  warning : later.filter Mark.isOfScrambler =
    (UnsatCore.reductionRecords b.assertCount core.size).map .record
  outcome : ∀ o, result = .ok o →
    o.core? = some core ∧ o.coreReduction? = some ((b.assertCount : Int) - core.size)
  /-- Every run that begins is that of a validator on the formula of the core. -/
  fed : ∀ ids, a.table.panel b = .ok ids → ∀ m ∈ later, m.isOpening = true →
    a.validation.Opens (Path.join (pathOf [name]) reducedName) (pathOf [name]) ids
      (Text.Utf8.encode core.formula) w w.trace later m
  /-- All validators of the logic are run, unless a fault escapes from one of them. -/
  asked : ∀ ids, a.table.panel b = .ok ids →
    ((∃ o, result = .ok o) ∧ ∀ i id, ids[i]? = some id → ∃ u,
      a.validation.RunOn (Path.join (pathOf [name]) reducedName) (pathOf [name])
        (Text.Utf8.encode core.formula) w w.trace later i id u ∧
      (w.runnerOf id).opening (request a.validation.timeout
        (Path.join (pathOf [name]) reducedName) (pathOf [name]) i id).2 u ∈ later) ∨
    ∃ f i id, result = .error f ∧ ids[i]? = some id ∧
      a.validation.Escapes (Path.join (pathOf [name]) reducedName) (pathOf [name]) ids
        (polled b core name w) i id f

/-- Records of other stages that are left afterwards do not matter. -/
theorem Polls.append {result : Except Fault Outcome} {later : List Mark}
    (P : a.Polls b core name w result later) {rs : List LogRecord}
    (h : ∀ r ∈ rs, r.channel ≠ .scrambler) :
    a.Polls b core name w result (later ++ rs.map .record) where
  warning := by
    have hnone := Mark.filter_isOfScrambler_eq_nil fun _ hm => Mark.not_isOfScrambler_records h hm
    rw [List.filter_append, hnone, List.append_nil]
    exact P.warning
  outcome := P.outcome
  fed := by
    intro ids hpanel m hm hopening
    rcases List.mem_append.mp hm with hm | hm
    · exact (P.fed ids hpanel m hm hopening).append _
    · rw [not_isOpening_records hm] at hopening
      cases hopening
  asked := by
    intro ids hpanel
    rcases P.asked ids hpanel with ⟨hends, hran⟩ | hescapes
    · refine Or.inl ⟨hends, fun i id hid => ?_⟩
      obtain ⟨u, ⟨hrun, hread⟩, hmem⟩ := hran i id hid
      exact ⟨u, ⟨hrun.append _, hread⟩, List.mem_append_left _ hmem⟩
    · exact Or.inr hescapes

theorem filter_reductionRecords (n m : Int) :
    ((UnsatCore.reductionRecords n m).map Mark.record).filter Mark.isOfScrambler =
      (UnsatCore.reductionRecords n m).map .record := by
  unfold UnsatCore.reductionRecords
  split <;> rfl

/-- **The votes on a core**, under any schedule and however they end. -/
theorem voteOn_polls (a : Audit) (schedule : List Pool.Move) (b : Benchmark) (core : UnsatCore)
    (S : w.files.Scratch name [coreName, benchmarkName]) :
    ∃ later, (a.voteOn schedule b core (pathOf [name]) w).2.trace = w.trace ++ later ∧
      a.Polls b core name w (a.voteOn schedule b core (pathOf [name]) w).1 later := by
  rcases hpanel : a.table.panel b with f | ids
  · rw [voteOn_of_unresolved (LogicTable.panel_eq_error_iff.mp hpanel)]
    refine ⟨_, rfl, filter_reductionRecords _ _, fun o ho => (nomatch ho), fun ids hids => ?_,
      fun ids hids => ?_⟩
    all_goals
      rw [hpanel] at hids
      cases hids
  · have W := written_polled b core ids S
    have O := opened_validate a.validation schedule W
    obtain ⟨later, htrace, hopens⟩ := O.course
    obtain ⟨others, hothers, hforeign⟩ := a.validation.isForeign_validate schedule
      (Path.join (pathOf [name]) reducedName) (pathOf [name]) ids (polled b core name w)
    rw [htrace] at hothers
    obtain rfl := List.append_cancel_left hothers
    have hnone := Mark.filter_isOfScrambler_eq_nil hforeign
    rw [voteOn_eq schedule hpanel S]
    refine ⟨(UnsatCore.reductionRecords b.assertCount core.size).map .record ++ later, ?_, ?_, ?_, ?_,
      ?_⟩
    · exact htrace.trans (List.append_assoc _ _ _)
    · rw [List.filter_append, filter_reductionRecords, hnone, List.append_nil]
    · intro o ho
      rcases hvotes : (a.validation.validate schedule (Path.join (pathOf [name]) reducedName)
        (pathOf [name]) ids (polled b core name w)).1 with f | votes <;> rw [hvotes] at ho <;> cases ho
      exact ⟨rfl, rfl⟩
    · intro ids' hids m hm hopening
      rw [hpanel] at hids
      cases hids
      rcases List.mem_append.mp hm with hm | hm
      · rw [not_isOpening_records hm] at hopening
        cases hopening
      · exact (hopens m hm hopening).prepend
    · intro ids' hids
      rw [hpanel] at hids
      cases hids
      rcases hvotes : (a.validation.validate schedule (Path.join (pathOf [name]) reducedName)
        (pathOf [name]) ids (polled b core name w)).1 with f | votes
      · obtain ⟨i, id, hid, hescapes⟩ := escapes_of_validate W hvotes
        exact Or.inr ⟨f, i, id, rfl, hid, hescapes⟩
      · refine Or.inl ⟨⟨_, rfl⟩, fun i id hid => ?_⟩
        obtain ⟨others, u, hothers, ⟨hrun, hread⟩, hmem⟩ :=
          ran_of_validate W (Prod.ext hvotes rfl) hid
        rw [htrace] at hothers
        obtain rfl := List.append_cancel_left hothers
        exact ⟨u, ⟨hrun.prepend, hread⟩, List.mem_append_right _ hmem⟩

/-- Marks do not matter for what is in the scratch directory. -/
theorem scratch_marked (t : Transcript) (b : Benchmark) (hclosed : s.files.Closed)
    (hname : Path.IsName (s.files.freeName s.host.scratchStem)) (marks : List Mark) :
    ((prepared t b s).mark marks).files.Scratch (s.files.freeName s.host.scratchStem)
      [coreName, benchmarkName] := scratch_prepared t b hclosed hname

theorem not_isOfScrambler_opening {m : Mark}
    (hm : m ∈ (b.records ++ [openingRecord t b]).map Mark.record) : m.isOfScrambler = false := by
  refine Mark.not_isOfScrambler_records (fun r hr => ?_) hm
  rcases List.mem_append.mp hr with hr | hr
  · unfold Benchmark.records at hr
    split at hr
    · cases hr
    · rw [List.mem_singleton.mp hr]
      exact Channel.noConfusion
  · rw [List.mem_singleton.mp hr]
    exact Channel.noConfusion

/-- Leaving a scratch directory leaves records of the audit at most. -/
theorem exists_leave_records (a : Audit) (scratch : Location) (s : Session) :
    ∃ rs : List LogRecord, (a.leave scratch s).2.trace = s.trace ++ rs.map .record ∧
      ∀ r ∈ rs, r.channel ≠ .scrambler := by
  unfold leave
  split
  · refine ⟨[_], rfl, fun r hr => ?_⟩
    rw [List.mem_singleton.mp hr]
    exact Channel.noConfusion
  · exact ⟨[], (List.append_nil _).symm, fun _ hr => absurd hr List.not_mem_nil⟩

/-- There is a record of the scrambler's stage iff the core has more names than the benchmark has
assertions. -/
theorem Polls.exists_isOfScrambler_iff {result : Except Fault Outcome} {later : List Mark}
    (P : a.Polls b core name w result later) {before : List Mark}
    (hbefore : ∀ m ∈ before, m.isOfScrambler = false) :
    (∃ m ∈ before ++ later, m.isOfScrambler = true) ↔ b.assertCount < core.size := by
  have hnone := Mark.filter_isOfScrambler_eq_nil hbefore
  have hall : (before ++ later).filter Mark.isOfScrambler = [] ↔ core.size ≤ b.assertCount := by
    rw [List.filter_append, hnone, List.nil_append, P.warning, List.map_eq_nil_iff,
      UnsatCore.reductionRecords_eq_nil_iff, Int.ofNat_le]
  rw [← Nat.not_le, ← hall, List.filter_eq_nil_iff]
  simp only [not_forall, not_not, exists_prop]

/-- An audit of a core that was reconstructed is a vote on it. -/
theorem run_eq_voteOn (schedule : List Pool.Move) (hstatus : t.status = .unsat)
    (hrebuilt : a.reconstruct t b (pathOf s.scratch) (opened t b s) = (.ok (some core), w)) :
    a.run schedule t b s = ((a.voteOn schedule b core (pathOf s.scratch) w).1,
      (a.leave s.scratch (a.voteOn schedule b core (pathOf s.scratch) w).2).2) := by
  rw [run_eq_proceed hstatus, hrebuilt]
  exact Act.ensuring_run (a.leave_eq_ok s.scratch _)

/-- **What the scrambler reports reaches the validators unaltered.**

A run of the scrambler in time that printed a header line, whatever its leading zeros and the rest
of the line are, and after it a body, whatever it is, gives the core of that size and body. The
audit goes on from there. A warning of the scrambler's stage is left iff the core has more names
than the benchmark has assertions; an outcome has that core and the difference as its reduction; and
with a resolved logic every run that begins is that of a validator, made when the reduced benchmark
holds the body in UTF-8 and nothing else. All validators of the logic are run, unless the audit ends
in a fault that escapes from one of them. -/
theorem run_reports (a : Audit) (schedule : List Pool.Move) (t : Transcript) (b : Benchmark)
    {runner : Runner} {result : RunResult} {zeros size : Nat} {remainder body : Text}
    (hclosed : s.files.Closed) (hname : Path.IsName (s.files.freeName s.host.scratchStem))
    (hstatus : t.status = .unsat) (hscrambler : s.scramblerOf = some runner)
    (hresult : (runner.run (a.scramblerRequest b (pathOf s.scratch)) (prepared t b s)).1 =
      .ok result)
    (hlate : result.timedOut = false)
    (houtput : result.stdout = Reading.printed zeros size remainder body)
    (hheader : Reading.IsHeader zeros size remainder) :
    ∃ w before later,
      a.reconstruct t b (pathOf s.scratch) (opened t b s) = (.ok (some ⟨size, body⟩), w) ∧
      (∀ id, w.runnerOf id = s.runnerOf id) ∧
      w.trace = s.trace ++ before ∧
      (a.run schedule t b s).2.trace = s.trace ++ (before ++ later) ∧
      ((∃ m ∈ before ++ later, m.isOfScrambler = true) ↔ b.assertCount < size) ∧
      a.Polls b ⟨size, body⟩ (s.files.freeName s.host.scratchStem) w (a.run schedule t b s).1
        later := by
  obtain ⟨marks, hmarks, hforeign⟩ :=
    runner.foreign_run (a.scramblerRequest b (pathOf s.scratch)) (prepared t b s)
  have hrebuilt := reconstruct_reports a t b hclosed hname hscrambler (Prod.ext hresult hmarks)
    hlate houtput hheader
  have hbefore : ∀ m ∈ (b.records ++ [openingRecord t b]).map .record ++ marks,
      m.isOfScrambler = false := by
    intro m hm
    exact (List.mem_append.mp hm).elim not_isOfScrambler_opening (hforeign m)
  obtain ⟨later, hlater, P⟩ :=
    a.voteOn_polls schedule b ⟨size, body⟩ (scratch_marked t b hclosed hname marks)
  obtain ⟨rs, hleft, hothers⟩ := a.exists_leave_records s.scratch
    (a.voteOn schedule b ⟨size, body⟩ (pathOf s.scratch) ((prepared t b s).mark marks)).2
  have P' := P.append hothers
  rw [run_eq_voteOn schedule hstatus hrebuilt]
  refine ⟨_, _, _, hrebuilt, fun _ => rfl, ?_, ?_, P'.exists_isOfScrambler_iff hbefore, P'⟩
  · exact List.append_assoc _ _ _
  · rw [hleft]
    refine (congrArg (· ++ _) hlater).trans ?_
    show s.trace ++ _ ++ marks ++ later ++ rs.map .record = _
    simp only [List.append_assoc]

/-- A report of seven names with leading zeros, whose body has the error mark, a carriage return and
another header in it, and no last line end. -/
def oddReport : RunResult :=
  ⟨Reading.printed 2 7 " a b".toList "ERROR\r\n;; parsed 1 names:".toList, 0.5, some 3, false⟩

/-- The odd body reaches both validators, of which the second cannot be run, and there is a warning:
the benchmark has one assertion. -/
theorem run_reports_oddReport :
    ∃ w before later, (pairAudit.reconstruct pairTranscript pairBenchmark
        (pathOf (pairSession oddReport "unsat\n".toList).scratch)
        (opened pairTranscript pairBenchmark (pairSession oddReport "unsat\n".toList))) =
          (.ok (some ⟨7, "ERROR\r\n;; parsed 1 names:".toList⟩), w) ∧
      (pairAudit.run [] pairTranscript pairBenchmark
        (pairSession oddReport "unsat\n".toList)).2.trace = before ++ later ∧
      (∃ m ∈ before ++ later, m.isOfScrambler = true) ∧
      ∀ i id, [Tool.z3.name, Tool.cvc5.name][i]? = some id → ∃ u,
        pairAudit.validation.RunOn "/audit0/reduced.smt2".toList "/audit0".toList
          (Text.Utf8.encode "ERROR\r\n;; parsed 1 names:".toList) w w.trace later i id u := by
  have hname := isName_pairSession oddReport "unsat\n".toList
  have hresult : ((Runner.scripted Tool.scrambler.name fun _ => .ok oddReport).run
      (pairAudit.scramblerRequest pairBenchmark
        (pathOf (pairSession oddReport "unsat\n".toList).scratch))
      (prepared pairTranscript pairBenchmark (pairSession oddReport "unsat\n".toList))).1 =
        .ok oddReport := by rw [Runner.run_scripted]
  have hheader : Reading.IsHeader 2 7 " a b".toList := by decide
  obtain ⟨w, before, later, hrebuilt, _, hbefore, hrun, hwarns, P⟩ :=
    run_reports pairAudit [] pairTranscript pairBenchmark closed_empty hname (by decide) rfl hresult rfl
      rfl hheader
  have hcount : pairBenchmark.assertCount < 7 := by
    unfold Benchmark.assertCount Benchmark.facts
    rw [Script.commands_eq_scanner]
    decide
  have hpanel : pairAudit.table.panel pairBenchmark = .ok [Tool.z3.name, Tool.cvc5.name] :=
    LogicTable.panel_eq_ok_iff.mpr ⟨_, logic_pairBenchmark, by rfl⟩
  have hcore : (Reconstruction.reading oddReport).1 =
      .ok (some ⟨7, "ERROR\r\n;; parsed 1 names:".toList⟩) := by rfl
  obtain ⟨u, hends⟩ := run_pair hcore "unsat\n".toList
  refine ⟨w, before, later, hrebuilt, hrun, hwarns.mpr hcount, fun i id hid => ?_⟩
  rcases P.asked _ hpanel with ⟨_, hran⟩ | ⟨f, _, _, hfails, _⟩
  · obtain ⟨u, hrun, _⟩ := hran i id hid
    exact ⟨u, hrun⟩
  · rw [hends] at hfails
    cases hfails

/-- A core is not voted on, and a validator is not asked, where no validator can have a directory
of its name. -/
theorem voteOn_of_tooLong (schedule : List Pool.Move) (core : UnsatCore)
    (hpanel : a.table.panel b = .ok ids) (S : w.files.Scratch name [coreName, benchmarkName])
    (hplain : ∀ id ∈ ids, '/' ∉ id ∧ '\x00' ∉ id)
    (hlong : ∀ file ∈ ids.mapIdx directoryName, Path.isTooLong file = true ∧
      (Text.Utf8.encode (pathOf [name] ++ '/' :: file)).length < Path.maxPath)
    {outcome : Text → Except Fault RunResult} (A : Answers ids outcome w) {place : Nat} {id : Text}
    (hplace : ids[place]? = some id) :
    (∀ o, (a.voteOn schedule b core (pathOf [name]) w).1 ≠ .ok o) ∧
      ∃ others, request a.validation.timeout (Path.join (pathOf [name]) reducedName) (pathOf [name])
          place id ∉ others ∧
        (a.voteOn schedule b core (pathOf [name]) w).2.asked = w.asked ++ others := by
  obtain ⟨_, S'⟩ := S.write isName_reducedName (by decide) w.here (Text.Utf8.encode core.formula)
  have A' : Answers ids outcome (polled b core name w) := ⟨A.runner, A.fault⟩
  obtain ⟨hfails, others, hnot, hasked⟩ := not_validate_of_blocked a.validation.timeout
    a.validation.jobs schedule (Path.join (pathOf [name]) reducedName) A' hplace
    (blocked_of_tooLong (S'.leads _) hplain hlong hplace)
  rw [voteOn_eq schedule hpanel S]
  refine ⟨fun o ho => ?_, others, hnot, ?_⟩
  · rcases hvotes : (a.validation.validate schedule (Path.join (pathOf [name]) reducedName)
      (pathOf [name]) ids (polled b core name w)).1 with f | votes
    · rw [hvotes] at ho
      cases ho
    · exact hfails votes hvotes
  · refine hasked.trans (congrArg (· ++ others) ?_)
    exact w.asked_mark_records _

theorem asked_prepared (t : Transcript) (b : Benchmark) (s : Session) :
    (prepared t b s).asked = s.asked := s.asked_mark_records _

/-- An audit by one validator, with a name that no directory can have. -/
def longAudit : Audit :=
  { pairAudit with table := ⟨[(Letters.ofText "QF_LIA".toList, [longName])]⟩ }

/-- A session with the scrambler and this validator. -/
def longSession : Session :=
  .fresh .empty ⟨some (.scripted Tool.scrambler.name fun _ => .ok (headerResult ['1'])),
    [(longName, .scripted longName fun _ => .ok confirmation)]⟩

/-- **A validator whose directory cannot be made is not run**, although a core was reported and the
logic is resolved: the audit ends in a fault. -/
theorem not_run_of_longName :
    (headerResult ['1']).stdout = Reading.printed 0 1 [] "(check-sat)\n".toList ∧
      Reading.IsHeader 0 1 [] ∧ longAudit.table.panel pairBenchmark = .ok [longName] ∧
      (∀ o, (longAudit.run [] pairTranscript pairBenchmark longSession).1 ≠ .ok o) ∧
      request (.seconds 120.0) (Path.join (pathOf longSession.scratch) reducedName)
        (pathOf longSession.scratch) 0 longName ∉
          (longAudit.run [] pairTranscript pairBenchmark longSession).2.asked := by
  have hprinted : (headerResult ['1']).stdout = Reading.printed 0 1 [] "(check-sat)\n".toList := by
    rfl
  have hheader : Reading.IsHeader 0 1 [] := by decide
  have hpanel : longAudit.table.panel pairBenchmark = .ok [longName] :=
    LogicTable.panel_eq_ok_iff.mpr ⟨_, logic_pairBenchmark, by rfl⟩
  have hname : Path.IsName (longSession.files.freeName longSession.host.scratchStem) :=
    isName_pairSession (headerResult ['1']) []
  -- Nothing but the scrambler was called when the core is voted on.
  obtain ⟨c, hrebuilt⟩ : ∃ c, longAudit.reconstruct pairTranscript pairBenchmark
      (pathOf longSession.scratch) (opened pairTranscript pairBenchmark longSession) =
        (.ok (some ⟨1, "(check-sat)\n".toList⟩),
          (prepared pairTranscript pairBenchmark longSession).mark [.call Tool.scrambler.name c]) :=
    ⟨_, reconstruct_reports longAudit pairTranscript pairBenchmark closed_empty hname rfl
      (Runner.run_scripted _ _ _ _) rfl hprinted hheader⟩
  have hcall : ((prepared pairTranscript pairBenchmark longSession).mark
      [.call Tool.scrambler.name c]).asked = [(Tool.scrambler.name, c.invocation)] := by
    rw [Session.asked_mark_call, asked_prepared]
    rfl
  have S := scratch_marked pairTranscript pairBenchmark closed_empty hname
    [.call Tool.scrambler.name c]
  have A : Answers [longName] (fun _ => .ok confirmation)
      ((prepared pairTranscript pairBenchmark longSession).mark [.call Tool.scrambler.name c]) := by
    refine ⟨fun id hid => ?_, fun _ _ _ hf => nomatch hf⟩
    rw [List.mem_singleton.mp hid]
    exact (Keyed.get?_put [] longName longName _).trans (if_pos rfl)
  obtain ⟨hfails, others, hnot, hasked⟩ := voteOn_of_tooLong [] ⟨1, "(check-sat)\n".toList⟩ hpanel
    S (by decide +kernel) (by decide +kernel) A (rfl : [longName][0]? = some longName)
  refine ⟨hprinted, hheader, hpanel, ?_⟩
  rw [run_eq_voteOn [] (by decide) hrebuilt]
  refine ⟨hfails, ?_⟩
  obtain ⟨u, hleave, hleft⟩ := longAudit.leave_run longSession.scratch
    (longAudit.voteOn [] pairBenchmark ⟨1, "(check-sat)\n".toList⟩ (pathOf longSession.scratch)
      ((prepared pairTranscript pairBenchmark longSession).mark [.call Tool.scrambler.name c])).2
  rw [hleave, hleft.asked, List.append_nil]
  intro hmem
  rw [show longSession.scratch = [longSession.files.freeName longSession.host.scratchStem] from rfl,
    hasked, hcall] at hmem
  rcases List.mem_append.mp hmem with hmem | hmem
  · have hlabel : longName = Tool.scrambler.name := congrArg Prod.fst (List.mem_singleton.mp hmem)
    have hlength : longName.length = 300 := List.length_replicate
    rw [hlabel] at hlength
    exact absurd hlength (by decide)
  · exact hnot hmem

end Audit

end CoreAudit
