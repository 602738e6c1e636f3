import CoreAudit.LogicTable.BuiltIn
import CoreAudit.Proofs.Audit.FailedScrambler
import CoreAudit.Proofs.Audit.Stages

/-!
# What ends an audit without a report

A logic that is not declared, or not listed by the table, ends an audit. Where the tools can be run
that is meant to be all that does. It is not: a header announces a core with the digits of its
size, and these may be digits that are recognized and not read, or more than a number may have.
The fault of such a number goes through the reading of the scrambler's output and ends the audit.

Headlines:
* **`exists_size?_eq_error_iff`**: which numbers cannot be read.
* **`ofOutput_eq_error_iff`**: reading an output fails on such a number and on nothing else.
* **`mem_of_validatorsFor_builtIn`**: the built-in table lists known validators.
* **`run_fatal_iff`**: what ends an audit by the built-in table, exactly.
* **`exists_run_eq_numeralTooLong`**: a long header ends an audit in a fault of its own.
-/

namespace CoreAudit

/-! ## Numbers that cannot be read -/

namespace Reading

open Text.Digit

/-- The number cannot be read: it has too many digits, or some that are not read. -/
def Unreadable (digits : Text) : Prop :=
  Number.maxDigits < digits.length ∨ ∃ c ∈ digits, isDigit c = false

variable {digits : Text} {f : Fault}

theorem of_size?_eq_error (h : size? digits = .error f) :
    f = .numeralTooLong (digits.takeWhile isDigit).length ∨ f = .notNumeral digits := by
  unfold size? Number.natural? at h
  split at h
  · rename_i n hn
    split at hn
    · cases hn
      exact Or.inl (Except.error.inj h).symm
    · cases hn
  · split at h
    · cases h
    · exact Or.inr (Except.error.inj h).symm

/-- Too many digits are a fault, with their count. -/
theorem size?_of_tooLong (hread : digits.all isDigit = true)
    (hlong : Number.maxDigits < digits.length) :
    size? digits = .error (.numeralTooLong digits.length) := by
  have htake : digits.takeWhile isDigit = digits := by
    have happend : (digits ++ []).takeWhile isDigit = digits ++ [].takeWhile isDigit :=
      List.takeWhile_append_of_pos (List.all_eq_true.mp hread)
    simpa using happend
  unfold size? Number.natural?
  rw [htake, if_pos hlong]

/-- **A number is a fault iff it has too many digits or some that are not read.** -/
theorem exists_size?_eq_error_iff : (∃ f, size? digits = .error f) ↔ Unreadable digits := by
  by_cases hread : digits.all isDigit = true
  · have hunread : ¬ ∃ c ∈ digits, isDigit c = false := by
      rintro ⟨c, hc, hfalse⟩
      rw [List.all_eq_true.mp hread c hc] at hfalse
      cases hfalse
    rw [Unreadable, or_iff_left hunread]
    by_cases hlong : Number.maxDigits < digits.length
    · exact iff_of_true ⟨_, size?_of_tooLong hread hlong⟩ hlong
    · rw [size?_of_isDigit hread (Nat.not_lt.mp hlong)]
      exact iff_of_false (fun ⟨_, h⟩ => nomatch h) hlong
  · have hunread : ∃ c ∈ digits, isDigit c = false := by
      rw [Bool.not_eq_true, List.all_eq_false] at hread
      obtain ⟨c, hc, hfalse⟩ := hread
      exact ⟨c, hc, Bool.not_eq_true _ ▸ hfalse⟩
    refine iff_of_true ?_ (Or.inr hunread)
    unfold size?
    split
    · exact ⟨_, rfl⟩
    · rw [if_neg hread]
      exact ⟨_, rfl⟩

/-- A first line that announces a core gives one, if its number can be read. -/
theorem ofOutput_of_announces {output : Text} (h : Announces (output.cut '\n').1 digits) :
    ofOutput output =
      (size? digits).map fun n => .parsed ⟨n, (output.cut '\n').2.getD []⟩ := by
  obtain ⟨hmark, hdigits⟩ := announces_iff.mp h
  unfold ofOutput
  dsimp only
  rw [hmark, if_neg Bool.false_ne_true, hdigits]
  dsimp only
  cases size? digits <;> rfl

/-- **Reading an output is a fault iff its first line announces a core whose number is one.** -/
theorem ofOutput_eq_error_iff {output : Text} : ofOutput output = .error f ↔
    ∃ digits, Announces (output.cut '\n').1 digits ∧ size? digits = .error f := by
  constructor
  · intro hfault
    by_cases hannounces : ∃ digits, Announces (output.cut '\n').1 digits
    · obtain ⟨digits, hannounces⟩ := hannounces
      refine ⟨digits, hannounces, ?_⟩
      rw [ofOutput_of_announces hannounces] at hfault
      cases hsize : size? digits with
      | error g =>
        rw [hsize] at hfault
        exact congrArg Except.error (Except.error.inj hfault)
      | ok n =>
        rw [hsize] at hfault
        cases hfault
    · have hnone := (Reconstruction.core?_ofOutput_iff output).mpr (not_exists.mp hannounces)
      rw [hfault] at hnone
      cases hnone
  · rintro ⟨digits, hannounces, hsize⟩
    rw [ofOutput_of_announces hannounces, hsize]
    rfl

end Reading

/-- A run of the scrambler is read as a fault iff it was in time and its output is one. -/
theorem Reconstruction.reading_eq_error_iff {result : RunResult} {f : Fault} :
    (reading result).1 = .error f ↔ result.timedOut = false ∧
      ∃ digits, Reading.Announces (headline result) digits ∧
        Reading.size? digits = .error f := by
  cases hlate : result.timedOut with
  | true =>
    rw [reading_of_timedOut hlate]
    exact iff_of_false (fun h => nomatch h) (fun h => nomatch h.1)
  | false =>
    rw [reading_of_inTime hlate, headline, ← Reading.ofOutput_eq_error_iff]
    cases Reading.ofOutput result.stdout with
    | error g =>
      refine ⟨fun h => ⟨rfl, ?_⟩, fun h => ?_⟩
      · exact congrArg Except.error (Except.error.inj h)
      · exact congrArg Except.error (Except.error.inj h.2)
    | ok r => exact iff_of_false (fun h => nomatch h) (fun h => nomatch h.2)

/-! ## Logics -/

namespace LogicTable

/-- The built-in table lists validators that are known tools. -/
theorem of_validatorsFor_builtIn {logic : Text} {ids : List Text}
    (h : builtIn.validatorsFor logic = .ok ids) :
    ids = pair.map String.toList ∨ ids = triple.map String.toList := by
  have hrows : ∀ row ∈ builtInRows, row.2 = pair ∨ row.2 = triple := by decide
  obtain ⟨_, hlisted, rfl⟩ := exists_row_of_validatorsFor h
  obtain ⟨row, hrow, rfl⟩ := List.mem_map.mp hlisted
  rcases hrows row hrow with hpair | htriple
  · exact Or.inl (congrArg (List.map String.toList) hpair)
  · exact Or.inr (congrArg (List.map String.toList) htriple)

/-- The built-in table lists validators that are known tools, and their names are proper. -/
theorem mem_of_validatorsFor_builtIn {logic : Text} {ids : List Text}
    (h : builtIn.validatorsFor logic = .ok ids) :
    (∀ id ∈ ids, id ∈ Tool.validators.map Tool.name) ∧ Audit.ProperNames ids := by
  rcases of_validatorsFor_builtIn h with rfl | rfl
  · exact ⟨by decide, by decide, by decide⟩
  · exact ⟨by decide, by decide, by decide⟩

end LogicTable

/-! ## Audits -/

namespace Audit

open Reading Reconstruction Validation

variable {a : Audit} {b : Benchmark} {s : Session} {core : UnsatCore} {f : Fault}
  {outcome : Text → Except Fault RunResult}

/-- **A core is not voted on iff the logic cannot be resolved**, if its validators can vote. -/
theorem voteOn_eq_error_iff {name : Text} (schedule : List Pool.Move)
    (S : s.files.Scratch name [Reconstruction.coreName, benchmarkName])
    (hvoters : ∀ logic ids, a.table.validatorsFor logic = .ok ids →
      ProperNames ids ∧ Answers ids outcome s) :
    (a.voteOn schedule b core (FileTree.pathOf [name]) s).1 = .error f ↔
      a.table.Unresolved b f := by
  rcases hpanel : a.table.panel b with g | ids
  · have hunresolved := LogicTable.panel_eq_error_iff.mp hpanel
    rw [voteOn_of_unresolved hunresolved, ← LogicTable.panel_eq_error_iff, hpanel]
    constructor <;> intro h <;> rw [Except.error.inj h]
  · obtain ⟨logic, hlogic, hids⟩ := LogicTable.panel_eq_ok_iff.mp hpanel
    obtain ⟨N, A⟩ := hvoters logic ids hids
    obtain ⟨u, hvotes⟩ : ∃ u, a.voteOn schedule b core (FileTree.pathOf [name]) s = (.ok _, u) :=
      voteOn_run S hlogic hids N A
    rw [hvotes, ← LogicTable.panel_eq_error_iff, hpanel]
    exact iff_of_false (fun h => nomatch h) (fun h => nomatch h)

/-- An audit ends in the fault of a number that cannot be read, or of a logic that cannot be
resolved, and in no other. -/
theorem run_eq_error_iff {label : Text} {result : RunResult} (schedule : List Pool.Move)
    (t : Transcript) (hbuiltIn : a.table = .builtIn) (hclosed : s.files.Closed)
    (hname : Path.IsName (s.files.freeName s.host.scratchStem))
    (hscrambler : s.toolbox.scrambler = some (.scripted label fun _ => .ok result))
    (A : Answers (Tool.validators.map Tool.name) outcome s) :
    (a.run schedule t b s).1 = .error f ↔ t.status = .unsat ∧
      ((reading result).1 = .error f ∨
        ∃ core, (reading result).1 = .ok (some core) ∧ a.table.Unresolved b f) := by
  by_cases hstatus : t.status = .unsat
  · rw [and_iff_right hstatus]
    obtain ⟨scratch, u, hrun, htoolbox, _, ⟨name, rfl, S⟩, _⟩ :=
      run_scripted a schedule b hclosed hname hstatus hscrambler
    have hvoters : ∀ logic ids, a.table.validatorsFor logic = .ok ids →
        ProperNames ids ∧ Answers ids outcome u := by
      intro logic ids hids
      rw [hbuiltIn] at hids
      obtain ⟨hknown, N⟩ := LogicTable.mem_of_validatorsFor_builtIn hids
      refine ⟨N, fun id hid => ?_, fun id hid => A.fault id (hknown id hid)⟩
      rw [htoolbox]
      exact A.runner id (hknown id hid)
    obtain ⟨v, hleave, _⟩ := a.leave_run [name]
      (a.proceed schedule b (FileTree.pathOf [name]) (reading result).1 u).2
    rw [hrun, Act.ensuring_run hleave]
    rcases (reading result).1 with g | _ | core
    · constructor
      · exact fun h => Or.inl (congrArg Except.error (Except.error.inj h))
      · rintro (h | ⟨_, h, _⟩)
        · exact congrArg Except.error (Except.error.inj h)
        · cases h
    · refine iff_of_false (fun h => nomatch h) ?_
      rintro (h | ⟨_, h, _⟩) <;> cases h
    · refine (voteOn_eq_error_iff schedule S hvoters).trans ?_
      constructor
      · exact fun h => Or.inr ⟨core, rfl, h⟩
      · rintro (h | ⟨_, _, h⟩)
        · cases h
        · exact h
  · obtain ⟨finding, hrun⟩ := run_of_not_unsat a schedule t b s hstatus
    rw [hrun]
    exact iff_of_false (fun h => nomatch h) (fun h => hstatus h.1)

/-- **What ends an audit without a report.** Where the scrambler and the validators can be run, an
audit by the built-in table ends in a fault iff the answer is unsat and the run of the scrambler
announces, in time, a core with a number that cannot be read, or gives a core of a benchmark whose
logic cannot be resolved. So there is a fault that is not one of the logic iff the number is one
that cannot be read; these are the numbers on which the reading of the output fails. -/
theorem run_fatal_iff (a : Audit) (schedule : List Pool.Move) (t : Transcript) (b : Benchmark)
    (s : Session) (label : Text) (result : RunResult) (outcome : Text → Except Fault RunResult)
    (hbuiltIn : a.table = .builtIn) (hclosed : s.files.Closed)
    (hname : Path.IsName (s.files.freeName s.host.scratchStem))
    (hscrambler : s.toolbox.scrambler = some (.scripted label fun _ => .ok result))
    (A : Answers (Tool.validators.map Tool.name) outcome s) :
    (∀ f, (a.run schedule t b s).1 = .error f ↔ t.status = .unsat ∧
        (result.timedOut = false ∧
            (∃ digits, Announces (headline result) digits ∧ size? digits = .error f) ∨
          ∃ core, (reading result).1 = .ok (some core) ∧ a.table.Unresolved b f)) ∧
      ((∃ f, (a.run schedule t b s).1 = .error f ∧ f.isOfLogic = false) ↔
        t.status = .unsat ∧ result.timedOut = false ∧
          ∃ digits, Announces (headline result) digits ∧ Unreadable digits) ∧
      ((∃ f, ofOutput result.stdout = .error f) ↔
        ∃ digits, Announces (headline result) digits ∧ Unreadable digits) := by
  refine ⟨fun f => ?_, ?_, ?_⟩
  · rw [run_eq_error_iff schedule t hbuiltIn hclosed hname hscrambler A, reading_eq_error_iff]
  · constructor
    · rintro ⟨f, hrun, hlogic⟩
      rw [run_eq_error_iff schedule t hbuiltIn hclosed hname hscrambler A,
        reading_eq_error_iff] at hrun
      obtain ⟨hstatus, ⟨hintime, digits, hannounces, hsize⟩ | ⟨_, _, hunresolved⟩⟩ := hrun
      · exact ⟨hstatus, hintime, digits, hannounces, exists_size?_eq_error_iff.mp ⟨f, hsize⟩⟩
      · rw [hunresolved.isOfLogic] at hlogic
        cases hlogic
    · rintro ⟨hstatus, hintime, digits, hannounces, hunreadable⟩
      obtain ⟨f, hsize⟩ := exists_size?_eq_error_iff.mpr hunreadable
      refine ⟨f, ?_, ?_⟩
      · rw [run_eq_error_iff schedule t hbuiltIn hclosed hname hscrambler A, reading_eq_error_iff]
        exact ⟨hstatus, Or.inl ⟨hintime, digits, hannounces, hsize⟩⟩
      · rcases of_size?_eq_error hsize with rfl | rfl <;> rfl
  · constructor
    · rintro ⟨f, hfault⟩
      obtain ⟨digits, hannounces, hsize⟩ := ofOutput_eq_error_iff.mp hfault
      exact ⟨digits, hannounces, exists_size?_eq_error_iff.mp ⟨f, hsize⟩⟩
    · rintro ⟨digits, hannounces, hunreadable⟩
      obtain ⟨f, hsize⟩ := exists_size?_eq_error_iff.mpr hunreadable
      exact ⟨f, ofOutput_eq_error_iff.mpr ⟨digits, hannounces, hsize⟩⟩

/-! ## An audit by the built-in table -/

/-- A scrambler that announces a core with these digits and prints it. -/
def headerResult (digits : Text) : RunResult :=
  ⟨headerStart ++ digits ++ headerEnd ++ "\n(check-sat)\n".toList, 0.5, some 0, false⟩

/-- An audit by the built-in table. -/
def builtInAudit : Audit := { pairAudit with table := .builtIn }

/-- A validator that confirms the core. -/
def confirmation : RunResult := ⟨"unsat\n".toList, 0.5, some 0, false⟩

/-- A session with the scrambler and all validators, which confirm every core. -/
def builtInSession (result : RunResult) : Session :=
  .fresh .empty ⟨some (.scripted Tool.scrambler.name fun _ => .ok result),
    (Tool.validators.map Tool.name).map fun id => (id, .scripted id fun _ => .ok confirmation)⟩

theorem isName_builtInSession (result : RunResult) :
    Path.IsName ((builtInSession result).files.freeName
      (builtInSession result).host.scratchStem) :=
  isName_pairSession result []

theorem answers_builtIn (result : RunResult) :
    Answers (Tool.validators.map Tool.name) (fun _ => .ok confirmation)
      (builtInSession result) where
  runner := by
    intro id hid
    simp only [Tool.validators, List.map_cons, List.map_nil, List.mem_cons, List.not_mem_nil,
      or_false] at hid
    rcases hid with rfl | rfl | rfl <;> rfl
  fault := by
    intro id _ f hf
    cases hf

/-- A header with decimal digits announces a core, whatever the digits are. -/
theorem announces_headerResult {digits : Text} (hne : digits ≠ [])
    (hdecimal : ∀ c ∈ digits, Text.Digit.isDecimal c = true) :
    Announces (headline (headerResult digits)) digits := by
  have hmem : ∀ c ∈ headerStart ++ digits ++ headerEnd, c ≠ '\n' ∧ c ≠ 'E' := by
    have hclear : ∀ part ∈ [headerStart, headerEnd], '\n' ∉ part ∧ 'E' ∉ part := by decide
    have hpart : ∀ part ∈ [headerStart, headerEnd], ∀ c ∈ part, c ≠ '\n' ∧ c ≠ 'E' :=
      fun part hpart _ hc => ⟨fun h => (hclear part hpart).1 (h ▸ hc),
        fun h => (hclear part hpart).2 (h ▸ hc)⟩
    intro c hc
    rcases List.mem_append.mp hc with hc | hc
    · rcases List.mem_append.mp hc with hc | hc
      · exact hpart headerStart List.mem_cons_self c hc
      · have hdigit := hdecimal c hc
        constructor <;> rintro rfl <;> exact absurd hdigit (by decide)
    · exact hpart headerEnd (List.mem_cons_of_mem _ List.mem_cons_self) c hc
  have hheadline : headline (headerResult digits) = headerStart ++ digits ++ headerEnd := by
    have hline : ∀ c ∈ headerStart ++ digits ++ headerEnd, (c != '\n') = true :=
      fun c hc => bne_iff_ne.mpr (hmem c hc).1
    show (headerStart ++ digits ++ headerEnd ++ '\n' :: _).takeWhile (· != '\n') = _
    rw [List.takeWhile_append_of_pos hline]
    exact List.append_nil _
  rw [hheadline]
  refine ⟨fun hmark => ?_, hne, hdecimal, List.prefix_rfl⟩
  exact (hmem 'E' (hmark.subset (by decide))).2 rfl

/-- A digit that is recognized and not read. -/
def unreadDigit : Char := Char.ofNat 0x10D41

/-- A header whose number is a digit that is not read ends an audit in a fault of its own. -/
theorem run_fatal_unreadDigit :
    (∃ f, ofOutput (headerResult [unreadDigit]).stdout = .error f) ∧
      ∃ f, (builtInAudit.run [] pairTranscript pairBenchmark
        (builtInSession (headerResult [unreadDigit]))).1 = .error f ∧ f.isOfLogic = false := by
  have hannounces : Announces (headline (headerResult [unreadDigit])) [unreadDigit] :=
    announces_headerResult (by decide) (List.forall_mem_singleton.mpr (by decide))
  have hunreadable : Unreadable [unreadDigit] := Or.inr ⟨unreadDigit, by decide, by decide⟩
  obtain ⟨_, hrun, hread⟩ := run_fatal_iff builtInAudit [] pairTranscript pairBenchmark
    (builtInSession (headerResult [unreadDigit])) Tool.scrambler.name
    (headerResult [unreadDigit]) _ rfl closed_empty (isName_builtInSession _) rfl
    (answers_builtIn _)
  exact ⟨hread.mpr ⟨_, hannounces, hunreadable⟩,
    hrun.mpr ⟨by decide, rfl, _, hannounces, hunreadable⟩⟩

/-- As many digits as no number may have, and one more. -/
def longDigits : Text := List.replicate (Number.maxDigits + 1) '1'

/-- **A header with a long number ends an audit in a fault that is not one of the logic**: the tools
can be run, the answer is unsat, and the logic is listed. -/
theorem exists_run_eq_numeralTooLong :
    ∃ result f, builtInAudit.table = .builtIn ∧
      (builtInSession result).toolbox.scrambler =
        some (.scripted Tool.scrambler.name fun _ => .ok result) ∧
      Answers (Tool.validators.map Tool.name) (fun _ => .ok confirmation)
        (builtInSession result) ∧
      ofOutput result.stdout = .error f ∧
      (builtInAudit.run [] pairTranscript pairBenchmark (builtInSession result)).1 = .error f ∧
      f.isOfLogic = false := by
  have hones : ∀ c ∈ longDigits, c = '1' := fun c hc => (List.mem_replicate.mp hc).2
  have hannounces : Announces (headline (headerResult longDigits)) longDigits := by
    refine announces_headerResult (List.replicate_succ_ne_nil) fun c hc => ?_
    rw [hones c hc]
    decide
  have hlength : longDigits.length = Number.maxDigits + 1 := List.length_replicate
  have hsize : size? longDigits = .error (.numeralTooLong (Number.maxDigits + 1)) := by
    have hread : longDigits.all Text.Digit.isDigit = true := by
      rw [List.all_eq_true]
      intro c hc
      rw [hones c hc]
      decide
    rw [size?_of_tooLong hread (by rw [hlength]; exact Nat.lt_succ_self _), hlength]
  have hread : (reading (headerResult longDigits)).1 =
      .error (.numeralTooLong (Number.maxDigits + 1)) :=
    reading_eq_error_iff.mpr ⟨rfl, _, hannounces, hsize⟩
  refine ⟨headerResult longDigits, _, rfl, rfl, answers_builtIn _,
    ofOutput_eq_error_iff.mpr ⟨_, hannounces, hsize⟩, ?_, rfl⟩
  exact (run_eq_error_iff [] pairTranscript rfl closed_empty (isName_builtInSession _) rfl
    (answers_builtIn _)).mpr ⟨by decide, Or.inl hread⟩

end Audit

end CoreAudit
