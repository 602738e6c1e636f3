import CoreAudit.Proofs.Audit.Consistency
import CoreAudit.Proofs.Report.Reading

/-!
# What a report tells

The layout of a report depends on how the audit ended, one key is stated twice, and the names of
validators come from a table and may imitate every key that ends as theirs do: a validator
`starexec` states a second `starexec-result`. So a report is not read by its keys but by the places
of its entries. The answer at the second place says which layout follows, the parsed core whether
there are votes, and the number of validators where they end.

`Digest` is what is read off a report that way, and `Outcome.digest` what it should be.

Headlines:
* **`report_tells`**: the text of a report determines the outcome of its audit.
* **`Digest.ofText?_text`**: a report's text is read back as the digest of its outcome.
-/

namespace CoreAudit

open Report

/-- What a report tells of the outcome of an audit. -/
structure Digest where
  state : State
  /-- The number of assertions, which the report of a sat answer does not state. -/
  assertCount : Option Int
  coreSize : Option Int
  coreReduction : Option Int
  reduction : Option Int
  isErroneous : Bool
  /-- The validators with their verdicts, in order. -/
  verdicts : List (Text × Verdict)
  /-- The times of the votes as they are printed, in order. -/
  times : List Text
  deriving Repr, DecidableEq

/-- What the report of the outcome should tell. -/
def Outcome.digest (o : Outcome) : Digest where
  state := o.state
  assertCount := if o.state = .verdictSat then none else some o.assertCount
  coreSize := o.core?.map fun c => (c.size : Int)
  coreReduction := o.coreReduction?
  reduction := o.summary.reduction
  isErroneous := o.state.isErroneous
  verdicts := o.votes.map fun v => (v.identifier, v.verdict)
  times := o.votes.map fun v => Number.places Value.timePlaces v.elapsed

namespace Digest

/-! ## Reading entries by their places -/

/-- The validator of a key that ends in `-result`. -/
def identifierOf (key : Text) : Text := key.take (key.length - "-result".toList.length)

/-- The validators and their verdicts, two entries a vote. -/
def verdictsOf : List (Text × Text) → List (Text × Verdict)
  | (key, result) :: _ :: entries =>
    (identifierOf key, Verdict.classify result) :: verdictsOf entries
  | _ => []

/-- The printed times, two entries a vote. -/
def timesOf : List (Text × Text) → List Text
  | _ :: (_, time) :: entries => time :: timesOf entries
  | _ => []

/-- What follows a sat answer. -/
def ofSat? : List (Text × Text) → Option Digest
  | [(_, erroneous), (_, reduction)] =>
    some ⟨.verdictSat, none, none, none, some (Text.toInt reduction), erroneous == ['1'], [], []⟩
  | _ => none

/-- What follows an unknown answer. -/
def ofUnknown? : List (Text × Text) → Option Digest
  | [(_, assertions), (_, erroneous), (_, reduction)] =>
    some ⟨.verdictUnknown, some (Text.toInt assertions), none, none,
      some (Text.toInt reduction), erroneous == ['1'], [], []⟩
  | _ => none

/-- What follows a core that was not parsed. -/
def ofUnparsable? (assertions : Text) : List (Text × Text) → Option Digest
  | [(_, coreReduction), (_, erroneous), (_, reduction)] =>
    some ⟨.unparsable, some (Text.toInt assertions), none, some (Text.toInt coreReduction),
      some (Text.toInt reduction), erroneous == ['1'], [], []⟩
  | _ => none

/-- What follows the votes. -/
def ofVotes? (assertions size coreReduction : Text) (votes : List (Text × Text)) :
    List (Text × Text) → Option Digest
  | [_, _, (_, validated), (_, erroneous), (_, reduction)] =>
    some ⟨if validated = "true".toList then .validated else .rejected,
      some (Text.toInt assertions), some (Text.toInt size), some (Text.toInt coreReduction),
      some (Text.toInt reduction), erroneous == ['1'], verdictsOf votes, timesOf votes⟩
  | _ => none

/-- What follows a core that was parsed: the number of validators says how many entries are
votes. -/
def ofCore? (assertions : Text) : List (Text × Text) → Option Digest
  | (_, size) :: (_, coreReduction) :: (_, validators) :: entries =>
    let votes := 2 * (Text.toInt validators).toNat
    ofVotes? assertions size coreReduction (entries.take votes) (entries.drop votes)
  | _ => none

/-- What follows an unsat answer. -/
def ofUnsat? : List (Text × Text) → Option Digest
  | (_, assertions) :: (_, parsable) :: entries =>
    if parsable = "true".toList then ofCore? assertions entries
    else ofUnparsable? assertions entries
  | _ => none

/-- What the entries of a report tell: the second of them is the answer. -/
def ofEntries? : List (Text × Text) → Option Digest
  | _ :: (_, answer) :: entries =>
    if answer = "sat".toList then ofSat? entries
    else if answer = "unsat".toList then ofUnsat? entries
    else ofUnknown? entries
  | _ => none

/-- What the text of a report tells: it is cut into lines, and every line at its first `=`. -/
def ofText? (t : Text) : Option Digest := ofEntries? (Report.ofText t).entries

/-! ## The entries of a report are read back -/

theorem identifierOf_append (id : Text) : identifierOf (id ++ "-result".toList) = id := by
  rw [identifierOf, List.length_append, Nat.add_sub_cancel, List.take_left]

theorem verdictsOf_votes (votes : List Vote) :
    verdictsOf ((votes.map Outcome.printed).flatMap PrintedVote.entries) =
      votes.map fun v => (v.identifier, v.verdict) := by
  induction votes with
  | nil => rfl
  | cons v votes ih =>
    have hfirst : verdictsOf (((v :: votes).map Outcome.printed).flatMap PrintedVote.entries) =
        (identifierOf (v.identifier ++ "-result".toList), Verdict.classify v.verdict.word) ::
          verdictsOf ((votes.map Outcome.printed).flatMap PrintedVote.entries) := rfl
    rw [hfirst, ih, identifierOf_append, Verdict.classify_word]
    rfl

theorem timesOf_votes (votes : List Vote) :
    timesOf ((votes.map Outcome.printed).flatMap PrintedVote.entries) =
      votes.map fun v => Number.places Value.timePlaces v.elapsed := by
  induction votes with
  | nil => rfl
  | cons v votes ih =>
    have hfirst : timesOf (((v :: votes).map Outcome.printed).flatMap PrintedVote.entries) =
        Number.places Value.timePlaces v.elapsed ::
          timesOf ((votes.map Outcome.printed).flatMap PrintedVote.entries) := rfl
    rw [hfirst, ih]
    rfl

theorem length_votes (votes : List Vote) :
    ((votes.map Outcome.printed).flatMap PrintedVote.entries).length = 2 * votes.length := by
  induction votes with
  | nil => rfl
  | cons v votes ih =>
    rw [List.map_cons, List.flatMap_cons, List.length_append, ih, List.length_cons]
    show 2 + 2 * votes.length = 2 * (votes.length + 1)
    omega

/-- The digest of a core that was voted on. -/
theorem digest_checked (n : Nat) (core : UnsatCore) (votes : List Vote) (accepts : Bool)
    (h : (Tally.ofVotes votes).accepts = accepts) :
    (Outcome.mk n (.checked core votes)).digest =
      ⟨if accepts then .validated else .rejected, some n, some core.size, some (n - core.size),
        some (if accepts then n - core.size else 0), !accepts,
        votes.map fun v => (v.identifier, v.verdict),
        votes.map fun v => Number.places Value.timePlaces v.elapsed⟩ := by
  have hstate : (Outcome.mk n (.checked core votes)).state =
      if accepts then .validated else .rejected := by
    rw [← h]
    rfl
  unfold Outcome.digest Summary.reduction
  rw [show (Outcome.mk n (.checked core votes)).summary.state =
    (Outcome.mk n (.checked core votes)).state from rfl, hstate]
  cases accepts <;> rfl

/-- The entries of a core that was voted on are read back: the number of validators says which of
them are votes, whatever the keys of these. -/
theorem ofEntries?_checked (n : Nat) (core : UnsatCore) (votes : List Vote) :
    ofEntries? (Outcome.mk n (.checked core votes)).report.entries =
      some (Outcome.mk n (.checked core votes)).digest := by
  rw [Outcome.entries_checked]
  generalize hentries : (votes.map Outcome.printed).flatMap PrintedVote.entries = entries
  have hlength : entries.length = 2 * (Text.toInt (Text.ofNat votes.length)).toNat := by
    rw [← hentries, length_votes, Text.toInt_ofNat, Int.toNat_natCast]
  have hverdicts := verdictsOf_votes votes
  have htimes := timesOf_votes votes
  rw [hentries] at hverdicts htimes
  rw [digest_checked n core votes _ rfl, ← hverdicts, ← htimes]
  generalize Tally.ofVotes votes = tally
  have hread : ofEntries? (Outcome.beforeVotes n core.size votes.length ++ entries ++
        Outcome.afterVotes tally n core.size) =
      ofVotes? (Text.ofInt n) (Text.ofInt core.size) (Text.ofInt (n - core.size))
        ((entries ++ Outcome.afterVotes tally n core.size).take
          (2 * (Text.toInt (Text.ofNat votes.length)).toNat))
        ((entries ++ Outcome.afterVotes tally n core.size).drop
          (2 * (Text.toInt (Text.ofNat votes.length)).toNat)) := by
    rw [List.append_assoc]
    rfl
  rw [hread, ← hlength, List.take_left, List.drop_left]
  unfold ofVotes? Outcome.afterVotes
  simp only [Text.toInt_ofInt]
  cases tally.accepts <;> rfl

/-- **The entries of every report are read back as the digest of its outcome.** -/
theorem ofEntries?_entries (o : Outcome) : ofEntries? o.report.entries = some o.digest := by
  obtain ⟨n, finding⟩ := o
  cases finding with
  | answeredSat => rfl
  | answeredUnknown =>
    show some (Digest.mk _ (some (Text.toInt (Text.ofInt n))) _ _ _ _ _ _) = _
    rw [Text.toInt_ofInt]
    rfl
  | unparsable =>
    show some (Digest.mk _ (some (Text.toInt (Text.ofInt n))) _ _ _ _ _ _) = _
    rw [Text.toInt_ofInt]
    rfl
  | checked core votes => exact ofEntries?_checked n core votes

/-! ## The text of a report -/

theorem plain_entries {o : Outcome} (h : ∀ v ∈ o.votes, IsKey v.identifier) :
    ∀ e ∈ o.report.entries, IsPlain e := by
  have hvotes : ∀ v ∈ o.summary.votes, v.IsPlain := by
    intro v hv
    obtain ⟨vote, hvote, rfl⟩ := List.mem_map.mp hv
    exact ⟨h vote hvote, newline_not_mem_word vote.verdict,
      Number.newline_not_mem_places Value.timePlaces vote.elapsed⟩
  intro e he
  rw [Outcome.report, Summary.report, entries_addAll] at he
  rcases List.mem_append.mp he with he | he
  · exact absurd he List.not_mem_nil
  · obtain ⟨f, hf, rfl⟩ := List.mem_map.mp he
    exact plain_facts hvotes f hf

/-- **The text of a report is read back as the digest of its outcome**, if the names of its
validators hold neither `=` nor a line feed. -/
theorem ofText?_text {o : Outcome} (h : ∀ v ∈ o.votes, IsKey v.identifier) :
    ofText? o.report.text = some o.digest := by
  rw [ofText?, Report.ofText_text (plain_entries h), ofEntries?_entries]

end Digest

namespace Audit

/-- The names that the table lists can stand in keys. -/
def ListsKeys (table : LogicTable) : Prop := ∀ row ∈ table.rows, ∀ id ∈ row.2, IsKey id

instance (table : LogicTable) : Decidable (ListsKeys table) :=
  inferInstanceAs (Decidable (∀ row ∈ table.rows, ∀ id ∈ row.2, IsKey id))

theorem ListsKeys.validatorsFor {table : LogicTable} (h : ListsKeys table) {logic : Text}
    {ids : List Text} (hids : table.validatorsFor logic = .ok ids) : ∀ id ∈ ids, IsKey id := by
  obtain ⟨row, hrow, rfl⟩ := LogicTable.exists_row_of_validatorsFor hids
  exact h row hrow

/-- The votes of an audit are those of validators that the table lists. -/
theorem isKey_votes {a : Audit} {schedule : List Pool.Move} {t : Transcript} {b : Benchmark}
    {s u : Session} {o : Outcome} (hkeys : ListsKeys a.table)
    (h : a.run schedule t b s = (.ok o, u)) : ∀ v ∈ o.votes, IsKey v.identifier := by
  intro v hv
  cases Ending.of_run h with
  | sat => exact absurd hv List.not_mem_nil
  | unknown => exact absurd hv List.not_mem_nil
  | unparsable => exact absurd hv List.not_mem_nil
  | checked _ core votes logic _ listed =>
    exact hkeys.validatorsFor listed _ (List.mem_map_of_mem hv)

/-- **The text of a report determines the outcome**: the reports of two audits, of whatever they
were made, are read back as the digests of their outcomes, so that equal texts mean equal states,
numbers of assertions where these are stated, core sizes, reductions and flags, the same validators
with the same verdicts in the same order, and times that print alike. -/
theorem report_tells {a a' : Audit} {schedule schedule' : List Pool.Move} {t t' : Transcript}
    {b b' : Benchmark} {s s' u u' : Session} {o o' : Outcome} (hkeys : ListsKeys a.table)
    (hkeys' : ListsKeys a'.table) (h : a.run schedule t b s = (.ok o, u))
    (h' : a'.run schedule' t' b' s' = (.ok o', u')) :
    Digest.ofText? o.report.text = some o.digest ∧
      (o.report.text = o'.report.text →
        o.state = o'.state ∧ (o.state ≠ .verdictSat → o.assertCount = o'.assertCount) ∧
        o.core?.map UnsatCore.size = o'.core?.map UnsatCore.size ∧
        o.coreReduction? = o'.coreReduction? ∧ o.summary.reduction = o'.summary.reduction ∧
        o.state.isErroneous = o'.state.isErroneous ∧
        (o.votes.map fun v => (v.identifier, v.verdict)) =
          (o'.votes.map fun v => (v.identifier, v.verdict)) ∧
        (o.votes.map fun v => Number.places Value.timePlaces v.elapsed) =
          (o'.votes.map fun v => Number.places Value.timePlaces v.elapsed)) := by
  have hread := Digest.ofText?_text (isKey_votes hkeys h)
  have hread' := Digest.ofText?_text (isKey_votes hkeys' h')
  refine ⟨hread, fun htext => ?_⟩
  rw [htext, hread'] at hread
  have hdigest : o.digest = o'.digest := (Option.some.inj hread).symm
  have hstate : o.state = o'.state := congrArg Digest.state hdigest
  have hsizes : (o.core?.map fun c => (c.size : Int)) = o'.core?.map fun c => (c.size : Int) :=
    congrArg Digest.coreSize hdigest
  refine ⟨hstate, fun hsat => ?_, ?_, congrArg Digest.coreReduction hdigest,
    congrArg Digest.reduction hdigest, congrArg Digest.isErroneous hdigest,
    congrArg Digest.verdicts hdigest, congrArg Digest.times hdigest⟩
  · have hcounts : (if o.state = .verdictSat then none else some (o.assertCount : Int)) =
        if o'.state = .verdictSat then none else some (o'.assertCount : Int) :=
      congrArg Digest.assertCount hdigest
    rw [if_neg hsat, if_neg (hstate ▸ hsat)] at hcounts
    exact Int.ofNat.inj (Option.some.inj hcounts)
  · have hmap : ∀ c? : Option UnsatCore,
        (c?.map fun c => (c.size : Int)) = (c?.map UnsatCore.size).map Int.ofNat := by
      intro c?
      cases c? <;> rfl
    rw [hmap, hmap] at hsizes
    exact Option.map_injective (fun _ _ hn => Int.ofNat.inj hn) hsizes

/-- Two audits whose cores have the same size and different formulas report the same. -/
theorem report_tells_pair :
    ∃ o o' u u', pairAudit.run [] pairTranscript pairBenchmark
        (pairSession ⟨";; parsed 1 names:\n(check-sat)\n".toList, 0.5, some 0, false⟩
          "unsat\n".toList) = (.ok o, u) ∧
      pairAudit.run [] pairTranscript pairBenchmark
        (pairSession ⟨";; parsed 1 names:\n(exit)\n".toList, 0.5, some 0, false⟩
          "unsat\n".toList) = (.ok o', u') ∧
      o.core? ≠ o'.core? ∧ ListsKeys pairAudit.table ∧ o.report.text = o'.report.text ∧
      Digest.ofText? o.report.text = some o.digest ∧ o.state = o'.state := by
  have hcore : (Reconstruction.reading
      ⟨";; parsed 1 names:\n(check-sat)\n".toList, 0.5, some 0, false⟩).1 =
        .ok (some ⟨1, "(check-sat)\n".toList⟩) := by rfl
  have hcore' : (Reconstruction.reading
      ⟨";; parsed 1 names:\n(exit)\n".toList, 0.5, some 0, false⟩).1 =
        .ok (some ⟨1, "(exit)\n".toList⟩) := by rfl
  obtain ⟨u, hrun⟩ := run_pair hcore "unsat\n".toList
  obtain ⟨u', hrun'⟩ := run_pair hcore' "unsat\n".toList
  have hkeys : ListsKeys pairAudit.table := by decide
  have htext := congrArg Report.text (congrArg Report.mk
    ((Outcome.entries_checked pairBenchmark.assertCount ⟨1, "(check-sat)\n".toList⟩
      ([Tool.z3.name, Tool.cvc5.name].map fun id =>
        Validation.ballot id (pairOutcome "unsat\n".toList id))).trans
      (Outcome.entries_checked pairBenchmark.assertCount ⟨1, "(exit)\n".toList⟩ _).symm))
  have htells := report_tells hkeys hkeys hrun hrun'
  exact ⟨_, _, u, u', hrun, hrun', by simp [Outcome.core?], hkeys, htext, htells.1,
    (htells.2 htext).1⟩

end Audit

end CoreAudit
