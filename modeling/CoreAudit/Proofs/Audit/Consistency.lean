import CoreAudit.Proofs.Audit.Checked
import CoreAudit.Proofs.Report.History

/-!
# Reports are consistent

What a report states in one line follows from what it states in others, and from the answer, the
benchmark and the policy table. `Consistent` says so in terms of what is printed: lookups
(`Report.get?`), the entries between the number of validators and the rejections
(`Report.voteEntries`), and the last line.

A report of a core that was voted on has the entries of the votes between entries with fixed keys
(`entries_checked`). The keys of votes end in `-result` or `-time`, so that no lookup of a fixed
key finds a vote (`get?_votes`).

Headlines:
* **`consistent_of_run`**: the report of every audit is consistent.
* **`Consistent.of_ending`**: it is so at every ending.
-/

namespace CoreAudit

namespace Report

/-- A vote as it is printed. -/
structure PrintedVote where
  identifier : Text
  result : Text
  time : Text
  deriving Repr, DecidableEq

/-- The entries of a printed vote. -/
def PrintedVote.entries (v : PrintedVote) : List (Text × Text) :=
  [(v.identifier ++ "-result".toList, v.result), (v.identifier ++ "-time".toList, v.time)]

/-- The entries between the number of validators and the rejections. -/
def voteEntries (r : Report) : List (Text × Text) :=
  ((r.entries.dropWhile fun e => e.1 != "number-of-validators".toList).drop 1).takeWhile
    fun e => e.1 != "unsat-core-rejections".toList

/-- The report without its last entry. -/
def withoutLast (r : Report) : Report := ⟨r.entries.dropLast⟩

/-- What the report of an audit states is consistent. -/
structure Consistent (a : Audit) (t : Transcript) (b : Benchmark) (r : Report) : Prop where
  /-- The answer counts against the solver iff it was sat, or it was unsat, a core was parsed and
  the printed rejections exceed the printed confirmations. -/
  erroneous_iff : r.get? "result-is-erroneous".toList = some ['1'] ↔
    t.status = .sat ∨ t.status = .unsat ∧ r.get? "parsable-unsat-core".toList = some "true".toList ∧
      ∃ rejections confirmations : Nat,
        r.get? "unsat-core-rejections".toList = some (Text.ofNat rejections) ∧
        r.get? "unsat-core-confirmations".toList = some (Text.ofNat confirmations) ∧
        confirmations < rejections
  erroneous_digit : r.get? "result-is-erroneous".toList = some ['0'] ∨
    r.get? "result-is-erroneous".toList = some ['1']
  /-- Where a core was parsed, the validators of the benchmark's logic are printed in the order of
  the table, and the printed numbers count their printed results. -/
  votes : r.get? "parsable-unsat-core".toList = some "true".toList →
    ∃ (votes : List PrintedVote) (logic : Text), b.logic = .ok logic ∧
      a.table.validatorsFor logic = .ok (votes.map PrintedVote.identifier) ∧
      r.voteEntries = votes.flatMap PrintedVote.entries ∧
      r.get? "number-of-validators".toList = some (Text.ofNat votes.length) ∧
      r.get? "unsat-core-rejections".toList =
        some (Text.ofNat (votes.countP fun v => v.result == "sat".toList)) ∧
      r.get? "unsat-core-confirmations".toList =
        some (Text.ofNat (votes.countP fun v => v.result == "unsat".toList))
  /-- Where no core was parsed, no vote is printed and none is counted. -/
  voteless : r.get? "parsable-unsat-core".toList ≠ some "true".toList →
    r.voteEntries = [] ∧ r.get? "number-of-validators".toList = none ∧
      r.get? "unsat-core-rejections".toList = none ∧
      r.get? "unsat-core-confirmations".toList = none ∧
      r.get? "unsat-core-validated".toList = none
  /-- The last line states the assertions that a validated core leaves out, and zero where none was
  validated. -/
  reduction : if r.get? "unsat-core-validated".toList = some "true".toList then
      ∃ assertions size : Int,
        r.get? "number-of-assert-commands".toList = some (Text.ofInt assertions) ∧
        r.get? "size-unsat-core".toList = some (Text.ofInt size) ∧
        r.lines.getLast? = some ("reduction=".toList ++ Text.ofInt (assertions - size))
    else r.lines.getLast? = some "reduction=0".toList
  /-- In front of it, the assertions that a parsed core leaves out are stated, validated or not,
  zero for a core that was not parsed, and nothing where there is none. -/
  coreReduction : match r.get? "parsable-unsat-core".toList with
    | none => r.withoutLast.get? "reduction".toList = none
    | some parsable =>
      if parsable = "true".toList then
        ∃ assertions size : Int,
          r.get? "number-of-assert-commands".toList = some (Text.ofInt assertions) ∧
          r.get? "size-unsat-core".toList = some (Text.ofInt size) ∧
          r.withoutLast.get? "reduction".toList = some (Text.ofInt (assertions - size))
      else r.withoutLast.get? "reduction".toList = some ['0']

/-! ## The entries of a report -/

/-- The key may be that of a vote. -/
def isVoteKey (key : Text) : Bool :=
  "-result".toList.isSuffixOf key || "-time".toList.isSuffixOf key

theorem isVoteKey_of_mem {votes : List PrintedVote} {e : Text × Text}
    (h : e ∈ votes.flatMap PrintedVote.entries) : isVoteKey e.1 = true := by
  obtain ⟨v, _, he⟩ := List.mem_flatMap.mp h
  rw [isVoteKey, Bool.or_eq_true, List.isSuffixOf_iff_suffix, List.isSuffixOf_iff_suffix]
  simp only [PrintedVote.entries, List.mem_cons, List.not_mem_nil, or_false] at he
  rcases he with rfl | rfl
  · exact Or.inl (List.suffix_append _ _)
  · exact Or.inr (List.suffix_append _ _)

/-- A lookup of a key that is no vote's passes over the votes. -/
theorem get?_votes {key : Text} (hkey : isVoteKey key = false) (before after : List (Text × Text))
    (votes : List PrintedVote) :
    (Report.mk (before ++ votes.flatMap PrintedVote.entries ++ after)).get? key =
      (Report.mk (before ++ after)).get? key := by
  have hnone : (votes.flatMap PrintedVote.entries).reverse.lookup key = none := by
    rw [List.lookup_eq_none_iff]
    intro e he
    rw [bne_iff_ne]
    rintro rfl
    rw [isVoteKey_of_mem (List.mem_reverse.mp he)] at hkey
    cases hkey
  unfold get?
  rw [List.reverse_append, List.reverse_append, List.reverse_append, List.lookup_append,
    List.lookup_append, hnone, Option.none_or, List.lookup_append]

end Report

namespace Outcome

open Report

/-- The entries in front of the votes. -/
def beforeVotes (assertions size : Int) (validators : Nat) : List (Text × Text) :=
  [("check-sat-result-is-erroneous".toList, ['0']),
   ("starexec-result".toList, "unsat".toList),
   ("number-of-assert-commands".toList, Text.ofInt assertions),
   ("parsable-unsat-core".toList, "true".toList),
   ("size-unsat-core".toList, Text.ofInt size),
   ("reduction".toList, Text.ofInt (assertions - size)),
   ("number-of-validators".toList, Text.ofNat validators)]

/-- The entries after the votes. -/
def afterVotes (t : Tally) (assertions size : Int) : List (Text × Text) :=
  [("unsat-core-rejections".toList, Text.ofNat t.rejections),
   ("unsat-core-confirmations".toList, Text.ofNat t.confirmations),
   ("unsat-core-validated".toList, if t.accepts then "true".toList else "false".toList),
   ("result-is-erroneous".toList, if t.accepts then ['0'] else ['1']),
   ("reduction".toList, Text.ofInt (if t.accepts then assertions - size else 0))]

/-- A vote as it is printed. -/
def printed (v : Vote) : PrintedVote :=
  ⟨v.identifier, v.verdict.word, Number.places Value.timePlaces v.elapsed⟩

theorem entries_votes (votes : List Vote) :
    ((votes.map voteLine).flatMap Summary.voteFacts).map (fun f => (f.1, f.2.format)) =
      (votes.map printed).flatMap PrintedVote.entries := by
  induction votes with
  | nil => rfl
  | cons v votes ih =>
    rw [List.map_cons, List.flatMap_cons, List.map_append, ih]
    rfl

/-- The facts of a core that was voted on. -/
theorem facts_checked (state : State) (n m : Int) (votes : List VoteLine) (c : Count) :
    Summary.facts ⟨state, .unsat, n, some m, some (n - m), votes, some c⟩ =
      [("check-sat-result-is-erroneous".toList, Summary.digit false),
       ("starexec-result".toList, .text "unsat".toList),
       ("number-of-assert-commands".toList, .int n),
       ("parsable-unsat-core".toList, .flag true),
       ("size-unsat-core".toList, .int m),
       ("reduction".toList, .int (n - m)),
       ("number-of-validators".toList, .int votes.length)] ++ votes.flatMap Summary.voteFacts ++
      [("unsat-core-rejections".toList, .int c.rejections),
       ("unsat-core-confirmations".toList, .int c.confirmations),
       ("unsat-core-validated".toList, .flag c.accepts),
       ("result-is-erroneous".toList, Summary.digit state.isErroneous),
       ("reduction".toList,
        Summary.known (if state = .validated then some (n - m) else some 0))] := by
  have hsplit : Summary.facts ⟨state, .unsat, n, some m, some (n - m), votes, some c⟩ =
      [("check-sat-result-is-erroneous".toList, Summary.digit false),
       ("starexec-result".toList, .text "unsat".toList),
       ("number-of-assert-commands".toList, .int n),
       ("parsable-unsat-core".toList, .flag true),
       ("size-unsat-core".toList, .int m),
       ("reduction".toList, .int (n - m)),
       ("number-of-validators".toList, .int votes.length)] ++
      ((votes.flatMap Summary.voteFacts ++
      [("unsat-core-rejections".toList, .int c.rejections),
       ("unsat-core-confirmations".toList, .int c.confirmations),
       ("unsat-core-validated".toList, .flag c.accepts)]) ++
      [("result-is-erroneous".toList, Summary.digit state.isErroneous),
       ("reduction".toList,
        Summary.known (if state = .validated then some (n - m) else some 0))]) := rfl
  rw [hsplit, List.append_assoc, List.append_assoc]
  rfl

/-- **The entries of a report on a core that was voted on.** -/
theorem entries_checked (n : Nat) (core : UnsatCore) (votes : List Vote) :
    (Outcome.mk n (.checked core votes)).report.entries =
      beforeVotes n core.size votes.length ++ (votes.map printed).flatMap PrintedVote.entries ++
        afterVotes (Tally.ofVotes votes) n core.size := by
  have hsummary : (Outcome.mk n (.checked core votes)).summary =
      ⟨if (Tally.ofVotes votes).accepts then .validated else .rejected, .unsat, n, some core.size,
        some (n - core.size), votes.map voteLine,
        some ⟨(Tally.ofVotes votes).confirmations, (Tally.ofVotes votes).rejections⟩⟩ := rfl
  rw [report, Summary.report, hsummary, entries_addAll, facts_checked, List.map_append,
    List.map_append, entries_votes, List.length_map]
  generalize Tally.ofVotes votes = tally
  have haccepts : Count.accepts ⟨tally.confirmations, tally.rejections⟩ = tally.accepts :=
    decide_eq_decide.mpr Int.ofNat_le
  rw [haccepts, afterVotes]
  cases tally.accepts <;> rfl

end Outcome

namespace Report.Consistent

open Outcome

variable {a : Audit} {t : Transcript} {b : Benchmark}

/-- A report in which no core was parsed is consistent if its fixed entries are. -/
theorem of_voteless {r : Report} {digit : Text}
    (hparsable : r.get? "parsable-unsat-core".toList = none ∧
        r.withoutLast.get? "reduction".toList = none ∨
      r.get? "parsable-unsat-core".toList = some "false".toList ∧
        r.withoutLast.get? "reduction".toList = some ['0'])
    (herroneous : r.get? "result-is-erroneous".toList = some digit)
    (hdigit : t.status = .sat ∧ digit = ['1'] ∨ t.status ≠ .sat ∧ digit = ['0'])
    (hvotes : r.voteEntries = []) (hnumber : r.get? "number-of-validators".toList = none)
    (hrejections : r.get? "unsat-core-rejections".toList = none)
    (hconfirmations : r.get? "unsat-core-confirmations".toList = none)
    (hvalidated : r.get? "unsat-core-validated".toList = none)
    (hlast : r.lines.getLast? = some "reduction=0".toList) : Consistent a t b r := by
  have hnot : r.get? "parsable-unsat-core".toList ≠ some "true".toList := by
    rcases hparsable with ⟨hp, _⟩ | ⟨hp, _⟩
    · rw [hp]
      exact fun h => nomatch h
    · rw [hp]
      decide
  refine ⟨?_, ?_, fun h => absurd h hnot,
    fun _ => ⟨hvotes, hnumber, hrejections, hconfirmations, hvalidated⟩, ?_, ?_⟩
  · rw [herroneous]
    rcases hdigit with ⟨hstatus, rfl⟩ | ⟨hstatus, rfl⟩
    · exact ⟨fun _ => Or.inl hstatus, fun _ => rfl⟩
    · refine ⟨fun h => absurd h (by decide), ?_⟩
      rintro (h | ⟨_, h, _⟩)
      · exact absurd h hstatus
      · exact absurd h hnot
  · rcases hdigit with ⟨_, rfl⟩ | ⟨_, rfl⟩
    · exact Or.inr herroneous
    · exact Or.inl herroneous
  · rw [hvalidated, if_neg (fun h => nomatch h)]
    exact hlast
  · rcases hparsable with ⟨hp, hr⟩ | ⟨hp, hr⟩
    · rw [hp]
      exact hr
    · rw [hp]
      exact (if_neg (by decide)).mpr hr

theorem of_sat (h : t.status = .sat) (n : Nat) :
    Consistent a t b (Outcome.mk n .answeredSat).report :=
  of_voteless (Or.inl ⟨rfl, rfl⟩) rfl (Or.inl ⟨h, rfl⟩) rfl rfl rfl rfl rfl rfl

theorem of_unknown (h : t.status = .unknown) (n : Nat) :
    Consistent a t b (Outcome.mk n .answeredUnknown).report := by
  have hstatus : t.status ≠ .sat := by
    rw [h]
    decide
  exact of_voteless (Or.inl ⟨rfl, rfl⟩) rfl (Or.inr ⟨hstatus, rfl⟩) rfl rfl rfl rfl rfl rfl

theorem of_unparsable (h : t.status = .unsat) (n : Nat) :
    Consistent a t b (Outcome.mk n .unparsable).report := by
  have hstatus : t.status ≠ .sat := by
    rw [h]
    decide
  exact of_voteless (Or.inr ⟨rfl, rfl⟩) rfl (Or.inr ⟨hstatus, rfl⟩) rfl rfl rfl rfl rfl rfl

/-- The printed results count as the verdicts do. -/
theorem countP_printed (votes : List Vote) (verdict : Verdict) :
    (votes.map printed).countP (fun v => v.result == verdict.word) =
      (votes.map Vote.verdict).count verdict := by
  induction votes with
  | nil => rfl
  | cons v votes ih =>
    have hword : (v.verdict.word == verdict.word) = (v.verdict == verdict) := by
      cases v.verdict <;> cases verdict <;> rfl
    have hprinted : (printed v).result == verdict.word ↔ v.verdict == verdict := by
      show (v.verdict.word == verdict.word) = true ↔ _
      rw [hword]
    rw [List.map_cons, List.countP_cons, ih, List.map_cons, List.count_cons]
    simp only [hprinted]

section Layout

variable (n m : Int) (prints : List PrintedVote) (tally : Tally)

/-- The report that lays out printed votes and their tally. -/
def layout : Report :=
  ⟨beforeVotes n m prints.length ++ prints.flatMap PrintedVote.entries ++ afterVotes tally n m⟩

/-- A lookup of a fixed key passes over the votes. -/
theorem get?_layout {key : Text} (hkey : isVoteKey key = false) :
    (layout n m prints tally).get? key =
      (Report.mk (beforeVotes n m prints.length ++ afterVotes tally n m)).get? key :=
  get?_votes hkey _ _ prints

theorem voteEntries_layout :
    (layout n m prints tally).voteEntries = prints.flatMap PrintedVote.entries := by
  have hvotes : ∀ e ∈ prints.flatMap PrintedVote.entries,
      (e.1 != "unsat-core-rejections".toList) = true := by
    intro e he
    rw [bne_iff_ne]
    intro hkey
    have hvote := isVoteKey_of_mem he
    rw [hkey] at hvote
    exact absurd hvote (by decide)
  have hdrop : (layout n m prints tally).voteEntries =
      (prints.flatMap PrintedVote.entries ++ afterVotes tally n m).takeWhile
        fun e => e.1 != "unsat-core-rejections".toList := by
    rw [voteEntries, layout, List.append_assoc]
    rfl
  rw [hdrop, List.takeWhile_append_of_pos hvotes]
  exact List.append_nil _

/-- The last line of a layout. -/
theorem getLast?_lines_layout :
    (layout n m prints tally).lines.getLast? =
      some ("reduction=".toList ++ Text.ofInt (if tally.accepts then n - m else 0)) := by
  rw [lines, layout, List.map_append, List.getLast?_append]
  rfl

/-- Without its last entry a layout still states the reduction of the core. -/
theorem withoutLast_layout :
    (layout n m prints tally).withoutLast.get? "reduction".toList =
      some (Text.ofInt (n - m)) := by
  have hlast : (layout n m prints tally).withoutLast = Report.mk
      (beforeVotes n m prints.length ++ prints.flatMap PrintedVote.entries ++
        (afterVotes tally n m).dropLast) := by
    have hne : afterVotes tally n m ≠ [] := List.cons_ne_nil _ _
    rw [withoutLast, layout, List.dropLast_append_of_ne_nil hne]
  rw [hlast, get?_votes (by decide)]
  rfl

variable {n m prints tally}

/-- **A layout of printed votes is consistent, if the votes are those of the table and the tally
counts their printed results.** -/
theorem of_layout (h : t.status = .unsat) {logic : Text} (hlogic : b.logic = .ok logic)
    (hlisted : a.table.validatorsFor logic = .ok (prints.map PrintedVote.identifier))
    (hrejections : tally.rejections = prints.countP fun v => v.result == "sat".toList)
    (hconfirmations : tally.confirmations = prints.countP fun v => v.result == "unsat".toList) :
    Consistent a t b (layout n m prints tally) := by
  have hget : ∀ {key value : Text}, isVoteKey key = false →
      (Report.mk (beforeVotes n m prints.length ++ afterVotes tally n m)).get? key = some value →
        (layout n m prints tally).get? key = some value :=
    fun hkey hvalue => (get?_layout n m prints tally hkey).trans hvalue
  have hparsable : (layout n m prints tally).get? "parsable-unsat-core".toList =
      some "true".toList := hget (by decide) rfl
  have hrejected : (layout n m prints tally).get? "unsat-core-rejections".toList =
      some (Text.ofNat tally.rejections) := hget (by decide) rfl
  have hconfirmed : (layout n m prints tally).get? "unsat-core-confirmations".toList =
      some (Text.ofNat tally.confirmations) := hget (by decide) rfl
  have hassertions : (layout n m prints tally).get? "number-of-assert-commands".toList =
      some (Text.ofInt n) := hget (by decide) rfl
  have hsize : (layout n m prints tally).get? "size-unsat-core".toList =
      some (Text.ofInt m) := hget (by decide) rfl
  have hvalidated : (layout n m prints tally).get? "unsat-core-validated".toList =
      some (if tally.accepts then "true".toList else "false".toList) := hget (by decide) rfl
  have herroneous : (layout n m prints tally).get? "result-is-erroneous".toList =
      some (if tally.accepts then ['0'] else ['1']) := hget (by decide) rfl
  have haccepts : tally.accepts = true ↔ tally.rejections ≤ tally.confirmations :=
    decide_eq_true_iff
  refine ⟨?_, ?_, fun _ => ?_, fun hnot => absurd hparsable hnot, ?_, ?_⟩
  · rw [herroneous, hparsable, hrejected, hconfirmed]
    constructor
    · intro hdigit
      refine Or.inr ⟨h, rfl, tally.rejections, tally.confirmations, rfl, rfl, ?_⟩
      rcases Nat.lt_or_ge tally.confirmations tally.rejections with hlt | hle
      · exact hlt
      · rw [if_pos (haccepts.mpr hle)] at hdigit
        exact absurd hdigit (by decide)
    · rintro (hsat | ⟨_, _, rejections, confirmations, hr, hc, hlt⟩)
      · rw [h] at hsat
        cases hsat
      · rw [← Text.ofNat_inj (Option.some.inj hr), ← Text.ofNat_inj (Option.some.inj hc)] at hlt
        rw [if_neg fun hacc => absurd (haccepts.mp hacc) (Nat.not_le.mpr hlt)]
  · rw [herroneous]
    cases tally.accepts
    · exact Or.inr rfl
    · exact Or.inl rfl
  · refine ⟨prints, logic, hlogic, hlisted, voteEntries_layout n m prints tally,
      hget (by decide) rfl, ?_, ?_⟩
    · rw [hrejected, hrejections]
    · rw [hconfirmed, hconfirmations]
  · rw [hvalidated, getLast?_lines_layout, hassertions, hsize]
    cases tally.accepts
    · exact (if_neg (by decide)).mpr rfl
    · exact (if_pos rfl).mpr ⟨n, m, rfl, rfl, rfl⟩
  · rw [hparsable, hassertions, hsize, withoutLast_layout]
    exact (if_pos rfl).mpr ⟨n, m, rfl, rfl, rfl⟩

end Layout

theorem of_checked (h : t.status = .unsat) (core : UnsatCore) (votes : List Vote) {logic : Text}
    (hlogic : b.logic = .ok logic)
    (hlisted : a.table.validatorsFor logic = .ok (votes.map Vote.identifier)) (n : Nat) :
    Consistent a t b (Outcome.mk n (.checked core votes)).report := by
  have hreport : (Outcome.mk n (.checked core votes)).report =
      layout n core.size (votes.map printed) (Tally.ofVotes votes) := by
    have hentries := entries_checked n core votes
    rw [← List.length_map printed] at hentries
    exact congrArg Report.mk hentries
  have hidentifiers : (votes.map printed).map PrintedVote.identifier =
      votes.map Vote.identifier := by
    rw [List.map_map]
    rfl
  rw [hreport]
  refine of_layout h hlogic ?_ ?_ ?_
  · rw [hlisted, hidentifiers]
  · exact (countP_printed votes .sat).symm
  · exact (countP_printed votes .unsat).symm

/-- The report of every ending is consistent. -/
theorem of_ending {o : Outcome} (h : Audit.Ending a t b o) : Consistent a t b o.report := by
  cases h with
  | sat status => exact of_sat status _
  | unknown status => exact of_unknown status _
  | unparsable status => exact of_unparsable status _
  | checked status core votes logic logic_eq listed =>
    exact of_checked status core votes logic_eq listed _

end Report.Consistent

namespace Audit

/-- **The report of every audit is consistent**, whatever the scrambler and the validators do, and
under every schedule. -/
theorem consistent_of_run {a : Audit} {schedule : List Pool.Move} {t : Transcript} {b : Benchmark}
    {s u : Session} {o : Outcome} (h : a.run schedule t b s = (.ok o, u)) :
    o.report.Consistent a t b :=
  Report.Consistent.of_ending (Ending.of_run h)

/-- A core with more names than the benchmark has assertions, confirmed by one of two validators. -/
theorem consistent_of_larger_core :
    ∃ o u, pairAudit.run [] pairTranscript pairBenchmark
        (pairSession ⟨";; parsed 2 names:\n(check-sat)\n".toList, 0.5, some 0, false⟩
          "unsat\n".toList) = (.ok o, u) ∧
      o.state = .validated ∧ o.report.Consistent pairAudit pairTranscript pairBenchmark := by
  have hcore : (Reconstruction.reading
      ⟨";; parsed 2 names:\n(check-sat)\n".toList, 0.5, some 0, false⟩).1 =
        .ok (some ⟨2, "(check-sat)\n".toList⟩) := by rfl
  obtain ⟨u, hrun⟩ := run_pair hcore "unsat\n".toList
  exact ⟨_, u, hrun, by rfl, consistent_of_run hrun⟩

end Audit

end CoreAudit
