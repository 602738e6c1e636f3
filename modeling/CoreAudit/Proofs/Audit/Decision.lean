import CoreAudit.Proofs.Audit.Crashes
import CoreAudit.Proofs.Audit.Reported

/-!
# The decision on a core

Whether a core is accepted is decided by the votes of all validators of the logic. Where it is known
what each validator votes (`Casts`), or the fault that its vote ends in, whichever votes are cast
before it, an audit ends with these votes in the order of the validators (`Canvass.run_ok_iff`), and
its decision does not depend on the order, nor on votes that are unknown. A vote that moves up in
the order sat < unknown < unsat can turn a rejection into an acceptance and not the other way.

Headlines:
* `Tally.ofVotes_mono`: votes that move up confirm no less and reject no more.
* **`Validation.validate_ok_iff`**: votes that are known beforehand are the validated ones.
* **`Audit.run_decides`**: the decision is symmetric, blind to unknown votes and monotone.
-/

namespace CoreAudit

/-- The place of a verdict in the order sat < unknown < unsat. -/
def Verdict.rank : Verdict → Nat
  | sat => 0
  | unknown => 1
  | unsat => 2

/-! ## Tallies -/

namespace Tally

/-- **Votes that move up confirm no less and reject no more.** -/
theorem ofVotes_mono {votes others : List Vote}
    (h : List.Forall₂ (fun v w => v.verdict.rank ≤ w.verdict.rank) votes others) :
    (ofVotes votes).confirmations ≤ (ofVotes others).confirmations ∧
      (ofVotes others).rejections ≤ (ofVotes votes).rejections := by
  induction h with
  | nil => exact ⟨Nat.le_refl _, Nat.le_refl _⟩
  | @cons v w votes others hrank _ ih =>
    have hsplit : ∀ (x : Vote) (xs : List Vote), ofVotes (x :: xs) =
        ⟨(ofVotes [x]).confirmations + (ofVotes xs).confirmations,
          (ofVotes [x]).rejections + (ofVotes xs).rejections⟩ := fun x xs => tally_append [x] xs
    have hone : ∀ x y : Verdict, x.rank ≤ y.rank →
        (ofVerdicts [x]).confirmations ≤ (ofVerdicts [y]).confirmations ∧
          (ofVerdicts [y]).rejections ≤ (ofVerdicts [x]).rejections := by
      intro x y
      cases x <;> cases y <;> decide
    obtain ⟨hconfirms, hrejects⟩ := hone v.verdict w.verdict hrank
    rw [hsplit v votes, hsplit w others]
    exact ⟨Nat.add_le_add hconfirms ih.1, Nat.add_le_add hrejects ih.2⟩

end Tally

/-! ## Votes that are known beforehand -/

namespace Validation

/-- It is known what the validator at every place votes, or the fault that its vote ends in,
whichever votes are cast before it. -/
def Casts (v : Validation) (formula workdir : Text) (ids : List Text) (s : Session)
    (cast : Nat → Text → Except Fault Vote) : Prop :=
  ∀ i id, ids[i]? = some id → ∀ u, Midway workdir ids s u →
    (v.vote formula (directory workdir i id) id u).1 = cast i id

variable {v : Validation} {formula workdir : Text} {ids : List Text} {s : Session}
  {cast : Nat → Text → Except Fault Vote} {outcome : Nat → Text → Except Fault RunResult}

/-- Where the directories can be made, it is known from what the runs of the validators come to. -/
theorem Plays.casts (P : Plays v formula workdir ids s outcome)
    (hmake : s.files.Makeable s.here (directories workdir ids)) :
    Casts v formula workdir ids s fun i id => (voteOf id (outcome i id)).1 := by
  intro i id hid u M
  obtain ⟨result, w, hvote, _, hresult⟩ := M.vote hid v formula
  rw [hvote]
  rcases hresult with ⟨x, Mx, rfl⟩ | ⟨_, hblocked⟩
  · exact congrArg (fun run => (voteOf id run).1) (P i id hid x Mx.toMidway)
  · exact absurd hmake hblocked

theorem Casts.contract (C : Casts v formula workdir ids s cast) :
    Pool.Contract (v.tasks formula workdir ids) (fun _ => Midway workdir ids s)
      (fun i result => ∃ id, ids[i]? = some id ∧ result = cast i id) where
  records := fun _ M => M.mark _
  task := by
    intro _ t i task htask _ M
    obtain ⟨id, hid, rfl⟩ := getElem?_tasks htask
    obtain ⟨_, w, hvote, M', _⟩ := M.vote hid v formula
    refine ⟨⟨id, hid, C i id hid t M⟩, ?_⟩
    rw [hvote]
    exact M'

/-- **Votes that are known beforehand are the validated ones**, in the order of the validators and
under every schedule; where one of them is a fault, none are validated. -/
theorem validate_ok_iff (C : Casts v formula workdir ids s cast) (schedule : List Pool.Move)
    {votes : List Vote} : (v.validate schedule formula workdir ids s).1 = .ok votes ↔
      ids.mapIdx cast = votes.map .ok := by
  have hprepare := fun u (h : (ids.forM fun id => discard (runnerFor id)) s = (.ok (), u)) =>
    (Midway.refl workdir ids s).prepare ids h
  have hvotes : ∀ {votes}, (v.validate schedule formula workdir ids s).1 = .ok votes →
      ids.mapIdx cast = votes.map .ok := by
    intro votes h
    obtain ⟨u, hcollect, _⟩ := validate_eq_ok.mp (Prod.ext h rfl)
    obtain ⟨_, _, _, _, hlength, hcast⟩ :=
      collect_ok C.contract (.refl workdir ids s) hprepare hcollect
    refine List.ext_getElem? fun i => ?_
    rw [List.getElem?_mapIdx, List.getElem?_map]
    rcases hi : votes[i]? with _ | vote
    · rw [List.getElem?_eq_none_iff, hlength, ← List.getElem?_eq_none_iff] at hi
      rw [hi]
      rfl
    · obtain ⟨id, hid, hok⟩ := hcast i vote hi
      rw [hid, Option.map_some, Option.map_some, hok]
  refine ⟨hvotes, fun h => ?_⟩
  have hok : ∀ i f, ¬ ∃ id, ids[i]? = some id ∧ .error f = cast i id := by
    rintro i f ⟨id, hid, hfault⟩
    have hat : (ids.mapIdx cast)[i]? = (votes.map Except.ok)[i]? := by rw [h]
    rw [List.getElem?_mapIdx, hid, List.getElem?_map, Option.map_some, ← hfault] at hat
    obtain ⟨_, _, hsome⟩ := Option.map_eq_some_iff.mp hat.symm
    cases hsome
  obtain ⟨others, u, hcollect⟩ :=
    exists_collect_ok schedule C.contract hok (.refl workdir ids s) hprepare
  have hothers : (v.validate schedule formula workdir ids s).1 = .ok others :=
    congrArg Prod.fst (validate_eq_ok.mpr ⟨u, hcollect, rfl⟩)
  have hsame : others = votes :=
    List.map_injective_iff.mpr (fun _ _ => Except.ok.inj) ((hvotes hothers).symm.trans h)
  rw [hothers, hsame]

/-! ## What a vote comes to -/

/-- What a vote comes to matters: it is decided, or a fault. -/
def hasSay : Except Fault Vote → Bool
  | .ok vote => vote.verdict != .unknown
  | .error _ => true

/-- What a vote comes to moves up in the order of verdicts. -/
def MovesUp (x y : Except Fault Vote) : Prop :=
  ∀ v w, x = .ok v → y = .ok w → v.verdict.rank ≤ w.verdict.rank

variable {xs : List (Except Fault Vote)} {votes others : List Vote}

theorem mapIdx_eq_map {c : Text → Except Fault Vote} (h : ∀ i id, cast i id = c id) :
    ids.mapIdx cast = ids.map c := by
  refine List.ext_getElem? fun i => ?_
  rw [List.getElem?_mapIdx, List.getElem?_map]
  exact congrArg (Option.map · ids[i]?) (funext (h i))

theorem exists_eq_map_ok_iff : (∃ votes : List Vote, xs = votes.map .ok) ↔ ∀ f, .error f ∉ xs := by
  constructor
  · rintro ⟨votes, rfl⟩ f hmem
    obtain ⟨_, _, hok⟩ := List.mem_map.mp hmem
    cases hok
  · intro h
    induction xs with
    | nil => exact ⟨[], rfl⟩
    | cons x xs ih =>
      obtain ⟨votes, rfl⟩ := ih fun f hf => h f (List.mem_cons_of_mem _ hf)
      cases x with
      | ok vote => exact ⟨vote :: votes, rfl⟩
      | error f => exact absurd List.mem_cons_self (h f)

theorem error_mem_filter_iff {f : Fault} : .error f ∈ xs.filter hasSay ↔ .error f ∈ xs :=
  List.mem_filter.trans (and_iff_left rfl)

theorem filterMap_map_ok (votes : List Vote) :
    (votes.map .ok : List (Except Fault Vote)).filterMap Except.toOption = votes := by
  rw [List.filterMap_map]
  exact List.filterMap_some

theorem perm_of_map_ok (h : (votes.map .ok : List (Except Fault Vote)).Perm (others.map .ok)) :
    votes.Perm others := by
  have hvotes := h.filterMap Except.toOption
  rwa [filterMap_map_ok, filterMap_map_ok] at hvotes

/-- **Votes that come to the same but for unknown ones have the same tally**, in any order. -/
theorem ofVotes_eq_of_perm
    (h : ((votes.map .ok : List (Except Fault Vote)).filter hasSay).Perm
      ((others.map .ok).filter hasSay)) : Tally.ofVotes votes = Tally.ofVotes others := by
  have hdecided : ∀ votes : List Vote, (votes.map .ok : List (Except Fault Vote)).filter hasSay =
      (votes.filter fun v => v.verdict != .unknown).map .ok := fun _ => List.filter_map
  rw [hdecided, hdecided] at h
  rw [← Tally.tally_filter_decided votes, ← Tally.tally_filter_decided others]
  exact Tally.tally_perm ((perm_of_map_ok h).map _)

theorem forall₂_of_movesUp (h : List.Forall₂ MovesUp (votes.map .ok) (others.map .ok)) :
    List.Forall₂ (fun v w => v.verdict.rank ≤ w.verdict.rank) votes others :=
  (List.forall₂_map_right_iff.mp (List.forall₂_map_left_iff.mp h)).imp fun v w hup =>
    hup v w rfl rfl

end Validation

/-! ## Decisions -/

/-- Two audits decide alike: they count the same, end in the same state, which counts against the
solver or not, and have the same final reduction. -/
structure Outcome.SameDecision (o o' : Outcome) : Prop where
  tally : o.tally? = o'.tally?
  state : o.state = o'.state
  erroneous : o.state.isErroneous = o'.state.isErroneous
  reduction : o.summary.reduction = o'.summary.reduction

/-- The decision on a core depends on the tally of its votes alone. -/
theorem Outcome.sameDecision_of_tally {votes others : List Vote}
    (h : Tally.ofVotes votes = Tally.ofVotes others) (n : Nat) (core : UnsatCore) :
    (mk n (.checked core votes)).SameDecision (mk n (.checked core others)) := by
  obtain ⟨hstate, herroneous, hreduction⟩ := checked_congr h n core
  exact ⟨congrArg some h, hstate, herroneous, hreduction⟩

/-- **A core that is accepted stays accepted when votes move up**, with the same reduction. -/
theorem Outcome.validated_of_movesUp {votes others : List Vote}
    (h : List.Forall₂ (fun v w => v.verdict.rank ≤ w.verdict.rank) votes others) (n : Nat)
    (core : UnsatCore) :
    ((mk n (.checked core votes)).state = .validated →
      (mk n (.checked core others)).state = .validated ∧
        (mk n (.checked core others)).summary.reduction =
          (mk n (.checked core votes)).summary.reduction) ∧
      ((mk n (.checked core others)).state.isErroneous = true →
        (mk n (.checked core votes)).state.isErroneous = true) := by
  obtain ⟨hconfirms, hrejects⟩ := Tally.ofVotes_mono h
  have hstate : ∀ {vs : List Vote} {accepts : Bool}, (Tally.ofVotes vs).accepts = accepts →
      (mk n (.checked core vs)).state = if accepts then .validated else .rejected := by
    rintro vs _ rfl
    rfl
  have hreduction : ∀ {vs : List Vote}, (mk n (.checked core vs)).state = .validated →
      (mk n (.checked core vs)).summary.reduction = some (UnsatCore.reduction n core.size) :=
    fun hvalidated => if_pos hvalidated
  cases haccepts : (Tally.ofVotes votes).accepts with
  | true =>
    have hothers : (Tally.ofVotes others).accepts = true := by
      unfold Tally.accepts at haccepts ⊢
      rw [decide_eq_true_eq] at haccepts ⊢
      omega
    have hvalidated := hstate haccepts
    have hvalidated' := hstate hothers
    refine ⟨fun _ => ⟨hvalidated', (hreduction hvalidated').trans (hreduction hvalidated).symm⟩, ?_⟩
    rw [hvalidated']
    exact fun herroneous => nomatch herroneous
  | false =>
    rw [hstate haccepts]
    exact ⟨fun hvalidated => (nomatch hvalidated), fun _ => rfl⟩

namespace Audit

open Validation FileTree Reconstruction

/-- An audit of an unsat answer whose core is rebuilt and whose logic is resolved, and in which it
is known what every validator votes. -/
structure Canvass (a : Audit) (t : Transcript) (b : Benchmark) (s : Session) (core : UnsatCore)
    (ids : List Text) (cast : Nat → Text → Except Fault Vote) : Prop where
  closed : s.files.Closed
  isName : Path.IsName (s.files.freeName s.host.scratchStem)
  status : t.status = .unsat
  rebuilt : (a.reconstruct t b (pathOf s.scratch) (opened t b s)).1 = .ok (some core)
  panel : a.table.panel b = .ok ids
  casts : a.validation.Casts (Path.join (pathOf s.scratch) reducedName) (pathOf s.scratch) ids
    (polled b core (s.files.freeName s.host.scratchStem)
      (a.reconstruct t b (pathOf s.scratch) (opened t b s)).2) cast

variable {a a' : Audit} {t t' : Transcript} {b : Benchmark} {s s' : Session} {core : UnsatCore}
  {ids ids' : List Text} {cast cast' : Nat → Text → Except Fault Vote}

/-- **The audit ends with these votes**, under every schedule. -/
theorem Canvass.run_ok_iff (C : a.Canvass t b s core ids cast) (schedule : List Pool.Move)
    {o : Outcome} : (a.run schedule t b s).1 = .ok o ↔
      ∃ votes, ids.mapIdx cast = votes.map .ok ∧ o = ⟨b.assertCount, .checked core votes⟩ := by
  have hrebuilt : a.reconstruct t b (pathOf s.scratch) (opened t b s) =
      (.ok (some core), (a.reconstruct t b (pathOf s.scratch) (opened t b s)).2) :=
    Prod.ext C.rebuilt rfl
  have hfiles := a.files_reconstruct t b C.closed C.isName
  have S := scratch_prepared t b C.closed C.isName
  rw [← hfiles] at S
  have hvotes : ∀ votes, (a.validation.validate schedule (Path.join (pathOf s.scratch) reducedName)
      (pathOf s.scratch) ids (polled b core (s.files.freeName s.host.scratchStem)
        (a.reconstruct t b (pathOf s.scratch) (opened t b s)).2)).1 = .ok votes ↔
      ids.mapIdx cast = votes.map .ok := fun _ => validate_ok_iff C.casts schedule
  have hrun : (a.run schedule t b s).1 =
      (a.validation.validate schedule (Path.join (pathOf s.scratch) reducedName) (pathOf s.scratch)
        ids (polled b core (s.files.freeName s.host.scratchStem)
          (a.reconstruct t b (pathOf s.scratch) (opened t b s)).2)).1.map
            fun votes => ⟨b.assertCount, .checked core votes⟩ := by
    rw [run_eq_voteOn schedule C.status hrebuilt]
    exact congrArg Prod.fst (voteOn_eq schedule C.panel S)
  rw [hrun]
  constructor
  · intro h
    rcases hend : (a.validation.validate schedule (Path.join (pathOf s.scratch) reducedName)
      (pathOf s.scratch) ids (polled b core (s.files.freeName s.host.scratchStem)
        (a.reconstruct t b (pathOf s.scratch) (opened t b s)).2)).1 with f | votes
    · rw [hend] at h
      cases h
    · rw [hend] at h
      cases h
      exact ⟨votes, (hvotes votes).mp hend, rfl⟩
  · rintro ⟨votes, hcast, rfl⟩
    rw [(hvotes votes).mpr hcast]
    rfl

theorem Canvass.exists_run_ok_iff (C : a.Canvass t b s core ids cast) (schedule : List Pool.Move) :
    (∃ o, (a.run schedule t b s).1 = .ok o) ↔ ∀ f, .error f ∉ ids.mapIdx cast := by
  rw [← exists_eq_map_ok_iff]
  constructor
  · rintro ⟨o, ho⟩
    obtain ⟨votes, hvotes, _⟩ := (C.run_ok_iff schedule).mp ho
    exact ⟨votes, hvotes⟩
  · rintro ⟨votes, hvotes⟩
    exact ⟨_, (C.run_ok_iff schedule).mpr ⟨votes, hvotes, rfl⟩⟩

/-- **The decision on a core is symmetric, blind to unknown votes and monotone.**

Of two audits of a benchmark that rebuild the same core, with whatever settings, sessions and
schedules, let it be known what every validator votes, or the fault that its vote ends in. If that
is told by the validator's name and the second audit asks the same validators in another order, it
ends without a fault iff the first does, with the same votes in another order and the same decision.
So it does, but for the votes, if it asks more or fewer validators whose vote is unknown. If the
votes are moved up in the order sat < unknown < unsat, an accepted core stays accepted, with the
same final reduction, and what did not count against the solver does not then. -/
theorem run_decides (schedule schedule' : List Pool.Move) (C : a.Canvass t b s core ids cast)
    (C' : a'.Canvass t' b s' core ids' cast') :
    ((∀ c : Text → Except Fault Vote, (∀ i id, cast i id = c id) → (∀ i id, cast' i id = c id) →
      ids.Perm ids' →
        ((∃ o, (a.run schedule t b s).1 = .ok o) ↔ ∃ o', (a'.run schedule' t' b s').1 = .ok o') ∧
        ∀ o o', (a.run schedule t b s).1 = .ok o → (a'.run schedule' t' b s').1 = .ok o' →
          o.votes.Perm o'.votes ∧ o.SameDecision o') ∧
    (((ids.mapIdx cast).filter hasSay).Perm ((ids'.mapIdx cast').filter hasSay) →
        ((∃ o, (a.run schedule t b s).1 = .ok o) ↔ ∃ o', (a'.run schedule' t' b s').1 = .ok o') ∧
        ∀ o o', (a.run schedule t b s).1 = .ok o → (a'.run schedule' t' b s').1 = .ok o' →
          o.SameDecision o') ∧
    (List.Forall₂ MovesUp (ids.mapIdx cast) (ids'.mapIdx cast') →
      ∀ o o', (a.run schedule t b s).1 = .ok o → (a'.run schedule' t' b s').1 = .ok o' →
        (o.state = .validated → o'.state = .validated ∧ o'.summary.reduction = o.summary.reduction) ∧
        (o'.state.isErroneous = true → o.state.isErroneous = true))) := by
  have hblind : ((ids.mapIdx cast).filter hasSay).Perm ((ids'.mapIdx cast').filter hasSay) →
      ((∃ o, (a.run schedule t b s).1 = .ok o) ↔ ∃ o', (a'.run schedule' t' b s').1 = .ok o') ∧
      ∀ o o', (a.run schedule t b s).1 = .ok o → (a'.run schedule' t' b s').1 = .ok o' →
        o.SameDecision o' := by
    intro hperm
    refine ⟨?_, fun o o' ho ho' => ?_⟩
    · rw [C.exists_run_ok_iff, C'.exists_run_ok_iff]
      refine forall_congr' fun f => not_congr ?_
      rw [← error_mem_filter_iff, hperm.mem_iff, error_mem_filter_iff]
    · obtain ⟨votes, hvotes, rfl⟩ := (C.run_ok_iff schedule).mp ho
      obtain ⟨votes', hvotes', rfl⟩ := (C'.run_ok_iff schedule').mp ho'
      rw [hvotes, hvotes'] at hperm
      exact Outcome.sameDecision_of_tally (ofVotes_eq_of_perm hperm) _ _
  refine ⟨fun c hc hc' hids => ?_, hblind, fun hup o o' ho ho' => ?_⟩
  · have hperm : (ids.mapIdx cast).Perm (ids'.mapIdx cast') := by
      rw [mapIdx_eq_map hc, mapIdx_eq_map hc']
      exact hids.map c
    obtain ⟨hends, hsame⟩ := hblind (hperm.filter _)
    refine ⟨hends, fun o o' ho ho' => ⟨?_, hsame o o' ho ho'⟩⟩
    obtain ⟨votes, hvotes, rfl⟩ := (C.run_ok_iff schedule).mp ho
    obtain ⟨votes', hvotes', rfl⟩ := (C'.run_ok_iff schedule').mp ho'
    rw [hvotes, hvotes'] at hperm
    exact perm_of_map_ok hperm
  · obtain ⟨votes, hvotes, rfl⟩ := (C.run_ok_iff schedule).mp ho
    obtain ⟨votes', hvotes', rfl⟩ := (C'.run_ok_iff schedule').mp ho'
    rw [hvotes, hvotes'] at hup
    exact Outcome.validated_of_movesUp (forall₂_of_movesUp hup) _ _

/-- An audit of one benchmark by these validators, one after the other. -/
def panelAudit (ids : List Text) : Audit :=
  { pairAudit with
    validation := ⟨.seconds 120.0, 1⟩
    table := ⟨[(Letters.ofText "QF_LIA".toList, ids)]⟩ }

/-- Of two validators it is known what they vote: what the first one answers, and nothing. -/
theorem canvass_panelAudit (answer : Text) (N : ProperNames ids)
    (hids : ids ⊆ [Tool.z3.name, Tool.cvc5.name]) :
    (panelAudit ids).Canvass pairTranscript pairBenchmark
      (pairSession (headerResult ['1']) answer) ⟨1, "(check-sat)\n".toList⟩ ids
      fun _ id => (voteOf id (pairOutcome answer id)).1 := by
  have hname := isName_pairSession (headerResult ['1']) answer
  have hprinted : (headerResult ['1']).stdout = Reading.printed 0 1 [] "(check-sat)\n".toList := by
    rfl
  have hrebuilt := reconstruct_reports (panelAudit ids) pairTranscript pairBenchmark
    (s := pairSession (headerResult ['1']) answer) closed_empty hname rfl
    (Runner.run_scripted _ _ _ _) rfl hprinted (by decide)
  have S := scratch_marked pairTranscript pairBenchmark closed_empty hname
  have hpanel : (panelAudit ids).table.panel pairBenchmark = .ok ids :=
    LogicTable.panel_eq_ok_iff.mpr ⟨_, logic_pairBenchmark, by rfl⟩
  refine ⟨closed_empty, hname, by decide, by rw [hrebuilt], hpanel, ?_⟩
  rw [hrebuilt]
  generalize [Mark.call Tool.scrambler.name _] = marks
  obtain ⟨_, S'⟩ := (S marks).write isName_reducedName (by decide) []
    (Text.Utf8.encode "(check-sat)\n".toList)
  have A : Answers ids (pairOutcome answer) (polled pairBenchmark ⟨1, "(check-sat)\n".toList⟩
      ((pairSession (headerResult ['1']) answer).files.freeName
        (pairSession (headerResult ['1']) answer).host.scratchStem)
      ((prepared pairTranscript pairBenchmark
        (pairSession (headerResult ['1']) answer)).mark marks)) :=
    ⟨fun id hid => (answers_pair (headerResult ['1']) answer).runner id (hids hid),
      fun id hid => (answers_pair (headerResult ['1']) answer).fault id (hids hid)⟩
  exact (A.plays _ _ _).casts (makeable_scratch N S' _)

theorem run_panelAudit (answer : Text) (N : ProperNames ids)
    (hids : ids ⊆ [Tool.z3.name, Tool.cvc5.name]) :
    ((panelAudit ids).run [] pairTranscript pairBenchmark
      (pairSession (headerResult ['1']) answer)).1 =
        .ok ⟨pairBenchmark.assertCount, .checked ⟨1, "(check-sat)\n".toList⟩
          (ids.map fun id => ballot id (pairOutcome answer id))⟩ := by
  refine ((canvass_panelAudit answer N hids).run_ok_iff []).mpr ⟨_, ?_, rfl⟩
  have hcast : (ids.mapIdx fun _ id => (voteOf id (pairOutcome answer id)).1) =
      ids.map fun id => (voteOf id (pairOutcome answer id)).1 := mapIdx_eq_map fun _ _ => rfl
  rw [hcast, List.map_map]
  refine List.map_congr_left fun id hid => ?_
  exact voteOf_eq_ballot ((answers_pair (headerResult ['1']) answer).fault id (hids hid))

/-- The two validators in another order vote the same; without the one that has no say the decision
is the same; and a core that is accepted without any say stays accepted when one of them confirms
it. -/
theorem run_decides_panelAudit :
    (∃ o o', ((panelAudit [Tool.z3.name, Tool.cvc5.name]).run [] pairTranscript pairBenchmark
        (pairSession (headerResult ['1']) "unsat\n".toList)).1 = .ok o ∧
      ((panelAudit [Tool.cvc5.name, Tool.z3.name]).run [] pairTranscript pairBenchmark
        (pairSession (headerResult ['1']) "unsat\n".toList)).1 = .ok o' ∧
      o.votes.Perm o'.votes ∧ o.SameDecision o') ∧
    (∃ o o', ((panelAudit [Tool.z3.name, Tool.cvc5.name]).run [] pairTranscript pairBenchmark
        (pairSession (headerResult ['1']) "unsat\n".toList)).1 = .ok o ∧
      ((panelAudit [Tool.z3.name]).run [] pairTranscript pairBenchmark
        (pairSession (headerResult ['1']) "unsat\n".toList)).1 = .ok o' ∧ o.SameDecision o') ∧
    ∃ o o', ((panelAudit [Tool.z3.name, Tool.cvc5.name]).run [] pairTranscript pairBenchmark
        (pairSession (headerResult ['1']) "unknown\n".toList)).1 = .ok o ∧
      ((panelAudit [Tool.z3.name, Tool.cvc5.name]).run [] pairTranscript pairBenchmark
        (pairSession (headerResult ['1']) "unsat\n".toList)).1 = .ok o' ∧
      o.state = .validated ∧ o'.state = .validated ∧
      o'.summary.reduction = o.summary.reduction := by
  have N : ProperNames [Tool.z3.name, Tool.cvc5.name] := ⟨by decide, by decide⟩
  have N' : ProperNames [Tool.cvc5.name, Tool.z3.name] := ⟨by decide, by decide⟩
  have N'' : ProperNames [Tool.z3.name] := ⟨by decide, by decide⟩
  have hswapped : [Tool.cvc5.name, Tool.z3.name] ⊆ [Tool.z3.name, Tool.cvc5.name] := by simp
  have hsole : [Tool.z3.name] ⊆ [Tool.z3.name, Tool.cvc5.name] := by simp
  have C := fun answer => canvass_panelAudit answer N (List.Subset.refl _)
  have hrun := fun answer => run_panelAudit answer N (List.Subset.refl _)
  refine ⟨⟨_, _, hrun _, run_panelAudit _ N' hswapped, ?_⟩,
    ⟨_, _, hrun _, run_panelAudit _ N'' hsole, ?_⟩, ⟨_, _, hrun _, hrun _, ?_⟩⟩
  · have hdecides := run_decides [] [] (C "unsat\n".toList)
      (canvass_panelAudit "unsat\n".toList N' hswapped)
    exact (hdecides.1 _ (fun _ _ => rfl) (fun _ _ => rfl) (.swap _ _ _)).2 _ _ (hrun _)
      (run_panelAudit _ N' hswapped)
  · have hdecides := run_decides [] [] (C "unsat\n".toList)
      (canvass_panelAudit "unsat\n".toList N'' hsole)
    exact (hdecides.2.1 (List.Perm.of_eq (by rfl))).2 _ _ (hrun _) (run_panelAudit _ N'' hsole)
  · have hdecides := run_decides [] [] (C "unknown\n".toList) (C "unsat\n".toList)
    have hup : List.Forall₂ MovesUp
        ([Tool.z3.name, Tool.cvc5.name].mapIdx fun _ id =>
          (voteOf id (pairOutcome "unknown\n".toList id)).1)
        ([Tool.z3.name, Tool.cvc5.name].mapIdx fun _ id =>
          (voteOf id (pairOutcome "unsat\n".toList id)).1) := by
      refine .cons (fun v w hv hw => ?_) (.cons (fun v w hv hw => ?_) .nil) <;> cases hv <;> cases hw
      · decide
      · decide
    have hvalidated : ∀ n core, (Outcome.mk n (.checked core ([Tool.z3.name, Tool.cvc5.name].map
        fun id => ballot id (pairOutcome "unknown\n".toList id)))).state = .validated :=
      fun _ _ => rfl
    exact ⟨hvalidated _ _, (hdecides.2.2 hup _ _ (hrun _) (hrun _)).1 (hvalidated _ _)⟩

end Audit

end CoreAudit
