import CoreAudit.Proofs.Audit.Fatal
import CoreAudit.Proofs.Audit.Settled
import CoreAudit.Proofs.Growth
import CoreAudit.Proofs.Validation.Beside

/-!
# Audits of a benchmark in memory and in a file

The scrambler is fed the file of a benchmark, where a benchmark in memory is first written to the
scratch directory. The tools do not see the difference: the scrambler is called alike but for the
path of the file that it is fed (`call_prepared`), and from then on the scratch directories differ
in nothing but the copy of the benchmark, which the directories of all validators have to bypass
(`SparesCopy`).

Headlines:
* **`reconstruct_beside`**: both reconstructions come to the same, from the same call.
* **`proceed_beside`**: what comes after them comes to the same, if the facts are the same.
* **`run_beside`**: the scrambler is called alike, and the audits come to the same.
-/

namespace CoreAudit

/-- The call with another path to the file that is fed, which holds the same. -/
def Call.fedFrom (path : Text) (c : Call) : Call :=
  { c with stdin := c.stdin.map fun fed => ⟨path, fed.content⟩ }

/-- The scrambler is fed the script, and told of the file with the transcript. -/
structure Call.Shows (script transcript : Text) (c : Call) : Prop where
  stdin : c.stdin.bind Named.content = some (Text.Utf8.encode script)
  core : c.args.getLast?.bind Named.content = some (Text.Utf8.encode transcript)

/-- The call of a mark, whatever its label is. -/
def Mark.called? : Mark → Option Call
  | call _ c => some c
  | _ => none

/-- The first call of a runner with answers given in advance between two sessions. -/
def Session.firstCall? (s t : Session) : Option Call :=
  (t.trace.drop s.trace.length).findSome? Mark.called?

/-- Where the scratch directory has the copy of a benchmark in memory. -/
def Session.copy (s : Session) : Location := s.scratch ++ [Audit.benchmarkName]

namespace Audit

open Validation FileTree

/-- The tools have answers given in advance, and the scrambler's do not depend on the path of the
file that it is fed. -/
structure Rehearsed (a : Audit) (s : Session) : Prop where
  scrambler : ∀ runner, s.scramblerOf = some runner → ∃ label reply,
    runner = .scripted label reply ∧ ∀ path c, reply (Call.fedFrom path c) = reply c
  validator : ∀ row ∈ a.table.rows, ∀ id ∈ row.2, ∃ label reply,
    s.toolbox.validators.get? id = some (.scripted label reply)

/-- The directories of all listed validators bypass the copy of a benchmark in memory. -/
def SparesCopy (a : Audit) (s : Session) : Prop :=
  ∀ row ∈ a.table.rows, ∀ place id, row.2[place]? = some id →
    Bypasses s.copy s.here (directory (pathOf s.scratch) place id)

/-- All validators of a table. -/
def listed (a : Audit) : List Text := a.table.rows.flatMap Prod.snd

variable {a : Audit} {schedule : List Pool.Move} {t : Transcript} {b b' : Benchmark}
  {s v v' : Session} {path : Text} {before before' : List Mark}

/-! ## Paths that bypass the copy -/

theorem not_isPrefix_copy (F : Fit s) : ¬ s.copy <+: s.here := by
  rintro ⟨rest, hrest⟩
  have hhere := F.here
  have hin : s.here = s.files.freeName s.host.scratchStem :: benchmarkName :: rest := hrest.symm
  rw [hin, F.closed.free (s.files.get?_freeName s.host.scratchStem)] at hhere
  cases hhere

theorem into_benchmarkName_not_mem {p : Text} (h : 'b' ∉ p) :
    .into benchmarkName ∉ Path.course p := fun hmem =>
  h (Text.mem_of_mem_splitAt (Path.mem_splitAt_of_into_mem hmem)
    (by decide : 'b' ∈ benchmarkName))

section Bypasses

variable {here : Location} (N : Path.IsSimple (s.files.freeName s.host.scratchStem))
include N

/-- The path of the scratch directory bypasses the copy, -/
theorem bypasses_scratch : Bypasses s.copy here (pathOf s.scratch) := by
  unfold Bypasses Session.scratch
  rw [course_pathOf N]
  intro hmem
  rcases List.mem_cons.mp hmem with h | h
  · cases h
  · cases List.mem_singleton.mp h

/-- and so do all paths under it, but for those into the copy's name. -/
theorem bypasses_join {p : Text} (h : Path.isAbsolute p = false)
    (hp : .into benchmarkName ∉ Path.course p) :
    Bypasses s.copy here (Path.join (pathOf s.scratch) p) := by
  have hunder : ¬ s.scratch ++ [benchmarkName] <+: s.scratch := fun h => by
    have hlength := h.length_le
    rw [List.length_append] at hlength
    exact absurd hlength (Nat.not_succ_le_self _)
  unfold Bypasses Session.scratch
  rw [origin_join_pathOf N h, course_join_pathOf N h, way, List.mem_cons, not_or]
  exact ⟨List.cons_ne_nil _ _, not_mem_way_of_into_not_mem hp hunder⟩

/-- So it is by the directory of a validator, unless the name of the validator leads there. -/
theorem bypasses_directory (place : Nat) {id : Text}
    (h : benchmarkName ∉ (Text.splitAt '/' id).tail) :
    Bypasses s.copy here (directory (pathOf s.scratch) place id) := by
  have hdigits : '/' ∉ Text.ofNat place ++ ['-'] := by
    intro hmem
    rcases List.mem_append.mp hmem with hmem | hmem
    · exact Text.not_mem_ofInt (by decide) (by decide) (Int.ofNat place) hmem
    · exact absurd hmem (by decide)
  have hname : directoryName place id = (Text.ofNat place ++ ['-']) ++ id := by
    rw [List.append_assoc]
    rfl
  refine bypasses_join N (isAbsolute_directoryName place id) fun hmem => ?_
  have hpiece := Path.mem_splitAt_of_into_mem hmem
  rw [hname, Text.splitAt_append_of_not_mem hdigits] at hpiece
  rcases List.mem_cons.mp hpiece with hfirst | htail
  · have hdash : '-' ∈ benchmarkName := by
      rw [hfirst]
      exact List.mem_append_left _ (List.mem_append_right _ List.mem_cons_self)
    exact absurd hdash (by decide)
  · exact h htail

/-- **Names without slashes spare the copy**, as do all that do not lead through its name. -/
theorem sparesCopy_of_not_mem
    (h : ∀ row ∈ a.table.rows, ∀ id ∈ row.2, benchmarkName ∉ (Text.splitAt '/' id).tail) :
    a.SparesCopy s := fun row hrow place id hid =>
  bypasses_directory N place (h row hrow id (List.mem_of_getElem? hid))

/-- All words that the scrambler is given bypass it. -/
theorem bypasses_arguments (F : Fit s) (a : Audit) :
    ∀ word ∈ a.reconstruction.arguments (Path.join (pathOf s.scratch) Reconstruction.coreName),
      Bypasses s.copy s.here word := by
  have hword : ∀ {word : Text}, 'b' ∉ word → Bypasses s.copy s.here word := fun h =>
    bypasses_of_into_not_mem (into_benchmarkName_not_mem h) (not_isPrefix_copy F)
  have hseed : 'b' ∉ Text.ofInt a.reconstruction.seed :=
    Text.not_mem_ofInt (by decide) (by decide) _
  unfold Reconstruction.arguments
  intro word hmem
  simp only [List.mem_cons, List.not_mem_nil, or_false] at hmem
  rcases hmem with rfl | rfl | rfl | rfl | rfl | rfl
  · exact hword (by decide)
  · exact hword hseed
  · exact hword (by decide)
  · exact hword (by decide)
  · exact hword (by decide)
  · exact bypasses_join N (by decide) (by decide)

end Bypasses

/-- When the scrambler is run, the sessions differ only in the copy of the benchmark in memory. -/
theorem beside_prepared (T : a.Rehearsed s) (t : Transcript) (hpath : b.path = none)
    (hpath' : b'.path = some path) :
    Session.Beside s.copy s.here a.listed (prepared t b s).trace (prepared t b' s).trace
      (prepared t b s) (prepared t b' s) := by
  have hfiles : (prepared t b s).files.Beside s.copy (prepared t b' s).files := by
    intro l hl
    unfold prepared Reconstruction.ready withBenchmark
    rw [hpath, hpath']
    dsimp only
    rw [get?_put _ (List.cons_ne_nil _ _), get?_put _ (List.cons_ne_nil _ _),
      get?_put _ (List.cons_ne_nil _ _)]
    split
    · rfl
    · exact (if_neg hl).symm
  refine ⟨rfl, hfiles, rfl, ⟨[], (List.append_nil _).symm, (List.append_nil _).symm⟩, ?_⟩
  intro id hid
  obtain ⟨row, hrow, hid⟩ := List.mem_flatMap.mp hid
  exact T.validator row hrow id hid

/-- The benchmark in memory and the transcript are read where they were written. -/
theorem read_prepared (F : Fit s) (hname : Path.IsName (s.files.freeName s.host.scratchStem))
    (t : Transcript) (hpath : b.path = none) :
    (prepared t b s).files.read s.here (Path.join (pathOf s.scratch) benchmarkName) =
        .ok (Text.Utf8.encode b.text) ∧
      (prepared t b s).files.read s.here (Path.join (pathOf s.scratch) Reconstruction.coreName) =
        .ok (Text.Utf8.encode t.text) := by
  have S := scratch_prepared t b F.closed hname
  have hbenchmark : (prepared t b s).files.get?
      ([s.files.freeName s.host.scratchStem] ++ [benchmarkName]) =
        some (.file (Text.Utf8.encode b.text) false) := by
    have hne : ∀ name : Text, [name] ++ [benchmarkName] ≠ [name, Reconstruction.coreName] :=
      fun name h => absurd (List.cons.inj (List.cons.inj h).2).1 (by decide)
    unfold prepared Reconstruction.ready withBenchmark
    rw [hpath]
    dsimp only
    rw [get?_put _ (List.cons_ne_nil _ _), if_neg (hne _)]
    exact (get?_put _ (List.cons_ne_nil _ _) _ _).trans (if_pos rfl)
  have hcore : (prepared t b s).files.get?
      ([s.files.freeName s.host.scratchStem] ++ [Reconstruction.coreName]) =
        some (.file (Text.Utf8.encode t.text) false) := by
    unfold prepared Reconstruction.ready
    exact (get?_put _ (List.cons_ne_nil _ _) _ _).trans (if_pos rfl)
  exact ⟨read_join (S.leads s.here) isName_benchmarkName (S.length_lt isName_benchmarkName)
      hbenchmark,
    read_join (S.leads s.here) isName_coreName (S.length_lt isName_coreName) hcore⟩

/-- **The scrambler is called alike**, but for the path of the benchmark's file: it is fed the same
script, and told of the same transcript. -/
theorem call_prepared (F : Fit s) (T : a.Rehearsed s)
    (hname : Path.IsName (s.files.freeName s.host.scratchStem)) (t : Transcript)
    (hpath : b.path = none) (hpath' : b'.path = some path)
    (hread : s.files.read s.here path = .ok (Text.Utf8.encode b.text)) :
    (a.scramblerRequest b' (pathOf s.scratch)).call (prepared t b' s) =
        ((a.scramblerRequest b (pathOf s.scratch)).call (prepared t b s)).fedFrom path ∧
      ((a.scramblerRequest b (pathOf s.scratch)).call (prepared t b s)).Shows b.text t.text := by
  have B := beside_prepared T t hpath hpath'
  obtain ⟨hbenchmark, hcore⟩ := read_prepared F hname t hpath
  have hfile : (prepared t b' s).files.read s.here path = .ok (Text.Utf8.encode b.text) :=
    read_kept F.closed (s.files.get?_freeName s.host.scratchStem)
      (confined_prepared t b' F.closed hname) hread
  have hargs :
      (a.reconstruction.arguments (Path.join (pathOf s.scratch) Reconstruction.coreName)).map
          (Named.ofTree (prepared t b' s).files s.here) =
        (a.reconstruction.arguments (Path.join (pathOf s.scratch) Reconstruction.coreName)).map
          (Named.ofTree (prepared t b s).files s.here) :=
    List.map_congr_left fun word hword =>
      B.named (bypasses_arguments hname.isSimple F a word hword)
  have hdir : (prepared t b' s).files.find s.here (pathOf s.scratch) =
      (prepared t b s).files.find s.here (pathOf s.scratch) :=
    B.find (bypasses_scratch hname.isSimple)
  have hbenchmarkPath : benchmarkPath b (pathOf s.scratch) =
      Path.join (pathOf s.scratch) benchmarkName := by rw [benchmarkPath, hpath]; rfl
  have hbenchmarkPath' : benchmarkPath b' (pathOf s.scratch) = path := by
    rw [benchmarkPath, hpath']
    rfl
  have hhere : ∀ c, (prepared t c s).here = s.here := fun _ => rfl
  unfold scramblerRequest Invocation.call Call.fedFrom
  dsimp only
  rw [hhere, hhere, hargs, hbenchmarkPath, hbenchmarkPath', Option.any_some, Option.any_some, hdir,
    Option.map_some, Option.map_some, Option.map_some]
  unfold Named.ofTree
  rw [hbenchmark, hfile]
  refine ⟨rfl, rfl, ?_⟩
  show (some (Named.mk _ ((prepared t b s).files.read s.here _).toOption)).bind _ = _
  rw [hcore]
  rfl

/-! ## Reconstructions -/

/-- Reconstructions of a core have come to the same in two sessions, which differ in nothing since
but the copy of the benchmark. What happened before ended with the call of the scrambler, if there
is one. -/
structure Twins (a : Audit) (s : Session) (path script transcript : Text) (heard heard' : List Mark)
    (v v' : Session) : Prop where
  beside : Session.Beside s.copy s.here a.listed (s.trace ++ heard) (s.trace ++ heard') v v'
  scratch : v.files.Scratch (s.files.freeName s.host.scratchStem)
    [Reconstruction.coreName, benchmarkName]
  scratch' : v'.files.Scratch (s.files.freeName s.host.scratchStem)
    [Reconstruction.coreName, benchmarkName]
  call : s.scramblerOf ≠ none → ∃ c, c.Shows script transcript ∧
    heard.findSome? Mark.called? = some c ∧ heard'.findSome? Mark.called? = some (c.fedFrom path)

theorem findSome?_called_records (rs : List LogRecord) (label : Text) (c : Call) :
    (rs.map Mark.record ++ [Mark.call label c]).findSome? Mark.called? = some c := by
  induction rs with
  | nil => rfl
  | cons r rs ih => exact ih

/-- **Both reconstructions come to the same**, from the same call. -/
theorem reconstruct_beside (F : Fit s) (T : a.Rehearsed s)
    (hname : Path.IsName (s.files.freeName s.host.scratchStem)) (t : Transcript)
    (hpath : b.path = none) (hpath' : b'.path = some path)
    (hread : s.files.read s.here path = .ok (Text.Utf8.encode b.text)) :
    ∃ rebuilt v v' heard heard',
      a.reconstruct t b (pathOf s.scratch) (opened t b s) = (rebuilt, v) ∧
      a.reconstruct t b' (pathOf s.scratch) (opened t b' s) = (rebuilt, v') ∧
      Twins a s path b.text t.text heard heard' v v' := by
  have B := beside_prepared T t hpath hpath'
  have S := scratch_prepared t b F.closed hname
  have S' := scratch_prepared t b' F.closed hname
  obtain ⟨hcall, hshows⟩ := call_prepared F T hname t hpath hpath' hread
  rw [a.reconstruct_eq t b F.closed hname, a.reconstruct_eq t b' F.closed hname]
  rcases hscrambler : s.scramblerOf with _ | runner
  · exact ⟨_, _, _, _, _, rfl, rfl, B, S, S', fun h => absurd hscrambler h⟩
  obtain ⟨label, reply, rfl, hblind⟩ := T.scrambler runner hscrambler
  dsimp only
  rw [Runner.run_scripted, Runner.run_scripted, hcall, hblind]
  generalize (a.scramblerRequest b (pathOf s.scratch)).call (prepared t b s) = c at hshows
  have B' := B.mark_apart [.call label c] [.call label (c.fedFrom path)]
  have hfirst : s.scramblerOf ≠ none → ∃ c', c'.Shows b.text t.text ∧
      ((b.records ++ [openingRecord t b]).map Mark.record ++
        [Mark.call label c]).findSome? Mark.called? = some c' ∧
      ((b'.records ++ [openingRecord t b']).map Mark.record ++
        [Mark.call label (c.fedFrom path)]).findSome? Mark.called? = some (c'.fedFrom path) :=
    fun _ => ⟨c, hshows, findSome?_called_records _ label c, findSome?_called_records _ label _⟩
  have htrace : ∀ d : Benchmark, (prepared t d s).trace =
      s.trace ++ (d.records ++ [openingRecord t d]).map Mark.record := fun _ => rfl
  rw [htrace b, htrace b', List.append_assoc, List.append_assoc] at B'
  rcases reply c with f | result
  · exact ⟨_, _, _, _, _, rfl, rfl, B', S, S', hfirst⟩
  · exact ⟨_, _, _, _, _, rfl, rfl, B'.mark _, S, S', hfirst⟩

/-! ## Votes -/

/-- With the same facts two benchmarks have the same validators, or none for the same kind of
reason. -/
theorem panel_of_facts (h : b'.facts = b.facts) :
    (∃ ids, a.table.panel b = .ok ids ∧ a.table.panel b' = .ok ids) ∨
      ∃ f f', a.table.Unresolved b f ∧ a.table.Unresolved b' f' ∧ f'.className = f.className := by
  have hlogic : ∀ c : Benchmark, c.logic = c.facts.logic.elim (.error (.missingLogic
      (if (c.path.getD []).isEmpty then "benchmark".toList else c.path.getD []))) .ok := by
    intro c
    unfold Benchmark.logic
    rcases c.facts.logic <;> rfl
  have hb := hlogic b
  have hb' := hlogic b'
  rw [h] at hb'
  rcases hdeclared : b.facts.logic with _ | logic <;> rw [hdeclared] at hb hb'
  · exact Or.inr ⟨_, _, Or.inl hb, Or.inl hb', rfl⟩
  · rcases hids : a.table.validatorsFor logic with f | ids
    · exact Or.inr ⟨f, f, Or.inr ⟨logic, hb, hids⟩, Or.inr ⟨logic, hb', hids⟩, rfl⟩
    · exact Or.inl ⟨ids, LogicTable.panel_eq_ok_iff.mpr ⟨logic, hb, hids⟩,
        LogicTable.panel_eq_ok_iff.mpr ⟨logic, hb', hids⟩⟩

section Votes

variable {written : List Text} {ids : List Text} {core : UnsatCore}
  (N : Path.IsName (s.files.freeName s.host.scratchStem)) (A : a.SparesCopy s)
  (S : v.files.Scratch (s.files.freeName s.host.scratchStem) written)
  (S' : v'.files.Scratch (s.files.freeName s.host.scratchStem) written)
  (hfree : reducedName ∉ written)
  (B : Session.Beside s.copy s.here a.listed before before' v v')
include N A S S' hfree B

/-- **A core is voted on alike by the same validators.** -/
theorem voteOn_beside (schedule : List Pool.Move) (hids : a.table.panel b = .ok ids)
    (hids' : a.table.panel b' = .ok ids) (hcount : b'.assertCount = b.assertCount) :
    (a.voteOn schedule b' core (pathOf s.scratch) v').1 =
        (a.voteOn schedule b core (pathOf s.scratch) v).1 ∧
      Session.Beside s.copy s.here a.listed before before'
        (a.voteOn schedule b core (pathOf s.scratch) v).2
        (a.voteOn schedule b' core (pathOf s.scratch) v').2 := by
  obtain ⟨logic, _, hlisted⟩ := LogicTable.panel_eq_ok_iff.mp hids
  obtain ⟨row, hrow, rfl⟩ := LogicTable.exists_row_of_validatorsFor hlisted
  have hreduced : Bypasses s.copy s.here (Path.join (pathOf s.scratch) reducedName) :=
    bypasses_join N.isSimple (by decide) (by decide)
  have hvoters : row.2 ⊆ a.listed := fun id hid => List.mem_flatMap.mpr ⟨row, hrow, hid⟩
  have hvotes : Act.Agrees (Session.Beside s.copy s.here a.listed before before')
      (a.validation.validate schedule (Path.join (pathOf s.scratch) reducedName)
        (pathOf s.scratch) row.2) :=
    agrees_validate a.validation schedule hvoters hreduced (A row hrow)
  let marks := (UnsatCore.reductionRecords b.assertCount core.size).map Mark.record
  have hwrite : ∀ {u : Session},
      u.files.Scratch (s.files.freeName s.host.scratchStem) written →
        Act.writeFile (Path.join (pathOf s.scratch) reducedName) core.formula (u.mark marks) =
          (.ok (), { u.mark marks with
            files := u.files.put [s.files.freeName s.host.scratchStem, reducedName]
              (.file (Text.Utf8.encode core.formula) false) }) :=
    fun S => Act.writeFile_run (S.write isName_reducedName hfree _ _).1
  rw [voteOn_of_panel hids, voteOn_of_panel hids', hcount, Act.bind_of_ok (hwrite S),
    Act.bind_of_ok (hwrite S')]
  exact hvotes.bind (fun votes => Act.agrees_pure _) _ _
    ((B.mark marks).change (B.files.put (List.cons_ne_nil _ _) _))

/-- **What comes after the reconstructions comes to the same**, if the benchmarks have the same
facts. Faults that name the benchmark are of the same class. -/
theorem proceed_beside (schedule : List Pool.Move) (hfacts : b'.facts = b.facts)
    (rebuilt : Except Fault (Option UnsatCore)) :
    (a.proceed schedule b' (pathOf s.scratch) rebuilt v').1.mapError Fault.className =
      (a.proceed schedule b (pathOf s.scratch) rebuilt v).1.mapError Fault.className := by
  have hcount : b'.assertCount = b.assertCount := congrArg Benchmark.Facts.assertCount hfacts
  rcases rebuilt with f | _ | core
  · rfl
  · show (Except.ok (⟨b'.assertCount, _⟩ : Outcome) : Except Text Outcome) = _
    rw [hcount]
    rfl
  · show (a.voteOn schedule b' core _ v').1.mapError _ = (a.voteOn schedule b core _ v).1.mapError _
    rcases panel_of_facts (a := a) hfacts with ⟨ids, hids, hids'⟩ | ⟨f, f', hf, hf', hclass⟩
    · rw [(voteOn_beside N A S S' hfree B schedule hids hids' hcount).1]
    · rw [voteOn_of_unresolved hf, voteOn_of_unresolved hf']
      exact congrArg Except.error hclass

end Votes

/-! ## Audits -/

/-- The first call of an audit is the first one up to the end of its reconstruction. -/
theorem firstCall?_run {heard : List Mark} {c : Call} {rebuilt : Except Fault (Option UnsatCore)}
    (schedule : List Pool.Move) (hstatus : t.status = .unsat)
    (hrebuilt : a.reconstruct t b (pathOf s.scratch) (opened t b s) = (rebuilt, v))
    (hheard : s.trace ++ heard <+: v.trace) (hfirst : heard.findSome? Mark.called? = some c) :
    s.firstCall? (a.run schedule t b s).2 = some c := by
  have hproceed : Act.Grows (a.proceed schedule b (pathOf s.scratch) rebuilt) := by
    rcases rebuilt with f | _ | core
    · exact fun _ => List.prefix_rfl
    · exact fun _ => List.prefix_rfl
    · exact a.grows_voteOn schedule b core _
  have hleave := a.grows_leave s.scratch (a.proceed schedule b (pathOf s.scratch) rebuilt v).2
  obtain ⟨marks, htrace⟩ := hheard.trans ((hproceed v).trans hleave)
  rw [run_eq_proceed hstatus, hrebuilt, Act.ensuring_run (a.leave_eq_ok s.scratch _)]
  dsimp only
  rw [Session.firstCall?, ← htrace, List.append_assoc, List.drop_left, List.findSome?_append,
    hfirst]
  rfl

/-- **An audit of a benchmark in memory and one of a benchmark in a file call the scrambler alike**,
and come to the same if the benchmarks have the same facts and the directories of all validators
bypass the copy. -/
theorem run_beside (schedule : List Pool.Move) (F : Fit s) (T : a.Rehearsed s)
    (hname : Path.IsName (s.files.freeName s.host.scratchStem)) (t : Transcript)
    (hpath : b.path = none) (hpath' : b'.path = some path)
    (hread : s.files.read s.here path = .ok (Text.Utf8.encode b.text)) :
    (t.status = .unsat → s.scramblerOf ≠ none → ∃ c, c.Shows b.text t.text ∧
      s.firstCall? (a.run schedule t b s).2 = some c ∧
      s.firstCall? (a.run schedule t b' s).2 = some (c.fedFrom path)) ∧
    (b'.facts = b.facts → a.SparesCopy s →
      (a.run schedule t b' s).1.mapError Fault.className =
        (a.run schedule t b s).1.mapError Fault.className) := by
  by_cases hstatus : t.status = .unsat
  · obtain ⟨rebuilt, v, v', heard, heard', hmemory, hfile, W⟩ :=
      reconstruct_beside F T hname t hpath hpath' hread
    have hfree : reducedName ∉ [Reconstruction.coreName, benchmarkName] := by decide
    refine ⟨fun _ hscrambler => ?_, fun hfacts A => ?_⟩
    · obtain ⟨c, hshows, hfirst, hfirst'⟩ := W.call hscrambler
      obtain ⟨since, htrace, htrace'⟩ := W.beside.since
      exact ⟨c, hshows, firstCall?_run schedule hstatus hmemory ⟨since, htrace.symm⟩ hfirst,
        firstCall?_run schedule hstatus hfile ⟨since, htrace'.symm⟩ hfirst'⟩
    · rw [run_eq_proceed hstatus, run_eq_proceed hstatus, hmemory, hfile,
        Act.ensuring_run (a.leave_eq_ok s.scratch _), Act.ensuring_run (a.leave_eq_ok s.scratch _)]
      exact proceed_beside hname A W.scratch W.scratch' hfree W.beside schedule hfacts rebuilt
  · refine ⟨fun h => absurd h hstatus, fun hfacts _ => ?_⟩
    have hcount : b'.assertCount = b.assertCount := congrArg Benchmark.Facts.assertCount hfacts
    unfold run
    rw [Act.bind_of_ok (Act.records_run _ s), Act.bind_of_ok (Act.records_run _ s), hcount]
    rcases hother : t.status with _ | _ | _
    · rfl
    · exact absurd hother hstatus
    · rfl

end Audit

end CoreAudit
