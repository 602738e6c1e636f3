import CoreAudit.Proofs.Audit.Checked
import CoreAudit.Proofs.Audit.Prepared
import CoreAudit.Proofs.Files.Subdivided
import CoreAudit.Proofs.Runner.Sight

/-!
# What the answers of the tools settle

What a tool answers is a function of what it sees, and what it sees in an audit is known beforehand:
the scrambler sees the files in which it is run (`rebuilt`), and a validator sees the reduced
benchmark and an empty directory of its own (`validatorSight`), whichever validators ran before it.
So the answers settle what an audit comes to (`settled`), under every schedule, also in a session in
which other audits have left scratch directories. What the audit does to the files it does in its
own scratch directory.

Headlines:
* **`sight_made`**: what a validator sees does not depend on the schedule.
* **`validate_settles`**, **`proceed_settles`**: the votes, and the stages after the scrambler.
* **`run_settles`**: the answers settle what an audit comes to, and which files it leaves.
-/

namespace CoreAudit

/-- A session that other audits leave: it has the same surroundings and tools, and no files are new
but scratch directories of these names. -/
structure Session.Past (s : Session) (names : List Text) (u : Session) : Prop where
  steady : s.Steady u
  kept : FileTree.Kept s.files s.host.scratchStem names u.files

namespace Session.Past

variable {s u : Session} {names : List Text}

theorem refl (h : s.files.Closed) : s.Past [] s := ⟨.refl s, .refl h _⟩

/-- The next scratch directory has one of the first numbers. -/
theorem exists_freeName (A : s.Past names u) :
    ∃ n ≤ s.files.entries.length + names.length,
      u.files.freeName u.host.scratchStem = s.host.scratchStem ++ Text.ofNat n := by
  rw [A.steady.host]
  exact A.kept.exists_freeName_eq

end Session.Past

namespace Audit

open Validation FileTree

/-- The validators that the table lists can be asked in a session: they have proper names, raise
only faults of input and output, and no word of theirs leads into a scratch directory. -/
structure Staffed (a : Audit) (s : Session) : Prop where
  proper : ∀ {logic ids}, a.table.validatorsFor logic = .ok ids → ProperNames ids
  docile : ∀ {logic ids}, a.table.validatorsFor logic = .ok ids → ∀ id ∈ ids, ∀ v u f,
    u.host = s.host → ((s.runnerOf id).run v u).1 = .error f → f.isInputOutput = true
  words : ∀ {logic ids}, a.table.validatorsFor logic = .ok ids → ∀ id ∈ ids,
    ∀ word ∈ (s.runnerOf id).words, s.files.Avoids s.host.scratchStem word

/-- A session in which audits can be made: every entry of its files lies in a directory, and paths
start from one. -/
structure Fit (s : Session) : Prop where
  closed : s.files.Closed
  here : s.files.get? s.here = some .directory

/-- What the validator at a place sees of a formula. -/
def validatorSight (a : Audit) (s : Session) (formula name : Text) (place : Nat) (id : Text) :
    Sight :=
  ⟨⟨some ⟨Path.join (pathOf [name]) reducedName, some (Text.Utf8.encode formula)⟩, [],
      some a.validation.timeout, none, some (directory (pathOf [name]) place id), true⟩,
    (s.runnerOf id).words.map (Named.ofTree s.files s.here), .ok none⟩

/-- The votes on a core. -/
def ballots (a : Audit) (s : Session) (core : UnsatCore) (name : Text) (ids : List Text) :
    List Vote :=
  ids.mapIdx fun place id =>
    ballot id ((s.runnerOf id).answer s.host (a.validatorSight s core.formula name place id))

/-- What an audit comes to after its reconstruction. -/
def settled (a : Audit) (s : Session) (b : Benchmark) (name : Text) :
    Except Fault (Option UnsatCore) → Except Fault Outcome
  | .error f => .error f
  | .ok none => .ok ⟨b.assertCount, .unparsable⟩
  | .ok (some core) => (a.table.panel b).map fun ids =>
    ⟨b.assertCount, .checked core (a.ballots s core name ids)⟩

/-- What the reconstruction of an unsat answer comes to. -/
def rebuilt (a : Audit) (t : Transcript) (b : Benchmark) (s : Session) :
    Except Fault (Option UnsatCore) :=
  match s.scramblerOf with
  | none => .error .noScrambler
  | some runner =>
    match runner.answer s.host
      (runner.sight (a.scramblerRequest b (pathOf s.scratch)) (prepared t b s)) with
    | .error f => .error f
    | .ok result => (Reconstruction.reading result).1

variable {a : Audit} {schedule : List Pool.Move} {t : Transcript} {b : Benchmark}
  {s u v w : Session} {core : UnsatCore} {name formula : Text} {names ids : List Text} {f : Fault}

/-! ## What validators see -/

/-- A session in which a core is about to be voted on: the formula is written in the scratch
directory. -/
structure Polling (s : Session) (names : List Text) (name formula : Text) (w : Session) : Prop
    extends s.Past (name :: names) w where
  scratch : w.files.Scratch name [reducedName, Reconstruction.coreName, benchmarkName]
  formula : w.files.get? [name, reducedName] = some (.file (Text.Utf8.encode formula) false)

theorem directory_ne_reduced {file : Text} (h : file ∈ ids.mapIdx directoryName) :
    [name, reducedName] ≠ [name] ++ [file] := by
  obtain ⟨i, hi, rfl⟩ := List.mem_mapIdx.mp h
  intro hsame
  refine directoryName_not_mem i ids[i] ?_
  rw [← (List.cons.inj (List.cons.inj hsame).2).1]
  exact List.mem_cons_self

/-- **What a validator sees is known beforehand**: the formula, and the directory that was made for
it, whichever others were made before. -/
theorem sight_made (F : Fit s) (T : a.Staffed s) {logic : Text}
    (hids : a.table.validatorsFor logic = .ok ids) (P : Polling s names name formula w) {i : Nat}
    {id : Text} (hid : ids[i]? = some id) (M : Midway.Made (pathOf [name]) ids w i id u) :
    (s.runnerOf id).sight (request a.validation.timeout
        (Path.join (pathOf [name]) reducedName) (pathOf [name]) i id).2 u =
      a.validatorSight s formula name i id := by
  obtain ⟨made, hmade, hfiles⟩ := M.made
  rw [directories_eq_map] at hmade
  have hfile : directoryName i id ∈ ids.mapIdx directoryName := by
    obtain ⟨hlt, hget⟩ := List.getElem?_eq_some_iff.mp hid
    exact List.mem_mapIdx.mpr ⟨i, hlt, by rw [hget]⟩
  have hall : ∀ p ∈ made ++ [directory (pathOf [name]) i id],
      p ∈ (ids.mapIdx directoryName).map (Path.join (pathOf [name])) := by
    intro p hp
    rcases List.mem_append.mp hp with hp | hp
    · exact hmade p hp
    · rw [List.mem_singleton.mp hp]
      exact List.mem_map.mpr ⟨_, hfile, rfl⟩
  have H := holds_scratch (T.proper hids) P.scratch w.here
  have hhere : u.here = w.here := M.here
  -- The formula is still there, and so is the directory that was made last.
  have hreduced : u.files.get? [name, reducedName] =
      some (.file (Text.Utf8.encode formula) false) := by
    rw [hfiles, H.get?_makePaths hall fun _ => directory_ne_reduced]
    exact P.formula
  have hdirectory : u.files.get? ([name] ++ [directoryName i id]) = some .directory := by
    have hlast := (H.makePaths hmade).get?_makePath hfile ([name] ++ [directoryName i id])
    rw [if_pos rfl] at hlast
    rw [hfiles, makePaths_append]
    exact hlast
  have H' := H.makePaths hall
  rw [← hfiles] at H'
  have hread := read_join H'.leads isName_reducedName
    (P.scratch.length_lt isName_reducedName) hreduced
  have hfind := find_join H'.leads (H'.isName _ hfile) (H'.length _ hfile)
  rw [hdirectory] at hfind
  -- What is made in the scratch directory is past the validator's own words.
  have K := P.kept.confined (H.confined P.scratch.isName hall)
  rw [← hfiles] at K
  have hown := Named.map_ofTree_kept K F.closed F.here (T.words hids id (List.mem_of_getElem? hid))
  have hsession : u.here = s.here := hhere.trans P.steady.here
  unfold Runner.sight validatorSight request Invocation.call
  dsimp only
  rw [hsession] at hhere ⊢
  rw [hown]
  have hexists : u.files.find s.here (directory (pathOf [name]) i id) =
      .ok ([name] ++ [directoryName i id], .directory) := by
    rw [hhere]
    exact hfind
  have hnamed : Named.ofTree u.files s.here (Path.join (pathOf [name]) reducedName) =
      ⟨Path.join (pathOf [name]) reducedName, some (Text.Utf8.encode formula)⟩ := by
    rw [Named.ofTree, hhere, hread]
    rfl
  rw [Option.map_some, hnamed, Option.any_some, hexists]
  rfl

/-! ## The votes -/

/-- **The vote at every place is the ballot of the answer there, whichever votes were cast before
it.** -/
theorem ballots_contract (F : Fit s) (T : a.Staffed s) {logic : Text}
    (hids : a.table.validatorsFor logic = .ok ids) (P : Polling s names name formula w) :
    Pool.Contract (a.validation.tasks (Path.join (pathOf [name]) reducedName) (pathOf [name]) ids)
      (fun _ => Midway (pathOf [name]) ids w)
      (fun i result => ∃ id, ids[i]? = some id ∧ result =
        .ok (ballot id ((s.runnerOf id).answer s.host (a.validatorSight s formula name i id)))) where
  records := fun _ M => M.mark _
  task := by
    intro started v i task htask _ M
    obtain ⟨id, hid, rfl⟩ := getElem?_tasks htask
    obtain ⟨result, x, hvote, M', hresult⟩ := M.vote hid a.validation
      (Path.join (pathOf [name]) reducedName)
    rw [hvote]
    refine ⟨⟨id, hid, ?_⟩, M'⟩
    rcases hresult with ⟨u, Mu, rfl⟩ | ⟨_, hmake⟩
    · have hhost : u.host = s.host := Mu.host.trans P.steady.host
      have hfault := T.docile hids id (List.mem_of_getElem? hid)
        (request a.validation.timeout (Path.join (pathOf [name]) reducedName) (pathOf [name]) i id).2
        u
      rw [P.steady.runnerOf id, voteOf_eq_ballot fun f => hfault f hhost, Runner.run_eq_answer,
        hhost, sight_made F T hids P hid Mu]
    · exact absurd (makeable_scratch (T.proper hids) P.scratch w.here) hmake

/-- **The votes are those that the answers come to**, under every schedule, and nothing is changed
but in the scratch directory. -/
theorem validate_settles (schedule : List Pool.Move) (F : Fit s) (T : a.Staffed s) {logic : Text}
    (hids : a.table.validatorsFor logic = .ok ids) (P : Polling s names name core.formula w) :
    ∃ x, a.validation.validate schedule (Path.join (pathOf [name]) reducedName) (pathOf [name]) ids
        w = (.ok (a.ballots s core name ids), x) ∧ Confined name w.files x.files := by
  have C := ballots_contract F T hids P
  have hprepare : ∀ u, (ids.forM fun id => discard (runnerFor id)) w = (.ok (), u) →
      Midway (pathOf [name]) ids w u := fun _ hu => (Midway.refl _ ids w).prepare ids hu
  obtain ⟨votes, u, hcollect⟩ := exists_collect_ok schedule C
    (fun _ _ ⟨_, _, h⟩ => nomatch h) (.refl _ ids w) hprepare
  obtain ⟨_, _, _, M, hlength, hvotes⟩ := collect_ok C (.refl _ ids w) hprepare hcollect
  have hballots : votes = a.ballots s core name ids := by
    refine List.ext_getElem? fun i => ?_
    rw [ballots, List.getElem?_mapIdx]
    rcases hi : votes[i]? with _ | vote
    · rw [List.getElem?_eq_none_iff, hlength, ← List.getElem?_eq_none_iff] at hi
      rw [hi]
      rfl
    · obtain ⟨id, hid, hvote⟩ := hvotes i vote hi
      rw [hid, Except.ok.inj hvote]
      rfl
  refine ⟨_, validate_eq_ok.mpr ⟨u, hballots ▸ hcollect, rfl⟩, ?_⟩
  obtain ⟨made, hmade, hfiles⟩ := M.files
  rw [directories_eq_map] at hmade
  show Confined name w.files u.files
  rw [hfiles]
  exact (holds_scratch (T.proper hids) P.scratch w.here).confined P.scratch.isName hmade

/-! ## After the reconstruction -/

/-- A session in which the scrambler has been run in its scratch directory. -/
structure Rebuilding (s : Session) (names : List Text) (name : Text) (v : Session) : Prop
    extends s.Past (name :: names) v where
  scratch : v.files.Scratch name [Reconstruction.coreName, benchmarkName]

/-- **The answers settle what comes after the reconstruction**, and nothing is changed but in the
scratch directory. -/
theorem proceed_settles (schedule : List Pool.Move) (b : Benchmark) (F : Fit s) (T : a.Staffed s)
    (R : Rebuilding s names name v) (reading : Except Fault (Option UnsatCore)) :
    ∃ x, a.proceed schedule b (pathOf [name]) reading v = (a.settled s b name reading, x) ∧
      Confined name v.files x.files := by
  have hsame := Confined.refl (R.scratch.leads v.here).directory
  rcases reading with f | _ | core
  · exact ⟨v, rfl, hsame⟩
  · exact ⟨v, rfl, hsame⟩
  rcases hpanel : a.table.panel b with f | ids
  · refine ⟨v.mark ((UnsatCore.reductionRecords b.assertCount core.size).map .record), ?_, hsame⟩
    rw [settled, hpanel]
    exact voteOn_of_unresolved (LogicTable.panel_eq_error_iff.mp hpanel)
  · obtain ⟨logic, _, hids⟩ := LogicTable.panel_eq_ok_iff.mp hpanel
    obtain ⟨hwrite, S⟩ := R.scratch.write isName_reducedName (by decide) v.here
      (Text.Utf8.encode core.formula)
    have hput : Confined name v.files
        (v.files.put [name, reducedName] (.file (Text.Utf8.encode core.formula) false)) :=
      R.scratch.confined (by decide) _
    let recorded := v.mark ((UnsatCore.reductionRecords b.assertCount core.size).map .record)
    have P : Polling s names name core.formula { recorded with
        files := v.files.put [name, reducedName] (.file (Text.Utf8.encode core.formula) false) } := by
      refine ⟨⟨R.steady.change _ _, R.kept.confined hput⟩, S, ?_⟩
      rw [get?_put v.files (List.cons_ne_nil _ _), if_pos rfl]
    obtain ⟨x, hvalidate, hconfined⟩ := validate_settles schedule F T hids P
    refine ⟨x, ?_, hput.trans hconfined⟩
    have hwritten : Act.writeFile (Path.join (pathOf [name]) reducedName) core.formula recorded =
        (.ok (), _) := Act.writeFile_run hwrite
    show a.voteOn schedule b core (pathOf [name]) v = _
    rw [voteOn_of_panel hpanel, Act.bind_of_ok hwritten, Act.bind_of_ok hvalidate, settled, hpanel]
    rfl

/-! ## A whole audit -/

/-- **The answer of the scrambler settles what the reconstruction comes to.** -/
theorem reconstruct_settles (a : Audit) (t : Transcript) (b : Benchmark) (A : s.Past names u)
    (hname : Path.IsName (u.files.freeName u.host.scratchStem)) :
    ∃ v, a.reconstruct t b (pathOf u.scratch) (opened t b u) = (a.rebuilt t b u, v) ∧
      Rebuilding s names (u.files.freeName u.host.scratchStem) v ∧
      v.files = (prepared t b u).files := by
  have hsteady := (A.steady.change (opened t b u).files (opened t b u).trace).trans
    (a.isSteady_reconstruct t b (pathOf u.scratch) (opened t b u))
  have hconfined := confined_prepared t b A.kept.closed hname
  have hfiles := a.files_reconstruct t b A.kept.closed hname
  have hrebuilt : (a.reconstruct t b (pathOf u.scratch) (opened t b u)).1 = a.rebuilt t b u := by
    rw [a.reconstruct_eq t b A.kept.closed hname]
    unfold rebuilt
    rcases u.scramblerOf with _ | runner
    · rfl
    · dsimp only
      have hhost : (prepared t b u).host = u.host := rfl
      have hanswer := runner.run_eq_answer (a.scramblerRequest b (pathOf u.scratch))
        (prepared t b u)
      rw [← hhost, ← hanswer]
      rcases runner.run (a.scramblerRequest b (pathOf u.scratch)) (prepared t b u) with
        ⟨f | result, x⟩ <;> rfl
  refine ⟨_, Prod.ext hrebuilt rfl, ⟨⟨hsteady, ?_⟩, ?_⟩, hfiles⟩
  · rw [hfiles]
    have hhost : u.host = s.host := A.steady.host
    rw [hhost] at hconfined ⊢
    exact A.kept.add hconfined
  · rw [hfiles]
    exact scratch_prepared t b A.kept.closed hname

/-- **The answers of the tools settle what the audit of an unsat answer comes to**, under every
schedule. It leaves the files as they were, with its scratch directory if that is kept. -/
theorem run_settles (schedule : List Pool.Move) (b : Benchmark) (F : Fit s) (T : a.Staffed s)
    (A : s.Past names u) (hname : Path.IsName (u.files.freeName u.host.scratchStem))
    (hstatus : t.status = .unsat) :
    ∃ x, a.run schedule t b u =
        (a.settled s b (u.files.freeName u.host.scratchStem) (a.rebuilt t b u), x) ∧
      (a.keepsScratch = false → x.files = u.files) ∧
      (a.keepsScratch = true → s.Past (u.files.freeName u.host.scratchStem :: names) x) := by
  obtain ⟨v, hrebuilt, R, hfiles⟩ := reconstruct_settles a t b A hname
  have hconfined := confined_prepared t b A.kept.closed hname
  rw [← hfiles] at hconfined
  obtain ⟨x, hproceed, hconfined'⟩ := proceed_settles schedule b F T R (a.rebuilt t b u)
  have hmade := removeTree_make A.kept.closed (u.files.get?_freeName u.host.scratchStem)
  have hsteady := A.steady.trans (a.isSteady_run schedule t b u)
  have hrun : a.run schedule t b u = _ := run_eq_proceed hstatus
  rw [hrebuilt, Act.ensuring_run (a.leave_eq_ok u.scratch _)] at hrun
  unfold Session.scratch at hrun
  rw [hproceed] at hrun
  refine ⟨_, hrun, fun hgone => ?_, fun hkept => ?_⟩
  · rw [files_leave, hgone, if_neg Bool.false_ne_true, (hconfined.trans hconfined').outside, hmade]
  · rw [hrun] at hsteady
    refine ⟨hsteady, ?_⟩
    rw [files_leave, hkept, if_pos rfl]
    exact R.kept.confined hconfined'

end Audit

end CoreAudit
