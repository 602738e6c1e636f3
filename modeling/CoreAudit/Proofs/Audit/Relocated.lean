import CoreAudit.Proofs.Audit.Gating
import CoreAudit.Proofs.Audit.Settled

/-!
# Audits in other scratch directories

Where scratch directories are kept, each audit of a session works in one of another name. Discreet
tools do not notice: what they see is the same but for the name (`moved_scrambler`,
`moved_validator`), so that they answer the same. Where scratch directories are removed, an audit
finds the very files that the one before it found, and nothing has to be asked of the tools.

`Apart` says that a session is one that such audits left. Whatever was audited before, an audit of
two files comes to what it comes to alone.

Headlines:
* **`runFiles_alone`**: an audit after others comes to what it comes to alone.
* **`runPair_alone`**: so does the audit of a pair, which again leaves such a session.
-/

namespace CoreAudit

namespace FileTree

theorem join_pathOf {name file : Text} (N : Path.IsName name) (N' : Path.IsPiece file) :
    Path.join (pathOf [name]) file = pathOf [name, file] := by
  have L := leads_scratch .empty [] N
  rw [Path.join_eq L.nonempty L.unclosed N']
  simp [pathOf, Text.joined]

end FileTree

namespace Audit

open Validation FileTree

/-- Where scratch directories are kept, the tools do not notice in which of them they are run, and
no path of the pairs and no word of the scrambler's leads into one. -/
structure Discreet (a : Audit) (pairs : List (List Text)) (s : Session) : Prop where
  paths : ∀ pair ∈ pairs, ∀ path ∈ pair, s.files.Avoids s.host.scratchStem path
  words : ∀ runner, s.scramblerOf = some runner →
    ∀ word ∈ a.reconstruction.arguments [] ++ runner.words,
      s.files.Avoids s.host.scratchStem word
  scrambler : ∀ runner, s.scramblerOf = some runner → runner.IsDiscreet s.host
  validator : ∀ {logic ids}, a.table.validatorsFor logic = .ok ids → ∀ id ∈ ids,
    (s.runnerOf id).IsDiscreet s.host

/-- A session that other audits of the same kind leave: with their scratch directories, if these are
kept, else with the same files. -/
structure Apart (a : Audit) (s : Session) (names : List Text) (u : Session) : Prop
    extends s.Past names u where
  gone : a.keepsScratch = false → u.files = s.files

variable {a : Audit} {schedule alone : List Pool.Move} {t : Transcript} {b : Benchmark}
  {s u : Session} {name name' formula path : Text} {names ids : List Text}
  {pairs : List (List Text)}

/-! ## What is seen in another scratch directory -/

/-- A validator sees the same in another scratch directory, but for its name. -/
theorem moved_validator (N : Path.IsName name) (N' : Path.IsName name') (P : ProperNames ids)
    {i : Nat} {id : Text} (hid : ids[i]? = some id) :
    (a.validatorSight s formula name i id).Moved name name'
      (a.validatorSight s formula name' i id) := by
  have hplain := P.plain id (List.mem_of_getElem? hid)
  have hpiece : Path.IsPiece (directoryName i id) := isPiece_directoryName hplain.1 hplain.2
  have hreduced := isName_reducedName.toIsPiece
  unfold validatorSight directory
  rw [join_pathOf N hreduced, join_pathOf N' hreduced, join_pathOf N hpiece,
    join_pathOf N' hpiece]
  exact ⟨.some ⟨.under [reducedName], rfl⟩, .nil, rfl, .none, .some (.under [_]), rfl, rfl, rfl⟩

/-- What the scrambler sees of a benchmark's file and a transcript. -/
def scramblerSight (a : Audit) (s : Session) (t : Transcript) (path name : Text)
    (runner : Runner) : Sight :=
  ⟨⟨none, (a.reconstruction.arguments []).dropLast.map (Named.ofTree s.files s.here) ++
        [⟨Path.join (pathOf [name]) Reconstruction.coreName, some (Text.Utf8.encode t.text)⟩],
      some a.reconstruction.timeout, some (Named.ofTree s.files s.here path),
      some (pathOf [name]), true⟩,
    runner.words.map (Named.ofTree s.files s.here), Executable.fed (some path) s⟩

/-- What the scrambler sees is known beforehand, whatever was audited before. -/
theorem sight_prepared (F : Fit s) (D : a.Discreet pairs s) (A : s.Past names u)
    (hname : Path.IsName (u.files.freeName u.host.scratchStem)) (t : Transcript)
    (hpath : b.path = some path) (havoids : s.files.Avoids s.host.scratchStem path)
    {runner : Runner} (hrunner : s.scramblerOf = some runner) :
    runner.sight (a.scramblerRequest b (pathOf u.scratch)) (prepared t b u) =
      a.scramblerSight s t path (u.files.freeName u.host.scratchStem) runner := by
  have S := scratch_prepared t b A.kept.closed hname
  have K : Kept s.files s.host.scratchStem (u.files.freeName u.host.scratchStem :: names)
      (prepared t b u).files := by
    have hhost : u.host = s.host := A.steady.host
    have hconfined := confined_prepared t b A.kept.closed hname
    rw [hhost] at hconfined ⊢
    exact A.kept.add hconfined
  have hcore : (prepared t b u).files.get?
      ([u.files.freeName u.host.scratchStem] ++ [Reconstruction.coreName]) =
        some (.file (Text.Utf8.encode t.text) false) := by
    unfold prepared Reconstruction.ready
    exact (get?_put _ (List.cons_ne_nil _ _) _ _).trans (if_pos rfl)
  have hhere : (prepared t b u).here = s.here := A.steady.here
  unfold Runner.sight scramblerSight scramblerRequest benchmarkPath Invocation.call Session.scratch
  generalize prepared t b u = v at S K hcore hhere
  generalize u.files.freeName u.host.scratchStem = name at S K hcore
  have hread := read_join (S.leads s.here) isName_coreName (S.length_lt isName_coreName) hcore
  have hfind := (S.leads s.here).find (length_dir_lt (S.length_lt isName_coreName))
  have hwords : ∀ word ∈ (a.reconstruction.arguments []).dropLast,
      s.files.Avoids s.host.scratchStem word := fun word hword =>
    D.words runner hrunner word (List.mem_append_left _ (List.dropLast_subset _ hword))
  have hown : ∀ word ∈ runner.words, s.files.Avoids s.host.scratchStem word := fun word hword =>
    D.words runner hrunner word (List.mem_append_right _ hword)
  have hfed : Executable.fed (some path) v = Executable.fed (some path) s :=
    Executable.fed_congr (by rw [hhere]; exact K.read F.closed F.here havoids)
  have harguments : a.reconstruction.arguments (Path.join (pathOf [name]) Reconstruction.coreName) =
      (a.reconstruction.arguments []).dropLast ++
        [Path.join (pathOf [name]) Reconstruction.coreName] := rfl
  have hnamed : Named.ofTree v.files s.here (Path.join (pathOf [name]) Reconstruction.coreName) =
      ⟨Path.join (pathOf [name]) Reconstruction.coreName, some (Text.Utf8.encode t.text)⟩ := by
    rw [Named.ofTree, hread]
    rfl
  rw [hpath, Option.getD_some, harguments]
  dsimp only
  rw [hhere, hfed, List.map_append, List.map_singleton, hnamed,
    Named.map_ofTree_kept K F.closed F.here hwords, Named.map_ofTree_kept K F.closed F.here hown,
    Option.map_none, Option.map_some, Named.ofTree_kept K F.closed F.here havoids,
    Option.any_some, hfind]

/-- The scrambler sees the same in another scratch directory, but for its name. -/
theorem moved_scrambler (N : Path.IsName name) (N' : Path.IsName name') (t : Transcript)
    (runner : Runner) :
    (a.scramblerSight s t path name runner).Moved name name'
      (a.scramblerSight s t path name' runner) := by
  have hcore := isName_coreName.toIsPiece
  have hsame : ∀ x : Named, Named.Moved name name' x x := fun x => ⟨.same x.word, rfl⟩
  unfold scramblerSight
  rw [join_pathOf N hcore, join_pathOf N' hcore]
  refine ⟨.none, ?_, rfl, .some (hsame _), .some (.under []), rfl, rfl, rfl⟩
  refine List.rel_append (List.forall₂_same.mpr fun x _ => hsame x) ?_
  exact .cons ⟨.under [Reconstruction.coreName], rfl⟩ .nil

/-! ## Outcomes in another scratch directory -/

/-- **The reconstruction comes to what it comes to alone.** -/
theorem rebuilt_alone (F : Fit s) (A : a.Apart s names u)
    (hname : ∀ n ≤ s.files.entries.length + names.length,
      Path.IsName (s.host.scratchStem ++ Text.ofNat n))
    (D : a.keepsScratch = true → a.Discreet pairs s) (t : Transcript) (hpath : b.path = some path)
    (havoids : a.keepsScratch = true → s.files.Avoids s.host.scratchStem path) :
    a.rebuilt t b u = a.rebuilt t b s := by
  unfold rebuilt
  rw [A.steady.scramblerOf]
  rcases hrunner : s.scramblerOf with _ | runner
  · rfl
  have hanswer : runner.answer u.host
      (runner.sight (a.scramblerRequest b (pathOf u.scratch)) (prepared t b u)) =
      runner.answer s.host
        (runner.sight (a.scramblerRequest b (pathOf s.scratch)) (prepared t b s)) := by
    have hhost := A.steady.host
    cases hkeeps : a.keepsScratch with
    | false =>
      have hfiles := A.gone hkeeps
      have hscratch : u.scratch = s.scratch := by
        unfold Session.scratch
        rw [hfiles, hhost]
      have hprepared : (prepared t b u).files = (prepared t b s).files := by
        unfold prepared Reconstruction.ready opened
        dsimp only
        rw [hscratch, hfiles, hhost]
      rw [hhost, hscratch, runner.sight_congr _ hprepared A.steady.here]
    | true =>
      obtain ⟨m, hm, hnumber⟩ := A.exists_freeName
      obtain ⟨n, hn, hnumber'⟩ := (Session.Past.refl F.closed).exists_freeName
      have N := hname m hm
      have N' := hname n (Nat.le_trans hn (Nat.le_add_right _ _))
      rw [sight_prepared F (D hkeeps) A.toPast (hnumber ▸ N) t hpath (havoids hkeeps) hrunner,
        sight_prepared F (D hkeeps) (.refl F.closed) (hnumber' ▸ N') t hpath (havoids hkeeps)
          hrunner, hnumber, hnumber', hhost]
      exact (D hkeeps).scrambler runner hrunner n m _ _ (moved_scrambler N' N t runner)
  dsimp only
  rw [hanswer]

/-- Discreet validators settle the same in another scratch directory. -/
theorem settled_moved (T : a.Staffed s) (D : a.Discreet pairs s) {m n : Nat}
    (N : Path.IsName (s.host.scratchStem ++ Text.ofNat m))
    (N' : Path.IsName (s.host.scratchStem ++ Text.ofNat n)) (b : Benchmark)
    (reading : Except Fault (Option UnsatCore)) :
    a.settled s b (s.host.scratchStem ++ Text.ofNat n) reading =
      a.settled s b (s.host.scratchStem ++ Text.ofNat m) reading := by
  rcases reading with f | _ | core
  · rfl
  · rfl
  unfold settled
  rcases hpanel : a.table.panel b with f | ids
  · rfl
  obtain ⟨logic, _, hids⟩ := LogicTable.panel_eq_ok_iff.mp hpanel
  have hballots : a.ballots s core (s.host.scratchStem ++ Text.ofNat n) ids =
      a.ballots s core (s.host.scratchStem ++ Text.ofNat m) ids := by
    refine List.ext_getElem? fun i => ?_
    rw [ballots, ballots, List.getElem?_mapIdx, List.getElem?_mapIdx]
    rcases hid : ids[i]? with _ | id
    · rfl
    · rw [Option.map_some, Option.map_some, D.validator hids id (List.mem_of_getElem? hid) m n _ _
        (moved_validator N N' (T.proper hids) hid)]
  exact congrArg (fun votes => Except.ok (⟨b.assertCount, .checked core votes⟩ : Outcome)) hballots

/-! ## Audits after others -/

/-- What an audit reads it reads as it would alone. -/
theorem read_alone (F : Fit s) (A : a.Apart s names u)
    (havoids : a.keepsScratch = true → s.files.Avoids s.host.scratchStem path) :
    u.files.read u.here path = s.files.read s.here path := by
  rw [A.steady.here]
  cases hkeeps : a.keepsScratch with
  | false => rw [A.gone hkeeps]
  | true => exact A.kept.read F.closed F.here (havoids hkeeps)

section After

variable (F : Fit s) (T : a.Staffed s) (A : a.Apart s names u)
  (hname : ∀ n ≤ s.files.entries.length + names.length,
    Path.IsName (s.host.scratchStem ++ Text.ofNat n))
  (D : a.keepsScratch = true → a.Discreet pairs s)
include F T A hname D

/-- **An audit after others comes to what it comes to alone**, and leaves such a session. -/
theorem run_alone (schedule alone : List Pool.Move) (t : Transcript) (hpath : b.path = some path)
    (havoids : a.keepsScratch = true → s.files.Avoids s.host.scratchStem path) :
    (a.run schedule t b u).1 = (a.run alone t b s).1 ∧
      ∃ names', names'.length ≤ names.length + 1 ∧ a.Apart s names' (a.run schedule t b u).2 := by
  by_cases hstatus : t.status = .unsat
  · obtain ⟨m, hm, hnumber⟩ := A.exists_freeName
    obtain ⟨n, hn, hnumber'⟩ := (Session.Past.refl F.closed).exists_freeName
    have N := hname m hm
    have N' := hname n (Nat.le_trans hn (Nat.le_add_right _ _))
    obtain ⟨x, hrun, hgone, hkept⟩ :=
      run_settles schedule b F T A.toPast (hnumber ▸ N) hstatus
    obtain ⟨_, hrun', _⟩ :=
      run_settles alone b F T (.refl F.closed) (hnumber' ▸ N') hstatus
    have hsteady := A.steady.trans (a.isSteady_run schedule t b u)
    rw [hrun] at hsteady ⊢
    rw [hrun', rebuilt_alone F A hname D t hpath havoids]
    cases hkeeps : a.keepsScratch with
    | false =>
      have hfiles := A.gone hkeeps
      rw [hfiles, A.steady.host]
      refine ⟨rfl, names, Nat.le_succ _, ⟨hsteady, ?_⟩, fun _ => (hgone hkeeps).trans hfiles⟩
      rw [hgone hkeeps]
      exact A.kept
    | true =>
      rw [hnumber] at hkept ⊢
      rw [hnumber']
      refine ⟨settled_moved T (D hkeeps) N' N b _, _, Nat.le_refl _, hkept hkeeps, fun hgone => ?_⟩
      rw [hkeeps] at hgone
      cases hgone
  · obtain ⟨o, ho⟩ := exists_run_of_not_unsat b hstatus
    rw [ho, ho]
    exact ⟨rfl, names, Nat.le_succ _, ⟨A.steady.change _ _, A.kept⟩, A.gone⟩

/-- **The audit of two files after other audits comes to what it comes to alone**, and leaves such a
session. -/
theorem runFiles_alone (schedule alone : List Pool.Move) {transcript benchmark : Text}
    (havoids : a.keepsScratch = true → s.files.Avoids s.host.scratchStem transcript ∧
      s.files.Avoids s.host.scratchStem benchmark) :
    (a.runFiles schedule transcript benchmark u).1 =
        (a.runFiles alone transcript benchmark s).1 ∧
      ∃ names', names'.length ≤ names.length + 1 ∧
        a.Apart s names' (a.runFiles schedule transcript benchmark u).2 := by
  have hsame : ∃ names', names'.length ≤ names.length + 1 ∧ a.Apart s names' u :=
    ⟨names, Nat.le_succ _, A⟩
  rw [runFiles_run, runFiles_run, read_alone F A fun h => (havoids h).1]
  rcases s.files.read s.here transcript with problem | bytes
  · exact ⟨rfl, hsame⟩
  dsimp only
  rw [read_alone F A fun h => (havoids h).2]
  rcases s.files.read s.here benchmark with problem | bytes'
  · exact ⟨rfl, hsame⟩
  · exact run_alone F T A hname D schedule alone (Transcript.ofBytes bytes) rfl
      fun h => (havoids h).2

/-- **The audit of a pair after other audits comes to what it comes to alone**, whatever is wrong
with the pair, and leaves such a session. -/
theorem runPair_alone (schedule alone : List Pool.Move) {pair : List Text} (hpair : pair ∈ pairs) :
    (a.runPair schedule pair u).1 = (a.runPair alone pair s).1 ∧
      ∃ names', names'.length ≤ names.length + 1 ∧
        a.Apart s names' (a.runPair schedule pair u).2 := by
  unfold runPair
  split
  · rename_i transcript benchmark
    rw [Act.map_run, Act.map_run]
    obtain ⟨hsame, hend⟩ := runFiles_alone F T A hname D schedule alone fun h =>
      ⟨(D h).paths _ hpair transcript List.mem_cons_self,
        (D h).paths _ hpair benchmark (List.mem_cons_of_mem _ List.mem_cons_self)⟩
    rw [hsame]
    exact ⟨rfl, hend⟩
  · exact ⟨rfl, names, Nat.le_succ _, A⟩

end After

end Audit

end CoreAudit
