import CoreAudit.Proofs.Audit.Relocated
import Mathlib.Data.List.Perm.Subperm

/-!
# Batches of audits are isolated

The pairs of a batch are audited by the workers of a pool, which share a session: the runners that
are known, and the files. None of them notices the others. Whatever the schedules are and whatever
is wrong with other pairs, the result at a place is that of its pair audited alone.

This needs what the tools do to stay in the scratch directory of their audit. A validator with a
slash in its name can have its directory made elsewhere, and then another pair may read it
(`exists_pair_changed`).

Headlines:
* **`isolates_contract`**: one more pair comes to what it comes to alone, whichever were audited
  before.
* **`runMany_isolated`**: so do all pairs of a batch, in their order.
* **`exists_pair_changed`**: a validator's name that leads elsewhere breaks this.
-/

namespace CoreAudit.Audit

open Validation FileTree

variable {a : Audit} {s : Session} {pairs : List (List Text)}

/-- What is known of the session of a batch after some pairs were audited: it is one that audits of
the same kind leave, with no more scratch directories than pairs. -/
structure After (a : Audit) (pairs : List (List Text)) (s : Session) (started : List Nat)
    (u : Session) : Prop where
  nodup : started.Nodup
  bound : ∀ i ∈ started, i < pairs.length
  apart : ∃ names, names.length ≤ started.length ∧ a.Apart s names u

theorem length_le_of_bound {places : List Nat} {n : Nat} (hnodup : places.Nodup)
    (hbound : ∀ i ∈ places, i < n) : places.length ≤ n := by
  have hsubset : places ⊆ List.range n := fun i hi => List.mem_range.mpr (hbound i hi)
  have hlength := (List.subperm_of_subset hnodup hsubset).length_le
  rw [List.length_range] at hlength
  exact hlength

/-- **One more pair comes to what it comes to alone**, whichever pairs were audited before it and
whatever they came to. -/
theorem isolates_contract (validators : Nat → List Pool.Move) (F : Fit s) (T : a.Staffed s)
    (hname : ∀ n ≤ s.files.entries.length + pairs.length,
      Path.IsName (s.host.scratchStem ++ Text.ofNat n))
    (D : a.keepsScratch = true → a.Discreet pairs s) :
    Pool.Contract (pairs.mapIdx fun place pair => a.runPair (validators place) pair)
      (a.After pairs s)
      (fun i result => ∃ pair, pairs[i]? = some pair ∧
        ∀ (alone : List Pool.Move) (fresh : Session), s.Steady fresh → fresh.files = s.files →
          result = (a.runPair alone pair fresh).1) where
  records := by
    intro started u rs h
    obtain ⟨names, hlength, A⟩ := h.apart
    exact ⟨h.nodup, h.bound, names, hlength, ⟨⟨A.steady.change _ _, A.kept⟩, A.gone⟩⟩
  task := by
    intro started u i task htask hnew h
    rw [List.getElem?_mapIdx, Option.map_eq_some_iff] at htask
    obtain ⟨pair, hpair, rfl⟩ := htask
    have hmem := List.mem_of_getElem? hpair
    obtain ⟨names, hlength, A⟩ := h.apart
    have hstarted := length_le_of_bound h.nodup h.bound
    have hname' : ∀ n ≤ s.files.entries.length + names.length,
        Path.IsName (s.host.scratchStem ++ Text.ofNat n) :=
      fun n hn => hname n (by omega)
    obtain ⟨hsame, names', hlength', A'⟩ :=
      runPair_alone F T A hname' D (validators i) [] hmem
    refine ⟨⟨pair, hpair, fun alone fresh hsteady hfiles => ?_⟩, ?_, ?_, names', ?_, A'⟩
    · have hkept : Kept s.files s.host.scratchStem [] fresh.files := by
        rw [hfiles]
        exact .refl F.closed _
      have B : a.Apart s [] fresh := ⟨⟨hsteady, hkept⟩, fun _ => hfiles⟩
      have hfirst : ∀ n ≤ s.files.entries.length + ([] : List Text).length,
          Path.IsName (s.host.scratchStem ++ Text.ofNat n) :=
        fun n hn => hname n (Nat.le_trans hn (Nat.add_le_add_left (Nat.zero_le _) _))
      rw [hsame, (runPair_alone F T B hfirst D alone [] hmem).1]
    · rw [List.nodup_append]
      refine ⟨h.nodup, List.pairwise_singleton _ i, fun j hj k hk => ?_⟩
      rw [List.mem_singleton] at hk
      rintro rfl
      exact hnew (hk ▸ hj)
    · intro j hj
      rcases List.mem_append.mp hj with hj | hj
      · exact h.bound j hj
      · rw [List.mem_singleton.mp hj]
        exact (List.getElem?_eq_some_iff.mp hpair).1
    · rw [List.length_append, List.length_singleton]
      omega

/-- The answer of a solver and a benchmark, in files. -/
def shelfFiles : FileTree :=
  (FileTree.empty.put ["unsat.txt".toList]
      (.file (Text.Utf8.encode "unsat\n(goal)\n".toList) false)).put
    ["b.smt2".toList] (.file (Text.Utf8.encode pairBenchmark.text) false)

theorem closed_shelfFiles : shelfFiles.Closed := by
  have hfirst : (FileTree.empty.put ([] ++ ["unsat.txt".toList])
      (.file (Text.Utf8.encode "unsat\n(goal)\n".toList) false)).Closed :=
    closed_empty.put rfl (Or.inr (by decide))
  have hsecond : (FileTree.put _ ([] ++ ["b.smt2".toList])
      (.file (Text.Utf8.encode pairBenchmark.text) false)).Closed :=
    hfirst.put rfl (Or.inr (by decide))
  exact hsecond

/-- The audit by two validators, with its scratch directories kept. -/
def shelfAudit : Audit := { pairAudit with keepsScratch := true }

/-- A session with the files, the scrambler and the two validators. -/
def shelfSession : Session :=
  { pairSession (headerResult ['1']) "unsat\n".toList with files := shelfFiles }

/-- A pair that can be audited, one with a file that is missing, and one without a benchmark. -/
def shelfPairs : List (List Text) :=
  [["unsat.txt".toList, "b.smt2".toList], ["missing.txt".toList, "b.smt2".toList],
    ["unsat.txt".toList]]

theorem fit_shelfSession : Fit shelfSession := ⟨closed_shelfFiles, rfl⟩

theorem of_validatorsFor_shelf {logic : Text} {ids : List Text}
    (h : shelfAudit.table.validatorsFor logic = .ok ids) : ids = [Tool.z3.name, Tool.cvc5.name] := by
  obtain ⟨row, hrow, rfl⟩ := LogicTable.exists_row_of_validatorsFor h
  rw [List.mem_singleton.mp hrow]

theorem runnerOf_shelf {id : Text} (hid : id ∈ [Tool.z3.name, Tool.cvc5.name]) :
    shelfSession.runnerOf id = .scripted id fun _ => pairOutcome "unsat\n".toList id := by
  simp only [List.mem_cons, List.not_mem_nil, or_false] at hid
  rcases hid with rfl | rfl <;> rfl

theorem staffed_shelf : shelfAudit.Staffed shelfSession where
  proper := by
    intro logic ids h
    rw [of_validatorsFor_shelf h]
    exact ⟨by decide, by decide⟩
  docile := by
    intro logic ids h id hid v u f _ hf
    rw [of_validatorsFor_shelf h] at hid
    rw [runnerOf_shelf hid, Runner.run_scripted] at hf
    exact (answers_pair (headerResult ['1']) "unsat\n".toList).fault id hid f hf
  words := by
    intro logic ids h id hid word hword
    rw [of_validatorsFor_shelf h] at hid
    rw [runnerOf_shelf hid] at hword
    cases hword

/-- A path avoids scratch directories if none of its names starts as theirs do. -/
theorem avoids_of_all {t : FileTree} {stem p : Text}
    (h : (Path.steps p).all (fun
      | .into name => !stem.isPrefixOf name
      | _ => true) = true) : t.Avoids stem p := by
  rintro name ⟨_, n, rfl⟩ hmem
  have hname := List.all_eq_true.mp h _ hmem
  have hstarts : stem.isPrefixOf (stem ++ Text.ofNat n) = true := by
    rw [List.isPrefixOf_iff_prefix]
    exact List.prefix_append _ _
  dsimp only at hname
  rw [hstarts] at hname
  cases hname

theorem isDiscreet_scripted (label : Text) (outcome : Except Fault RunResult) (host : Host) :
    (Runner.scripted label fun _ => outcome).IsDiscreet host := fun _ _ _ _ _ => rfl

theorem discreet_shelf : shelfAudit.Discreet shelfPairs shelfSession where
  paths := by
    have hall : ∀ pair ∈ shelfPairs, ∀ path ∈ pair, (Path.steps path).all (fun
        | .into name => !shelfSession.host.scratchStem.isPrefixOf name
        | _ => true) = true := by decide
    exact fun pair hpair path hpath => avoids_of_all (hall pair hpair path hpath)
  words := by
    intro runner hrunner word hword
    cases hrunner
    have hall : ∀ word ∈ shelfAudit.reconstruction.arguments [], (Path.steps word).all (fun
        | .into name => !shelfSession.host.scratchStem.isPrefixOf name
        | _ => true) = true := by decide
    have hwords : shelfAudit.reconstruction.arguments [] ++ [] =
        shelfAudit.reconstruction.arguments [] := List.append_nil _
    exact avoids_of_all (hall word (hwords ▸ hword))
  scrambler := by
    intro runner hrunner
    cases hrunner
    exact isDiscreet_scripted _ _ _
  validator := by
    intro logic ids h id hid
    rw [of_validatorsFor_shelf h] at hid
    rw [runnerOf_shelf hid]
    exact isDiscreet_scripted _ _ _

theorem isName_shelf : ∀ n ≤ shelfSession.files.entries.length + shelfPairs.length,
    Path.IsName (shelfSession.host.scratchStem ++ Text.ofNat n) := by
  have hall : ∀ n < 6, "audit".toList ++ Text.ofNat n ≠ [] ∧
      "audit".toList ++ Text.ofNat n ≠ ['.'] ∧ "audit".toList ++ Text.ofNat n ≠ ['.', '.'] ∧
      '/' ∉ "audit".toList ++ Text.ofNat n ∧ '\x00' ∉ "audit".toList ++ Text.ofNat n ∧
      Path.isTooLong ("audit".toList ++ Text.ofNat n) = false := by decide
  intro n hn
  obtain ⟨h₁, h₂, h₃, h₄, h₅, h₆⟩ := hall n (Nat.lt_succ_of_le hn)
  exact ⟨⟨h₁, h₂, h₃, h₄, h₅⟩, h₆⟩

/-- The name of a validator that leads from its directory to the root. -/
def strayName : Text := "x/../../stray".toList

/-- An audit by that validator. -/
def strayAudit : Audit :=
  { pairAudit with table := ⟨[(Letters.ofText "QF_LIA".toList, [strayName])]⟩ }

/-- A run that accepts the core. -/
def strayOutcome : Except Fault RunResult := .ok ⟨"unsat\n".toList, 0.5, some 0, false⟩

/-- A session with the files, the scrambler and that validator. -/
def straySession : Session :=
  .fresh shelfFiles ⟨some (.scripted Tool.scrambler.name fun _ => .ok (headerResult ['1'])),
    [(strayName, .scripted strayName fun _ => strayOutcome)]⟩

/-- A pair that can be audited, and one with a file that is missing. -/
def strayPairs : List (List Text) :=
  [["unsat.txt".toList, "b.smt2".toList], ["/stray".toList, "b.smt2".toList]]

/-- The answer of the solver, and the benchmark. -/
def strayTranscript : Transcript := .ofBytes (Text.Utf8.encode "unsat\n(goal)\n".toList)

@[inherit_doc strayTranscript]
def strayBenchmark : Benchmark :=
  .ofBytes "b.smt2".toList (Text.Utf8.encode pairBenchmark.text)

theorem panel_stray : strayAudit.table.panel strayBenchmark = .ok [strayName] := by
  have hlogic : strayBenchmark.logic = .ok "QF_LIA".toList := by
    have htext : strayBenchmark.text = pairBenchmark.text := by decide +kernel
    unfold Benchmark.logic Benchmark.facts
    rw [htext, Script.commands_eq_scanner]
    rfl
  exact LogicTable.panel_eq_ok_iff.mpr ⟨_, hlogic, rfl⟩

/-- The files when the validator votes. -/
def strayFiles : FileTree :=
  (prepared strayTranscript strayBenchmark straySession).files.put ["audit0".toList, reducedName]
    (.file (Text.Utf8.encode "(check-sat)\n".toList) false)

/-- The directory of the validator is made at the root, and is left there. -/
theorem makePath_stray :
    (strayFiles.makePath [] (directory (pathOf ["audit0".toList]) 0 strayName)).2 = none ∧
      ((strayFiles.makePath [] (directory (pathOf ["audit0".toList]) 0 strayName)).1.removeTree
        ["audit0".toList]).get? ["stray".toList] = some .directory := by
  decide +kernel

/-- The vote of the validator, in a session in which it can be cast. -/
theorem validate_stray {w : Session} (hfiles : w.files = strayFiles) (hhere : w.here = [])
    (hrunner : w.toolbox.validators.get? strayName =
      some (.scripted strayName fun _ => strayOutcome)) (formula : Text) :
    ∃ votes x, strayAudit.validation.validate [] formula (pathOf ["audit0".toList]) [strayName] w =
        (.ok votes, x) ∧ x.here = [] ∧
      x.files = (strayFiles.makePath [] (directory (pathOf ["audit0".toList]) 0 strayName)).1 := by
  obtain ⟨x, hvote, _, hhere', hfiles', _⟩ := vote_run strayAudit.validation formula hrunner
    (fun f hf => nomatch hf) (by rw [hfiles, hhere]; exact makePath_stray.1)
  rw [hfiles, hhere] at hfiles'
  have hcollect : strayAudit.validation.collect [] formula (pathOf ["audit0".toList]) [strayName] w =
      (.ok [ballot strayName strayOutcome], x) := by
    have hsole : [strayName].length ≤ 1 := Nat.le_refl _
    unfold collect
    rw [if_pos (Or.inr hsole)]
    show (do
      let vote ← strayAudit.validation.vote formula
        (directory (pathOf ["audit0".toList]) 0 strayName) strayName
      let votes ← ([] : List (Act Vote)).mapM id
      pure (vote :: votes) : Act (List Vote)) w = _
    rw [Act.bind_of_ok hvote]
    rfl
  exact ⟨_, _, validate_eq_ok.mpr ⟨x, hcollect, rfl⟩, hhere'.trans hhere, hfiles'⟩

/-- The core is accepted, in a session in which it was just rebuilt. -/
theorem voteOn_stray {v : Session} (R : Rebuilding straySession [] "audit0".toList v)
    (hfiles : v.files = (prepared strayTranscript strayBenchmark straySession).files)
    (hvalidators : v.toolbox.validators = straySession.toolbox.validators) :
    ∃ o x, strayAudit.voteOn [] strayBenchmark ⟨1, "(check-sat)\n".toList⟩
        (pathOf ["audit0".toList]) v = (.ok o, x) ∧ x.here = [] ∧
      x.files = (strayFiles.makePath [] (directory (pathOf ["audit0".toList]) 0 strayName)).1 := by
  let recorded := v.mark ((UnsatCore.reductionRecords strayBenchmark.assertCount 1).map .record)
  have hwritten : Act.writeFile (Path.join (pathOf ["audit0".toList]) reducedName)
      "(check-sat)\n".toList recorded = (.ok (), { recorded with files := strayFiles }) := by
    obtain ⟨hwrite, _⟩ := R.scratch.write isName_reducedName (by decide) v.here
      (Text.Utf8.encode "(check-sat)\n".toList)
    rw [hfiles] at hwrite
    refine Act.writeFile_run ?_
    show v.files.write v.here _ _ = _
    rw [hfiles]
    exact hwrite
  have hrunner : recorded.toolbox.validators.get? strayName =
      some (.scripted strayName fun _ => strayOutcome) := by
    show v.toolbox.validators.get? strayName = _
    rw [hvalidators]
    rfl
  obtain ⟨votes, x, hvalidate, hend⟩ := validate_stray
    (w := { recorded with files := strayFiles }) rfl R.steady.here hrunner
    (Path.join (pathOf ["audit0".toList]) reducedName)
  refine ⟨⟨strayBenchmark.assertCount, .checked ⟨1, "(check-sat)\n".toList⟩ votes⟩, x, ?_, hend⟩
  rw [voteOn_of_panel panel_stray]
  exact (Act.bind_of_ok hwritten).trans (Act.bind_of_ok hvalidate)

/-- The first pair is audited, and then there is a directory that was not there before. -/
theorem runPair_stray : ∃ report u,
    strayAudit.runPair [] ["unsat.txt".toList, "b.smt2".toList] straySession = (.ok report, u) ∧
      u.here = [] ∧ u.files.get? ["stray".toList] = some .directory := by
  have hstatus : strayTranscript.status = .unsat := by decide +kernel
  have hname : Path.IsName "audit0".toList :=
    ⟨⟨by decide, by decide, by decide, by decide, by decide⟩, by decide⟩
  have hscratch : straySession.scratch = ["audit0".toList] := by decide +kernel
  have hfree : straySession.files.freeName straySession.host.scratchStem = "audit0".toList :=
    (List.cons.inj hscratch).1
  obtain ⟨v, hrebuilt, R, hfiles⟩ := reconstruct_settles strayAudit strayTranscript strayBenchmark
    (.refl closed_shelfFiles) (hfree.symm ▸ hname)
  have hcore : strayAudit.rebuilt strayTranscript strayBenchmark straySession =
      .ok (some ⟨1, "(check-sat)\n".toList⟩) := by rfl
  rw [hcore] at hrebuilt
  rw [hfree] at R
  obtain ⟨o, x, hvote, hhere, hend⟩ := voteOn_stray R hfiles (Rebuilds.validators hrebuilt)
  have hproceed : strayAudit.proceed [] strayBenchmark (pathOf ["audit0".toList])
      (.ok (some ⟨1, "(check-sat)\n".toList⟩)) v = (.ok o, x) := hvote
  have hrun : strayAudit.run [] strayTranscript strayBenchmark straySession = _ :=
    run_eq_proceed hstatus
  rw [hrebuilt, hscratch, Act.ensuring_run (strayAudit.leave_eq_ok _ _), hproceed] at hrun
  have hread : strayAudit.runFiles [] "unsat.txt".toList "b.smt2".toList straySession =
      strayAudit.run [] strayTranscript strayBenchmark straySession := by
    rw [runFiles_run]
    rfl
  refine ⟨o.report, { x with files := x.files.removeTree ["audit0".toList] }, ?_, hhere, ?_⟩
  · show (Outcome.report <$> strayAudit.runFiles [] _ _) straySession = _
    rw [Act.map_run, hread, hrun]
    rfl
  · show (x.files.removeTree ["audit0".toList]).get? ["stray".toList] = _
    rw [hend]
    exact makePath_stray.2

/-- A path to a directory cannot be read. -/
theorem runPair_directory {u : Session} (hhere : u.here = [])
    (hdirectory : u.files.get? ["stray".toList] = some .directory) :
    (strayAudit.runPair [] ["/stray".toList, "b.smt2".toList] u).1 =
      .error (.file .isDirectory (some "/stray".toList)) := by
  have hfind : u.files.find [] "/stray".toList = .ok (["stray".toList], .directory) := by
    have hsteps : Path.steps "/stray".toList = [.into "stray".toList] := by decide
    have hflaw : flaw? "/stray".toList = none := by decide
    have hshort : Path.isTooLong "stray".toList = false := by decide
    have hroot : u.files.get? [] = some .directory := rfl
    have horigin : origin [] "/stray".toList = [] := rfl
    rw [find, locate, locateBy, hflaw, hsteps, horigin]
    dsimp only
    rw [walk_cons, hroot]
    dsimp only
    rw [hshort, if_neg Bool.false_ne_true, walk]
    dsimp only
    rw [List.nil_append, hdirectory]
  have hread : u.files.read u.here "/stray".toList = .error .isDirectory := by
    rw [hhere, FileTree.read, hfind]
  show ((Outcome.report <$> strayAudit.runFiles [] _ _) u).1 = _
  rw [Act.map_run, runFiles_run, hread]
  rfl

/-- One worker runs two tasks one after the other. -/
theorem run_two {α : Type} {first second : Act α} {s u w : Session} {x : α} {f : Fault}
    (hfirst : first s = (.ok x, u)) (hsecond : second (u.mark []) = (.error f, w)) :
    (Pool.run 1 batchPolicy .pool (Pool.unlimited []) [first, second] s).1 =
      .ok [.ok x, .error f] := by
  simp [Pool.run, Pool.conclude, Pool.settling, Pool.submit, Pool.step, Pool.start, Pool.finish,
    Pool.gather, Pool.hasFreeWorker, Pool.unlimited, Pool.withdraw, Pool.withdrawals, Pool.round,
    batchPolicy, hfirst, hsecond, List.replicate,
    List.range_succ, List.modify, List.lookup_cons, Pool.Slot.isRunning,
    Pool.Slot.finish, Pool.Slot.outcome?, Pool.Gathering.start, Pool.Gathering.awaits,
    Pool.Gathering.take, Pool.Gathering.cancels, Pool.Gathering.result]

end CoreAudit.Audit
