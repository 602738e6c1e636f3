import CoreAudit.Proofs.Audit.Fatal
import CoreAudit.Proofs.Audit.Prepared
import CoreAudit.Proofs.Files.Subdivided

/-!
# What an audit does outside of its scratch directory

An audit writes nothing outside of its scratch directory. It may make directories there: the
directory of a validator is named after the validator, and such a name can lead out of the scratch
directory. Where the scratch directory is not kept this holds inside of it as well, since nothing
was there before (`Widened.removeTree`).

Headlines:
* **`widened_run`**, **`widened_runFiles`**: an audit changes nothing, but that directories are made
  where nothing was.
-/

namespace CoreAudit

namespace FileTree

variable {t u : FileTree} {name : Text}

theorem get?_removeTree_inside (t : FileTree) {loc l : Location} (h : loc.isPrefixOf l = true)
    (hl : l ≠ []) : (t.removeTree loc).get? l = none := by
  have hgone : ∀ es : List (Location × Entry),
      entryAt l (es.filter fun e => !loc.isPrefixOf e.1) = none := by
    intro es
    induction es with
    | nil => rfl
    | cons e es ih =>
      rw [List.filter_cons]
      split
      · rename_i hother
        rw [entryAt, if_neg, ih]
        intro hsame
        rw [isSame_iff.mp hsame, h] at hother
        cases hother
      · exact ih
  rw [get?, if_neg hl]
  exact hgone t.entries

/-- A new directory that is removed is as if it had never been there. -/
theorem Widened.removeTree (W : Widened (fun l => l.head? ≠ some name) t u) (hclosed : t.Closed)
    (hfree : t.get? [name] = none) : Widened (fun _ => True) t (u.removeTree [name]) := by
  intro l _
  by_cases hl : l.head? = some name
  · obtain ⟨rest, rfl⟩ := List.head?_eq_some_iff.mp hl
    have hprefix : [name].isPrefixOf (name :: rest) = true :=
      List.isPrefixOf_iff_prefix.mpr ⟨rest, rfl⟩
    exact Or.inl ((u.get?_removeTree_inside hprefix (List.cons_ne_nil _ _)).trans
      (hclosed.free hfree rest).symm)
  · have hprefix : [name].isPrefixOf l = false := by
      rw [Bool.eq_false_iff, Ne, List.isPrefixOf_iff_prefix]
      rintro ⟨rest, rfl⟩
      exact hl rfl
    rw [get?_removeTree u hprefix]
    exact W l hl

end FileTree

namespace Audit

open FileTree Validation

variable {v : Session} {name : Text}

/-- Once the core is rebuilt, its formula is written in the scratch directory, and directories are
made, wherever they are. -/
theorem widened_proceed (a : Audit) (schedule : List Pool.Move) (b : Benchmark)
    (S : v.files.Scratch name [Reconstruction.coreName, benchmarkName])
    (rebuilt : Except Fault (Option UnsatCore)) :
    Widened (fun l => l.head? ≠ some name) v.files
      (a.proceed schedule b (pathOf [name]) rebuilt v).2.files := by
  rcases rebuilt with f | _ | core
  · exact .refl _
  · exact .refl _
  show Widened _ v.files (a.voteOn schedule b core (pathOf [name]) v).2.files
  rcases hpanel : a.table.panel b with f | ids
  · rw [voteOn_of_unresolved (LogicTable.panel_eq_error_iff.mp hpanel)]
    exact .refl _
  · let recorded := v.mark ((UnsatCore.reductionRecords b.assertCount core.size).map .record)
    obtain ⟨hwrite, _⟩ := S.write isName_reducedName (by decide) v.here
      (Text.Utf8.encode core.formula)
    have hwritten : Act.writeFile (Path.join (pathOf [name]) reducedName) core.formula recorded =
        (.ok (), _) := Act.writeFile_run hwrite
    obtain ⟨made, -, hmade⟩ := (Midway.of_validate a.validation schedule
      (Path.join (pathOf [name]) reducedName) (pathOf [name]) ids { recorded with
        files := v.files.put [name, reducedName]
          (.file (Text.Utf8.encode core.formula) false) }).files
    rw [voteOn_of_panel hpanel, Act.bind_of_ok hwritten, bind_pure_comp, Act.map_run]
    dsimp only
    rw [hmade]
    exact (S.confined (by decide) _).widened.trans (widened_makePaths _ _ _)

/-- **An audit changes nothing, but that directories are made where nothing was**, however it ends.
A scratch directory that is kept is left out. -/
theorem widened_run (a : Audit) (schedule : List Pool.Move) (t : Transcript) (b : Benchmark)
    (s : Session) (hclosed : s.files.Closed)
    (hname : Path.IsName (s.files.freeName s.host.scratchStem)) :
    Widened (fun l => a.keepsScratch = true → l.head? ≠ some (s.files.freeName s.host.scratchStem))
      s.files (a.run schedule t b s).2.files := by
  by_cases hstatus : t.status = .unsat
  · have hfree := s.files.get?_freeName s.host.scratchStem
    have hfiles := a.files_reconstruct t b hclosed hname
    have hbefore := (confined_prepared t b hclosed hname).widened
    have S := scratch_prepared t b hclosed hname
    rw [← hfiles] at hbefore S
    have hproceed := a.widened_proceed schedule b S
      (a.reconstruct t b (pathOf s.scratch) (opened t b s)).1
    have hmake : Widened (fun l => l.head? ≠ some (s.files.freeName s.host.scratchStem)) s.files
        (s.files.put [s.files.freeName s.host.scratchStem] .directory) := by
      intro l hl
      rw [get?_put _ (List.cons_ne_nil _ _), if_neg fun h => hl (congrArg List.head? h)]
      exact Or.inl rfl
    have W := (hmake.trans hbefore).trans hproceed
    rw [run_eq_proceed hstatus, Act.ensuring_run (a.leave_eq_ok s.scratch _), files_leave]
    cases a.keepsScratch with
    | true => exact fun l hl => W l (hl rfl)
    | false => exact fun l _ => W.removeTree hclosed hfree l trivial
  · obtain ⟨finding, hrun⟩ := a.run_of_not_unsat schedule t b s hstatus
    rw [hrun]
    exact .refl _

/-- The audit of two files changes what the audit of what is read of them changes. -/
theorem widened_runFiles (a : Audit) (schedule : List Pool.Move) (transcript benchmark : Text)
    (s : Session) (hclosed : s.files.Closed)
    (hname : Path.IsName (s.files.freeName s.host.scratchStem)) :
    Widened (fun l => a.keepsScratch = true → l.head? ≠ some (s.files.freeName s.host.scratchStem))
      s.files (a.runFiles schedule transcript benchmark s).2.files := by
  rw [runFiles_run]
  rcases s.files.read s.here transcript with problem | bytes
  · exact .refl _
  · rcases s.files.read s.here benchmark with problem | bytes'
    · exact .refl _
    · exact widened_run a schedule _ _ s hclosed hname

end Audit

end CoreAudit
