import CoreAudit.Proofs.Audit.Fatal
import CoreAudit.Proofs.Audit.Prepared
import CoreAudit.Proofs.Files.Subdivided

/-!
# What an audit leaves behind

The files of an audit of an unsat answer are in its scratch directory: the cleaned transcript, the
benchmark if it has no file of its own, and the formula of the core once one was rebuilt and its
logic resolved. Whichever stage the audit ends in, and however, it has written these files and no
others (`Stocked`), and made no directories but those of the validators of the logic
(`Subdivided`). Without its scratch directory it has therefore changed nothing.

Headlines:
* **`stocked_prepared`**, **`proceed_leaves`**: the files when the scrambler is run, and afterwards.
* **`files_after_run`**: an audit leaves nothing, or its scratch directory with its files.
-/

namespace CoreAudit

namespace FileTree

/-- A scratch directory in which there are files of these names and texts, and nothing else. -/
structure Stocked (t : FileTree) (name : Text) (files : List (Text × Text)) : Prop
    extends Scratch t name (files.map Prod.fst) where
  entry : ∀ rest e, rest ≠ [] → (t.get? (name :: rest) = some e ↔
    ∃ file ∈ files, rest = [file.1] ∧ e = .file (Text.Utf8.encode file.2) false)

variable {t u : FileTree} {name file : Text} {files : List (Text × Text)} {subs : List Text}
  {rest : Location}

theorem Stocked.make (hclosed : t.Closed) {stem : Text} (N : Path.IsName (t.freeName stem)) :
    Stocked (t.put [t.freeName stem] .directory) (t.freeName stem) [] := by
  refine ⟨Scratch.make hclosed N, fun rest e hrest => ?_⟩
  have hne : t.freeName stem :: rest ≠ [t.freeName stem] := fun h => hrest (List.cons.inj h).2
  rw [get?_put t (List.cons_ne_nil _ _), if_neg hne,
    hclosed.free (t.get?_freeName stem) rest]
  exact iff_of_false (fun h => nomatch h) (fun ⟨_, h, _⟩ => nomatch h)

/-- One more file is written there. -/
theorem Stocked.write (S : Stocked t name files) (N : Path.IsName file)
    (hfile : file ∉ files.map Prod.fst) (text : Text) :
    Stocked (t.put [name, file] (.file (Text.Utf8.encode text) false)) name
      ((file, text) :: files) := by
  refine ⟨(S.toScratch.write N hfile [] (Text.Utf8.encode text)).2, fun rest e hrest => ?_⟩
  rw [get?_put t (List.cons_ne_nil _ _)]
  by_cases hplace : rest = [file]
  · rw [hplace, if_pos rfl]
    constructor
    · intro h
      exact ⟨(file, text), List.mem_cons_self, rfl, (Option.some.inj h).symm⟩
    · rintro ⟨other, hother, hname, rfl⟩
      rcases List.mem_cons.mp hother with rfl | hother
      · rfl
      · rw [(List.cons.inj hname).1] at hfile
        exact absurd (List.mem_map.mpr ⟨other, hother, rfl⟩) hfile
  · rw [if_neg fun h => hplace (List.cons.inj h).2, S.entry rest e hrest]
    constructor
    · rintro ⟨other, hother, h⟩
      exact ⟨other, List.mem_cons_of_mem _ hother, h⟩
    · rintro ⟨other, hother, hname, he⟩
      rcases List.mem_cons.mp hother with rfl | hother
      · exact absurd hname hplace
      · exact ⟨other, hother, hname, he⟩

/-- Where then only directories are made, these files are still all there are, -/
theorem Stocked.file_iff (S : Stocked t name files) (D : Subdivided name subs t u)
    {content : Bytes} {executable : Bool} :
    u.get? (name :: rest) = some (.file content executable) ↔ executable = false ∧
      ∃ file ∈ files, rest = [file.1] ∧ content = Text.Utf8.encode file.2 := by
  rw [D.file_iff]
  rcases rest with _ | ⟨first, rest⟩
  · rw [(S.leads []).directory]
    exact iff_of_false (fun h => nomatch h) (fun ⟨_, _, _, h, _⟩ => nomatch h)
  · rw [S.entry _ _ (List.cons_ne_nil first rest)]
    constructor
    · rintro ⟨file, hfile, hplace, he⟩
      obtain ⟨rfl, rfl⟩ := Entry.file.inj he
      exact ⟨rfl, file, hfile, hplace, rfl⟩
    · rintro ⟨rfl, file, hfile, hplace, rfl⟩
      exact ⟨file, hfile, hplace, rfl⟩

/-- and there are no directories but the ones that are made. -/
theorem Stocked.of_directory (S : Stocked t name files) (D : Subdivided name subs t u)
    (hrest : rest ≠ []) (h : u.get? (name :: rest) = some .directory) :
    ∃ sub ∈ subs, rest = [sub] := by
  rcases D.entry (name :: rest) with hsame | ⟨_, _, sub, hsub, hplace⟩
  · rw [h] at hsame
    obtain ⟨_, _, _, he⟩ := (S.entry rest .directory hrest).mp hsame.symm
    cases he
  · exact ⟨sub, hsub, (List.cons.inj hplace).2⟩

end FileTree

namespace Audit

open Validation FileTree

/-- The files that are written before the scrambler is run. -/
def writtenFiles (t : Transcript) (b : Benchmark) : List (Text × Text) :=
  (Reconstruction.coreName, t.text) ::
    match b.path with
    | some _ => []
    | none => [(benchmarkName, b.text)]

/-- The file that is written after the reconstruction: the formula of a rebuilt core, if its logic
is resolved. -/
def reducedFile (a : Audit) (b : Benchmark) (rebuilt : Except Fault (Option UnsatCore)) :
    List (Text × Text) :=
  match rebuilt, a.table.panel b with
  | .ok (some core), .ok _ => [(reducedName, core.formula)]
  | _, _ => []

/-- The files that the audit of an unsat answer leaves in its scratch directory. -/
def leftFiles (a : Audit) (t : Transcript) (b : Benchmark) (s : Session) : List (Text × Text) :=
  a.reducedFile b (a.reconstruct t b (pathOf s.scratch) (opened t b s)).1 ++ writtenFiles t b

/-- The names of the directories of the validators that vote on a benchmark's core. -/
def voterDirectories (a : Audit) (b : Benchmark) : List Text :=
  match a.table.panel b with
  | .ok ids => ids.mapIdx directoryName
  | .error _ => []

/-- The files after an audit of an unsat answer are those before it and a new scratch directory. In
that there are the audit's own files, and no directories but those of validators. -/
structure Remains (a : Audit) (t : Transcript) (b : Benchmark) (s : Session) (u : FileTree) :
    Prop where
  new : s.files.get? s.scratch = none
  scratch : u.get? s.scratch = some .directory
  outside : ∀ l, ¬ s.scratch <+: l → u.get? l = s.files.get? l
  files : ∀ rest content executable,
    u.get? (s.scratch ++ rest) = some (.file content executable) ↔ executable = false ∧
      ∃ file ∈ a.leftFiles t b s, rest = [file.1] ∧ content = Text.Utf8.encode file.2
  directories : ∀ rest, rest ≠ [] → u.get? (s.scratch ++ rest) = some .directory →
    ∃ directory ∈ a.voterDirectories b, rest = [directory]

variable {a : Audit} {schedule : List Pool.Move} {t : Transcript} {b : Benchmark}
  {s v : Session} {name : Text} {files : List (Text × Text)}

/-- **When the scrambler is run, the transcript is in the scratch directory, and so is the benchmark
if it has no file of its own.** -/
theorem stocked_prepared (t : Transcript) (b : Benchmark) (hclosed : s.files.Closed)
    (hname : Path.IsName (s.files.freeName s.host.scratchStem)) :
    (prepared t b s).files.Stocked (s.files.freeName s.host.scratchStem) (writtenFiles t b) := by
  have S := Stocked.make hclosed hname
  unfold prepared Reconstruction.ready opened Session.scratch writtenFiles
  dsimp only
  generalize s.files.freeName s.host.scratchStem = name at S
  unfold withBenchmark
  cases b.path with
  | some path => exact S.write isName_coreName List.not_mem_nil t.text
  | none =>
    exact (S.write isName_benchmarkName List.not_mem_nil b.text).write isName_coreName
      (by decide : Reconstruction.coreName ∉ [benchmarkName]) t.text

theorem reducedName_not_mem (t : Transcript) (b : Benchmark) :
    reducedName ∉ (writtenFiles t b).map Prod.fst := by
  unfold writtenFiles
  cases b.path with
  | some path => exact (by decide : reducedName ∉ [Reconstruction.coreName])
  | none => exact (by decide : reducedName ∉ [Reconstruction.coreName, benchmarkName])

/-- **After the reconstruction the formula of a rebuilt core is written, if its logic is resolved,
and then nothing but directories of its validators is made**, however the audit ends. -/
theorem proceed_leaves (schedule : List Pool.Move)
    (hplain : ∀ row ∈ a.table.rows, ∀ id ∈ row.2, '/' ∉ id)
    (S : v.files.Stocked name files) (hfree : reducedName ∉ files.map Prod.fst)
    (rebuilt : Except Fault (Option UnsatCore)) :
    ∃ w, w.Stocked name (a.reducedFile b rebuilt ++ files) ∧ Confined name v.files w ∧
      Subdivided name (a.voterDirectories b) w
        (a.proceed schedule b (pathOf [name]) rebuilt v).2.files := by
  have hdirectory := (S.leads v.here).directory
  rcases rebuilt with f | _ | core
  · exact ⟨v.files, S, .refl hdirectory, .refl hdirectory⟩
  · exact ⟨v.files, S, .refl hdirectory, .refl hdirectory⟩
  unfold reducedFile voterDirectories
  show ∃ w, _ ∧ _ ∧ Subdivided name _ w (a.voteOn schedule b core (pathOf [name]) v).2.files
  rcases hpanel : a.table.panel b with f | ids
  · refine ⟨v.files, S, .refl hdirectory, ?_⟩
    rw [voteOn_of_unresolved (LogicTable.panel_eq_error_iff.mp hpanel)]
    exact .refl hdirectory
  · obtain ⟨logic, _, hids⟩ := LogicTable.panel_eq_ok_iff.mp hpanel
    let recorded := v.mark ((UnsatCore.reductionRecords b.assertCount core.size).map .record)
    obtain ⟨hwrite, S'⟩ := S.toScratch.write isName_reducedName hfree v.here
      (Text.Utf8.encode core.formula)
    have hwritten : Act.writeFile (Path.join (pathOf [name]) reducedName) core.formula recorded =
        (.ok (), _) := Act.writeFile_run hwrite
    have M := Midway.of_validate a.validation schedule (Path.join (pathOf [name]) reducedName)
      (pathOf [name]) ids { recorded with
        files := v.files.put [name, reducedName] (.file (Text.Utf8.encode core.formula) false) }
    obtain ⟨made, hmade, hfiles⟩ := M.files
    rw [directories_eq_map] at hmade
    have hsimple : ∀ directory ∈ ids.mapIdx directoryName, Path.IsSimple directory := by
      intro directory hmem
      obtain ⟨i, hi, rfl⟩ := List.mem_mapIdx.mp hmem
      obtain ⟨row, hrow, rfl⟩ := LogicTable.exists_row_of_validatorsFor hids
      exact isSimple_directoryName (hplain row hrow _ (List.getElem_mem hi))
    refine ⟨_, S.write isName_reducedName hfree core.formula, S.toScratch.confined hfree _, ?_⟩
    rw [voteOn_of_panel hpanel, Act.bind_of_ok hwritten, bind_pure_comp, Act.map_run]
    dsimp only
    rw [hfiles]
    exact subdivided_makePaths S.isName (S'.leads v.here) hsimple hmade

/-- **An audit leaves nothing behind but a scratch directory that it is told to keep.**

Unless it keeps the scratch directory of an unsat answer, the files after it are those before it,
however it ends. If it does, they are those before it and a new directory, in which there are the
cleaned transcript, the benchmark iff it has no file of its own, and the formula of the core iff one
was rebuilt and its logic resolved. -/
theorem files_after_run (a : Audit) (schedule : List Pool.Move) (t : Transcript) (b : Benchmark)
    (s : Session) (hclosed : s.files.Closed)
    (hname : Path.IsName (s.files.freeName s.host.scratchStem))
    (hplain : ∀ row ∈ a.table.rows, ∀ id ∈ row.2, '/' ∉ id) :
    (a.keepsScratch = false ∨ t.status ≠ .unsat → (a.run schedule t b s).2.files = s.files) ∧
    (a.keepsScratch = true → t.status = .unsat →
      a.Remains t b s (a.run schedule t b s).2.files) := by
  by_cases hstatus : t.status = .unsat
  · have hfree := s.files.get?_freeName s.host.scratchStem
    have hfiles := a.files_reconstruct t b hclosed hname
    have hbefore := confined_prepared t b hclosed hname
    have S := stocked_prepared t b hclosed hname
    rw [← hfiles] at hbefore S
    obtain ⟨w, S', hwritten, hmade⟩ := proceed_leaves schedule hplain S (reducedName_not_mem t b)
      (a.reconstruct t b (pathOf s.scratch) (opened t b s)).1
    have C := (hbefore.trans hwritten).trans hmade.toConfined
    rw [run_eq_proceed hstatus, Act.ensuring_run (a.leave_eq_ok s.scratch _), files_leave]
    constructor
    · rintro (hgone | hother)
      · rw [hgone, if_neg Bool.false_ne_true]
        exact C.outside.trans (removeTree_make hclosed hfree)
      · exact absurd hstatus hother
    · intro hkept _
      rw [hkept, if_pos rfl]
      refine ⟨hfree, C.directory, fun l hl => ?_, fun rest content executable => ?_,
        fun rest hrest h => S'.of_directory hmade hrest h⟩
      · have hhead : l.head? ≠ some (s.files.freeName s.host.scratchStem) := by
          rcases l with _ | ⟨first, rest⟩
          · exact fun h => nomatch h
          · intro h
            obtain rfl := Option.some.inj h
            exact hl ⟨rest, rfl⟩
        have hne : l ≠ [s.files.freeName s.host.scratchStem] := fun h => hhead (h ▸ rfl)
        exact (C.get?_outside hhead).trans
          ((get?_put s.files (List.cons_ne_nil _ _) l _).trans (if_neg hne))
      · exact S'.file_iff hmade
  · obtain ⟨finding, hrun⟩ := a.run_of_not_unsat schedule t b s hstatus
    rw [hrun]
    exact ⟨fun _ => rfl, fun _ h => absurd h hstatus⟩

end Audit

end CoreAudit
