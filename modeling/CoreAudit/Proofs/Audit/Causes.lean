import CoreAudit.Proofs.Audit.Fatal
import CoreAudit.Proofs.Steady

/-!
# Why audits fail

An audit that ends in a fault does so for one of few reasons, which are the constructors of `Cause`:
a file of the audit cannot be written, there is no scrambler, the number of a header cannot be
read, the logic cannot be resolved, or a tool's run itself ends in the fault. Each stage of an audit
has its own of these, so that the fault tells how far the audit has come.

Headlines:
* **`of_reconstruct_eq_error`**, **`of_voteOn_eq_error`**: the causes of each stage.
* **`Cause.of_run`**: every fault of an audit has a cause, and the answer was unsat.
-/

namespace CoreAudit

/-- The fault is one that an audit raises of its own: for want of a logic, or of a scrambler. -/
def Fault.isOwn : Fault → Bool
  | noScrambler => true
  | f => f.isOfLogic

theorem Fault.isOwn_of_isOfLogic {f : Fault} (h : f.isOfLogic = true) : f.isOwn = true := by
  cases f <;> first | rfl | cases h

/-- The run of the scrambler or of one of the validators can end in the fault, in a session of the
same host. -/
def Session.Raises (s : Session) (ids : List Text) (f : Fault) : Prop :=
  ∃ runner, (s.scramblerOf = some runner ∨ ∃ id ∈ ids, s.runnerOf id = runner) ∧
    ∃ v u, u.host = s.host ∧ (runner.run v u).1 = .error f

theorem Session.Steady.raises {s t : Session} {ids : List Text} {f : Fault} (h : s.Steady t)
    (hraises : t.Raises ids f) : s.Raises ids f := by
  obtain ⟨runner, htool, v, u, hhost, hfails⟩ := hraises
  refine ⟨runner, ?_, v, u, hhost.trans h.host, hfails⟩
  rcases htool with hscrambler | ⟨id, hid, hvalidator⟩
  · exact Or.inl (h.scramblerOf.symm.trans hscrambler)
  · exact Or.inr ⟨id, hid, (h.runnerOf id).symm.trans hvalidator⟩

namespace Act

variable {α β : Type} {s : Session} {f : Fault}

theorem of_bind_eq_error {act : Act α} {next : α → Act β} (h : ((act >>= next) s).1 = .error f) :
    (act s).1 = .error f ∨ ∃ x t, act s = (.ok x, t) ∧ (next x t).1 = .error f := by
  rw [bind_run] at h
  rcases hact : act s with ⟨g | x, t⟩
  · rw [hact] at h
    exact Or.inl (congrArg Except.error (Except.error.inj h))
  · rw [hact] at h
    exact Or.inr ⟨x, t, rfl, h⟩

theorem of_writeFile_eq_error {path text : Text} (h : (writeFile path text s).1 = .error f) :
    ∃ problem, f = .file problem (some path) := by
  rcases hwrite : s.files.write s.here path (Text.Utf8.encode text) with problem | files
  · rw [writeFile_run_error hwrite] at h
    exact ⟨problem, (Except.error.inj h).symm⟩
  · rw [writeFile_run hwrite] at h
    cases h

theorem of_makePath_eq_error {path : Text} (h : (makePath path s).1 = .error f) :
    ∃ problem, f = .file problem (some path) := by
  rcases hmade : (s.files.makePath s.here path).2 with _ | problem
  · rw [makePath_run hmade] at h
    cases h
  · rw [makePath_run_error hmade] at h
    exact ⟨problem, (Except.error.inj h).symm⟩

end Act

namespace Validation

variable {v : Validation} {schedule : List Pool.Move} {formula workdir : Text} {ids : List Text}
  {s : Session} {f : Fault}

/-- A vote fails with its directory, or with the run of its validator. -/
theorem of_vote_eq_error {id : Text} (hid : id ∈ ids)
    (h : (v.vote formula workdir id s).1 = .error f) :
    (∃ problem path, f = .file problem path) ∨ s.Raises ids f := by
  obtain ⟨t, hfound, M⟩ := (Midway.refl workdir [] s).runnerFor id
  unfold Validation.vote at h
  rw [Act.bind_of_ok hfound] at h
  rcases Act.of_bind_eq_error h with hmade | ⟨_, u, hmade, h⟩
  · obtain ⟨problem, hf⟩ := Act.of_makePath_eq_error hmade
    exact Or.inl ⟨problem, _, hf⟩
  · rw [Act.bind_of_ok (Act.attempt_run _ u)] at h
    dsimp only at h
    rw [Act.bind_of_ok (Act.records_run _ _), Act.ofExcept_run] at h
    have hhost := (Act.isSteady_makePath workdir t).host
    rw [hmade] at hhost
    exact Or.inr ⟨_, Or.inr ⟨id, hid, rfl⟩, _, u, hhost.trans M.host, (of_voteOf_error h).1⟩

/-- Wherever they come in the order, votes fail for no other reason. -/
theorem causes_contract (v : Validation) (formula workdir : Text) (ids : List Text) (s : Session) :
    Pool.Contract (v.tasks formula workdir ids) (fun _ t => s.Steady t)
      (fun _ result => ∀ f, result = .error f →
        (∃ problem path, f = .file problem path) ∨ s.Raises ids f) where
  records := fun _ h => h.change _ _
  task := by
    intro _ t i task htask _ h
    obtain ⟨id, hid, rfl⟩ := getElem?_tasks htask
    refine ⟨fun f hf => ?_, h.trans (isSteady_vote v formula _ id t)⟩
    rcases of_vote_eq_error (List.mem_of_getElem? hid) hf with hfile | hraises
    · exact Or.inl hfile
    · exact Or.inr (h.raises hraises)

/-- **A validation fails with a directory or with the run of a validator**, under every
schedule. -/
theorem of_validate_eq_file_or_raises
    (h : (v.validate schedule formula workdir ids s).1 = .error f) :
    (∃ problem path, f = .file problem path) ∨ s.Raises ids f := by
  have hprepare : ∀ u, (ids.forM fun id => discard (runnerFor id)) s = (.ok (), u) →
      s.Steady u := by
    intro u hu
    have hsteady := isSteady_prepare ids s
    rw [hu] at hsteady
    exact hsteady
  obtain ⟨_, hcause⟩ := of_collect_error (causes_contract v formula workdir ids s) (.refl s)
    hprepare (Prod.ext (of_validate_error h) rfl)
  exact hcause f rfl

end Validation

namespace Audit

open Reconstruction

/-- The validators that an audit of a benchmark can ask: none, where the logic is not resolved. -/
def voters (a : Audit) (b : Benchmark) : List Text := (a.table.panel b).toOption.getD []

/-- What keeps an audit from coming to an outcome. -/
inductive Cause (a : Audit) (b : Benchmark) (s : Session) : Fault → Prop
  /-- A file of the audit or the directory of a validator cannot be made. -/
  | file (problem : PathProblem) (path : Option Text) : Cause a b s (.file problem path)
  | noScrambler (unknown : s.scramblerOf = none) : Cause a b s .noScrambler
  /-- The number of a header cannot be read. -/
  | unreadable {f : Fault} {digits : Text} (unread : Reading.size? digits = .error f) :
      Cause a b s f
  | unresolved {f : Fault} (unlisted : a.table.Unresolved b f) : Cause a b s f
  /-- The run of a tool ends in the fault. -/
  | raised {f : Fault} (raises : s.Raises (a.voters b) f) : Cause a b s f

variable {a : Audit} {schedule : List Pool.Move} {t : Transcript} {b : Benchmark} {s u : Session}
  {core : UnsatCore} {workdir : Text} {f : Fault}

theorem steady_opened (t : Transcript) (b : Benchmark) (s : Session) : s.Steady (opened t b s) :=
  (Session.Steady.refl s).change _ _

theorem Cause.of_steady (h : s.Steady u) (hcause : Cause a b u f) : Cause a b s f := by
  cases hcause with
  | file problem path => exact .file problem path
  | noScrambler unknown => exact .noScrambler (h.scramblerOf.symm.trans unknown)
  | unreadable unread => exact .unreadable unread
  | unresolved unlisted => exact .unresolved unlisted
  | raised raises => exact .raised (h.raises raises)

/-- **Why a core is not voted on**: the logic cannot be resolved, or a file or a tool fails. -/
theorem of_voteOn_eq_error (h : (a.voteOn schedule b core workdir s).1 = .error f) :
    a.table.Unresolved b f ∨ (∃ problem path, f = .file problem path) ∨
      s.Raises (a.voters b) f := by
  rcases hpanel : a.table.panel b with g | ids
  · have hunresolved := LogicTable.panel_eq_error_iff.mp hpanel
    rw [voteOn_of_unresolved hunresolved] at h
    cases h
    exact Or.inl hunresolved
  · have hvoters : a.voters b = ids := by rw [voters, hpanel]; rfl
    rw [voteOn_of_panel hpanel] at h
    have hrecorded := Act.isSteady_records (UnsatCore.reductionRecords b.assertCount core.size) s
    rcases Act.of_bind_eq_error h with hwrite | ⟨_, v, hwrite, h⟩
    · obtain ⟨problem, hf⟩ := Act.of_writeFile_eq_error hwrite
      exact Or.inr (Or.inl ⟨problem, _, hf⟩)
    · have hwritten := Act.isSteady_writeFile (Path.join workdir reducedName) core.formula
        (s.mark ((UnsatCore.reductionRecords b.assertCount core.size).map .record))
      rw [hwrite] at hwritten
      rcases Act.of_bind_eq_error h with hvotes | ⟨_, _, _, h⟩
      · rcases Validation.of_validate_eq_file_or_raises hvotes with hfile | hraises
        · exact Or.inr (Or.inl hfile)
        · rw [hvoters]
          exact Or.inr (Or.inr ((hrecorded.trans hwritten).raises hraises))
      · cases h

theorem of_rebuildFrom_eq_error {r : Reconstruction} {benchmark corePath : Text}
    (h : (r.rebuildFrom benchmark corePath workdir s).1 = .error f) : Cause a b s f := by
  unfold Reconstruction.rebuildFrom at h
  have hrunner := Reconstruction.scrambler_run s
  rcases hscrambler : s.scramblerOf with _ | runner <;> rw [hscrambler] at hrunner
  · rw [Act.bind_of_error hrunner] at h
    cases h
    exact .noScrambler hscrambler
  · rw [Act.bind_of_ok hrunner] at h
    rcases Act.of_bind_eq_error h with hrun | ⟨result, w, _, h⟩
    · exact .raised ⟨runner, Or.inl hscrambler, _, _, (by rfl), hrun⟩
    · dsimp only at h
      rw [Act.bind_of_ok (Act.records_run _ _), Act.ofExcept_run, reading_eq_error_iff] at h
      obtain ⟨_, digits, _, hsize⟩ := h
      exact .unreadable hsize

/-- **Why a core is not rebuilt.** -/
theorem of_rebuild_eq_error {r : Reconstruction} {benchmark : Text}
    (h : (r.rebuild benchmark t workdir s).1 = .error f) : Cause a b s f := by
  have hwritten := Act.isSteady_writeFile (Path.join workdir coreName) t.text s
  rcases Act.of_bind_eq_error h with hwrite | ⟨_, v, hwrite, h⟩
  · obtain ⟨problem, rfl⟩ := Act.of_writeFile_eq_error hwrite
    exact .file problem _
  · rw [hwrite] at hwritten
    exact Cause.of_steady hwritten (of_rebuildFrom_eq_error h)

/-- Why there is no reconstruction. -/
theorem of_reconstruct_eq_error (h : (a.reconstruct t b workdir s).1 = .error f) :
    Cause a b s f := by
  have hsteady := isSteady_benchmarkFile b workdir s
  unfold reconstruct at h
  rcases Act.of_bind_eq_error h with hfile | ⟨benchmark, v, hfile, h⟩
  · unfold benchmarkFile at hfile
    cases hpath : b.path with
    | some path =>
      rw [hpath] at hfile
      cases hfile
    | none =>
      rw [hpath] at hfile
      rcases Act.of_bind_eq_error hfile with hwrite | ⟨_, _, _, hpure⟩
      · obtain ⟨problem, rfl⟩ := Act.of_writeFile_eq_error hwrite
        exact .file problem _
      · cases hpure
  · rw [hfile] at hsteady
    exact Cause.of_steady hsteady (of_rebuild_eq_error h)

/-- **Every fault of an audit has a cause**, and the answer was unsat. -/
theorem Cause.of_run (h : (a.run schedule t b s).1 = .error f) :
    t.status = .unsat ∧ Cause a b s f := by
  by_cases hstatus : t.status = .unsat
  · refine ⟨hstatus, ?_⟩
    have hopened := steady_opened t b s
    rw [run_eq_proceed hstatus, Act.ensuring_run (a.leave_eq_ok _ _)] at h
    generalize hrebuilt : a.reconstruct t b (FileTree.pathOf s.scratch) (opened t b s) = rebuilt at h
    obtain ⟨result, u⟩ := rebuilt
    rcases result with g | _ | core
    · cases h
      exact Cause.of_steady hopened (of_reconstruct_eq_error (congrArg Prod.fst hrebuilt))
    · cases h
    · have hkept := a.isSteady_reconstruct t b (FileTree.pathOf s.scratch) (opened t b s)
      rw [hrebuilt] at hkept
      refine Cause.of_steady (hopened.trans hkept) ?_
      rcases of_voteOn_eq_error h with hunresolved | ⟨problem, path, rfl⟩ | hraises
      · exact .unresolved hunresolved
      · exact .file problem path
      · exact .raised hraises
  · obtain ⟨_, hrun⟩ := run_of_not_unsat a schedule t b s hstatus
    rw [hrun] at h
    cases h

end Audit

end CoreAudit
