import CoreAudit.Audit.Batch
import CoreAudit.Proofs.Audit.Stages
import CoreAudit.Proofs.Validation.Runs

/-!
# What every action keeps

Actions write files, leave marks and get to know runners. None of them moves the session to another
host or another directory, none changes the settings, and getting to know a runner does not change
which runner a tool has: it is the one that the settings give. `Session.Steady` says that two
sessions agree in all of this, and `Act.IsSteady` that an action keeps it, whichever way it ends.

Headlines:
* **`scrambler_run`**: the scrambler is the one that is known, else the one of the settings.
* **`isSteady_validate`**, **`isSteady_run`**: validations and audits keep host, settings and tools.
-/

namespace CoreAudit

/-- The scrambler: the one that is known, else the one of the settings, if there is one. -/
def Session.scramblerOf (s : Session) : Option Runner :=
  s.toolbox.scrambler.or ((s.settings.path .scrambler).map fun path =>
    .executable (.named path [] s.settings.killAfter Tool.scrambler.name))

/-- The scrambler is found, and known from then on; without one there is a fault. -/
theorem Reconstruction.scrambler_run (s : Session) :
    scrambler s = match s.scramblerOf with
      | some runner =>
        (.ok runner, { s with toolbox := { s.toolbox with scrambler := some runner } })
      | none => (.error .noScrambler, s) := by
  obtain ⟨host, here, files, settings, ⟨known, validators⟩, trace⟩ := s
  unfold scrambler Session.scramblerOf
  rw [Act.bind_of_ok (Act.get_run _)]
  cases known with
  | some runner => rfl
  | none =>
    dsimp only
    cases settings.path .scrambler <;> rfl

/-- Two sessions have the same surroundings and the same tools. -/
structure Session.Steady (s t : Session) : Prop where
  host : t.host = s.host
  here : t.here = s.here
  settings : t.settings = s.settings
  runnerOf : ∀ id, t.runnerOf id = s.runnerOf id
  scramblerOf : t.scramblerOf = s.scramblerOf

namespace Session.Steady

variable {s t u : Session}

theorem refl (s : Session) : Steady s s := ⟨rfl, rfl, rfl, fun _ => rfl, rfl⟩

theorem trans (h : Steady s t) (h' : Steady t u) : Steady s u :=
  ⟨h'.host.trans h.host, h'.here.trans h.here, h'.settings.trans h.settings,
    fun id => (h'.runnerOf id).trans (h.runnerOf id), h'.scramblerOf.trans h.scramblerOf⟩

theorem change (h : Steady s t) (files : FileTree) (trace : List Mark) :
    Steady s { t with files, trace } :=
  ⟨h.host, h.here, h.settings, h.runnerOf, h.scramblerOf⟩

end Session.Steady

namespace Act

variable {α β : Type}

/-- The action keeps the surroundings and the tools, whichever way it ends. -/
def IsSteady (act : Act α) : Prop := ∀ s : Session, s.Steady (act s).2

theorem isSteady_pure (x : α) : IsSteady (pure x) := Session.Steady.refl

theorem isSteady_ofExcept (r : Except Fault α) : IsSteady (ofExcept r) := by
  intro s
  rw [ofExcept_run]
  exact .refl s

theorem IsSteady.bind {act : Act α} {next : α → Act β} (h : IsSteady act)
    (hnext : ∀ x, IsSteady (next x)) : IsSteady (act >>= next) := by
  intro s
  rw [bind_run]
  have hact := h s
  rcases hrun : act s with ⟨f | x, t⟩
  · rw [hrun] at hact
    exact hact
  · rw [hrun] at hact
    exact hact.trans (hnext x t)

/-- An action that looks at the session keeps it if the rest does from there. -/
theorem isSteady_get_bind {next : Session → Act α} 
    (h : ∀ s : Session, s.Steady (next s s).2) :
    IsSteady (get >>= next) := by
  intro s
  rw [bind_of_ok (get_run s)]
  exact h s

theorem isSteady_mark (marks : List Mark) : IsSteady (mark marks) := fun s =>
  (Session.Steady.refl s).change s.files _

theorem isSteady_records (rs : List LogRecord) : IsSteady (records rs) := isSteady_mark _

theorem isSteady_writeFile (path text : Text) : IsSteady (writeFile path text) := by
  refine isSteady_get_bind fun s => ?_
  rcases s.files.write s.here path (Text.Utf8.encode text) with problem | files
  · exact .refl s
  · exact (Session.Steady.refl s).change files s.trace

theorem isSteady_makePath (path : Text) : IsSteady (makePath path) := by
  intro s
  rcases hmade : (s.files.makePath s.here path).2 with _ | problem
  · rw [makePath_run hmade]
    exact (Session.Steady.refl s).change _ s.trace
  · rw [makePath_run_error hmade]
    exact (Session.Steady.refl s).change _ s.trace

theorem isSteady_makeScratch : IsSteady makeScratch := fun s =>
  (Session.Steady.refl s).change _ s.trace

theorem isSteady_remove (loc : Location) : IsSteady (remove loc) := fun s =>
  (Session.Steady.refl s).change _ s.trace

theorem IsSteady.ensuring {last : Act Unit} {act : Act α} (h : IsSteady act)
    (hlast : IsSteady last) : IsSteady (ensuring last act) := by
  intro s
  have hact := h s
  unfold Act.ensuring
  rcases hrun : act s with ⟨result, t⟩
  have hend := hlast t
  rw [hrun] at hact
  dsimp only
  rcases hleft : last t with ⟨_ | _, u⟩ <;> rw [hleft] at hend <;> exact hact.trans hend

theorem isSteady_run (r : Runner) (v : Invocation) : IsSteady (r.run v) := by
  intro s
  obtain ⟨marks, hmarks⟩ := r.exists_marks v s
  rw [hmarks]
  exact (Session.Steady.refl s).change s.files _

theorem isSteady_scrambler : IsSteady Reconstruction.scrambler := by
  intro s
  rw [Reconstruction.scrambler_run]
  rcases hfound : s.scramblerOf with _ | runner
  · exact .refl s
  · exact ⟨rfl, rfl, rfl, fun _ => rfl, hfound.symm⟩

/-- Tasks that keep the surroundings and the tools keep them in every order. -/
theorem steady_contract {tasks : List (Act α)} (h : ∀ task ∈ tasks, IsSteady task) (s : Session) :
    Pool.Contract tasks (fun _ t => s.Steady t) (fun _ _ => True) where
  records := fun _ hs => hs.change _ _
  task := fun htask _ hs => ⟨trivial, hs.trans (h _ (List.mem_of_getElem? htask) _)⟩

theorem isSteady_mapM {tasks : List (Act α)} (h : ∀ task ∈ tasks, IsSteady task) :
    IsSteady (tasks.mapM id) := by
  intro s
  obtain ⟨_, hend⟩ := (steady_contract h s).mapM_upholds (.refl s)
  exact hend

theorem isSteady_pool {workers : Nat} {policy : Pool.Policy} {channel : Channel}
    {schedule : List Pool.Move} {tasks : List (Act α)} (h : ∀ task ∈ tasks, IsSteady task) :
    IsSteady (Pool.run workers policy channel schedule tasks) := by
  intro s
  obtain ⟨_, hend⟩ := (steady_contract h s).run_upholds (.refl s) schedule
  exact hend

end Act

/-! ## Validations and audits -/

namespace Validation

open Act

theorem isSteady_runnerFor (id : Text) : IsSteady (runnerFor id) := by
  intro s
  unfold runnerFor
  rw [bind_of_ok (get_run s)]
  rcases hknown : s.toolbox.validators.get? id with _ | runner
  · dsimp only
    rw [bind_of_ok (records_run _ s), bind_of_ok (modify_run _ _)]
    refine ⟨rfl, rfl, rfl, fun other => ?_, rfl⟩
    unfold Session.runnerOf
    rw [pure_run, Keyed.get?_put]
    by_cases hother : other = id
    · rw [if_pos hother, hother, hknown]
      rfl
    · rw [if_neg hother]
      rfl
  · exact .refl s

theorem isSteady_vote (v : Validation) (formula workdir id : Text) :
    IsSteady (v.vote formula workdir id) := by
  refine (isSteady_runnerFor id).bind fun runner => (isSteady_makePath workdir).bind fun _ => ?_
  refine IsSteady.bind (fun s => ?_) fun outcome => ?_
  · exact isSteady_run runner _ s
  · exact (isSteady_records _).bind fun _ => isSteady_ofExcept _

theorem isSteady_prepare (ids : List Text) :
    IsSteady (ids.forM fun id => discard (runnerFor id)) := by
  intro s
  induction ids generalizing s with
  | nil => exact .refl s
  | cons id ids ih =>
    obtain ⟨runner, t, hfound⟩ := exists_runnerFor_ok id s
    have hfirst := isSteady_runnerFor id s
    rw [hfound] at hfirst
    rw [prepare_cons hfound]
    exact hfirst.trans (ih t)

theorem isSteady_validate (v : Validation) (schedule : List Pool.Move)
    (formula workdir : Text) (ids : List Text) :
    IsSteady (v.validate schedule formula workdir ids) := by
  have htasks : ∀ task ∈ v.tasks formula workdir ids, IsSteady task := by
    intro task htask
    obtain ⟨i, hi⟩ := List.mem_iff_getElem?.mp htask
    obtain ⟨id, _, rfl⟩ := getElem?_tasks hi
    exact v.isSteady_vote formula _ id
  refine IsSteady.bind ?_ fun votes => (isSteady_records _).bind fun _ => isSteady_pure votes
  unfold collect
  split
  · exact isSteady_mapM htasks
  · exact (isSteady_prepare ids).bind fun _ => (isSteady_pool htasks).bind fun _ => isSteady_ofExcept _

end Validation

namespace Audit

open Act Validation

variable (a : Audit)

theorem isSteady_benchmarkFile (b : Benchmark) (workdir : Text) :
    IsSteady (benchmarkFile b workdir) := by
  unfold benchmarkFile
  cases b.path with
  | some path => exact isSteady_pure path
  | none => exact (isSteady_writeFile _ _).bind fun _ => isSteady_pure _

theorem isSteady_rebuild (r : Reconstruction) (benchmark : Text) (t : Transcript) (workdir : Text) :
    IsSteady (r.rebuild benchmark t workdir) :=
  (isSteady_writeFile _ _).bind fun _ => isSteady_scrambler.bind fun runner =>
    (isSteady_run runner _).bind fun _ => (isSteady_records _).bind fun _ => isSteady_ofExcept _

theorem isSteady_reconstruct (t : Transcript) (b : Benchmark) (workdir : Text) :
    IsSteady (a.reconstruct t b workdir) :=
  (isSteady_benchmarkFile b _).bind fun _ => isSteady_rebuild _ _ _ _

theorem isSteady_voteOn (schedule : List Pool.Move) (b : Benchmark) (core : UnsatCore)
    (workdir : Text) : IsSteady (a.voteOn schedule b core workdir) :=
  (isSteady_records _).bind fun _ => (isSteady_ofExcept _).bind fun _ =>
    (isSteady_ofExcept _).bind fun _ => (isSteady_writeFile _ _).bind fun _ =>
      (isSteady_validate _ _ _ _ _).bind fun _ => isSteady_pure _

theorem isSteady_leave (scratch : Location) : IsSteady (a.leave scratch) := by
  unfold leave
  split
  · exact isSteady_records _
  · exact isSteady_remove scratch

/-- **An audit keeps the surroundings and the tools.** -/
theorem isSteady_run (schedule : List Pool.Move) (t : Transcript) (b : Benchmark) :
    IsSteady (a.run schedule t b) := by
  refine (isSteady_records _).bind fun _ => ?_
  cases t.status with
  | sat => exact isSteady_pure _
  | unknown => exact isSteady_pure _
  | unsat =>
    refine isSteady_makeScratch.bind fun scratch =>
      IsSteady.ensuring (fun s => ?_) (a.isSteady_leave scratch)
    rw [checkCore_eq_proceed]
    have hrebuilt := a.isSteady_reconstruct t b (FileTree.pathOf scratch) s
    rcases (a.reconstruct t b (FileTree.pathOf scratch) s).1 with f | _ | core
    · exact hrebuilt
    · exact hrebuilt
    · exact hrebuilt.trans (a.isSteady_voteOn schedule b core _ _)

end Audit

end CoreAudit
