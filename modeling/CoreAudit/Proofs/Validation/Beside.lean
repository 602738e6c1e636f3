import CoreAudit.Proofs.Agreement
import CoreAudit.Proofs.Files.Beside
import CoreAudit.Proofs.Validation.Concurrency

/-!
# Validations beside one file more

Two sessions are in the middle of audits that differ in what is in one spot and in what happened
before (`Session.Beside`). As long as the directories of all validators bypass that spot, and all
of them have answers given in advance, every vote comes to the same in both sessions and leaves the
same marks. So does a validation, one vote after the other or by a pool.

Headlines:
* **`agrees_vote`**: a vote comes to the same.
* **`agrees_validate`**: so does a validation.
-/

namespace CoreAudit

/-- The sessions are the same but for what is in one spot, and for the traces up to a moment.
Validators have answers given in advance. -/
structure Session.Beside (spot here : Location) (ids : List Text) (before before' : List Mark)
    (s s' : Session) : Prop where
  same : s' = { s with files := s'.files, trace := s'.trace }
  files : s.files.Beside spot s'.files
  stays : s.here = here
  since : ∃ marks, s.trace = before ++ marks ∧ s'.trace = before' ++ marks
  scripted : ∀ id ∈ ids, ∃ label reply,
    s.toolbox.validators.get? id = some (.scripted label reply)

namespace Session.Beside

variable {spot here : Location} {ids : List Text} {before before' : List Mark} {s s' : Session}

theorem mark (marks : List Mark) (B : Beside spot here ids before before' s s') :
    Beside spot here ids before before' (s.mark marks) (s'.mark marks) := by
  obtain ⟨since, htrace, htrace'⟩ := B.since
  refine ⟨?_, B.files, B.stays, ⟨since ++ marks, ?_, ?_⟩, B.scripted⟩
  · rw [B.same]
    rfl
  · show s.trace ++ marks = _
    rw [htrace, List.append_assoc]
  · show s'.trace ++ marks = _
    rw [htrace', List.append_assoc]

/-- Different marks that are left belong to what happened before. -/
theorem mark_apart (marks marks' : List Mark) (B : Beside spot here ids before before' s s') :
    Beside spot here ids (s.trace ++ marks) (s'.trace ++ marks') (s.mark marks)
      (s'.mark marks') := by
  refine ⟨?_, B.files, B.stays, ⟨[], (List.append_nil _).symm, (List.append_nil _).symm⟩,
    B.scripted⟩
  rw [B.same]
  rfl

/-- The files change alike. -/
theorem change (B : Beside spot here ids before before' s s') {t t' : FileTree}
    (h : t.Beside spot t') :
    Beside spot here ids before before' { s with files := t } { s' with files := t' } := by
  refine ⟨?_, h, B.stays, B.since, B.scripted⟩
  rw [B.same]

theorem stays' (B : Beside spot here ids before before' s s') : s'.here = here := by
  rw [B.same]
  exact B.stays

theorem validators (B : Beside spot here ids before before' s s') :
    s'.toolbox.validators = s.toolbox.validators := by
  rw [B.same]

/-- A word that bypasses the spot names the same file in both sessions. -/
theorem named {word : Text} (B : Beside spot here ids before before' s s')
    (h : FileTree.Bypasses spot here word) :
    Named.ofTree s'.files s'.here word = Named.ofTree s.files s.here word := by
  rw [Named.ofTree, Named.ofTree, B.stays, B.stays', B.files.read h]

/-- So does the path of a directory. -/
theorem find {path : Text} (B : Beside spot here ids before before' s s')
    (h : FileTree.Bypasses spot here path) :
    s'.files.find s'.here path = s.files.find s.here path := by
  rw [B.stays, B.stays', B.files.find h]

end Session.Beside

namespace Validation

open Act FileTree

variable {spot here : Location} {formula id : Text} {ids : List Text} {before before' : List Mark}
  {s s' : Session}

/-- A validator with answers given in advance is known, and is called alike in both sessions. -/
theorem agrees_call {input workdir : Text} (hinput : Bypasses spot here input)
    (hworkdir : Bypasses spot here workdir) (label : Text)
    (reply : Call → Except Fault RunResult) (timeout : Option Budget) :
    Agrees (Session.Beside spot here ids before before')
      (attempt ((Runner.scripted label reply).run
        ⟨some input, [], timeout, none, some workdir⟩)) := by
  intro s s' B
  have hcall : Invocation.call ⟨some input, [], timeout, none, some workdir⟩ s' =
      Invocation.call ⟨some input, [], timeout, none, some workdir⟩ s := by
    unfold Invocation.call
    dsimp only
    rw [Option.map_some, Option.map_some, Option.any_some, Option.any_some, B.named hinput,
      B.find hworkdir]
    rfl
  rw [attempt_run, attempt_run, Runner.run_scripted, Runner.run_scripted, hcall]
  exact ⟨rfl, B.mark _⟩

theorem agrees_makePath {path : Text} (hpath : Bypasses spot here path) :
    Agrees (Session.Beside spot here ids before before') (Act.makePath path) := by
  intro s s' B
  obtain ⟨hproblem, hfiles⟩ := B.files.makePath hpath
  have B' := B.change hfiles
  obtain rfl := B.stays
  rw [← B.stays'] at hproblem B'
  rcases hmade : (s.files.makePath s'.here path).2 with _ | problem
  · rw [makePath_run (hproblem.trans hmade), makePath_run (B.stays' ▸ hmade), ← B.stays']
    exact ⟨rfl, B'⟩
  · rw [makePath_run_error (hproblem.trans hmade), makePath_run_error (B.stays' ▸ hmade),
      ← B.stays']
    exact ⟨rfl, B'⟩

/-- **A vote comes to the same.** -/
theorem agrees_vote (v : Validation) (hid : id ∈ ids) {workdir : Text}
    (hformula : Bypasses spot here formula)
    (hworkdir : Bypasses spot here workdir) :
    Agrees (Session.Beside spot here ids before before') (v.vote formula workdir id) := by
  intro s s' B
  obtain ⟨label, reply, hknown⟩ := B.scripted id hid
  have hknown' := B.validators.symm ▸ hknown
  unfold vote
  rw [bind_of_ok (runnerFor_run hknown), bind_of_ok (runnerFor_run hknown')]
  refine Agrees.bind (agrees_makePath hworkdir) (fun _ => ?_) s s' B
  refine (agrees_call hformula hworkdir label reply _).bind fun result => ?_
  exact (agrees_records (fun marks => Session.Beside.mark marks) _).bind fun _ =>
    agrees_ofExcept _

/-- **A validation comes to the same**, if all validators' directories bypass the spot. -/
theorem agrees_validate (v : Validation) (schedule : List Pool.Move) {workdir : Text}
    {voters : List Text} (hvoters : voters ⊆ ids) (hformula : Bypasses spot here formula)
    (hdirectory : ∀ place id, voters[place]? = some id →
      Bypasses spot here (directory workdir place id)) :
    Agrees (Session.Beside spot here ids before before')
      (v.validate schedule formula workdir voters) := by
  have hmarks : Session.MarksKeep (Session.Beside spot here ids before before') :=
    fun marks => Session.Beside.mark marks
  have htasks : ∀ task ∈ v.tasks formula workdir voters,
      Agrees (Session.Beside spot here ids before before') task := by
    intro task htask
    obtain ⟨place, hplace⟩ := List.mem_iff_getElem?.mp htask
    obtain ⟨id, hid, rfl⟩ := getElem?_tasks hplace
    exact agrees_vote v (hvoters (List.mem_of_getElem? hid)) hformula (hdirectory place id hid)
  refine Agrees.bind ?_ fun votes => (agrees_records hmarks _).bind fun _ => agrees_pure votes
  unfold collect
  split
  · exact agrees_mapM htasks
  · refine Agrees.bind (fun s s' B => ?_) fun _ =>
      (Pool.agrees_pool hmarks htasks _ _ _ _).bind fun outcomes => agrees_ofExcept _
    -- the runners are known already, so that getting to know them changes neither session
    have hknown : ∀ id ∈ voters, ∃ runner, s.toolbox.validators.get? id = some runner := by
      intro id hid
      obtain ⟨label, reply, hknown⟩ := B.scripted id (hvoters hid)
      exact ⟨_, hknown⟩
    rw [prepare_run hknown, prepare_run (B.validators.symm ▸ hknown)]
    exact ⟨rfl, B⟩

end Validation

end CoreAudit
