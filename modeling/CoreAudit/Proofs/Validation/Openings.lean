import CoreAudit.Proofs.Growth
import CoreAudit.Proofs.Pool.Leaves
import CoreAudit.Proofs.Runner.Opening

/-!
# What validators are run on

Every run that begins in a validation is that of a validator in its own place, and is made while the
formula's file holds what it held before: nothing but directories is made in the meantime. Where
votes are validated all validators were run; where they are not, the directory of a validator could
not be made or its run raised a fault that is not one of input and output. No record of a validation
is one of the scrambler's stage.

Headlines:
* `isForeign_validate`: the records of a validation are not those of the scrambler's stage.
* `Midway.vote_course`: what casting one vote leaves.
* **`opened_validate`**: the runs that begin in a validation.
* **`ran_of_validate`**: all validators are run where votes are validated.
-/

namespace CoreAudit

/-- Of the marks that were left between two sessions none is a record of the scrambler's stage. -/
def Session.ForeignSince (s t : Session) : Prop :=
  ∃ later, t.trace = s.trace ++ later ∧ ∀ m ∈ later, m.isOfScrambler = false

namespace Session.ForeignSince

variable {s t u : Session}

theorem of_trace_eq (h : t.trace = s.trace) : s.ForeignSince t :=
  ⟨[], h.trans (List.append_nil _).symm, fun _ hm => absurd hm List.not_mem_nil⟩

theorem trans (h : s.ForeignSince t) (h' : t.ForeignSince u) : s.ForeignSince u := by
  obtain ⟨first, hfirst, hforeign⟩ := h
  obtain ⟨rest, hrest, hforeign'⟩ := h'
  refine ⟨first ++ rest, by rw [hrest, hfirst, List.append_assoc], fun m hm => ?_⟩
  exact (List.mem_append.mp hm).elim (hforeign m) (hforeign' m)

theorem records {rs : List LogRecord} (h : ∀ r ∈ rs, r.channel ≠ .scrambler) (s : Session) :
    s.ForeignSince (s.mark (rs.map .record)) :=
  ⟨rs.map .record, rfl, fun _ hm => Mark.not_isOfScrambler_records h hm⟩

end Session.ForeignSince

/-- What the action leaves holds no record of the scrambler's stage, whichever way it ends. -/
def Act.IsForeign {α : Type} (act : Act α) : Prop := ∀ s : Session, s.ForeignSince (act s).2

namespace Act

variable {α β : Type}

theorem isForeign_of_trace_eq {act : Act α} (h : ∀ s, (act s).2.trace = s.trace) : IsForeign act :=
  fun s => .of_trace_eq (h s)

theorem IsForeign.bind {act : Act α} {next : α → Act β} (h : IsForeign act)
    (hnext : ∀ x, IsForeign (next x)) : IsForeign (act >>= next) := by
  intro s
  have hact := h s
  rw [bind_run]
  rcases hrun : act s with ⟨f | x, t⟩ <;> rw [hrun] at hact
  · exact hact
  · exact hact.trans (hnext x t)

theorem isForeign_records {rs : List LogRecord} (h : ∀ r ∈ rs, r.channel ≠ .scrambler) :
    IsForeign (records rs) := fun s => .records h s

theorem isForeign_run (r : Runner) (v : Invocation) : IsForeign (r.run v) := by
  intro s
  obtain ⟨marks, hmarks, hforeign⟩ := r.foreign_run v s
  exact ⟨marks, congrArg Session.trace hmarks, hforeign⟩

theorem trace_makePath (path : Text) (s : Session) : (makePath path s).2.trace = s.trace := by
  rcases hmade : (s.files.makePath s.here path).2 with _ | problem
  · rw [makePath_run hmade]
  · rw [makePath_run_error hmade]

end Act

namespace Validation

open Act

/-! ## Records -/

theorem channel_ofSettings (settings : Settings) (id : Text) :
    ∀ r ∈ (Runner.ofSettings settings id).2, r.channel ≠ .scrambler := by
  unfold Runner.ofSettings
  dsimp only
  intro r hr
  split at hr
  · cases hr
  · split at hr <;> rw [List.mem_singleton.mp hr] <;> exact Channel.noConfusion

/-- Finding a runner leaves records, and none of the scrambler's stage. -/
theorem trace_runnerFor (id : Text) (s : Session) : ∃ found : List LogRecord,
    (runnerFor id s).2.trace = s.trace ++ found.map .record ∧
      ∀ r ∈ found, r.channel ≠ .scrambler := by
  unfold runnerFor
  rw [bind_of_ok (get_run s)]
  rcases s.toolbox.validators.get? id with _ | runner
  · exact ⟨_, rfl, channel_ofSettings s.settings id⟩
  · exact ⟨[], (List.append_nil _).symm, fun _ hr => absurd hr List.not_mem_nil⟩

theorem isForeign_runnerFor (id : Text) : IsForeign (runnerFor id) := by
  intro s
  obtain ⟨found, htrace, hchannel⟩ := trace_runnerFor id s
  exact (Session.ForeignSince.records hchannel s).trans (.of_trace_eq htrace)

theorem isForeign_prepare (ids : List Text) :
    IsForeign (ids.forM fun id => discard (runnerFor id)) := by
  induction ids with
  | nil => exact isForeign_of_trace_eq fun _ => rfl
  | cons id ids ih =>
    exact ((isForeign_runnerFor id).bind fun _ => isForeign_of_trace_eq fun _ => rfl).bind
      fun _ => ih

theorem channel_voteOf (id : Text) (outcome : Except Fault RunResult) :
    ∀ r ∈ (voteOf id outcome).2, r.channel ≠ .scrambler := by
  intro r hr
  cases outcome with
  | ok result =>
    rw [List.mem_singleton.mp hr]
    exact Channel.noConfusion
  | error f =>
    rw [voteOf] at hr
    split at hr
    · rw [List.mem_singleton.mp hr]
      exact Channel.noConfusion
    · exact absurd hr List.not_mem_nil

theorem isForeign_vote (v : Validation) (formula workdir id : Text) :
    IsForeign (v.vote formula workdir id) := by
  refine (isForeign_runnerFor id).bind fun runner =>
    (isForeign_of_trace_eq (trace_makePath workdir)).bind fun _ => ?_
  refine IsForeign.bind (fun s => isForeign_run runner _ s) fun outcome => ?_
  exact (isForeign_records (channel_voteOf id outcome)).bind fun _ =>
    isForeign_of_trace_eq fun s => by rw [ofExcept_run]

variable {v : Validation} {formula workdir : Text} {ids : List Text} {schedule : List Pool.Move}
  {s t u : Session} {i : Nat} {id : Text}

/-- **No record of a validation is one of the scrambler's stage**, under any schedule. -/
theorem isForeign_validate (v : Validation) (schedule : List Pool.Move) (formula workdir : Text)
    (ids : List Text) : IsForeign (v.validate schedule formula workdir ids) := by
  have htask : ∀ task ∈ v.tasks formula workdir ids, IsForeign task := by
    intro task hmem
    obtain ⟨i, hi⟩ := List.mem_iff_getElem?.mp hmem
    obtain ⟨id, _, rfl⟩ := getElem?_tasks hi
    exact v.isForeign_vote formula _ id
  have hkeeps : ∀ s : Session, ∀ task ∈ v.tasks formula workdir ids, ∀ t, s.ForeignSince t →
      s.ForeignSince (task t).2 := by
    intro s task hmem t h
    obtain ⟨i, hi⟩ := List.mem_iff_getElem?.mp hmem
    obtain ⟨id, _, rfl⟩ := getElem?_tasks hi
    exact h.trans (v.isForeign_vote formula _ id t)
  have hcollect : IsForeign (v.collect schedule formula workdir ids) := by
    unfold collect
    split
    · exact fun s => Pool.mapM_keeps (hkeeps s) (.of_trace_eq rfl)
    · refine (isForeign_prepare ids).bind fun _ => IsForeign.bind (fun s => ?_) fun _ =>
        isForeign_of_trace_eq fun s => by rw [ofExcept_run]
      refine Pool.run_keeps (hkeeps s) (fun rs t hrs h => ?_) _ _ _ (.of_trace_eq rfl)
      refine h.trans (.records (fun r hr => ?_) t)
      rw [hrs r hr]
      exact Channel.noConfusion
  exact hcollect.bind fun votes =>
    (isForeign_records (fun r hr => by rw [List.mem_singleton.mp hr]; exact Channel.noConfusion)).bind
      fun _ => isForeign_of_trace_eq fun _ => rfl

/-! ## Runs -/

/-- The validator at a place was run when the formula's file held the content, and its run is among
the marks that were left after a trace. -/
def RunOn (v : Validation) (formula workdir : Text) (content : Bytes) (s : Session)
    (start later : List Mark) (i : Nat) (id : Text) (u : Session) : Prop :=
  (s.runnerOf id).RanIn (request v.timeout formula workdir i id).2 start later u ∧
    u.files.read u.here formula = .ok content

/-- The mark opens the run of a validator, made when the formula's file held the content. -/
def Opens (v : Validation) (formula workdir : Text) (ids : List Text) (content : Bytes) (s : Session)
    (start later : List Mark) (m : Mark) : Prop :=
  ∃ i id u, ids[i]? = some id ∧ v.RunOn formula workdir content s start later i id u ∧
    m = (s.runnerOf id).opening (request v.timeout formula workdir i id).2 u

theorem Opens.append {content : Bytes} {start later : List Mark} {m : Mark}
    (h : v.Opens formula workdir ids content s start later m) (more : List Mark) :
    v.Opens formula workdir ids content s start (later ++ more) m := by
  obtain ⟨i, id, u, hid, ⟨hran, hread⟩, hm⟩ := h
  exact ⟨i, id, u, hid, ⟨hran.append more, hread⟩, hm⟩

theorem Opens.prepend {content : Bytes} {start first later : List Mark} {m : Mark}
    (h : v.Opens formula workdir ids content s (start ++ first) later m) :
    v.Opens formula workdir ids content s start (first ++ later) m := by
  obtain ⟨i, id, u, hid, ⟨hran, hread⟩, hm⟩ := h
  exact ⟨i, id, u, hid, ⟨hran.prepend, hread⟩, hm⟩

/-- The vote of the validator at a place ends in the fault, also in the middle of a validation: its
directory cannot be made, or its run raises the fault and it is not one of input and output. -/
def Escapes (v : Validation) (formula workdir : Text) (ids : List Text) (s : Session) (i : Nat)
    (id : Text) (f : Fault) : Prop :=
  ∃ u, Midway workdir ids s u ∧
    ((∃ problem, (u.files.makePath u.here (directory workdir i id)).2 = some problem ∧
        f = .file problem (some (directory workdir i id))) ∨
      ((s.runnerOf id).run (request v.timeout formula workdir i id).2 u).1 = .error f ∧
        f.isInputOutput = false)

/-- **What casting one vote leaves**: records, and the marks of one run, unless the directory that
it is made in cannot be made. -/
theorem Midway.vote_course (M : Midway workdir ids s t) (hid : ids[i]? = some id) (v : Validation)
    (formula : Text) :
    ∃ found : List LogRecord,
      (∃ f, (v.vote formula (directory workdir i id) id t).1 = .error f ∧
        v.Escapes formula workdir ids s i id f ∧
        (v.vote formula (directory workdir i id) id t).2.trace =
          t.trace ++ found.map .record) ∨
      ∃ u marks, ∃ told : List LogRecord, Midway workdir ids s u ∧
        u.trace = t.trace ++ found.map .record ∧
        ((s.runnerOf id).run (request v.timeout formula workdir i id).2 u).2 = u.mark marks ∧
        (v.vote formula (directory workdir i id) id t).1 =
          (voteOf id ((s.runnerOf id).run (request v.timeout formula workdir i id).2 u).1).1 ∧
        (v.vote formula (directory workdir i id) id t).2.trace =
          u.trace ++ (marks ++ told.map .record) := by
  obtain ⟨w, hfound, M₁⟩ := M.runnerFor id
  obtain ⟨found, htrace, _⟩ := trace_runnerFor id t
  rw [hfound] at htrace
  obtain ⟨made, u, hmade, M₂, _⟩ := M₁.makePath hid
  have hsame : u.trace = w.trace := by
    have htrace := Act.trace_makePath (directory workdir i id) w
    rwa [hmade] at htrace
  refine ⟨found, ?_⟩
  unfold Validation.vote
  rw [Act.bind_of_ok hfound]
  cases made with
  | error f =>
    refine Or.inl ⟨f, ?_, ⟨w, M₁, Or.inl ?_⟩, ?_⟩
    · rw [Act.bind_run, hmade]
    · rcases hproblem : (w.files.makePath w.here (directory workdir i id)).2 with _ | problem
      · rw [Act.makePath_run hproblem] at hmade
        cases hmade
      · rw [Act.makePath_run_error hproblem] at hmade
        cases hmade
        exact ⟨problem, rfl, rfl⟩
    · rw [Act.bind_run, hmade]
      exact hsame.trans htrace
  | ok _ =>
    obtain ⟨marks, hmarks⟩ :=
      (s.runnerOf id).exists_marks (request v.timeout formula workdir i id).2 u
    refine Or.inr ⟨u, marks,
      (voteOf id ((s.runnerOf id).run (request v.timeout formula workdir i id).2 u).1).2,
      M₂.toMidway, hsame.trans htrace, hmarks, ?_⟩
    rw [Act.bind_of_ok hmade, Act.bind_of_ok (Act.attempt_run _ u)]
    dsimp only
    rw [Act.bind_of_ok (Act.records_run _ _), Act.ofExcept_run]
    refine ⟨rfl, (congrArg (fun end' : Session => (end'.mark _).trace) hmarks).trans ?_⟩
    exact List.append_assoc _ _ _

/-- The formula's file holds the content, whichever directories of validators were made. -/
def Written (formula workdir : Text) (ids : List Text) (content : Bytes) (s : Session) : Prop :=
  ∀ u, Midway workdir ids s u → u.files.read u.here formula = .ok content

/-- What is known of the marks in the middle of a validation: every run that began is that of a
validator, made when the formula's file held the content. -/
structure Opened (v : Validation) (formula workdir : Text) (ids : List Text) (content : Bytes)
    (s t : Session) : Prop extends Midway workdir ids s t where
  course : ∃ later, t.trace = s.trace ++ later ∧
    ∀ m ∈ later, m.isOpening = true → v.Opens formula workdir ids content s s.trace later m

/-- The validator at a place was run when the formula's file held the content, and its run began. -/
def Ran (v : Validation) (formula workdir : Text) (content : Bytes) (s t : Session) (i : Nat)
    (id : Text) : Prop :=
  ∃ later u, t.trace = s.trace ++ later ∧
    v.RunOn formula workdir content s s.trace later i id u ∧
    (s.runnerOf id).opening (request v.timeout formula workdir i id).2 u ∈ later

theorem not_isOpening_records {rs : List LogRecord} {m : Mark} (hm : m ∈ rs.map Mark.record) :
    m.isOpening = false := by
  obtain ⟨r, _, rfl⟩ := List.mem_map.mp hm
  rfl

namespace Opened

variable {content : Bytes}

theorem records (O : Opened v formula workdir ids content s t) (rs : List LogRecord) :
    Opened v formula workdir ids content s (t.mark (rs.map .record)) := by
  obtain ⟨later, htrace, hopens⟩ := O.course
  refine ⟨O.toMidway.mark _, later ++ rs.map .record, ?_, fun m hm hopening => ?_⟩
  · rw [Session.mark, htrace, List.append_assoc]
  · rcases List.mem_append.mp hm with hm | hm
    · exact (hopens m hm hopening).append _
    · rw [not_isOpening_records hm] at hopening
      cases hopening

/-- **One more vote**: it runs its validator, or ends in a fault that escapes from it. -/
theorem vote (O : Opened v formula workdir ids content s t)
    (W : Written formula workdir ids content s) (hid : ids[i]? = some id) :
    Opened v formula workdir ids content s (v.vote formula (directory workdir i id) id t).2 ∧
      (∀ f, (v.vote formula (directory workdir i id) id t).1 = .error f →
        v.Escapes formula workdir ids s i id f) ∧
      ∀ x, (v.vote formula (directory workdir i id) id t).1 = .ok x →
        v.Ran formula workdir content s (v.vote formula (directory workdir i id) id t).2 i id := by
  obtain ⟨_, _, hvote, M, _⟩ := O.toMidway.vote hid v formula
  obtain ⟨before, htrace, hopens⟩ := O.course
  obtain ⟨found, hcourse⟩ := O.toMidway.vote_course hid v formula
  have hbefore : ∀ more, ∀ m ∈ before ++ found.map Mark.record, m.isOpening = true →
      v.Opens formula workdir ids content s s.trace (before ++ found.map .record ++ more) m := by
    intro more m hm hopening
    rcases List.mem_append.mp hm with hm | hm
    · rw [List.append_assoc]
      exact (hopens m hm hopening).append _
    · rw [not_isOpening_records hm] at hopening
      cases hopening
  rw [hvote] at hcourse ⊢
  dsimp only at hcourse ⊢
  rcases hcourse with ⟨f, rfl, hescapes, hend⟩ |
    ⟨u, marks, told, Mu, hu, hmarks, hresult, hend⟩
  · refine ⟨⟨M, before ++ found.map .record, ?_, fun m hm hopening => ?_⟩, ?_, fun _ h => nomatch h⟩
    · rw [hend, htrace, List.append_assoc]
    · have := hbefore [] m hm hopening
      rwa [List.append_nil] at this
    · intro g hg
      cases hg
      exact hescapes
  · have hstart : u.trace = s.trace ++ (before ++ found.map .record) := by
      rw [hu, htrace, List.append_assoc]
    have hlater : ∀ w : Session, w.trace = u.trace ++ (marks ++ told.map .record) →
        w.trace = s.trace ++ (before ++ found.map .record ++ (marks ++ told.map .record)) := by
      intro w hw
      rw [hw, hstart, List.append_assoc]
    have hrun : v.RunOn formula workdir content s s.trace
        (before ++ found.map .record ++ (marks ++ told.map .record)) i id u :=
      ⟨⟨_, marks, _, hstart, hmarks, rfl⟩, W u Mu⟩
    obtain ⟨others, R⟩ := (s.runnerOf id).run_marks
      (request v.timeout formula workdir i id).2 u rfl
    have hothers : marks = others :=
      List.append_cancel_left (congrArg Session.trace (hmarks.symm.trans R.left))
    refine ⟨⟨M, _, hlater _ hend, fun m hm hopening => ?_⟩, fun f hf => ?_, fun x hx => ?_⟩
    · rcases List.mem_append.mp hm with hm | hm
      · exact hbefore _ m hm hopening
      · rcases List.mem_append.mp hm with hm | hm
        · rw [hothers] at hm
          exact ⟨i, id, u, hid, hrun, R.alone m hm hopening⟩
        · rw [not_isOpening_records hm] at hopening
          cases hopening
    · exact ⟨u, Mu, Or.inr (of_voteOf_error (hresult.symm.trans hf))⟩
    · refine ⟨_, u, hlater _ hend, hrun, hrun.1.opening_mem rfl fun f hf => ?_⟩
      rw [hf, voteOf] at hresult
      split at hresult
      · assumption
      · rw [hresult] at hx
        cases hx

/-- Every task of a validation upholds it. -/
theorem contract (v : Validation) (W : Written formula workdir ids content s) :
    Pool.Contract (v.tasks formula workdir ids) (fun _ => Opened v formula workdir ids content s)
      (fun i result => ∃ id, ids[i]? = some id ∧
        ∀ f, result = .error f → v.Escapes formula workdir ids s i id f) where
  records := fun rs O => O.records rs
  task := by
    intro _ t i task htask _ O
    obtain ⟨id, hid, rfl⟩ := getElem?_tasks htask
    obtain ⟨O', hescapes, _⟩ := O.vote W hid
    exact ⟨⟨id, hid, hescapes⟩, O'⟩

/-- A vote that is cast leaves a run of its validator. -/
theorem leaves (v : Validation) (W : Written formula workdir ids content s) :
    Pool.Leaves (v.tasks formula workdir ids) (fun _ => Opened v formula workdir ids content s)
      (fun i result t => ∀ x, result = .ok x → ∃ id, ids[i]? = some id ∧
        v.Ran formula workdir content s t i id) := by
  have hgrows : ∀ {t u : Session} {i id}, t.trace <+: u.trace →
      v.Ran formula workdir content s t i id → v.Ran formula workdir content s u i id := by
    rintro t u i id ⟨more, hmore⟩ ⟨later, w, htrace, ⟨hran, hread⟩, hmem⟩
    refine ⟨later ++ more, w, ?_, ⟨hran.append more, hread⟩, List.mem_append_left _ hmem⟩
    rw [← hmore, htrace, List.append_assoc]
  refine ⟨?_, ?_, ?_⟩
  · intro _ t i task htask _ O x hx
    obtain ⟨id, hid, rfl⟩ := getElem?_tasks htask
    obtain ⟨_, _, hran⟩ := O.vote W hid
    exact ⟨id, hid, hran x hx⟩
  · intro i result t rs h x hx
    obtain ⟨id, hid, hran⟩ := h x hx
    exact ⟨id, hid, hgrows (List.prefix_append _ _) hran⟩
  · intro i result t task htask h x hx
    obtain ⟨id, hid, hran⟩ := h x hx
    obtain ⟨j, hj⟩ := List.mem_iff_getElem?.mp htask
    obtain ⟨other, _, rfl⟩ := getElem?_tasks hj
    exact ⟨id, hid, hgrows (v.grows_vote formula _ other t) hran⟩

theorem trace_prepare (others : List Text) (s : Session) : ∃ found : List LogRecord,
    ((others.forM fun id => discard (runnerFor id)) s).2.trace = s.trace ++ found.map .record := by
  induction others generalizing s with
  | nil => exact ⟨[], (List.append_nil _).symm⟩
  | cons id others ih =>
    obtain ⟨first, hfirst, _⟩ := trace_runnerFor id s
    obtain ⟨runner, u, hfound⟩ := exists_runnerFor_ok id s
    obtain ⟨rest, hrest⟩ := ih u
    rw [hfound] at hfirst
    refine ⟨first ++ rest, ?_⟩
    rw [prepare_cons hfound, hrest, hfirst, List.map_append, List.append_assoc]

theorem refl (v : Validation) (formula workdir : Text) (ids : List Text) (content : Bytes)
    (s : Session) : Opened v formula workdir ids content s s :=
  ⟨.refl workdir ids s, [], (List.append_nil _).symm, fun _ hm => absurd hm List.not_mem_nil⟩

/-- Finding runners beforehand begins no run. -/
theorem prepare (v : Validation) (formula workdir : Text) (ids : List Text) (content : Bytes)
    {others : List Text} (h : (others.forM fun id => discard (runnerFor id)) s = (.ok (), u)) :
    Opened v formula workdir ids content s u := by
  obtain ⟨found, htrace⟩ := trace_prepare others s
  rw [h] at htrace
  refine ⟨(Midway.refl workdir ids s).prepare others h, _, htrace, fun m hm hopening => ?_⟩
  rw [not_isOpening_records hm] at hopening
  cases hopening

end Opened

/-- Votes that are collected leave what the tasks that cast them leave. -/
theorem leaves_of_collect {I : List Nat → Session → Prop} {P : Nat → Except Fault Vote → Prop}
    {L : Nat → Except Fault Vote → Session → Prop}
    (Λ : Pool.Leaves (v.tasks formula workdir ids) I L)
    (C : Pool.Contract (v.tasks formula workdir ids) I P) (h : I [] s)
    (hprepare : ∀ u, (ids.forM fun id => discard (runnerFor id)) s = (.ok (), u) → I [] u)
    {votes : List Vote} (hrun : v.collect schedule formula workdir ids s = (.ok votes, t)) :
    ∀ (i : Nat) (x : Vote), votes[i]? = some x → L i (.ok x) t := by
  unfold collect at hrun
  split at hrun
  · exact Λ.mapM_ok C h hrun
  · rename_i hpool
    rw [not_or, Nat.not_le, Nat.not_le] at hpool
    have hworkers : 0 < min v.jobs (v.tasks formula workdir ids).length := by
      rw [length_tasks]
      omega
    rw [Act.bind_eq_ok] at hrun
    obtain ⟨_, u, hbefore, hrun⟩ := hrun
    rw [Act.bind_eq_ok] at hrun
    obtain ⟨outcomes, w, hpool', hrun⟩ := hrun
    rw [Act.ofExcept_eq_ok] at hrun
    obtain ⟨hvalues, rfl⟩ := hrun
    intro i x hi
    refine Λ.run_ok C hworkers (hprepare u hbefore) hpool' i (.ok x) ?_
    rw [Pool.values_eq_ok hvalues, List.getElem?_map, hi]
    rfl

variable {content : Bytes}

/-- **Every run that begins in a validation is that of a validator, made when the formula's file
held what it held before**, under every schedule and however the validation ends. -/
theorem opened_validate (v : Validation) (schedule : List Pool.Move)
    (W : Written formula workdir ids content s) :
    Opened v formula workdir ids content s (v.validate schedule formula workdir ids s).2 := by
  obtain ⟨_, O⟩ : ∃ _started : List Nat, Opened v formula workdir ids content s
      (v.validate schedule formula workdir ids s).2 :=
    validate_upholds (Opened.contract v W) (.refl v formula workdir ids content s)
      fun _ h => Opened.prepare v formula workdir ids content h
  exact O

/-- **Where votes are validated, all validators were run.** -/
theorem ran_of_validate (W : Written formula workdir ids content s) {votes : List Vote}
    (h : v.validate schedule formula workdir ids s = (.ok votes, t)) (hid : ids[i]? = some id) :
    v.Ran formula workdir content s t i id := by
  obtain ⟨u, hcollect, rfl⟩ := validate_eq_ok.mp h
  have hstart := Opened.refl v formula workdir ids content s
  have hprepare := fun u (h : (ids.forM fun id => discard (runnerFor id)) s = (.ok (), u)) =>
    Opened.prepare v formula workdir ids content h
  obtain ⟨_, _, _, _, hlength, _⟩ := collect_ok (Opened.contract v W) hstart hprepare hcollect
  obtain ⟨x, hx⟩ : ∃ x, votes[i]? = some x := by
    have hlt := (List.getElem?_eq_some_iff.mp hid).1
    exact ⟨_, List.getElem?_eq_getElem (hlength ▸ hlt)⟩
  have hleaves := Opened.leaves v W
  have hleft := hleaves.records [tallyRecord (Tally.ofVotes votes)]
    (leaves_of_collect hleaves (Opened.contract v W) hstart hprepare hcollect i x hx)
  obtain ⟨other, hother, hran⟩ := hleft x rfl
  rw [hid] at hother
  cases hother
  exact hran

/-- **Where they are not, a fault has escaped from one of them.** -/
theorem escapes_of_validate (W : Written formula workdir ids content s) {f : Fault}
    (h : (v.validate schedule formula workdir ids s).1 = .error f) :
    ∃ i id, ids[i]? = some id ∧ v.Escapes formula workdir ids s i id f := by
  have hstart := Opened.refl v formula workdir ids content s
  obtain ⟨i, id, hid, hescapes⟩ := of_collect_error (Opened.contract v W) hstart
    (fun _ h => Opened.prepare v formula workdir ids content h)
    (Prod.ext (of_validate_error h) rfl)
  exact ⟨i, id, hid, hescapes f rfl⟩

end Validation

end CoreAudit
