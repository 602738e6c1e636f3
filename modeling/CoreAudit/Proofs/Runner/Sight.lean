import CoreAudit.Proofs.Files.Kept
import CoreAudit.Proofs.Validation.Runs
import Mathlib.Data.List.Forall2

/-!
# What runners see

A run looks at the session only in few ways: at the host, at the files that the words of its call
and of its own command line name, and at the bytes that the tool is fed. Together these are the
`Sight` of a run, and what the run comes to is a function of it, for every kind of runner
(`Runner.run_eq_answer`).

The words of a call may name a scratch directory. A runner is discreet (`Runner.IsDiscreet`) if it
answers the same in a scratch directory of another number.

Headlines:
* **`Runner.run_eq_answer`**: a run is answered by what its runner sees.
* `sight_congr`: in the same files, the same is seen.
* `Named.ofTree_kept`: words past scratch directories that were kept name what they named before.
-/

namespace CoreAudit

/-- What a run sees: its call, what the words of the runner's own command line name, and the bytes
that the tool is fed, or the fault of a file that it cannot be fed. -/
structure Sight where
  call : Call
  own : List Named
  fed : Except Fault (Option Bytes)

/-- A tool is fed the same where the same is read. -/
theorem Executable.fed_congr {path : Text} {s u : Session}
    (h : u.files.read u.here path = s.files.read s.here path) :
    fed (some path) u = fed (some path) s := by
  unfold fed feed
  cases path with
  | nil => rfl
  | cons c path =>
    dsimp only
    rw [Act.map_run, Act.map_run, Act.readFile_run, Act.readFile_run, h]

namespace Runner

/-- The words that a runner puts in front of every command line. -/
def words : Runner → List Text
  | executable x => x.path :: x.baseArgs
  | prover | scripted _ _ => []

/-- What a run of the runner sees. -/
def sight (r : Runner) (v : Invocation) (s : Session) : Sight :=
  ⟨v.call s, r.words.map (Named.ofTree s.files s.here), Executable.fed v.stdin s⟩

/-- What a run comes to, by what it sees. -/
def answer (r : Runner) (host : Host) (x : Sight) : Except Fault RunResult :=
  match r with
  | executable tool =>
    match x.fed with
    | .error f => .error f
    | .ok stdin =>
      match Executable.launched (host.launch
        ⟨x.own ++ x.call.args ++ x.call.input.toList, x.call.workdir, stdin, host.sessions⟩) with
      | .error f => .error f
      | .ok script =>
        (Process.supervise ⟨tool.name, x.call.timeout, tool.grace, host.sessions⟩ script).result
  | prover => (Prover.ask host.prover ((x.call.input.map Named.word).getD []) x.call.timeout).result
  | scripted _ reply => reply x.call

/-- **A run is answered by what its runner sees**, whatever else the session is. -/
theorem run_eq_answer (r : Runner) (v : Invocation) (s : Session) :
    (r.run v s).1 = r.answer s.host (r.sight v s) := by
  cases r with
  | executable tool =>
    show (tool.run v s).1 = _
    have hcommand : (tool.command v.args v.input).map (Named.ofTree s.files s.here) =
        (tool.path :: tool.baseArgs).map (Named.ofTree s.files s.here) ++
          v.args.map (Named.ofTree s.files s.here) ++
          (v.input.map (Named.ofTree s.files s.here)).toList := by
      rw [Executable.command, List.map_append, List.map_append]
      cases v.input <;> rfl
    rw [Executable.run_eq]
    unfold Executable.opened Executable.startOf answer sight words Invocation.call
    rw [hcommand]
    dsimp only
    rcases Executable.fed v.stdin s with f | stdin
    · rfl
    · dsimp only
      generalize Executable.launched (s.host.launch _) = launched
      cases launched <;> rfl
  | prover =>
    have hword : (v.input.map (Named.ofTree s.files s.here)).map Named.word = v.input := by
      cases v.input <;> rfl
    unfold answer sight Invocation.call
    dsimp only
    rw [hword]
    unfold run Prover.run
    dsimp only
    rw [Act.bind_of_ok (Act.get_run s), Act.bind_of_ok (Act.mark_run _ _),
      Act.bind_of_ok (Act.records_run _ _), Act.ofExcept_run]
  | scripted label reply =>
    rw [run_scripted]
    rfl

/-- In the same files the same is seen. -/
theorem sight_congr (r : Runner) (v : Invocation) {s u : Session} (hfiles : u.files = s.files)
    (hhere : u.here = s.here) : r.sight v u = r.sight v s := by
  have hfed : Executable.fed v.stdin u = Executable.fed v.stdin s := by
    cases v.stdin with
    | none => rfl
    | some path => exact Executable.fed_congr (by rw [hfiles, hhere])
  unfold sight Invocation.call
  rw [hfed, hfiles, hhere]

end Runner

/-! ## Past scratch directories -/

/-- A word past the scratch directories names what it named before. -/
theorem Named.ofTree_kept {t u : FileTree} {stem : Text} {names : List Text}
    (K : FileTree.Kept t stem names u) (hclosed : t.Closed) {here : Location}
    (hhere : t.get? here = some .directory) {word : Text} (hword : t.Avoids stem word) :
    Named.ofTree u here word = Named.ofTree t here word := by
  rw [Named.ofTree, Named.ofTree, K.read hclosed hhere hword]

/-- Words past the scratch directories name what they named before. -/
theorem Named.map_ofTree_kept {t u : FileTree} {stem : Text} {names : List Text}
    (K : FileTree.Kept t stem names u) (hclosed : t.Closed) {here : Location}
    (hhere : t.get? here = some .directory) {words : List Text}
    (hwords : ∀ word ∈ words, t.Avoids stem word) :
    words.map (Named.ofTree u here) = words.map (Named.ofTree t here) :=
  List.map_congr_left fun word hword => Named.ofTree_kept K hclosed hhere (hwords word hword)

/-! ## Scratch directories of other numbers -/

/-- Two words are the same, or they name the same place in two scratch directories. -/
inductive Path.Moved (a b : Text) : Text → Text → Prop where
  | same (word : Text) : Moved a b word word
  | under (rest : Location) :
    Moved a b (FileTree.pathOf (a :: rest)) (FileTree.pathOf (b :: rest))

/-- So do two words with the same content. -/
structure Named.Moved (a b : Text) (x y : Named) : Prop where
  word : Path.Moved a b x.word y.word
  content : y.content = x.content

/-- The same is seen in two scratch directories. -/
structure Sight.Moved (a b : Text) (x y : Sight) : Prop where
  input : Option.Rel (Named.Moved a b) x.call.input y.call.input
  args : List.Forall₂ (Named.Moved a b) x.call.args y.call.args
  timeout : y.call.timeout = x.call.timeout
  stdin : Option.Rel (Named.Moved a b) x.call.stdin y.call.stdin
  workdir : Option.Rel (Path.Moved a b) x.call.workdir y.call.workdir
  workdirExists : y.call.workdirExists = x.call.workdirExists
  own : y.own = x.own
  fed : y.fed = x.fed

/-- The number of the scratch directory that a run is made in changes nothing of what it comes
to. -/
def Runner.IsDiscreet (r : Runner) (host : Host) : Prop :=
  ∀ (m n : Nat) (x y : Sight),
    x.Moved (host.scratchStem ++ Text.ofNat m) (host.scratchStem ++ Text.ofNat n) y →
    r.answer host y = r.answer host x

end CoreAudit
