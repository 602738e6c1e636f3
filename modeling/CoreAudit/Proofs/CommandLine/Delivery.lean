import CoreAudit.CommandLine.Basic
import CoreAudit.Proofs.Audit.Checked
import CoreAudit.Proofs.Audit.Outside
import CoreAudit.Proofs.Files.Written

/-!
# Where the report of a command line goes

A command line goes through phases: the two files are looked up, the settings are changed, the
policy table is loaded, the files are audited, and the report is delivered. Only the last phase
writes a report anywhere, and it is reached only with a complete one. So a command line that ends
well has written its report to one place, and one that does not has written none of it.

Headlines:
* **`firstMissing_run`**: how the files are looked up.
* `table_run`: the policy table is that of the document that is asked for.
* **`untouched_report`**: what the phases in front of the delivery change.
* **`main_ends`**: the phase in which a command line ends, and the files it leaves.
* **`main_delivers`**: the report is delivered as a whole or not at all, and when the exit code is
  one.
-/

namespace CoreAudit

namespace Act

variable {α β : Type}

/-- The action changes nothing but the settings. -/
def SetsOnly (act : Act α) : Prop := ∀ s : Session, ∃ settings, (act s).2 = { s with settings }

theorem setsOnly_pure (x : α) : SetsOnly (pure x) := fun s => ⟨s.settings, rfl⟩

theorem setsOnly_modify {change : Session → Session}
    (h : ∀ s : Session, ∃ settings, change s = { s with settings }) : SetsOnly (modify change) := h

theorem SetsOnly.bind {act : Act α} {next : α → Act β} (h : SetsOnly act)
    (hnext : ∀ x, SetsOnly (next x)) : SetsOnly (act >>= next) := by
  intro s
  obtain ⟨settings, hact⟩ := h s
  rw [bind_run]
  rcases hrun : act s with ⟨f | x, t⟩ <;> rw [hrun] at hact <;> cases hact
  · exact ⟨settings, rfl⟩
  · exact hnext x _

theorem SetsOnly.forM (items : List α) {act : α → Act Unit} (h : ∀ x, SetsOnly (act x)) :
    SetsOnly (items.forM act) := by
  induction items with
  | nil => exact setsOnly_pure ()
  | cons x items ih => exact (h x).bind fun _ => ih

end Act

namespace CommandLine

open Act FileTree

variable {a : Arguments} {schedule : List Pool.Move} {s : Session}

/-! ## Settings and table -/

theorem setsOnly_setTool (name path : Text) : SetsOnly (setTool name path) := by
  intro s
  unfold setTool
  rw [bind_of_ok (get_run s), bind_run, ofExcept_run]
  rcases s.settings.setPath s.files s.here name path with f | settings
  · exact ⟨s.settings, rfl⟩
  · exact ⟨settings, rfl⟩

theorem setsOnly_setSolver (entry : Option Text) : SetsOnly (setSolver entry) := by
  unfold setSolver
  split
  · exact fun s => ⟨s.settings, rfl⟩
  · split
    · exact setsOnly_setTool _ _
    · exact fun s => ⟨s.settings, rfl⟩

/-- **Configuring the tools changes the settings and nothing else**, also where it ends in a fault.
-/
theorem setsOnly_configure (a : Arguments) : SetsOnly (configure a) := by
  unfold configure
  have hbudgets : SetsOnly (modify fun s => { s with settings := { s.settings with
      killAfter := a.killAfter.getD s.settings.killAfter
      validationTimeout := a.timeout.getD s.settings.validationTimeout } }) :=
    setsOnly_modify fun s => ⟨_, rfl⟩
  have hrest := (SetsOnly.forM a.solverPaths setsOnly_setSolver).bind fun _ => hbudgets
  rcases given a.scrambler with _ | path
  · exact hrest
  · exact (setsOnly_setTool _ path).bind fun _ => hrest

/-- The policy table that is asked for, as its document has it. -/
def documentTable (a : Arguments) (s : Session) : Except Fault (PolicyTable Letters) :=
  match given a.logicTable with
  | none => .ok LogicTable.builtIn.letters
  | some path =>
    match s.files.read s.here path with
    | .error problem => .error (.file problem (some path))
    | .ok bytes => PolicyTable.ofBytes bytes

/-- **The audit has the table of the document**, or ends in its fault. -/
theorem table_run (a : Arguments) (s : Session) :
    table a s = ((documentTable a s).map PolicyTable.texts, s) := by
  unfold table documentTable
  rcases given a.logicTable with _ | path
  · dsimp only [Except.map]
    rw [PolicyTable.texts_letters]
    rfl
  · dsimp only
    rw [bind_run, readFile_run]
    rcases s.files.read s.here path with problem | bytes
    · rfl
    · dsimp only [Except.mapError]
      rw [bind_run, ofExcept_run]
      rcases PolicyTable.ofBytes bytes with f | t <;> rfl

/-- An audit of the two files looks the logic up: the answer is unsat and the benchmark declares
it. -/
def LooksUp (a : Arguments) (s : Session) (logic : Text) : Prop :=
  ∃ answer script, s.files.read s.here (a.file 0) = .ok answer ∧
    (Transcript.ofBytes answer).status = .unsat ∧
    s.files.read s.here (a.file 1) = .ok script ∧
    (Benchmark.ofBytes (a.file 1) script).logic = .ok logic

/-- Every validator that the document lists for a logic that is looked up is named by a text. -/
def NamesTexts (a : Arguments) (s : Session) : Prop :=
  ∀ t logic names, documentTable a s = .ok t → LooksUp a s logic →
    t.get? (.ofText logic) = some names → ∃ ids : List Text, names = ids.map Letters.ofText

/-- Putting the audit together changes nothing, and it keeps its scratch directory as asked for. -/
theorem auditOf_run (a : Arguments) (s : Session) :
    ∃ result, auditOf a s = (result, s) ∧
      ∀ audit, result = .ok audit → audit.keepsScratch = a.keepScratch := by
  unfold auditOf
  rw [bind_run, table_run]
  rcases (documentTable a s).map PolicyTable.texts with f | table
  · exact ⟨_, rfl, fun _ h => nomatch h⟩
  · dsimp only
    rw [bind_run, ofExcept_run]
    rcases jobs a with f | jobs
    · exact ⟨_, rfl, fun _ h => nomatch h⟩
    · refine ⟨_, rfl, fun _ h => ?_⟩
      cases h
      rfl

/-! ## What the report changes -/

/-- The files are as they were, but that directories are made where nothing was; a scratch directory
that is kept is left out. -/
def Untouched (a : Arguments) (s : Session) (files : FileTree) : Prop :=
  s.files.Widened
    (fun l => a.keepScratch = true → l.head? ≠ some (s.files.freeName s.host.scratchStem)) files

/-- **Whatever becomes of the report, the files are untouched until it is delivered**, and paths
start from where they started. -/
theorem untouched_report (schedule : List Pool.Move) (a : Arguments) (transcript benchmark : Text)
    (hclosed : s.files.Closed) (hname : Path.IsName (s.files.freeName s.host.scratchStem)) :
    Untouched a s (report schedule a transcript benchmark s).2.files ∧
      (report schedule a transcript benchmark s).2.here = s.here := by
  have hsame : Untouched a s s.files := .refl _
  obtain ⟨settings, hsettings⟩ := setsOnly_configure a s
  unfold report
  rw [bind_run]
  rcases hconfigure : configure a s with ⟨f | _, v⟩ <;> rw [hconfigure] at hsettings <;>
    cases hsettings
  · exact ⟨hsame, rfl⟩
  · dsimp only
    obtain ⟨loaded, hloaded, hkeeps⟩ := auditOf_run a { s with settings }
    rw [bind_run, hloaded]
    rcases loaded with f | audit
    · exact ⟨hsame, rfl⟩
    · dsimp only
      rw [map_run]
      have W := Audit.widened_runFiles audit schedule transcript benchmark { s with settings }
        hclosed hname
      rw [hkeeps audit rfl] at W
      refine ⟨W, ?_⟩
      rw [Audit.runFiles_run]
      dsimp only
      rcases s.files.read s.here transcript with problem | bytes
      · rfl
      · rcases s.files.read s.here benchmark with problem | bytes'
        · rfl
        · exact (audit.isSteady_run schedule _ _ { s with settings }).here

/-! ## Looking up the files -/

/-- The file is named, and its path leads to something. -/
def Found (s : Session) (file : Option Text) : Prop :=
  ∃ path loc, file = some path ∧ s.files.resolve s.here path = .ok loc

/-- The path leads to nothing, which is told by looking it up: it is not too long for that. -/
def Missing (s : Session) (path : Text) : Prop :=
  ∃ problem, s.files.resolve s.here path = .error problem ∧ problem ≠ .tooLong

/-- The path is the first of the files that is missing; those in front of it are found. -/
inductive FirstMissing (s : Session) : List (Option Text) → Text → Prop
  | here {path : Text} {files : List (Option Text)} (missing : Missing s path) :
      FirstMissing s (some path :: files) path
  | later {path : Text} {file : Option Text} {files : List (Option Text)} (found : Found s file)
      (rest : FirstMissing s files path) : FirstMissing s (file :: files) path

variable {file : Option Text} {files : List (Option Text)} {path : Text}

theorem Missing.not_found (h : Missing s path) : ¬ Found s (some path) := by
  obtain ⟨problem, hproblem, _⟩ := h
  rintro ⟨_, loc, hpath, hloc⟩
  cases hpath
  rw [hproblem] at hloc
  cases hloc

theorem FirstMissing.not_found (h : FirstMissing s files path) :
    ¬ ∀ file ∈ files, Found s file := by
  induction h with
  | here missing => exact fun all => missing.not_found (all _ List.mem_cons_self)
  | later _ _ ih => exact fun all => ih (List.forall_mem_cons.mp all).2

/-- A file that is neither found nor missing is not passed. -/
theorem not_firstMissing_of_unfound (hunfound : ¬ Found s file)
    (hunmissing : ∀ path, file = some path → ¬ Missing s path) :
    ¬ FirstMissing s (file :: files) path := by
  rintro (⟨hmissing⟩ | ⟨hfound, _⟩)
  · exact hunmissing path rfl hmissing
  · exact hunfound hfound

/-- How a lookup of files ends: all are found, or one is the first that is missing, or there is a
fault, and it is neither way. -/
inductive LookedUp (s : Session) (files : List (Option Text)) : Except Fault (Option Text) → Prop
  | found (all : ∀ file ∈ files, Found s file) : LookedUp s files (.ok none)
  | missing {path : Text} (first : FirstMissing s files path) : LookedUp s files (.ok (some path))
  | fault {f : Fault} (unfound : ¬ ∀ file ∈ files, Found s file)
      (unmissing : ∀ path, ¬ FirstMissing s files path) : LookedUp s files (.error f)

theorem LookedUp.cons {result : Except Fault (Option Text)} (h : LookedUp s files result)
    (hfound : Found s file) : LookedUp s (file :: files) result := by
  cases h with
  | found all => exact .found (List.forall_mem_cons.mpr ⟨hfound, all⟩)
  | missing first => exact .missing (.later hfound first)
  | fault unfound unmissing =>
    refine .fault (fun all => unfound (List.forall_mem_cons.mp all).2) fun path hfirst => ?_
    cases hfirst with
    | here missing => exact missing.not_found hfound
    | later _ rest => exact unmissing path rest

/-- **The files are looked up one by one**, and the session is left alone. -/
theorem firstMissing_run (s : Session) (files : List (Option Text)) :
    ∃ result, firstMissing files s = (result, s) ∧ LookedUp s files result := by
  induction files with
  | nil => exact ⟨_, rfl, .found fun _ h => absurd h List.not_mem_nil⟩
  | cons file files ih =>
    have hstuck : ∀ f, ¬ Found s file → (∀ path, file = some path → ¬ Missing s path) →
        LookedUp s (file :: files) (.error f) := fun f hunfound hunmissing =>
      .fault (fun all => hunfound (all file List.mem_cons_self)) fun _ =>
        not_firstMissing_of_unfound hunfound hunmissing
    rcases file with _ | path
    · exact ⟨_, rfl, hstuck _ (fun ⟨_, _, h, _⟩ => nomatch h) (fun _ h => nomatch h)⟩
    unfold firstMissing
    rw [bind_of_ok (get_run s)]
    rcases hresolve : s.files.resolve s.here path with problem | loc
    · by_cases hlong : problem = .tooLong
      · subst hlong
        refine ⟨_, rfl, hstuck _ ?_ ?_⟩
        · rintro ⟨_, loc, hpath, hloc⟩
          cases hpath
          exact nomatch hresolve.symm.trans hloc
        · rintro _ hpath ⟨problem, hproblem, hshort⟩
          cases hpath
          exact hshort (Except.error.inj (hproblem.symm.trans hresolve))
      · refine ⟨.ok (some path), ?_, .missing (.here ⟨problem, hresolve, hlong⟩)⟩
        cases problem <;> first | rfl | exact absurd rfl hlong
    · obtain ⟨result, hrun, hrest⟩ := ih
      exact ⟨result, hrun, hrest.cons ⟨path, loc, rfl, hresolve⟩⟩

/-! ## Endings -/

/-- How a command line with a level ends, and the files it leaves: one case for each phase in which
it can end. -/
inductive Ends (schedule : List Pool.Move) (a : Arguments) (s : Session) (level : Level) :
    Ending → FileTree → Prop
  | missing {path : Text} (first : FirstMissing s a.files path) :
      Ends schedule a s level (.reported level ("File not found: ".toList ++ path)) s.files
  | unlooked {f : Fault} (unfound : ¬ ∀ file ∈ a.files, Found s file)
      (unmissing : ∀ path, ¬ FirstMissing s a.files path) :
      Ends schedule a s level (.escaped (some level) f) s.files
  | reported {f : Fault} {w : Session} (found : ∀ file ∈ a.files, Found s file)
      (run : report schedule a (a.file 0) (a.file 1) s = (.error f, w))
      (told : f.isReported = true) : Ends schedule a s level (.reported level f.message) w.files
  | escaped {f : Fault} {w : Session} (found : ∀ file ∈ a.files, Found s file)
      (run : report schedule a (a.file 0) (a.file 1) s = (.error f, w))
      (untold : f.isReported = false) : Ends schedule a s level (.escaped (some level) f) w.files
  | printed {r : Report} {w : Session} (found : ∀ file ∈ a.files, Found s file)
      (run : report schedule a (a.file 0) (a.file 1) s = (.ok r, w))
      (unnamed : given a.output = none) :
      Ends schedule a s level (.finished level (some r.text)) w.files
  | written {r : Report} {w : Session} {path : Text} {files : FileTree}
      (found : ∀ file ∈ a.files, Found s file)
      (run : report schedule a (a.file 0) (a.file 1) s = (.ok r, w))
      (named : given a.output = some path)
      (write : w.files.write w.here path (Text.Utf8.encode r.text) = .ok files) :
      Ends schedule a s level (.finished level none) files
  | unwritten {r : Report} {w : Session} {f : Fault} (found : ∀ file ∈ a.files, Found s file)
      (run : report schedule a (a.file 0) (a.file 1) s = (.ok r, w)) :
      Ends schedule a s level (.escaped (some level) f) w.files

variable {level : Level} {debugs : Bool} {argv : List Text}

/-- **A command line goes through its phases and ends in one of them.** -/
theorem main_ends (schedule : List Pool.Move) (s : Session)
    (hrequest : Request.ofWords (standardLevel debugs) argv = .ok (.audit a))
    (hlevel : a.logLevel = some level) :
    Ends schedule a s level (main debugs schedule argv s).1 (main debugs schedule argv s).2.files := by
  unfold main
  rw [hrequest]
  dsimp only
  rw [hlevel]
  dsimp only
  unfold audit
  obtain ⟨looked, hlooked, L⟩ := firstMissing_run s a.files
  rw [bind_run, hlooked]
  cases L with
  | fault unfound unmissing => exact .unlooked unfound unmissing
  | missing first => exact .missing first
  | found all =>
    dsimp only
    rw [bind_of_ok (attempt_run _ s)]
    rcases hreport : report schedule a (a.file 0) (a.file 1) s with ⟨f | r, w⟩
    · dsimp only
      rw [pure_run, faultEnding]
      cases htold : f.isReported with
      | true => exact .reported all hreport htold
      | false => exact .escaped all hreport htold
    · dsimp only
      unfold deliver
      rcases houtput : given a.output with _ | path
      · exact .printed all hreport houtput
      · dsimp only
        rcases hwrite : w.files.write w.here path (Text.Utf8.encode r.text) with problem | files
        · rw [bind_of_error (writeFile_run_error hwrite)]
          exact .unwritten all hreport
        · rw [bind_of_ok (writeFile_run hwrite)]
          exact .written all hreport houtput hwrite

/-- The report was delivered: it is that of the run, and it went to one place, the standard output
or the file that was asked for. -/
def Delivered (schedule : List Pool.Move) (a : Arguments) (s : Session) (e : Ending)
    (files : FileTree) : Prop :=
  ∃ r w, report schedule a (a.file 0) (a.file 1) s = (.ok r, w) ∧ Untouched a s w.files ∧
    (given a.output = none ∧ e.output = r.text ∧ files = w.files ∨
      ∃ path, given a.output = some path ∧ e.output = [] ∧
        w.files.write s.here path (Text.Utf8.encode r.text) = .ok files ∧
        files.read s.here path = .ok (Text.Utf8.encode r.text))

/-- The exit code is to be one: one of the two files is missing, or both are found and the report
ends in a fault that is reported. -/
def Fails (schedule : List Pool.Move) (a : Arguments) (s : Session) : Prop :=
  (∃ path, FirstMissing s a.files path) ∨
    (∀ file ∈ a.files, Found s file) ∧
      ∃ f, (report schedule a (a.file 0) (a.file 1) s).1 = .error f ∧ f.isReported = true

/-- Where the files are found and the report ends in no fault that is reported, the exit code is not
one. -/
theorem not_fails (found : ∀ file ∈ a.files, Found s file)
    (hreport : ∀ f, (report schedule a (a.file 0) (a.file 1) s).1 = .error f →
      f.isReported = false) : ¬ Fails schedule a s := by
  rintro (⟨path, hmissing⟩ | ⟨-, f, hfault, htold⟩)
  · exact hmissing.not_found found
  · rw [hreport f hfault] at htold
    cases htold

variable {e : Ending} {left : FileTree}

/-- An ending with exit code zero has delivered the report. -/
theorem Ends.delivered (E : Ends schedule a s level e left) (hclosed : s.files.Closed)
    (hname : Path.IsName (s.files.freeName s.host.scratchStem)) (hcode : e.exitCode? = some 0) :
    Delivered schedule a s e left := by
  obtain ⟨huntouched, hhere⟩ := untouched_report schedule a (a.file 0) (a.file 1) hclosed hname
  cases E with
  | missing | unlooked | reported | escaped | unwritten => cases hcode
  | printed found run unnamed =>
    rw [run] at huntouched
    exact ⟨_, _, run, huntouched, Or.inl ⟨unnamed, rfl, rfl⟩⟩
  | written found run named write =>
    rw [run] at huntouched hhere
    rw [hhere] at write
    exact ⟨_, _, run, huntouched, Or.inr ⟨_, named, rfl, write, read_of_write write⟩⟩

/-- An ending with another exit code or none has left the files and the standard output alone. -/
theorem Ends.untouched (E : Ends schedule a s level e left) (hclosed : s.files.Closed)
    (hname : Path.IsName (s.files.freeName s.host.scratchStem)) (hcode : e.exitCode? ≠ some 0) :
    e.output = [] ∧ Untouched a s left := by
  refine ⟨Ending.output_eq_nil_of_ne_zero hcode, ?_⟩
  have huntouched := (untouched_report schedule a (a.file 0) (a.file 1) hclosed hname).1
  cases E with
  | missing | unlooked => exact .refl _
  | reported found run _ | escaped found run _ | unwritten found run =>
    rw [run] at huntouched
    exact huntouched
  | printed | written => exact absurd rfl hcode

theorem Ends.exitCode?_eq_one_iff (E : Ends schedule a s level e left) :
    e.exitCode? = some 1 ↔ Fails schedule a s := by
  cases E with
  | missing first => exact iff_of_true rfl (Or.inl ⟨_, first⟩)
  | unlooked unfound unmissing =>
    refine iff_of_false (fun h => nomatch h) ?_
    rintro (⟨path, hmissing⟩ | ⟨found, _⟩)
    · exact unmissing path hmissing
    · exact unfound found
  | reported found run told => exact iff_of_true rfl (Or.inr ⟨found, _, congrArg Prod.fst run, told⟩)
  | escaped found run untold =>
    refine iff_of_false (fun h => nomatch h) (not_fails found fun f hfault => ?_)
    rw [run] at hfault
    cases hfault
    exact untold
  | printed found run _ | written found run _ _ | unwritten found run =>
    refine iff_of_false (fun h => nomatch h) (not_fails found fun f hfault => ?_)
    rw [run] at hfault
    cases hfault

/-- **A command line delivers its report as a whole or not at all.**

The table of the audit is that of the document that is asked for, whatever the tools are set to, and
a logic that is looked up has the validators that the document lists for it. If the exit code is
zero, the report of the run went to one place: to the standard output, or to the file that was asked
for, of which it is the whole content. In any other case nothing is written to the standard output
and the files are untouched. The exit code is one iff a level is given and either one of the two
files is missing, or both are found and configuring the tools, putting the audit together or the
audit itself ends in a fault that is reported. -/
theorem main_delivers (debugs : Bool) (schedule : List Pool.Move) (argv : List Text) (s : Session)
    (hclosed : s.files.Closed) (hname : Path.IsName (s.files.freeName s.host.scratchStem))
    (hrequest : Request.ofWords (standardLevel debugs) argv = .ok (.audit a))
    (htexts : NamesTexts a s) :
    (∀ settings, (table a { s with settings }).1 = (documentTable a s).map PolicyTable.texts) ∧
    (∀ t logic, documentTable a s = .ok t → LooksUp a s logic →
      (t.texts.validatorsFor logic).map (List.map Letters.ofText) = t.lookUp (.ofText logic)) ∧
    ((main debugs schedule argv s).1.exitCode? = some 0 →
      Delivered schedule a s (main debugs schedule argv s).1
        (main debugs schedule argv s).2.files) ∧
    ((main debugs schedule argv s).1.exitCode? ≠ some 0 →
      (main debugs schedule argv s).1.output = [] ∧
        Untouched a s (main debugs schedule argv s).2.files) ∧
    ((main debugs schedule argv s).1.exitCode? = some 1 ↔
      a.logLevel.isSome = true ∧ Fails schedule a s) := by
  refine ⟨fun settings => congrArg Prod.fst (table_run a { s with settings }),
    fun t logic ht hlogic => PolicyTable.lookUp_texts fun names => htexts t logic names ht hlogic,
    ?_⟩
  rcases hlevel : a.logLevel with _ | level
  · have hmain : main debugs schedule argv s = (.escaped none (.blank .level), s) := by
      unfold main
      rw [hrequest]
      dsimp only
      rw [hlevel]
    rw [hmain]
    exact ⟨fun h => (nomatch h), fun _ => ⟨rfl, .refl _⟩,
      iff_of_false (fun h => nomatch h) (fun h => nomatch h.1)⟩
  · have E := main_ends schedule s hrequest hlevel
    refine ⟨E.delivered hclosed hname, E.untouched hclosed hname, ?_⟩
    rw [E.exitCode?_eq_one_iff]
    exact (and_iff_right rfl).symm

/-- A session with a sat answer and a benchmark in files. -/
def answeredSession : Session :=
  .fresh ⟨[(["core.txt".toList], .file (Text.Utf8.encode "sat\n".toList) false),
    (["b.smt2".toList], .file (Text.Utf8.encode "(set-logic QF_LIA)\n".toList) false)]⟩ .empty

/-- A command line that asks for the report in a file. -/
def filingWords : List Text :=
  ["core.txt".toList, "b.smt2".toList, "--output".toList, "out.txt".toList]

/-- What it asks for. -/
def filingArguments : Arguments :=
  { Arguments.standard .warning with
    files := [some "core.txt".toList, some "b.smt2".toList]
    output := some "out.txt".toList }

theorem closed_answeredSession : answeredSession.files.Closed := by
  have hanswer : (FileTree.empty.put ([] ++ ["core.txt".toList])
      (.file (Text.Utf8.encode "sat\n".toList) false)).Closed :=
    Audit.closed_empty.put rfl (Or.inr (by decide))
  have hboth : (FileTree.put ⟨[(["core.txt".toList],
        .file (Text.Utf8.encode "sat\n".toList) false)]⟩ ([] ++ ["b.smt2".toList])
      (.file (Text.Utf8.encode "(set-logic QF_LIA)\n".toList) false)).Closed :=
    hanswer.put rfl (Or.inr (by decide))
  exact hboth

/-- The report of a sat answer goes to the file that was asked for, and nowhere else. -/
theorem main_delivers_filing :
    answeredSession.files.Closed ∧
      Path.IsName (answeredSession.files.freeName answeredSession.host.scratchStem) ∧
      Request.ofWords (standardLevel false) filingWords = .ok (.audit filingArguments) ∧
      NamesTexts filingArguments answeredSession ∧
      (main false [] filingWords answeredSession).1.output = [] ∧
      ∃ r w, report [] filingArguments "core.txt".toList "b.smt2".toList answeredSession = (.ok r, w) ∧
        (main false [] filingWords answeredSession).2.files.read [] "out.txt".toList =
          .ok (Text.Utf8.encode r.text) := by
  have hname : Path.IsName (answeredSession.files.freeName answeredSession.host.scratchStem) :=
    ⟨⟨by decide, by decide, by decide, by decide, by decide⟩, by decide⟩
  have hrequest : Request.ofWords (standardLevel false) filingWords = .ok (.audit filingArguments) :=
    rfl
  have hcode : (main false [] filingWords answeredSession).1.exitCode? = some 0 := by decide +kernel
  have htexts : NamesTexts filingArguments answeredSession := by
    rintro t logic names - ⟨answer, script, hanswer, hunsat, -⟩
    obtain rfl : Text.Utf8.encode "sat\n".toList = answer := Except.ok.inj hanswer
    exact absurd hunsat (by decide +kernel)
  obtain ⟨-, -, hdelivers, -, -⟩ :=
    main_delivers false [] filingWords answeredSession closed_answeredSession hname hrequest htexts
  obtain ⟨r, w, hreport, -, ⟨hnone, -⟩ | ⟨path, hpath, houtput, -, hread⟩⟩ := hdelivers hcode
  · cases hnone
  · cases hpath
    exact ⟨closed_answeredSession, hname, hrequest, htexts, houtput, r, w, hreport, hread⟩

/-- A name that is too long for a file. -/
def longName : Text := List.replicate 300 'n'

/-- A file whose name is too long is not there, and still the exit code is not one: its lookup ends
in a fault of the files, which is not reported. -/
theorem not_main_of_longName :
    Request.ofWords (standardLevel false) [longName, "b.smt2".toList] =
        .ok (.audit { Arguments.standard .warning with
          files := [some longName, some "b.smt2".toList] }) ∧
      answeredSession.files.isThere [] longName = false ∧
      (main false [] [longName, "b.smt2".toList] answeredSession).1.exitCode? = none := by
  exact ⟨Request.ofWords_two _ (by decide) (by decide), by decide +kernel, by decide +kernel⟩

end CommandLine

end CoreAudit
