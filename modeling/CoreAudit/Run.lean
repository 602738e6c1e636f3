import CoreAudit.Budget
import CoreAudit.Files.Tree
import CoreAudit.Text.Blank
import CoreAudit.Text.Lines

/-!
# Runs of a tool

What a tool is asked (`Invocation`), what it is shown of the files at that moment (`Call`), and what
comes of it (`RunResult`).
-/

namespace CoreAudit

/-- What came of a run: what it printed, the seconds it took, its exit code if it has one, and
whether its budget ran out. -/
structure RunResult where
  stdout : Text
  elapsed : Float
  returnCode : Option Int
  timedOut : Bool
  deriving Repr

/-- The first line of what was printed, without the blanks at its ends; empty if there is none. -/
def RunResult.firstLine (r : RunResult) : Text := (r.stdout.splitLines.head?.map Text.trim).getD []

/-- A run that is asked for. -/
structure Invocation where
  /-- The file that the tool reads, named by its last argument. -/
  input : Option Text
  args : List Text
  /-- The budget, if there is one. -/
  timeout : Option Budget
  /-- The file that the tool is fed. -/
  stdin : Option Text
  /-- The directory that the tool runs in. -/
  workdir : Option Text
  deriving Repr

/-- A word with the content of the file that it names at the moment, if it names one. -/
structure Named where
  word : Text
  content : Option Bytes
  deriving Repr, DecidableEq

/-- The word with the content of the file that it names in a tree. -/
def Named.ofTree (files : FileTree) (here : Location) (word : Text) : Named :=
  ⟨word, (files.read here word).toOption⟩

/-- A run that a runner was asked for, with what the runner could see of the files. -/
structure Call where
  input : Option Named
  args : List Named
  timeout : Option Budget
  stdin : Option Named
  workdir : Option Text
  workdirExists : Bool
  deriving Repr

/-- A start of an executable: its command line with the files that the words name, the bytes that
it is fed, and the directory that it runs in. -/
structure Start where
  command : List Named
  workdir : Option Text
  stdin : Option Bytes
  ownSession : Bool
  deriving Repr

end CoreAudit
