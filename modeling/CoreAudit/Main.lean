import CoreAudit.CommandLine.Basic

/-!
# The executable

The executable reads the files that its command line names into a session, follows the command
line there, and writes out what it leaves.

Out of scope: starting processes. The session's host has none to offer, so the executable cannot
audit an unsat answer to its end: it stops with the fault that the first tool is missing.

* `Main.sessionOf`: the session of the files that were read.
* **`main`**: the executable.
-/

namespace CoreAudit.Main

/-- A host without processes. -/
def host : Host :=
  { launch := fun _ => .refused (.file .missing none)
    sessions := true
    prover := ⟨0.0, none, 0.0, none, .unknown⟩
    scratchStem := "corecheck-".toList }

/-- The paths that a word of the command line may name. -/
def pathsIn (word : Text) : List Text :=
  match word.cut '=' with
  | (_, some path) => [word, path]
  | _ => [word]

/-- The tree with the directories above a path, which are taken to be there. -/
def prepare (t : FileTree) (path : Text) : FileTree := (t.makePath [] (Path.parent path)).1

/-- The tree with a file at a path, if it can be there. -/
def mount (t : FileTree) (file : Text × Bytes) : FileTree :=
  (t.write [] file.1 file.2).toOption.getD t

/-- The session of the paths that the command line may name and the files that were read, or the
fault of the settings. -/
def sessionOf (environment : Keyed Text Text) (paths : List Text) (files : List (Text × Bytes)) :
    Except Fault Session :=
  let tree := files.foldl mount (paths.foldl prepare FileTree.empty)
  let (settings, _) := Settings.atStart tree [] ⟨environment, [], "bin_solvers".toList⟩
  settings.map fun settings =>
    { host, here := [], files := tree, settings, toolbox := .empty, trace := [] }

/-- The files at paths whose content is another than before. -/
def changed (before after : FileTree) (paths : List Text) : List (Text × Bytes) :=
  paths.filterMap fun p =>
    match before.read [] p, after.read [] p with
    | .ok old, .ok new => if old = new then none else some (p, new)
    | .error _, .ok new => some (p, new)
    | _, _ => none

/-- The variables of the environment that the settings are read from. -/
def variableNames : List String :=
  ["CORECHECK_VALIDATION_TIMEOUT", "CORECHECK_KILL_AFTER", "CORECHECK_SCRAMBLER_TIMEOUT",
   "CORECHECK_SCRAMBLER", "CORECHECK_DEBUG"]

/-- The environment. -/
def readEnvironment : IO (Keyed Text Text) :=
  variableNames.filterMapM fun name => do
    return (← IO.getEnv name).map fun value => (name.toList, value.toList)

/-- The files at paths that can be read. -/
def readFiles (paths : List Text) : IO (List (Text × Bytes)) :=
  paths.filterMapM fun p => do
    match ← (IO.FS.readBinFile (String.ofList p)).toBaseIO with
    | .ok bytes => return some (p, bytes.toList)
    | .error _ => return none

/-- Writes files. -/
def writeFiles (files : List (Text × Bytes)) : IO Unit :=
  files.forM fun f => IO.FS.writeBinFile (String.ofList f.1) ⟨f.2.toArray⟩

/-- The exit code of a fault that goes on. -/
def faultCode : UInt32 := 1

/-- Shows a fault that goes on. -/
def showFault (f : Fault) : IO UInt32 := do
  (← IO.getStderr).putStrLn (String.ofList (f.className ++ ": ".toList ++ f.message))
  return faultCode

/-- Shows how the command line ended. -/
def showEnding (ending : CommandLine.Ending) (records : List LogRecord) : IO UInt32 := do
  (← IO.getStdout).putStr (String.ofList ending.output)
  (← IO.getStderr).putStr (String.ofList (ending.messages records))
  match ending, ending.exitCode? with
  | .escaped _ f, _ => showFault f
  | _, code => return (code.getD 0).toUInt32

/-- Follows a command line. -/
def follow (argv : List Text) : IO UInt32 := do
  let environment ← readEnvironment
  let paths := argv.flatMap pathsIn
  match sessionOf environment paths (← readFiles paths) with
  | .error f => showFault f
  | .ok session =>
    let (ending, after) := CommandLine.main (Settings.debugs environment) [] argv session
    writeFiles (changed session.files after.files paths)
    showEnding ending after.records

end CoreAudit.Main

/-- The executable. -/
def main (argv : List String) : IO UInt32 := CoreAudit.Main.follow (argv.map String.toList)
