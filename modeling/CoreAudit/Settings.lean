import CoreAudit.Budget
import CoreAudit.Fault
import CoreAudit.Keyed
import CoreAudit.Log
import CoreAudit.Number.Numeral
import CoreAudit.Tool

/-!
# Settings

Where the tools are and how long they may take. At the start the budgets are read from the
environment and the tools are looked for, first among the project's own executables and then in
the directories of the search path; later a tool can be given a path.

Models `ToolConfig`, `_env_float` and `GlobalConfig`.

* **`Settings.atStart`**: the settings that the environment gives.
* `tools_put`: putting a tool at a path changes that tool and no other.
* `Settings.validatorConfig`: how the tools that validate are run.
-/

namespace CoreAudit

/-- The variables of the environment, the path along which executables are looked for, and the
directory that holds the project's own. -/
structure Surroundings where
  environment : Keyed Text Text
  /-- Directories with colons between them. -/
  searchPath : Text
  ownTools : Text
  deriving Repr

/-- The directories of the search path. The empty path has none; in any other, an empty piece is
the directory from which paths are walked. -/
def Surroundings.directories (s : Surroundings) : List Text :=
  if s.searchPath.isEmpty then [] else Text.splitAt ':' s.searchPath

/-- Where the tools are and how long they may take. -/
structure Settings where
  /-- What is known of every tool. -/
  tools : Tool → ToolEntry
  validationTimeout : Budget
  /-- The time between asking a tool to end and killing it. -/
  killAfter : Budget
  scramblerTimeout : Budget
  scramblerSeed : Int

namespace Settings

/-- The settings before anything is looked for. -/
def standard : Settings :=
  ⟨fun _ => .blank, .seconds 120.0, .seconds 10.0, .seconds 300.0, 0⟩

/-- The budget in a variable of the environment, or the standard one where there is none. A text
that is no number is recorded and ignored. -/
def budgetIn (environment : Keyed Text Text) (name : Text) (standard : Budget) :
    Budget × List LogRecord :=
  match environment.get? name with
  | none => (standard, [])
  | some [] => (standard, [])
  | some t =>
    match Number.float? t with
    | some x => (.seconds x, [])
    | none =>
      (standard, [⟨.warning, .configuration,
        "Ignoring non-numeric ".toList ++ name ++ '=' :: t.quoted⟩])

/-- The path of a tool's executable, if one is known. -/
def path (s : Settings) (t : Tool) : Option Text := (s.tools t).path

/-- The tool is there. -/
def available (s : Settings) (t : Tool) : Bool := (s.tools t).available

/-- The path of a tool in the first directory of the search path that has it. -/
def searched (files : FileTree) (here : Location) (s : Surroundings) (t : Tool) : Option Text :=
  (s.directories.map fun dir => Path.join dir t.name).find? (files.isExecutable here)

/-- The record that a missing tool leaves. -/
def missingRecord (t : Tool) : LogRecord :=
  ⟨.debug, .configuration, "Could not locate ".toList ++ t.name ++ " executable".toList⟩

/-- What is known of a tool after it was looked for: among the project's own executables, and only
if it is not there on the search path. What was known of a tool that is in neither stays as it was,
and that is recorded. -/
def locate (files : FileTree) (here : Location) (s : Surroundings) (t : Tool) (known : ToolEntry) :
    ToolEntry × List LogRecord :=
  let own := Path.join s.ownTools t.name
  if files.isExecutable here own then ({ known with path := some own, available := true }, [])
  else
    match searched files here s t with
    | some path => ({ known with path := some path, available := true }, [])
    | none => (known, [missingRecord t])

/-- The settings after all tools were looked for, with the records that this leaves. -/
def locateAll (s : Settings) (files : FileTree) (here : Location) (around : Surroundings) :
    Settings × List LogRecord :=
  let found (t : Tool) := locate files here around t (s.tools t)
  ({ s with tools := fun t => (found t).1 }, Tool.all.flatMap fun t => (found t).2)

/-- The settings with a tool at a path. -/
def put (s : Settings) (t : Tool) (path : Text) : Settings :=
  let entry : ToolEntry := { s.tools t with path := some path, available := true }
  { s with tools := fun u => if u = t then entry else s.tools u }

/-- The tool of a name, or the fault that there is none. -/
def toolOf (name : Text) : Except Fault Tool :=
  match Tool.ofName? name with
  | some t => .ok t
  | none => .error (.unknownTool name)

/-- The settings with the tool of a name at a path, which must lead somewhere. -/
def setPath (s : Settings) (files : FileTree) (here : Location) (name path : Text) :
    Except Fault Settings :=
  match toolOf name with
  | .error f => .error f
  | .ok t =>
    match files.resolve here path with
    | .error .tooLong => .error (.file .tooLong (some path))
    | .error _ => .error (.noSuchPath path)
    | .ok loc => .ok (s.put t (FileTree.pathOf loc))

/-- The path of the tool of a name. -/
def getPath (s : Settings) (name : Text) : Except Fault (Option Text) := (toolOf name).map s.path

/-- Whether the tool of a name is there. -/
def isAvailable (s : Settings) (name : Text) : Except Fault Bool := (toolOf name).map s.available

/-- How a tool that validates is run: whether it is there, its path, and the arguments that it is
always given. -/
structure ValidatorEntry where
  available : Bool
  path : Option Text
  args : List Text
  deriving Repr, DecidableEq

/-- How the tools that validate are run, by their names. -/
def validatorConfig (s : Settings) : Keyed Text ValidatorEntry :=
  Tool.validators.map fun t => (t.name, ⟨s.available t, s.path t, t.baseArgs⟩)

/-- A tool in one line. -/
def describe (s : Settings) (t : Tool) : Text :=
  "ToolConfig(name=".toList ++ t.name ++ ", exec_name=".toList ++ t.name ++ ", status=".toList
    ++ (if s.available t then "available".toList else "unavailable".toList) ++ [')']

/-- The name of the variable that points at the scrambler. -/
def scramblerVariable : Text := "CORECHECK_SCRAMBLER".toList

/-- The budgets that the environment gives, with the records that reading them leaves. -/
def budgets (environment : Keyed Text Text) : Settings × List LogRecord :=
  let (validation, r₁) := budgetIn environment "CORECHECK_VALIDATION_TIMEOUT".toList
    standard.validationTimeout
  let (killAfter, r₂) := budgetIn environment "CORECHECK_KILL_AFTER".toList standard.killAfter
  let (scrambler, r₃) := budgetIn environment "CORECHECK_SCRAMBLER_TIMEOUT".toList
    standard.scramblerTimeout
  ({ standard with
      validationTimeout := validation
      killAfter := killAfter
      scramblerTimeout := scrambler }, r₁ ++ r₂ ++ r₃)

/-- The settings at the start, with the records that making them leaves. A scrambler that the
environment points at must be there. -/
def atStart (files : FileTree) (here : Location) (s : Surroundings) :
    Except Fault Settings × List LogRecord :=
  let (settings, records) := budgets s.environment
  let (settings, missing) := settings.locateAll files here s
  let records := records ++ missing
  match s.environment.get? scramblerVariable with
  | none => (.ok settings, records)
  | some [] => (.ok settings, records)
  | some path => (settings.setPath files here Tool.scrambler.name path, records)

/-- The program is asked to show all records. No character above ASCII has a lower case that
occurs in the words. -/
def debugs (environment : Keyed Text Text) : Bool :=
  let t := ((environment.get? "CORECHECK_DEBUG".toList).getD "False".toList).map Char.toLower
  t = "true".toList || t = ['1'] || t = "yes".toList

/-- A tool that is put at a path is there, and no other tool has changed. -/
theorem tools_put (s : Settings) (t u : Tool) (path : Text) :
    (s.put t path).tools u = if u = t then ⟨some path, true⟩ else s.tools u := rfl

/-- How a tool that validates is run stands under its name. -/
theorem get?_validatorConfig (s : Settings) {t : Tool} (ht : t ∈ Tool.validators) :
    s.validatorConfig.get? t.name = some ⟨s.available t, s.path t, t.baseArgs⟩ := by
  simp only [Tool.validators, List.mem_cons, List.not_mem_nil, or_false] at ht
  rcases ht with rfl | rfl | rfl <;> rfl

end Settings

end CoreAudit
