import CoreAudit.Files.Tree
import CoreAudit.Json.Reader
import CoreAudit.Text.Quoted

/-!
# Faults

Everything that can stop an audit, as a cause. The wording of a cause is in one function, the
name of its class in another. A fault of a file, of a tool's start or of a wait is an
input-output fault: it costs a validator its vote and no more. The faults that the command line
reports are those of the program's own rules and of unusable values.

Models `CorecheckException`, `UnknownLogicError`, `MissingLogicError`, `ToolNotFoundError` and the
built-in errors that the modelled functions raise or pass on. A message is a text as it is shown:
where it speaks of a string that is no text, halves of pairs are written as escapes.

* **`Fault.message`**, **`Fault.className`**: wording and class.
* `not_isReported_of_isInputOutput`: no fault is both passed over as a lost vote and reported.
-/

namespace CoreAudit

/-- The class of a fault that a tool, a runner or a task raises of its own accord. -/
inductive FaultClass where
  | inputOutput
  | missingFile
  | permission
  | isDirectory
  | notDirectory
  | taken
  | expired
  | interrupted
  | wouldBlock
  | noChild
  | noProcess
  | connection
  | brokenPipe
  | connectionAborted
  | connectionRefused
  | connectionReset
  | missingTool
  | value
  | encoding
  | key
  | type
  | noAttribute
  | overflow
  | runtime
  | other (name : Text)
  deriving Repr, DecidableEq

namespace FaultClass

/-- The name of a class. -/
def name : FaultClass → Text
  | inputOutput => "OSError".toList
  | missingFile => "FileNotFoundError".toList
  | permission => "PermissionError".toList
  | isDirectory => "IsADirectoryError".toList
  | notDirectory => "NotADirectoryError".toList
  | taken => "FileExistsError".toList
  | expired => "TimeoutError".toList
  | interrupted => "InterruptedError".toList
  | wouldBlock => "BlockingIOError".toList
  | noChild => "ChildProcessError".toList
  | noProcess => "ProcessLookupError".toList
  | connection => "ConnectionError".toList
  | brokenPipe => "BrokenPipeError".toList
  | connectionAborted => "ConnectionAbortedError".toList
  | connectionRefused => "ConnectionRefusedError".toList
  | connectionReset => "ConnectionResetError".toList
  | missingTool => "ToolNotFoundError".toList
  | value => "ValueError".toList
  | encoding => "UnicodeError".toList
  | key => "KeyError".toList
  | type => "TypeError".toList
  | noAttribute => "AttributeError".toList
  | overflow => "OverflowError".toList
  | runtime => "RuntimeError".toList
  | other name => name

/-- The class is one of input and output. -/
def isInputOutput : FaultClass → Bool
  | inputOutput | missingFile | permission | isDirectory | notDirectory | taken | expired
  | interrupted | wouldBlock | noChild | noProcess | connection | brokenPipe | connectionAborted
  | connectionRefused | connectionReset => true
  | _ => false

/-- The class is one of the program's own rules or of unusable values. -/
def isReported : FaultClass → Bool
  | missingTool | value | encoding => true
  | _ => false

end FaultClass

/-- What can be left blank on a command line: the mark that ends the options stands in the place of
a file or of an option's value. -/
inductive Blank where
  | file
  | solverPath
  | budget
  | jobs
  | level
  deriving Repr, DecidableEq

namespace Blank

/-- The class name of what is left blank. -/
def className : Blank → Text
  | file | budget | jobs => "TypeError".toList
  | solverPath | level => "AttributeError".toList

/-- The wording of what is left blank. -/
def message : Blank → Text
  | file => "expected str, bytes or os.PathLike object, not list".toList
  | solverPath => "'list' object has no attribute 'partition'".toList
  | budget =>
    "int() argument must be a string, a bytes-like object or a real number, not 'list'".toList
  | jobs => "'>' not supported between instances of 'list' and 'int'".toList
  | level => "'list' object has no attribute 'upper'".toList

end Blank

/-- A cause that stops an audit. -/
inductive Fault where
  /-- The table has no validators for the logic. -/
  | unknownLogic (logic : Letters)
  /-- The script, named by its file, declares no logic. -/
  | missingLogic (source : Text)
  /-- A core must be rebuilt, and there is no scrambler. -/
  | noScrambler
  | unknownTool (name : Text)
  | noSuchPath (path : Text)
  /-- A solver path is not written as `NAME=PATH`. -/
  | notAssignment (entry : Text)
  /-- A logic of a table is given no list of validators, or an empty one. -/
  | noValidators (logic : Letters)
  /-- A table is not an object, but a value of this kind. -/
  | notObject (kind : Text)
  /-- The validators of a logic are a value of this kind, which has no items. -/
  | notIterable (kind : Text)
  /-- The document has a flaw where `rest` characters are unread. -/
  | badJson (flaw : Json.Flaw) (document : Text) (rest : Nat)
  | badEncoding (breach : Text.Utf8.Breach)
  /-- A string has a gap, so that it cannot be written to a file or name one. -/
  | unencodable (gap : Letters.Gap)
  | numeralTooLong (digits : Nat)
  /-- Some of these digits cannot be read. -/
  | notNumeral (digits : Text)
  /-- An array or object of the document stands inside too many others. -/
  | tooDeep (container : Json.Container)
  /-- A path leads nowhere; a start of a missing executable names no path. -/
  | file (problem : PathProblem) (path : Option Text)
  /-- A budget that is not a number cannot be given to the prover in the process. -/
  | budgetNotNumber
  | budgetInfinite
  | noWorkers
  | poolClosed
  /-- The tasks of a pool took longer than they may. -/
  | poolExpired
  /-- The tasks of a pool may take longer than can be waited for. -/
  | limitTooLong
  /-- A pair of a batch has this many members instead of two. -/
  | notPair (members : Nat)
  | unknownState (name : Text)
  | missingKey (key : Text)
  /-- The table has no row for the logic. -/
  | missingRow (logic : Letters)
  /-- What is needed was left blank. -/
  | blank (what : Blank)
  /-- A tool, a runner or a task raised a fault with this text. -/
  | raised (kind : FaultClass) (text : Text)
  deriving Repr, DecidableEq

namespace PathProblem

/-- The number of a problem. -/
def number : PathProblem → Nat
  | missing => 2
  | notDirectory => 20
  | isDirectory => 21
  | taken => 17
  | tooLong => 36
  | nullCharacter | tooDeep => 0

/-- The wording of a problem. -/
def message : PathProblem → Text
  | missing => "No such file or directory".toList
  | notDirectory => "Not a directory".toList
  | isDirectory => "Is a directory".toList
  | taken => "File exists".toList
  | tooLong => "File name too long".toList
  | nullCharacter => "embedded null byte".toList
  | tooDeep => "maximum recursion depth exceeded".toList

/-- The class name of a problem. -/
def className : PathProblem → Text
  | missing => "FileNotFoundError".toList
  | notDirectory => "NotADirectoryError".toList
  | isDirectory => "IsADirectoryError".toList
  | taken => "FileExistsError".toList
  | tooLong => "OSError".toList
  | nullCharacter => "ValueError".toList
  | tooDeep => "RecursionError".toList

end PathProblem

namespace Fault

/-- The name of the fault's class. -/
def className : Fault → Text
  | unknownLogic _ => "UnknownLogicError".toList
  | missingLogic _ => "MissingLogicError".toList
  | noScrambler => "ToolNotFoundError".toList
  | unknownTool _ | noSuchPath _ | notAssignment _ | noValidators _ | numeralTooLong _
  | notNumeral _ | budgetNotNumber | noWorkers | unknownState _ => "ValueError".toList
  | notObject _ => "AttributeError".toList
  | notIterable _ | notPair _ => "TypeError".toList
  | badJson _ _ _ => "JSONDecodeError".toList
  | badEncoding _ => "UnicodeDecodeError".toList
  | unencodable _ => "UnicodeEncodeError".toList
  | file problem _ => problem.className
  | tooDeep _ => "RecursionError".toList
  | budgetInfinite | limitTooLong => "OverflowError".toList
  | poolClosed => "RuntimeError".toList
  | poolExpired => "TimeoutError".toList
  | missingKey _ | missingRow _ => "KeyError".toList
  | blank what => what.className
  | raised kind _ => kind.name

/-- The wording of what is wrong with ill-formed bytes. -/
def breachMessage (b : Text.Utf8.Breach) : Text :=
  let place :=
    if b.width = 1 then
      "byte 0x".toList ++ Text.hexDigits 2 b.first.toNat ++ " in position ".toList
        ++ Text.ofNat b.position
    else
      "bytes in position ".toList ++ Text.ofNat b.position ++ '-' ::
        Text.ofNat (b.position + b.width - 1)
  let flaw := match b.flaw with
    | .start => "invalid start byte".toList
    | .continuation => "invalid continuation byte".toList
    | .ending => "unexpected end of data".toList
  "'utf-8' codec can't decode ".toList ++ place ++ ": ".toList ++ flaw

/-- The wording of a string that has no bytes. -/
def gapMessage (g : Letters.Gap) : Text :=
  let place :=
    if g.width = 1 then
      "character '".toList ++ Letter.escaped g.first ++ "' in position ".toList
        ++ Text.ofNat g.position
    else
      "characters in position ".toList ++ Text.ofNat g.position ++ '-' ::
        Text.ofNat (g.position + g.width - 1)
  "'utf-8' codec can't encode ".toList ++ place ++ ": surrogates not allowed".toList

/-- The wording of a pair that is no pair. -/
def pairMessage (members : Nat) : Text :=
  let subject := "UnsatCorePipeline.process_files() ".toList
  match members with
  | 0 => subject ++
      "missing 2 required positional arguments: 'transcript_path' and 'benchmark_path'".toList
  | 1 => subject ++ "missing 1 required positional argument: 'benchmark_path'".toList
  | n => subject ++ "takes 3 positional arguments but ".toList ++ Text.ofNat (n + 1)
      ++ " were given".toList

/-- The wording of a fault as it is shown: halves of pairs are written as escapes. -/
def message : Fault → Text
  | unknownLogic logic => "No validation solvers configured for logic: ".toList ++ logic.quoted
  | missingLogic source => "No (set-logic ...) command in ".toList ++ source
  | noScrambler =>
    "scrambler not found. Put it on PATH, into bin_solvers/ or point ".toList
      ++ "CORECHECK_SCRAMBLER at it.".toList
  | unknownTool name => "Unknown tool: ".toList ++ name
  | noSuchPath path => "Path does not exist: ".toList ++ path
  | notAssignment entry => "Expected NAME=PATH, got ".toList ++ entry.quoted
  | noValidators logic =>
    "Logic ".toList ++ logic.shown ++ " needs a non-empty list of validators".toList
  | notObject kind => '\'' :: kind ++ "' object has no attribute 'items'".toList
  | notIterable kind => '\'' :: kind ++ "' object is not iterable".toList
  | badJson flaw document rest => Json.describe flaw document rest
  | badEncoding breach => breachMessage breach
  | unencodable gap => gapMessage gap
  | numeralTooLong digits =>
    "Exceeds the limit (4300 digits) for integer string conversion: value has ".toList
      ++ Text.ofNat digits
      ++ " digits; use sys.set_int_max_str_digits() to increase the limit".toList
  | notNumeral digits =>
    "invalid literal for int() with base 10: ".toList ++ digits.quoted.take 200
  | tooDeep .array =>
    "maximum recursion depth exceeded while decoding a JSON array from a unicode string".toList
  | tooDeep .object =>
    "maximum recursion depth exceeded while decoding a JSON object from a unicode string".toList
  | file .nullCharacter _ => PathProblem.nullCharacter.message
  | file .tooDeep _ => PathProblem.tooDeep.message
  | file problem path =>
    "[Errno ".toList ++ Text.ofNat problem.number ++ "] ".toList ++ problem.message
      ++ (path.map fun p => ": ".toList ++ p.quoted).getD []
  | budgetNotNumber => "cannot convert float NaN to integer".toList
  | budgetInfinite => "cannot convert float infinity to integer".toList
  | noWorkers => "max_workers must be greater than 0".toList
  | poolClosed => "cannot schedule new futures after shutdown".toList
  | poolExpired => "parallel execution timed out".toList
  | limitTooLong => "timestamp too large to convert to C _PyTime_t".toList
  | notPair members => pairMessage members
  | unknownState name => name.quoted ++ " is not a valid PipelineState".toList
  | missingKey key => key.quoted
  | missingRow logic => logic.quoted
  | blank what => what.message
  | raised _ text => text

/-- The fault is one of input and output: of a file, of a start, of a wait. -/
def isInputOutput : Fault → Bool
  | file .nullCharacter _ | file .tooDeep _ => false
  | file _ _ => true
  | poolExpired => true
  | raised kind _ => kind.isInputOutput
  | _ => false

/-- The fault is one of the program's own rules or of an unusable value: the command line
reports it and does not pass it on. -/
def isReported : Fault → Bool
  | unknownLogic _ | missingLogic _ | noScrambler | unknownTool _ | noSuchPath _
  | notAssignment _ | noValidators _ | badJson _ _ _ | badEncoding _ | unencodable _
  | numeralTooLong _ | notNumeral _ | budgetNotNumber | noWorkers | unknownState _ => true
  | file .nullCharacter _ => true
  | raised kind _ => kind.isReported
  | _ => false

/-- No fault is both passed over as a lost vote and reported. -/
theorem not_isReported_of_isInputOutput {f : Fault} (h : f.isInputOutput = true) :
    f.isReported = false := by
  cases f with
  | file problem _ => cases problem <;> simp_all [isInputOutput, isReported]
  | raised kind _ =>
    cases kind <;>
      simp_all [isInputOutput, isReported, FaultClass.isInputOutput, FaultClass.isReported]
  | _ => simp_all [isInputOutput, isReported]

end Fault

end CoreAudit
