import CoreAudit.Budget
import CoreAudit.CommandLine.Option

/-!
# Arguments

A command line names a solver's output file and a benchmark's file, in that order, among options
in any order. After two minus signs that stand alone every word is a value.

Models the argument parser that `main` sets up. Out of scope: an option whose joined value is two
minus signs, for which the parser hands on an empty list; it is refused here.

* **`Request.ofWords`**: what a command line asks for.
* `ofWords_two`: two values are the two files.
-/

namespace CoreAudit.CommandLine

/-- What is asked for. Whatever the mark that ends the options takes the place of is left blank:
there is no file, no solver path, no number of jobs or no level. -/
structure Arguments where
  /-- The solver's output file and the benchmark's file. -/
  files : List (Option Text)
  scrambler : Option Text
  solverPaths : List (Option Text)
  logicTable : Option Text
  timeout : Option Budget
  killAfter : Option Budget
  scramblerTimeout : Option Budget
  jobs : Option Int
  output : Option Text
  keepScratch : Bool
  logLevel : Option Level
  deriving Repr

namespace Arguments

/-- Nothing is asked for yet. -/
def standard (level : Level) : Arguments :=
  ⟨[], none, [], none, none, none, none, some 1, none, false, some level⟩

/-- The mark that ends the options. -/
def divider : Text := ['-', '-']

/-- The names of the two files. -/
def fileNames : List Text := ["transcript".toList, "benchmark".toList]

/-- One of the two files is not named yet. -/
def lacksFile (a : Arguments) : Bool := decide (a.files.length < fileNames.length)

/-- The budget in a value. -/
def budget (s : Switch) (value : Text) : Except Complaint Budget :=
  match Number.float? value with
  | some x => .ok (.seconds x)
  | none => .error (.notNumber s "float".toList value)

/-- The whole number in a value. -/
def whole (s : Switch) (value : Text) : Except Complaint Int :=
  match Number.integer? value with
  | some n => .ok n
  | none => .error (.notNumber s "int".toList value)

/-- The level in a value. -/
def level (s : Switch) (value : Text) : Except Complaint Level :=
  match Level.ofName? value with
  | some l => .ok l
  | none => .error (.notChoice s value (Level.all.map Level.name))

/-- The arguments with the value of an option left blank. A path that may be left out is left
out. -/
def leaveBlank (a : Arguments) : Switch → Arguments
  | .scrambler => { a with scrambler := none }
  | .solverPath => { a with solverPaths := a.solverPaths ++ [none] }
  | .logicTable => { a with logicTable := none }
  | .timeout => { a with timeout := some .blank }
  | .killAfter => { a with killAfter := some .blank }
  | .scramblerTimeout => { a with scramblerTimeout := some .blank }
  | .jobs => { a with jobs := none }
  | .output => { a with output := none }
  | .logLevel => { a with logLevel := none }
  | .help | .keepScratch => a

/-- The arguments with the value of an option. The mark that ends the options is no value. -/
def setValue (a : Arguments) (s : Switch) (value : Text) : Except Complaint Arguments :=
  if value = divider then .ok (a.leaveBlank s)
  else
    match s with
    | .scrambler => .ok { a with scrambler := some value }
    | .solverPath => .ok { a with solverPaths := a.solverPaths ++ [some value] }
    | .logicTable => .ok { a with logicTable := some value }
    | .timeout => (budget s value).map fun b => { a with timeout := some b }
    | .killAfter => (budget s value).map fun b => { a with killAfter := some b }
    | .scramblerTimeout => (budget s value).map fun b => { a with scramblerTimeout := some b }
    | .jobs => (whole s value).map fun n => { a with jobs := some n }
    | .output => .ok { a with output := some value }
    | .logLevel => (level s value).map fun l => { a with logLevel := some l }
    | .help | .keepScratch => .ok a

end Arguments

/-- What a command line asks for. -/
inductive Request where
  | help
  | audit (a : Arguments)
  deriving Repr

namespace Request

/-- The reading so far: the arguments, the words that were not recognized, and whether the last
word was a file. -/
structure State where
  arguments : Arguments
  extras : List Text
  afterFile : Bool
  deriving Repr

namespace State

/-- A word that was not recognized. -/
def extra (st : State) (t : Text) : State :=
  { st with extras := st.extras ++ [t], afterFile := false }

/-- One of the two files. -/
def file (st : State) (name : Option Text) : State :=
  { st with
    arguments := { st.arguments with files := st.arguments.files ++ [name] }
    afterFile := true }

/-- A value that stands alone: one of the two files, or one too many. -/
def value (st : State) (t : Text) : State :=
  if st.arguments.lacksFile then st.file (some t) else st.extra t

/-- An option was read. -/
def setArguments (st : State) (a : Arguments) : State :=
  { st with arguments := a, afterFile := false }

/-- A value behind the mark that ends the options; the mark once more names no file. -/
def lateValue (st : State) (t : Text) : State :=
  if st.arguments.lacksFile && t == Arguments.divider then st.file none else st.value t

/-- The values behind the mark that ends the options. -/
def values (st : State) (ts : List Text) : State := ts.foldl lateValue st

/-- The words from the mark that ends the options on. The mark goes with the file before it or
with the one behind it; where there is neither it is not recognized. -/
def tail (st : State) : Option (List Text) → State
  | none => st
  | some rest =>
    if st.afterFile then st.values rest
    else
      match st.arguments.lacksFile, rest with
      | true, t :: rest => (st.value t).values rest
      | _, rest => (st.extra Arguments.divider).values rest

end State

/-- A value was joined to an option that has none. Short options may be written one behind the
other. -/
def joinedToFlag (s : Switch) (spelling value : Text) : Except Complaint Unit :=
  let rest := match spelling with
    | ['-', c] => value.dropWhile (· == c)
    | _ => value
  if rest.isEmpty && !value.isEmpty then .ok () else .error (.valueIgnored s rest)

/-- Reads words in order; the result is the reading, or nothing where help is asked for. -/
def read (st : State) : List Word → Except Complaint (Option State)
  | [] => .ok (some st)
  | .value t :: rest => read (st.value t) rest
  | .unknown t :: rest => read (st.extra t) rest
  | .option s spelling joined :: rest =>
    if s.takesValue then
      match joined, rest with
      | some value, rest =>
        match st.arguments.setValue s value with
        | .error c => .error c
        | .ok a => read (st.setArguments a) rest
      | none, .value value :: rest =>
        match st.arguments.setValue s value with
        | .error c => .error c
        | .ok a => read (st.setArguments a) rest
      | none, _ => .error (.valueExpected s)
    else
      match joined.elim (.ok ()) (joinedToFlag s spelling) with
      | .error c => .error c
      | .ok () =>
        if s = .help then .ok none
        else read (st.setArguments { st.arguments with keepScratch := true }) rest

/-- What is asked for once all words are read. -/
def conclude (st : State) : Except Complaint Request :=
  let missing := Arguments.fileNames.drop st.arguments.files.length
  if !missing.isEmpty then .error (.missing missing)
  else if !st.extras.isEmpty then .error (.unrecognized st.extras)
  else .ok (.audit st.arguments)

/-- The words of texts, or the first complaint about one of them. -/
def words : List Text → Except Complaint (List Word)
  | [] => .ok []
  | t :: rest =>
    match Word.ofText t with
    | .error c => .error c
    | .ok w => (words rest).map (w :: ·)

/-- What a command line asks for; records are shown from `level` on unless it says otherwise. -/
def ofWords (level : Level) (argv : List Text) : Except Complaint Request :=
  let before := argv.takeWhile (· != Arguments.divider)
  let after := (argv.dropWhile (· != Arguments.divider)).tail?
  match words before with
  | .error c => .error c
  | .ok ws =>
    match read ⟨.standard level, [], false⟩ ws with
    | .error c => .error c
    | .ok none => .ok .help
    | .ok (some st) => conclude (st.tail after)

/-- A word that does not start with a minus sign is a value. -/
theorem ofText_of_head_ne {t : Text} (h : t.head? ≠ some '-') :
    Word.ofText t = .ok (.value t) := by
  simp [Word.ofText, h]

/-- Two values are the two files. -/
theorem ofWords_two (level : Level) {transcript benchmark : Text}
    (ht : transcript.head? ≠ some '-') (hb : benchmark.head? ≠ some '-') :
    ofWords level [transcript, benchmark] = .ok (.audit
      { Arguments.standard level with files := [some transcript, some benchmark] }) := by
  have hne : ∀ {t : Text}, t.head? ≠ some '-' → (t != Arguments.divider) = true := by
    intro t h
    simp only [bne_iff_ne, ne_eq]
    rintro rfl
    exact h rfl
  simp [ofWords, hne ht, hne hb, words, ofText_of_head_ne ht, ofText_of_head_ne hb, Except.map,
    read, State.value, State.file, State.tail, conclude, Arguments.standard, Arguments.lacksFile,
    Arguments.fileNames]

end Request

end CoreAudit.CommandLine
