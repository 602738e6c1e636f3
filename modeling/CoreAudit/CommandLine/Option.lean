import CoreAudit.Fault
import CoreAudit.Log
import CoreAudit.Number.Numeral
import CoreAudit.Text.Quoted

/-!
# The options of the command line

The words of a command line are options and values. A long option may be cut short as long as only
one option starts that way, and a value may be joined to it by an equals sign.

Models the options of `main`.

* **`Word.ofText`**: what a word of the command line is.
* `Complaint.message`: what is said of a command line that cannot be read.
* `Word.ofText_spelling`: an option that is spelled out is that option.
-/

namespace CoreAudit.CommandLine

/-- An option. -/
inductive Switch where
  | help
  | scrambler
  | solverPath
  | logicTable
  | timeout
  | killAfter
  | scramblerTimeout
  | jobs
  | output
  | keepScratch
  | logLevel
  deriving Repr, DecidableEq

namespace Switch

/-- The spellings of an option. -/
def spellings : Switch → List Text
  | help => ["-h".toList, "--help".toList]
  | scrambler => ["--scrambler".toList]
  | solverPath => ["--solver-path".toList]
  | logicTable => ["--logic-table".toList]
  | timeout => ["--timeout".toList]
  | killAfter => ["--kill-after".toList]
  | scramblerTimeout => ["--scrambler-timeout".toList]
  | jobs => ["--jobs".toList]
  | output => ["--output".toList]
  | keepScratch => ["--keep-workdir".toList]
  | logLevel => ["--log-level".toList]

/-- All options, in the order in which they are listed. -/
def all : List Switch :=
  [help, scrambler, solverPath, logicTable, timeout, killAfter, scramblerTimeout, jobs, output,
   keepScratch, logLevel]

/-- The option is given with a value. -/
def takesValue : Switch → Bool
  | help | keepScratch => false
  | _ => true

/-- The name by which complaints speak of an option. -/
def shown (s : Switch) : Text := Text.joined ['/'] s.spellings

/-- All spellings with their options. -/
def table : List (Text × Switch) := all.flatMap fun s => s.spellings.map fun t => (t, s)

/-- The option that is spelled so. -/
def ofSpelling? (t : Text) : Option Switch := table.lookup t

end Switch

/-- What is wrong with a command line. -/
inductive Complaint where
  | ambiguous (word : Text) (spellings : List Text)
  | valueExpected (s : Switch)
  /-- An option without a value was given one. -/
  | valueIgnored (s : Switch) (value : Text)
  | notNumber (s : Switch) (kind value : Text)
  | notChoice (s : Switch) (value : Text) (choices : List Text)
  | missing (names : List Text)
  | unrecognized (words : List Text)
  deriving Repr, DecidableEq

/-- What is said of an option. -/
def Switch.complain (s : Switch) (t : Text) : Text :=
  "argument ".toList ++ s.shown ++ ": ".toList ++ t

/-- What is said of a command line that cannot be read. -/
def Complaint.message : Complaint → Text
  | ambiguous word spellings =>
    "ambiguous option: ".toList ++ word ++ " could match ".toList
      ++ Text.joined ", ".toList spellings
  | valueExpected s => s.complain "expected one argument".toList
  | valueIgnored s value => s.complain ("ignored explicit argument ".toList ++ value.quoted)
  | notNumber s kind value =>
    s.complain ("invalid ".toList ++ kind ++ " value: ".toList ++ value.quoted)
  | notChoice s value choices =>
    s.complain ("invalid choice: ".toList ++ value.quoted ++ " (choose from ".toList
      ++ Text.joined ", ".toList (choices.map Text.quoted) ++ [')'])
  | missing names =>
    "the following arguments are required: ".toList ++ Text.joined ", ".toList names
  | unrecognized words => "unrecognized arguments: ".toList ++ Text.joined [' '] words

/-- A word of a command line. -/
inductive Word where
  | value (t : Text)
  /-- An option in one of its spellings, with the value joined to it. -/
  | option (s : Switch) (spelling : Text) (joined : Option Text)
  /-- A word that looks like an option. -/
  | unknown (t : Text)
  deriving Repr, DecidableEq

namespace Word

/-- The word is a negative number: a minus sign and digits, with at most one point in front of the
last of them. One line feed at its end does no harm. -/
def isNegativeNumber : Text → Bool
  | '-' :: t =>
    let t := if t.getLast? == some '\n' then t.dropLast else t
    let rest := t.dropWhile Text.Digit.isDigit
    match rest with
    | [] => !t.isEmpty
    | '.' :: places => !places.isEmpty && places.all Text.Digit.isDigit
    | _ => false
  | _ => false

/-- The options that a word may stand for when it is cut short, with the values joined to it. A
word with one minus sign is a short option with its value behind it. -/
def candidates (t : Text) : List (Switch × Text × Option Text) :=
  if "--".toList.isPrefixOf t then
    let (start, given) := t.cut '='
    Switch.table.filterMap fun e =>
      if start.isPrefixOf e.1 then some (e.2, e.1, given) else none
  else
    Switch.table.filterMap fun e =>
      if e.1 = t.take 2 then some (e.2, e.1, some (t.drop 2))
      else if t.isPrefixOf e.1 then some (e.2, e.1, none)
      else none

/-- The option that a word spells out, with the value joined to it. -/
def spelledOut? (t : Text) : Option (Switch × Text × Option Text) :=
  match Switch.ofSpelling? t with
  | some s => some (s, t, none)
  | none =>
    match t.cut '=' with
    | (start, some given) =>
      (Switch.ofSpelling? start).map fun s => (s, start, some given)
    | _ => none

/-- What a word is. A word that looks like an option but is none is a value where it is a negative
number or holds a space. -/
def ofText (t : Text) : Except Complaint Word :=
  if t.head? != some '-' || t = ['-'] then .ok (.value t)
  else
    match spelledOut? t with
    | some (s, spelling, given) => .ok (.option s spelling given)
    | none =>
      match candidates t with
      | [(s, spelling, given)] => .ok (.option s spelling given)
      | [] =>
        if isNegativeNumber t || t.elem ' ' then .ok (.value t) else .ok (.unknown t)
      | many => .error (.ambiguous t (many.map fun c => c.2.1))

/-- An option that is spelled out is that option. -/
theorem ofText_spelling (s : Switch) {t : Text} (h : t ∈ s.spellings) :
    ofText t = .ok (.option s t none) := by
  cases s <;> simp only [Switch.spellings, List.mem_cons, List.not_mem_nil, or_false] at h
  case help => rcases h with rfl | rfl <;> rfl
  all_goals subst h; rfl

end Word

end CoreAudit.CommandLine
