import CoreAudit.CommandLine.Option
import CoreAudit.Settings

/-!
# The help text

The help text lists the arguments in two columns. What does not fit on a line of the second column
goes on below; an argument that is too wide for the first column stands alone on its line.

Models the help of the argument parser that `main` sets up, on a terminal of eighty columns.

* **`Help.text`**: the help text under the settings.
* `flatten_wrapFrom`: wrapping loses no word.
-/

namespace CoreAudit.CommandLine.Help

/-- The column at which explanations start, and their width. -/
def column : Nat := 24

@[inherit_doc column]
def width : Nat := 54

/-- A line with a word added behind a space. -/
def extend (line word : Text) : Text := line ++ ' ' :: word

/-- The words on lines of the given width, where `line` is begun. -/
def wrapFrom (width : Nat) (line : Text) : List Text → List Text
  | [] => [line]
  | w :: ws =>
    if (extend line w).length ≤ width then wrapFrom width (extend line w) ws
    else line :: wrapFrom width w ws

/-- The words on lines of the given width; a word that is too long has a line of its own. -/
def wrap (width : Nat) : List Text → List Text
  | [] => []
  | w :: ws => wrapFrom width w ws

/-- Spaces up to the column of the explanations. -/
def indent (used : Nat) : Text := List.replicate (column - used) ' '

/-- An argument with its explanation. -/
structure Entry where
  name : String
  explanation : List Text

/-- An explanation as the words between its spaces. -/
def phrase (s : String) : List Text := Text.splitAt ' ' s.toList

/-- An explanation that ends in a budget. -/
def withDefault (s : String) (b : Budget) : List Text :=
  phrase s ++ ["(default:".toList, b.brief ++ [')']]

/-- The lines of an argument. -/
def Entry.lines (e : Entry) : List Text :=
  let name := ' ' :: ' ' :: e.name.toList
  match wrap width e.explanation with
  | [] => [name]
  | first :: rest =>
    let below := rest.map fun l => indent 0 ++ l
    if name.length + 2 ≤ column then (name ++ indent name.length ++ first) :: below
    else name :: (indent 0 ++ first) :: below

/-- The two files. -/
def files : List Entry :=
  [⟨"transcript", phrase "Solver output file"⟩,
   ⟨"benchmark", phrase "Original benchmark (.smt2)"⟩]

/-- The options, with the budgets that hold unless they are given. -/
def options (s : Settings) : List Entry :=
  [⟨"-h, --help", phrase "show this help message and exit"⟩,
   ⟨"--scrambler SCRAMBLER", phrase "Path to the scrambler executable"⟩,
   ⟨"--solver-path NAME=PATH",
    phrase "Path of a validation solver (z3, cvc5, mathsat); repeatable"⟩,
   ⟨"--logic-table LOGIC_TABLE",
    phrase "JSON file mapping logics to validation solvers (default: built-in table)"⟩,
   ⟨"--timeout TIMEOUT",
    withDefault "Wall-clock budget per validator in seconds" s.validationTimeout⟩,
   ⟨"--kill-after KILL_AFTER",
    withDefault "Grace period before a timed-out validator is killed" s.killAfter⟩,
   ⟨"--scrambler-timeout SCRAMBLER_TIMEOUT",
    withDefault "Time budget for the scrambler" s.scramblerTimeout⟩,
   ⟨"--jobs JOBS", phrase "Number of validators to run concurrently (default: 1)"⟩,
   ⟨"--output OUTPUT", phrase "Write the report to this file"⟩,
   ⟨"--keep-workdir", phrase "Keep the temporary directory with the reduced benchmark"⟩,
   ⟨"--log-level \x7bDEBUG,INFO,WARNING,ERROR\x7d", phrase "Logging level (default: WARNING)"⟩]

/-- How the program is called. -/
def usage : List String :=
  ["usage: corecheck [-h] [--scrambler SCRAMBLER] [--solver-path NAME=PATH]",
   "                 [--logic-table LOGIC_TABLE] [--timeout TIMEOUT]",
   "                 [--kill-after KILL_AFTER]",
   "                 [--scrambler-timeout SCRAMBLER_TIMEOUT] [--jobs JOBS]",
   "                 [--output OUTPUT] [--keep-workdir]",
   "                 [--log-level \x7bDEBUG,INFO,WARNING,ERROR\x7d]",
   "                 transcript benchmark"]

/-- The help text under the settings. -/
def text (s : Settings) : Text :=
  Text.unlines <|
    usage.map String.toList ++
      ["", "Validate the unsat core returned by a solver and report the reduction it achieves",
       "", "positional arguments:"].map String.toList ++
      files.flatMap Entry.lines ++ ["", "options:"].map String.toList ++
      (options s).flatMap Entry.lines

/-- Wrapping loses no word. -/
theorem flatten_wrapFrom (width : Nat) (line : Text) (ws : List Text) :
    Text.joined [' '] (wrapFrom width line ws) = Text.joined [' '] (line :: ws) := by
  have hne : ∀ (l : Text) (us : List Text), wrapFrom width l us ≠ [] := by
    intro l us
    induction us generalizing l with
    | nil => simp [wrapFrom]
    | cons u us ih => rw [wrapFrom]; split <;> simp [ih]
  have hcons : ∀ (l : Text) {us : List Text}, us ≠ [] →
      Text.joined [' '] (l :: us) = l ++ ' ' :: Text.joined [' '] us := by
    intro l us h
    cases us with
    | nil => exact absurd rfl h
    | cons u us => simp [Text.joined, List.intersperse]
  have hjoin : ∀ (l w : Text) (us : List Text),
      Text.joined [' '] (extend l w :: us) = Text.joined [' '] (l :: w :: us) := by
    intro l w us
    rw [hcons l (by simp : w :: us ≠ [])]
    cases us with
    | nil => simp [Text.joined, extend]
    | cons u us =>
      rw [hcons _ (by simp : u :: us ≠ []), hcons _ (by simp : u :: us ≠ [])]
      simp [extend]
  induction ws generalizing line with
  | nil => rfl
  | cons w ws ih =>
    rw [wrapFrom]
    split
    · rw [ih, hjoin]
    · rw [hcons line (hne w ws), ih w, hcons line (by simp)]

end CoreAudit.CommandLine.Help
