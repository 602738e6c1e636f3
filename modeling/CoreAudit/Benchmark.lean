import CoreAudit.Fault
import CoreAudit.Log
import CoreAudit.Script.Command
import CoreAudit.Text.Lines

/-!
# Benchmarks

A benchmark is the script that the solver was given. The audit needs two facts of it: the number
of its assertions and the logic that it declares. Terms are never read.

Models `Benchmark`. A fact is computed where it is asked for; nothing is kept between two questions
but the warning, which is recorded once for each scan.

Headline: **`factsOf_append`**: the facts of commands one after the other.
-/

namespace CoreAudit

/-- A script, and the file that it came from if it came from one. -/
structure Benchmark where
  text : Text
  path : Option Text
  deriving Repr, DecidableEq

namespace Benchmark

/-- What an audit needs to know of a script. -/
structure Facts where
  assertCount : Nat
  logic : Option Text
  deriving Repr, DecidableEq

/-- The command is an assertion. -/
def isAssertion (command : Text) : Bool :=
  Script.commandName? command == some "assert".toList

/-- The logic that a command declares, if it is a `set-logic`. -/
def logicOf? (command : Text) : Option Text :=
  if Script.commandName? command == some "set-logic".toList then Script.declaredLogic? command
  else none

/-- The facts of a list of commands: the first declared logic counts. -/
def factsOf (commands : List Text) : Facts :=
  ⟨commands.countP isAssertion, commands.findSome? logicOf?⟩

/-- The facts of commands one after the other. -/
theorem factsOf_append (a b : List Text) :
    factsOf (a ++ b) =
      ⟨(factsOf a).assertCount + (factsOf b).assertCount,
        (factsOf a).logic.or (factsOf b).logic⟩ := by
  simp [factsOf, List.countP_append, List.findSome?_append]

/-- The facts of a benchmark. -/
def facts (b : Benchmark) : Facts := factsOf (Script.commands b.text)

/-- The number of assertions. -/
def assertCount (b : Benchmark) : Nat := b.facts.assertCount

/-- The declared logic, or the fault that there is none. -/
def logic (b : Benchmark) : Except Fault Text :=
  match b.facts.logic with
  | some l => .ok l
  | none =>
    let source := b.path.getD []
    .error (.missingLogic (if source.isEmpty then "benchmark".toList else source))

/-- The record that reading the facts leaves: a warning where a parenthesis is never closed. -/
def records (b : Benchmark) : List LogRecord :=
  if Script.isBalanced b.text then []
  else [⟨.warning, .benchmark, "Unbalanced parentheses at end of benchmark".toList⟩]

/-- The benchmark in a file with the given bytes. -/
def ofBytes (path : Text) (bytes : Bytes) : Benchmark :=
  ⟨(Text.Utf8.decode bytes).unifyLineEnds, some path⟩

/-- The benchmark in one line: the file that it came from. -/
def describe (b : Benchmark) : Text :=
  "Benchmark(path=".toList ++ (b.path.map Text.quoted).getD "None".toList ++ [')']

end Benchmark

end CoreAudit
