import CoreAudit.Text.Basic

/-!
# Tools

The external tools that an audit knows by name: three provers that validate cores, and the
scrambler that rebuilds them. Models the table `TOOLS` of `GlobalConfig`.

Headline: **`Tool.ofName?_name`**: a tool's name is read as that tool.
-/

namespace CoreAudit

/-- A tool that is known by name. -/
inductive Tool where
  | z3
  | cvc5
  | mathsat
  | scrambler
  deriving Repr, DecidableEq

namespace Tool

/-- The name of a tool, which is also that of its executable. -/
def name : Tool → Text
  | z3 => "z3".toList
  | cvc5 => "cvc5".toList
  | mathsat => "mathsat".toList
  | scrambler => "scrambler".toList

/-- All tools, in the order in which they are looked for. -/
def all : List Tool := [z3, cvc5, mathsat, scrambler]

/-- The tools that validate. -/
def validators : List Tool := [z3, cvc5, mathsat]

/-- The tool of a name. -/
def ofName? (t : Text) : Option Tool := all.find? fun u => u.name == t

/-- The arguments that a validating tool is always given. -/
def baseArgs : Tool → List Text
  | cvc5 => ["-q".toList, "--lang=smt2".toList]
  | _ => []

/-- A tool's name is read as that tool. -/
theorem ofName?_name (t : Tool) : ofName? t.name = some t := by cases t <;> decide

end Tool

/-- What is known of a tool: the path of its executable, and whether it is there. The two are kept
apart and are set together. -/
structure ToolEntry where
  path : Option Text
  available : Bool
  deriving Repr, DecidableEq

/-- A tool that was not looked for. -/
def ToolEntry.blank : ToolEntry := ⟨none, false⟩

end CoreAudit
