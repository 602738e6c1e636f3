import CoreAudit.Number.Layout

/-!
# Values of a report

A report states texts, whole numbers, times and flags. Times have three places. `Value.format`
models `format_value`.
-/

namespace CoreAudit.Report

/-- A value that a report states. -/
inductive Value where
  | text (t : Text)
  | int (n : Int)
  | time (x : Float)
  | flag (b : Bool)
  | absent
  deriving Repr

namespace Value

/-- The number of places of a time. -/
def timePlaces : Nat := 3

/-- The text of a value. -/
def format : Value → Text
  | text t => t
  | int n => Text.ofInt n
  | time x => Number.places timePlaces x
  | flag b => if b then "true".toList else "false".toList
  | absent => "None".toList

end Value

end CoreAudit.Report
