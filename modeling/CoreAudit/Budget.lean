import CoreAudit.Number.Layout

/-!
# Budgets

A budget is the time that a run may take, in seconds. A budget that is asked for and left blank is
handed on like any other; only where its number is needed there is a fault.

`Budget.full` and `Budget.brief` are the two ways in which messages write a budget.
-/

namespace CoreAudit

/-- The time that a run may take. -/
inductive Budget where
  | seconds (x : Float)
  /-- Nothing was given for the budget. -/
  | blank
  deriving Repr

namespace Budget

/-- The number of seconds, if there is one. -/
def seconds? : Budget → Option Float
  | seconds x => some x
  | blank => none

/-- A blank budget as it is written. -/
def blankText : Text := ['[', ']']

/-- A budget in full. -/
def full : Budget → Text
  | seconds x => Number.full x
  | blank => blankText

/-- A budget in brief. -/
def brief : Budget → Text
  | seconds x => Number.brief x
  | blank => blankText

/-- A budget in full, or `None` where there is none. -/
def fullOrNone : Option Budget → Text
  | some b => b.full
  | none => "None".toList

end Budget

end CoreAudit
