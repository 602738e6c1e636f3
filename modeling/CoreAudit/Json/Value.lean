import CoreAudit.Keyed
import CoreAudit.Number.Layout
import CoreAudit.Text.Letter

/-!
# JSON values

A policy table is a JSON document. Its values are kept as they were read, members of an object in
the order of their names' first occurrence, and can be written in one line.

* **`Json.display`**: the one-line form of a value; a string alone stands without quotes.
* `Json.isEmptyish`: the values that hold nothing.
-/

namespace CoreAudit

/-- A JSON value. Whole numbers and floating-point numbers are told apart. -/
inductive Json where
  | null
  | bool (b : Bool)
  | int (n : Int)
  | float (x : Float)
  | string (s : Letters)
  | array (items : List Json)
  | object (members : List (Letters × Json))
  deriving Repr

namespace Json

/-- The name of a value's kind, as messages give it. -/
def kind : Json → Text
  | null => "NoneType".toList
  | bool _ => "bool".toList
  | int _ => "int".toList
  | float _ => "float".toList
  | string _ => "str".toList
  | array _ => "list".toList
  | object _ => "dict".toList

/-- The values that hold nothing: null, false, zero, and the empty string, array and object. -/
def isEmptyish : Json → Bool
  | null => true
  | bool b => !b
  | int n => n == 0
  | float x => x == 0.0
  | string s => s.isEmpty
  | array items => items.isEmpty
  | object members => members.isEmpty

mutual

/-- The one-line form of a value inside another: strings between quotes. -/
def literal : Json → Text
  | null => "None".toList
  | bool b => if b then "True".toList else "False".toList
  | int n => Text.ofInt n
  | float x => Number.full x
  | string s => Letters.quoted s
  | array items => '[' :: Text.joined [',', ' '] (literals items) ++ [']']
  | object members => '\x7b' :: Text.joined [',', ' '] (memberLiterals members) ++ ['\x7d']

/-- The one-line forms of the items of an array. -/
def literals : List Json → List Text
  | [] => []
  | j :: js => literal j :: literals js

/-- The one-line forms of the members of an object. -/
def memberLiterals : List (Letters × Json) → List Text
  | [] => []
  | (k, j) :: ms => (Letters.quoted k ++ ':' :: ' ' :: literal j) :: memberLiterals ms

end

/-- The one-line form of a value; a string alone stands without quotes, as it is. -/
def display : Json → Letters
  | string s => s
  | j => Letters.ofText (literal j)

end Json

end CoreAudit
