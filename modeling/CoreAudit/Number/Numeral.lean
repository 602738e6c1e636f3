import CoreAudit.Number.Binary64
import CoreAudit.Text.Blank
import CoreAudit.Text.Digit

/-!
# Numerals

Whole and floating-point numbers are read from texts by one rule: blanks around the numeral are
dropped, the digits may be those of any script, and an underscore may stand between two digits.

Models how `parse_scrambler_output` reads the number of a header, and how `_env_float` and the
command line read a budget.

* **`natural?`**, **`integer?`**: whole numbers, of at most `maxDigits` digits.
* **`float?`**: floating-point numbers, infinities and NaN.
* `natural?_of_length_le`: a numeral that is no longer has a number.
-/

namespace CoreAudit.Number

/-- The digits of a whole number, leading zeros counted, are limited to this many. -/
def maxDigits : Nat := 4300

/-- The number of a run of digits, unless there are too many; the error is their count. -/
def natural? (digits : Text) : Except Nat Nat :=
  if maxDigits < digits.length then .error digits.length else .ok (Text.Digit.numeral digits)

/-- A run of digits within the limit has a value. -/
theorem natural?_of_length_le {digits : Text} (h : digits.length ≤ maxDigits) :
    natural? digits = .ok (Text.Digit.numeral digits) := if_neg (by omega)

/-! ## The common rule -/

/-- Blanks that may surround a numeral. -/
def isPadding (c : Char) : Bool :=
  Text.inRanges ((0x09, 0x0D) :: (0x20, 0x20) :: Text.wideBlanks) c

/-- The text with every digit written in ASCII. -/
def asciiDigits (t : Text) : Text :=
  t.map fun c => match Text.Digit.value? c with
    | some v => Nat.digitChar v
    | none => c

/-- The text without the padding at its ends and with its digits written in ASCII. -/
def normal (t : Text) : Text :=
  asciiDigits (((t.dropWhile isPadding).reverse.dropWhile isPadding).reverse)

/-- The text without its underscores, if each of them stands between two digits; `before` is the
character before the text. -/
def withoutUnderscores? (before : Option Char) : Text → Option Text
  | [] => if before = some '_' then none else some []
  | c :: t =>
    if c = '_' then
      if (before.any Char.isDigit) then withoutUnderscores? (some c) t else none
    else if before = some '_' ∧ c.isDigit = false then none
    else (withoutUnderscores? (some c) t).map (c :: ·)

/-- A sign, if there is one: whether it is negative, and the rest. -/
def cutSign : Text → Bool × Text
  | '-' :: t => (true, t)
  | '+' :: t => (false, t)
  | t => (false, t)

/-- A whole number with an optional sign. -/
def integer? (t : Text) : Option Int := do
  let (negative, digits) := cutSign (← withoutUnderscores? none (normal t))
  if digits.isEmpty || !digits.all Char.isDigit then none
  else
    let n ← (natural? digits).toOption
    some (if negative then -(n : Int) else n)

/-- The names of the numbers that have no digits, in lower case. -/
def named? (t : Text) : Option Float :=
  let name := t.map Char.toLower
  if name = "inf".toList ∨ name = "infinity".toList then some (1.0 / 0.0)
  else if name = "nan".toList then some (0.0 / 0.0)
  else none

/-- The exponent part of a numeral, or zero where the text is empty. -/
def exponent? : Text → Option Int
  | [] => some 0
  | c :: t =>
    if c = 'e' ∨ c = 'E' then
      let (negative, digits) := cutSign t
      if digits.isEmpty || !digits.all Char.isDigit then none
      else
        let n := Text.Digit.numeral digits
        some (if negative then -(n : Int) else n)
    else none

/-- A numeral without sign: digits with at most one point among them, and an exponent part. -/
def unsigned? (t : Text) : Option Float := do
  let whole := t.takeWhile Char.isDigit
  let (places, rest) := match t.dropWhile Char.isDigit with
    | '.' :: r => (r.takeWhile Char.isDigit, r.dropWhile Char.isDigit)
    | r => ([], r)
  if whole.isEmpty && places.isEmpty then none
  else
    let e ← exponent? rest
    some (ofDecimal (Text.Digit.numeral (whole ++ places)) (e - (places.length : Int)))

/-- A floating-point number with an optional sign. -/
def float? (t : Text) : Option Float := do
  let (negative, u) := cutSign (← withoutUnderscores? none (normal t))
  let x ← (named? u).orElse fun _ => unsigned? u
  some (if negative then -x else x)

end CoreAudit.Number
