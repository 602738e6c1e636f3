import CoreAudit.Fault
import CoreAudit.Log
import CoreAudit.Number.Numeral
import CoreAudit.Text.Blank

/-!
# Unsat cores

The scrambler prints the benchmark restricted to the assertions named in a core, after a header
line with the number of names, or a line with `ERROR` where it finds no core. Only the first line
decides which.

Models `parse_scrambler_output` (`Reading.ofOutput`), `compute_reduction` and `UnsatCore`.

Headline: **`reductionRecords_eq_nil_iff`**: a warning is recorded exactly where the core claims
more assertions than the benchmark has.
-/

namespace CoreAudit

/-- A core: the number of its names, and the benchmark restricted to them. -/
structure UnsatCore where
  size : Nat
  formula : Text
  deriving Repr, DecidableEq

/-- What the scrambler's output says. -/
inductive Reading where
  | parsed (core : UnsatCore)
  /-- The scrambler found no core and said so in this line. -/
  | refused (line : Text)
  /-- The first line is neither a header nor an error. -/
  | unexpected (line : Text)
  deriving Repr, DecidableEq

namespace Reading

/-- The mark of a line that says that there is no core. -/
def errorMark : Text := "ERROR".toList

/-- The start of a header, up to its number. -/
def headerStart : Text := ";; parsed ".toList

/-- What follows the number in a header. -/
def headerEnd : Text := " names:".toList

/-- The digits of the number in a header. -/
def headerDigits? (line : Text) : Option Text :=
  let rest := line.drop headerStart.length
  let digits := rest.takeWhile Text.Digit.isDecimal
  if headerStart.isPrefixOf line && !digits.isEmpty
      && headerEnd.isPrefixOf (rest.dropWhile Text.Digit.isDecimal)
  then some digits else none

/-- The number that digits write. Digits that are recognized and not read are a fault, and so are
more digits in front of the first of those than a number may have. -/
def size? (digits : Text) : Except Fault Nat :=
  match Number.natural? (digits.takeWhile Text.Digit.isDigit) with
  | .error n => .error (.numeralTooLong n)
  | .ok n => if digits.all Text.Digit.isDigit then .ok n else .error (.notNumeral digits)

/-- Digits that are read, within the limit, have a value. -/
theorem size?_of_isDigit {digits : Text} (h : digits.all Text.Digit.isDigit = true)
    (hlength : digits.length ≤ Number.maxDigits) :
    size? digits = .ok (Text.Digit.numeral digits) := by
  have htake : digits.takeWhile Text.Digit.isDigit = digits := by
    have happend : (digits ++ []).takeWhile Text.Digit.isDigit =
        digits ++ [].takeWhile Text.Digit.isDigit :=
      List.takeWhile_append_of_pos (List.all_eq_true.mp h)
    simpa using happend
  simp [size?, htake, Number.natural?_of_length_le hlength, h]

/-- What the scrambler's output says; a number that cannot be read is a fault. -/
def ofOutput (output : Text) : Except Fault Reading :=
  let (line, body) := output.cut '\n'
  if line.mentions errorMark then .ok (.refused line)
  else match headerDigits? line with
    | none => .ok (.unexpected line)
    | some digits =>
      match size? digits with
      | .error f => .error f
      | .ok size => .ok (.parsed ⟨size, body.getD []⟩)

/-- The core, if there is one. -/
def core? : Reading → Option UnsatCore
  | parsed core => some core
  | _ => none

/-- The record that a reading without a core leaves. At most two hundred characters of an
unexpected line are shown. -/
def records : Reading → List LogRecord
  | parsed _ => []
  | refused line =>
    [⟨.info, .scrambler, "Scrambler could not parse the unsat core: ".toList ++ line.trim⟩]
  | unexpected line =>
    [⟨.error, .scrambler,
      "Unexpected scrambler output: ".toList ++ Text.quoted (line.take 200)⟩]

end Reading

namespace UnsatCore

/-- The number of assertions that a core of the given size leaves out; negative where the core
has more names than the benchmark has assertions. -/
def reduction (assertCount size : Int) : Int := assertCount - size

/-- The record that a negative reduction leaves. -/
def reductionRecords (assertCount size : Int) : List LogRecord :=
  if reduction assertCount size < 0 then
    [⟨.warning, .scrambler,
      "Unsat core has ".toList ++ Text.ofInt size ++ " names but the benchmark only ".toList
        ++ Text.ofInt assertCount ++ " assertions".toList⟩]
  else []

/-- A record is left exactly where the core has more names than there are assertions. -/
theorem reductionRecords_eq_nil_iff (assertCount size : Int) :
    reductionRecords assertCount size = [] ↔ size ≤ assertCount := by
  unfold reductionRecords reduction
  split <;> simp <;> omega

end UnsatCore

end CoreAudit
