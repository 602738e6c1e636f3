import CoreAudit.Text.Basic

/-!
# Decimal digits

A numeral may be written in the decimal digits of many scripts: the digits of one script are ten
consecutive code points from its zero on. The digits of the youngest scripts are recognized as
digits, and no numeral is read in them.

`isDecimal` is the class `\d` of the patterns of a stamp and of a header; `value?` is what a numeral
is read by.

* **`isDecimal_of_isDigit`**: a digit that is read is recognized.
* `value?_of_isDigit`: the ASCII digits have their usual values.
-/

namespace CoreAudit.Text.Digit

/-- The zeros of the scripts whose digits are read. -/
def zeros : List Nat :=
  [0x30, 0x660, 0x6F0, 0x7C0, 0x966, 0x9E6, 0xA66, 0xAE6, 0xB66, 0xBE6, 0xC66, 0xCE6, 0xD66,
   0xDE6, 0xE50, 0xED0, 0xF20, 0x1040, 0x1090, 0x17E0, 0x1810, 0x1946, 0x19D0, 0x1A80, 0x1A90,
   0x1B50, 0x1BB0, 0x1C40, 0x1C50, 0xA620, 0xA8D0, 0xA900, 0xA9D0, 0xA9F0, 0xAA50, 0xABF0,
   0xFF10, 0x104A0, 0x10D30, 0x11066, 0x110F0, 0x11136, 0x111D0, 0x112F0, 0x11450, 0x114D0,
   0x11650, 0x116C0, 0x11730, 0x118E0, 0x11950, 0x11C50, 0x11D50, 0x11DA0, 0x16A60, 0x16AC0,
   0x16B50, 0x1D7CE, 0x1D7D8, 0x1D7E2, 0x1D7EC, 0x1D7F6, 0x1E140, 0x1E2F0, 0x1E950, 0x1FBF0]

/-- The zeros of the scripts whose digits are recognized and not read. -/
def unreadZeros : List Nat :=
  [0x10D40, 0x116D0, 0x116DA, 0x11BF0, 0x11F50, 0x16130, 0x16D70, 0x1CCF0, 0x1E4F0, 0x1E5F1]

/-- The character is one of the ten digits from a zero on. -/
def isFrom (c : Char) (start : Nat) : Bool :=
  decide (start ≤ c.toNat) && decide (c.toNat < start + 10)

/-- The value of a decimal digit that is read. -/
def value? (c : Char) : Option Nat := (zeros.find? (isFrom c)).map (c.toNat - ·)

/-- The character is a decimal digit that is read. -/
def isDigit (c : Char) : Bool := (value? c).isSome

/-- The character is recognized as a decimal digit, whether it is read or not. -/
def isDecimal (c : Char) : Bool := isDigit c || unreadZeros.any (isFrom c)

/-- The ASCII digits have their usual values. -/
theorem value?_of_isDigit {c : Char} (h : c.isDigit = true) :
    value? c = some (c.toNat - 48) := by
  simp only [Char.isDigit, Bool.and_eq_true, decide_eq_true_eq] at h
  have h₁ : 48 ≤ c.toNat := UInt32.le_iff_toNat_le.mp h.1
  have h₂ : c.toNat ≤ 57 := UInt32.le_iff_toNat_le.mp h.2
  have : isFrom c 48 = true := by
    simp only [isFrom, Bool.and_eq_true, decide_eq_true_eq]; omega
  simp [value?, zeros, this]

/-- A digit that is read is recognized. -/
theorem isDecimal_of_isDigit {c : Char} (h : isDigit c = true) : isDecimal c = true := by
  simp [isDecimal, h]

/-- The value of a run of digits, the most significant first; characters that are no digits count
as zero. -/
def numeral (t : Text) : Nat := t.foldl (fun n c => n * 10 + (value? c).getD 0) 0

end CoreAudit.Text.Digit
