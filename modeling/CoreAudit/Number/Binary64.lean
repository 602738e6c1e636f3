/-!
# Binary floating-point numbers, exactly

Times are binary64 numbers. Their text is decided by their exact value, so a number is first taken
apart into sign, significand and exponent (`Binary64.ofFloat`), and a decimal numeral is put
together by one division that is rounded to the nearest, ties to even (`Number.roundHalfEven`).
-/

namespace CoreAudit.Number

/-- The quotient rounded to the nearest whole number, a half to the even neighbour. -/
def roundHalfEven (num den : Nat) : Nat :=
  let k := num / den
  let twice := 2 * (num % den)
  if twice < den then k
  else if den < twice then k + 1
  else k + k % 2

/-! ## Taking a number apart -/

/-- The least significand of the numbers that are not subnormal, `2^52`. -/
def leastNormal : Nat := 0x10000000000000

/-- What a binary64 number stands for: `finite s m q` is `m · 2^q`, negative where `s`. -/
inductive Binary64 where
  | nan
  | infinite (negative : Bool)
  | finite (negative : Bool) (significand : Nat) (exponent : Int)
  deriving Repr, DecidableEq

/-- The number's sign, significand and exponent. -/
def Binary64.ofFloat (x : Float) : Binary64 :=
  let bits := x.toBits.toNat
  let negative := decide (0x8000000000000000 ≤ bits)
  let field : Nat := bits / leastNormal % 2048
  let fraction := bits % leastNormal
  if field = 2047 then (if fraction = 0 then .infinite negative else .nan)
  else if field = 0 then .finite negative fraction (-1074)
  else .finite negative (fraction + leastNormal) ((field : Int) - 1075)

/-- The whole part of a number, or nothing for a NaN and the infinities. -/
def truncate? (x : Float) : Option Int :=
  match Binary64.ofFloat x with
  | .finite negative m q =>
    let whole : Nat := if 0 ≤ q then m * Nat.pow 2 q.toNat else m / Nat.pow 2 (-q).toNat
    some (if negative then -(whole : Int) else whole)
  | _ => none

/-! ## Putting a number together -/

/-- The positive number nearest to `num / den`; a half goes to the even significand, and a value
beyond the largest number to infinity. -/
def nearest (num den : Nat) : Float :=
  if num = 0 then 0.0
  else
    let estimate : Int := (num.log2 : Int) - (den.log2 : Int) - 53
    let exponent (q : Int) : Nat × Nat :=
      if 0 ≤ q then (num, den * Nat.pow 2 q.toNat) else (num * Nat.pow 2 (-q).toNat, den)
    let fits (q : Int) : Bool :=
      let (a, b) := exponent q
      decide (a < b * (2 * leastNormal))
    let q := max (-1074) (if fits estimate then estimate
      else if fits (estimate + 1) then estimate + 1 else estimate + 2)
    let (a, b) := exponent q
    let k := roundHalfEven a b
    let field : Int := q + 1074
    if k < leastNormal then Float.ofBits k.toUInt64
    else if 2046 < field + (k / leastNormal : Nat) then Float.ofBits 0x7FF0000000000000
    else Float.ofBits (field.toNat * leastNormal + k).toUInt64

/-- The positive number nearest to `digits · 10^exponent`. Exponents far outside the range of the
numbers are settled without computing the power. -/
def ofDecimal (digits : Nat) (exponent : Int) : Float :=
  let places : Int := (Nat.toDigits 10 digits).length
  if digits = 0 ∨ exponent + places < -330 then 0.0
  else if 330 < exponent + places then Float.ofBits 0x7FF0000000000000
  else if 0 ≤ exponent then nearest (digits * Nat.pow 10 exponent.toNat) 1
  else nearest digits (Nat.pow 10 (-exponent).toNat)

end CoreAudit.Number
