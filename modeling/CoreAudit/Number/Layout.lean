import CoreAudit.Number.Shortest
import CoreAudit.Text.Basic

/-!
# Numbers as text

Three layouts of binary64 numbers are written: in full (the fewest digits that read back), in
brief (six significant digits) and with a fixed number of places. A NaN is `nan`, the infinities
are `inf` and `-inf`, and a zero keeps its sign.

`full` is how messages write a number, `brief` how the help does, and `places` how `format_value`
and the records of `run_validator` write a time.
-/

namespace CoreAudit.Number

/-- The decisions of a layout with a floating point. -/
structure Layout where
  /-- The least decimal exponent written without an exponent part. -/
  positionalFrom : Int
  /-- The least decimal exponent, above that, written with one. -/
  positionalBelow : Int
  /-- A whole number keeps a point and a zero. -/
  keepsPoint : Bool
  deriving Repr, DecidableEq

/-- Numbers in full are positional from `0.0001` to below `10^16`, and a whole one ends in `.0`. -/
def Layout.full : Layout := ⟨-4, 16, true⟩

/-- Numbers in brief are positional from `0.0001` to below `10^6`, and a whole one has no point. -/
def Layout.brief : Layout := ⟨-4, 6, false⟩

/-- Zeros in front, up to `width` digits. -/
def padded (width : Nat) (t : Text) : Text := List.replicate (width - t.length) '0' ++ t

/-- The exponent part: a sign and at least two digits. -/
def exponentPart (e : Int) : Text :=
  'e' :: (if e < 0 then '-' else '+') :: padded 2 (Text.ofNat e.natAbs)

/-- The digits with the first of them at `10^exponent`. -/
def Layout.write (l : Layout) (digits : Text) (exponent : Int) : Text :=
  if l.positionalFrom ≤ exponent ∧ exponent < l.positionalBelow then
    if exponent < 0 then
      '0' :: '.' :: (List.replicate (-exponent - 1).toNat '0' ++ digits)
    else
      let whole := exponent.toNat + 1
      if digits.length ≤ whole then
        digits ++ List.replicate (whole - digits.length) '0'
          ++ (if l.keepsPoint then ['.', '0'] else [])
      else digits.take whole ++ '.' :: digits.drop whole
  else
    digits.take 1 ++ (if digits.length ≤ 1 then [] else '.' :: digits.drop 1)
      ++ exponentPart exponent

/-- The sign in front of a negative number. -/
def signed (negative : Bool) (t : Text) : Text := if negative then '-' :: t else t

/-- The digits without the zeros at their end. -/
def trimZeros (t : Text) : Text := (t.reverse.dropWhile (· == '0')).reverse

/-- A number in full: the fewest digits that read back. -/
def full (x : Float) : Text :=
  match Binary64.ofFloat x with
  | .nan => "nan".toList
  | .infinite negative => signed negative "inf".toList
  | .finite negative 0 _ => signed negative (Layout.full.write ['0'] 0)
  | .finite negative m q =>
    let d := (Neighbourhood.mk m q).shortest
    let digits := Text.ofNat d.digits
    signed negative
      (Layout.full.write (trimZeros digits) (d.exponent + (digits.length : Int) - 1))

/-- The value `significand · 2^exponent` in whole units of `10^unit`, a half to the even one. -/
def inUnits (significand : Nat) (exponent unit : Int) : Nat :=
  roundHalfEven (significand * Nat.pow 2 exponent.toNat * Nat.pow 10 (-unit).toNat)
    (Nat.pow 2 (-exponent).toNat * Nat.pow 10 unit.toNat)

/-- A number in brief: six significant digits, zeros at their end dropped. -/
def brief (x : Float) : Text :=
  match Binary64.ofFloat x with
  | .nan => "nan".toList
  | .infinite negative => signed negative "inf".toList
  | .finite negative 0 _ => signed negative ['0']
  | .finite negative m q =>
    let e := (Neighbourhood.mk m q).decade
    let k := inUnits m q (e - 5)
    -- rounding may reach the next power of ten
    let e := if 1000000 ≤ k then e + 1 else e
    signed negative (Layout.brief.write (trimZeros (Text.ofNat k)) e)

/-- A number with `n` places after the point, a half to the even neighbour. -/
def places (n : Nat) (x : Float) : Text :=
  match Binary64.ofFloat x with
  | .nan => "nan".toList
  | .infinite negative => signed negative "inf".toList
  | .finite negative m q =>
    let digits := padded (n + 1) (Text.ofNat (inUnits m q (-(n : Int))))
    let whole := digits.length - n
    signed negative (digits.take whole ++ '.' :: digits.drop whole)

end CoreAudit.Number
