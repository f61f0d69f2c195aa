import SparsePattern.Json.Scan

/-!
# The values of numbers

A number without point and exponent that fits 64 bits and is not negative is natural; all others are
real.  A real number is its leading digits, as many as fit 64 bits, times a power of ten, with one
rounding for each of the two and one for their product.
-/

namespace SparsePattern.Json

/-- The value of a number. -/
inductive Number where
  | natural (n : Nat)
  | real (x : Float)

/-- Digits are gathered below this bound. -/
def digitsLimit : Nat := 0x10000000000000000

/-- Appends digits to `n` as long as the result stays below the limit; returns what is left of
them. -/
def gather (n : Nat) : List Char → Nat × List Char
  | [] => (n, [])
  | c :: digits =>
    let longer := 10 * n + (c.toNat - '0'.toNat)
    if longer < digitsLimit then gather longer digits else (n, c :: digits)

/-- The number that digits spell. -/
def digitsValue (digits : List Char) : Nat :=
  digits.foldl (fun n c => 10 * n + (c.toNat - '0'.toNat)) 0

/-- The largest power of ten that a double holds. -/
def largestPower : Nat := 308

/-- `10 ^ n`, rounded. -/
def powerOfTen (n : Nat) : Float := Float.ofScientific 1 false n

/-- `x · 10 ^ e` in one multiplication or as few divisions as possible, nothing if it is out of
range. -/
def scale (x : Float) (e : Int) : Option Float :=
  if 0 ≤ e then
    if e ≤ largestPower then
      let y := x * powerOfTen e.toNat
      if y.isInf then none else some y
    else if x == 0 then some x
    else none
  else if -largestPower ≤ e then some (x / powerOfTen (-e).toNat)
  else if x == 0 then some x
  else scale (x / powerOfTen largestPower) (e + largestPower)
termination_by (-e).toNat
decreasing_by
  simp only [largestPower] at *
  omega

namespace Numeral

/-- The exponent that is written, none meaning zero. -/
def writtenExponent (numeral : Numeral) : Int :=
  match numeral.exponent with
  | none => 0
  | some (true, digits) => -digitsValue digits
  | some (false, digits) => digitsValue digits

/-- The value of a number.  Digits before the point that no longer fit raise the exponent, those
after it are dropped. -/
def value (numeral : Numeral) : Except Refusal Number :=
  let (significand, excess) := gather 0 numeral.whole
  if excess = [] ∧ numeral.fraction = [] ∧ numeral.exponent = none then
    if numeral.negative then .ok (.real (-significand.toUInt64.toFloat))
    else .ok (.natural significand)
  else
    let (significand, dropped) := gather significand numeral.fraction
    let places : Int := numeral.fraction.length - dropped.length
    match scale significand.toUInt64.toFloat (excess.length - places + numeral.writtenExponent) with
    | none => .error .malformed
    | some x => .ok (.real (if numeral.negative then -x else x))

end Numeral

end SparsePattern.Json
