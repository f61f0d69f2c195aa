import SparsePattern.Decimal.Binary

/-!
# Shortest decimals

The decimal with the fewest digits that is closer to a double than to every other; of several such
the one nearest to its value, and of two equally near the even one.
-/

namespace SparsePattern.Decimal

/-- The number `digits · 10 ^ exponent`. -/
structure Scientific where
  digits : Nat
  exponent : Int
deriving DecidableEq, Repr

namespace Scientific

/-- The same number without trailing zeros in its digits. -/
def reduce (digits : Nat) (exponent : Int) : Scientific :=
  if digits ≠ 0 ∧ digits % 10 = 0 then reduce (digits / 10) (exponent + 1)
  else { digits, exponent }
termination_by digits

/-- The decimal exponent of the leading digit. -/
def leadingExponent (s : Scientific) : Int := s.exponent + (toString s.digits).length - 1

end Scientific

namespace Binary

/-- The decimal exponent of the leading digit of a positive number. -/
def leadingExponent (b : Binary) : Int :=
  let (num, den) := b.fraction
  if den ≤ num then ((toString (num / den)).length : Int) - 1
  else -((toString ((den - 1) / num)).length : Int)

/-- A quarter of the last mantissa bit, `n` times over, on the common scale with `10 ^ e`. -/
def quarters (b : Binary) (e : Int) (n : Nat) : Nat :=
  n * Nat.pow 2 (b.exponent - 2).toNat * Nat.pow 10 (-e).toNat

/-- The decimal `n · 10 ^ e` on that scale. -/
def tens (b : Binary) (e : Int) (n : Nat) : Nat :=
  n * Nat.pow 10 e.toNat * Nat.pow 2 (2 - b.exponent).toNat

/-- Whether the nearest double to `n · 10 ^ e` is this one.  The gap below a power of two is half as
wide, and the middle between two doubles belongs to the even mantissa. -/
def claims (b : Binary) (e : Int) (n : Nat) : Bool :=
  let below := if b.mantissa = implicitBit ∧ leastExponent < b.exponent then 1 else 2
  let low := b.quarters e (4 * b.mantissa - below)
  let high := b.quarters e (4 * b.mantissa + 2)
  let here := b.tens e n
  if b.mantissa % 2 = 0 then low ≤ here && here ≤ high else low < here && here < high

/-- The best multiple of `10 ^ e` that belongs to this double, if one does. -/
def onGrid (b : Binary) (e : Int) : Option Nat :=
  let value := b.quarters e (4 * b.mantissa)
  let n := value / b.tens e 1
  match b.claims e n, b.claims e (n + 1) with
  | false, false => none
  | true, false => some n
  | false, true => some (n + 1)
  | true, true =>
    let middle := b.tens e (2 * n + 1)
    if 2 * value < middle ∨ (2 * value = middle ∧ n % 2 = 0) then some n else some (n + 1)

/-- Tries the grid of `10 ^ e`, then up to `finer` finer ones. -/
def refine (b : Binary) (e : Int) : (finer : Nat) → Scientific
  | 0 => Scientific.reduce ((b.onGrid e).getD 0) e
  | finer + 1 =>
    match b.onGrid e with
    | some n => Scientific.reduce n e
    | none => refine b (e - 1) finer

/-- The shortest decimal of a positive double; seventeen digits always suffice. -/
def shortest (b : Binary) : Scientific := b.refine b.leadingExponent 16

end Binary

end SparsePattern.Decimal
