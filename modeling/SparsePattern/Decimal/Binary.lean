/-!
# Floating-point numbers as integers

A finite double is a mantissa times a power of two.  The exact printers work on these two integers.
-/

namespace SparsePattern.Decimal

/-- The number `mantissa · 2 ^ exponent`, with a sign that zero has too. -/
structure Binary where
  negative : Bool
  mantissa : Nat
  exponent : Int
deriving DecidableEq, Repr

namespace Binary

/-- The exponent of the smallest doubles. -/
def leastExponent : Int := -1074

/-- The mantissa bit that a double does not store: there are 52 bits below it. -/
def implicitBit : Nat := 0x10000000000000

/-- The number of exponents, and the bit above them. -/
def exponentCount : Nat := 0x800

/-- The parts of a finite double. -/
def ofFloat (x : Float) : Binary :=
  let bits := x.toBits.toNat
  let biased := bits / implicitBit % exponentCount
  let stored := bits % implicitBit
  { negative := bits / implicitBit / exponentCount == 1
    mantissa := if biased = 0 then stored else stored + implicitBit
    exponent := leastExponent + (biased - 1 : Nat) }

/-- The magnitude as a fraction: numerator and denominator. -/
def fraction (b : Binary) : Nat × Nat :=
  (b.mantissa * Nat.pow 2 b.exponent.toNat, Nat.pow 2 (-b.exponent).toNat)

/-- The number in front of a sign-free text. -/
def signed (b : Binary) (text : String) : String := if b.negative then "-" ++ text else text

end Binary

end SparsePattern.Decimal
