import SparsePattern.Decimal.Binary

/-!
# Decimals with fixed places

The text of a double with a fixed number of places, rounded from its exact value; a half goes to the
even neighbour.
-/

namespace SparsePattern.Decimal

/-- The integer nearest to `num / den`, of two the even one. -/
def roundDiv (num den : Nat) : Nat :=
  let q := num / den
  let rest := 2 * (num % den)
  if rest < den ∨ (rest = den ∧ q % 2 = 0) then q else q + 1

/-- At least `width` digits of `n`, zeros in front. -/
def padded (width n : Nat) : String :=
  let digits := toString n
  String.ofList (List.replicate (width - digits.length) '0') ++ digits

/-- The number with `places` places after the point. -/
def Binary.fixed (b : Binary) (places : Nat) : String :=
  let (num, den) := b.fraction
  let scale := Nat.pow 10 places
  let units := roundDiv (num * scale) den
  b.signed (toString (units / scale) ++ "." ++ padded places (units % scale))

end SparsePattern.Decimal
