/-!
# The diagonal policy

Square patterns may keep the diagonal entry of every row, and keep it in front.  Whether a pattern
does is settled when it is created, from the policy and the two dimensions.
-/

namespace SparsePattern

/-- Whether square patterns store their diagonal, first in every row. -/
structure Policy where
  diagonalFirst : Bool := true
deriving DecidableEq, Repr

/-- Whether a pattern of this shape stores its diagonal first: rectangles never do. -/
def Policy.leads (policy : Policy) (nRows nCols : Nat) : Bool :=
  policy.diagonalFirst && nRows == nCols

end SparsePattern
