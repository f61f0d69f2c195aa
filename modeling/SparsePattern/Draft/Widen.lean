import SparsePattern.Draft.Insert
import SparsePattern.Pattern

/-!
# Widening a pattern

`Draft.widen` starts a new draft from a square pattern, with further entries beside the diagonal.
-/

namespace SparsePattern.Draft

/-- The columns of `row` at most `reach` away from the diagonal and off it: to the left and
outwards, then to the right and outwards. -/
def band (n reach row : Nat) : List Nat :=
  (List.range (min reach row)).map (fun i => row - (i + 1)) ++
    (List.range (min reach (n - row - 1))).map (fun i => row + (i + 1))

/-- Records, for the rows from `row` on, the columns of the pattern and then those of the band. -/
def widenRows (p : Pattern) (reach : Nat) (d : Draft) (row : Nat) :
    (count : Nat) → Except Fault Draft
  | 0 => .ok d
  | count + 1 => do
    let columns ← p.row row
    let cols := columns.toList.map UInt32.toNat ++ band p.nRows reach row
    widenRows p reach (← (d.insertRow row cols).finished) (row + 1) count

/-- A draft that reserves `wanted` slots in every row and holds the entries of a square pattern,
together with all entries off the diagonal and at most `reach` away from it. -/
def widen (p : Pattern) (wanted reach : Nat) : Except Fault Draft := do
  Rows.require (p.nRows = p.nCols) (.notSquare p.nRows p.nCols)
  let d ← uniform p.nRows p.nRows wanted { diagonalFirst := p.diagonalFirst }
  widenRows p reach d 0 p.nRows

end SparsePattern.Draft
