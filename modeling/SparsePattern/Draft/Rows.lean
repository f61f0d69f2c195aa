import SparsePattern.Distinct
import SparsePattern.Draft

/-!
# Drafts from rows

`Draft.ofRows` takes a pattern row by row, in any order and with repetitions within a row, and
reserves exactly what each row needs.
-/

namespace SparsePattern.Draft

open Rows (require)

/-- The slots of one row: its distinct columns ascending, after the diagonal if that leads. -/
def packRow (nCols : Nat) (diagonalFirst : Bool) (row : Nat) (cols : List Nat) :
    Except Fault (List UInt32) :=
  match cols.find? (nCols ≤ ·) with
  | some col => .error (.columnOutOfRange col nCols)
  | none =>
    if diagonalFirst then
      .ok (row.toUInt32 :: Distinct.sorted ((cols.filter (· ≠ row)).map Nat.toUInt32))
    else .ok (Distinct.sorted (cols.map Nat.toUInt32))

/-- The slots of the rows from `row` on, up to the first column out of range. -/
def packRows (nCols : Nat) (diagonalFirst : Bool) (row : Nat) :
    List (List Nat) → Except Fault (List (List UInt32))
  | [] => .ok []
  | cols :: rows => do
    let packed ← packRow nCols diagonalFirst row cols
    return packed :: (← packRows nCols diagonalFirst (row + 1) rows)

/-- A draft with these rows and no room to spare.  Rows beyond the first `nRows` are only
counted. -/
def ofRows (nRows nCols : Nat) (rows : List (List Nat)) (policy : Policy := {}) :
    Except Fault Draft := do
  require (nCols < columnLimit) .tooLarge
  let diagonalFirst := policy.leads nRows nCols
  let packed ← packRows nCols diagonalFirst 0 (rows.take nRows)
  require (rows.length = nRows) (.rowCountMismatch nRows rows.length)
  return {
    nRows
    nCols
    rowStart := ((packed.map List.length).scanl (· + ·) 0).toArray
    slots := packed.flatten.toArray
    diagonalFirst }

end SparsePattern.Draft
