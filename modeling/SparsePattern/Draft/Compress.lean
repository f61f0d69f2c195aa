import SparsePattern.Draft.Rows
import SparsePattern.Pattern

/-!
# Compression

`Draft.compress` drops the free slots of a draft and puts every row in its stored order: ascending,
after the diagonal if that leads.
-/

namespace SparsePattern

namespace Draft

/-- The first value of an ascending list that comes twice. -/
def firstRepeat : List UInt32 → Option UInt32
  | c :: d :: rest => if c = d then some c else firstRepeat (d :: rest)
  | _ => none

/-- The columns of `row` in stored order. -/
def compressRow (d : Draft) (row : Nat) : Except Fault (List UInt32) :=
  let recorded := d.recorded row
  let lead := if d.diagonalFirst then 1 else 0
  let ascending := (recorded.drop lead).mergeSort
  match firstRepeat ascending with
  | some col => .error (.duplicateEntry row col.toNat)
  | none => .ok (recorded.take lead ++ ascending)

/-- The rows from `row` on in stored order. -/
def compressRows (d : Draft) (row : Nat) : (count : Nat) → Except Fault (List (List UInt32))
  | 0 => .ok []
  | count + 1 => do
    let columns ← d.compressRow row
    return columns :: (← d.compressRows (row + 1) count)

/-- The compressed form of a draft. -/
def compress (d : Draft) : Except Fault Pattern := do
  let rows ← d.compressRows 0 d.nRows
  let lengths := rows.map List.length
  return {
    nRows := d.nRows
    nCols := d.nCols
    rowStart := (lengths.scanl (· + ·) 0).toArray
    columns := rows.flatten.toArray
    diagonalFirst := d.diagonalFirst
    longestRow := lengths.foldl max 0 }

end Draft

/-- The pattern with these rows, whose columns may come in any order and repeatedly. -/
def Pattern.ofRows (nRows nCols : Nat) (rows : List (List Nat)) (policy : Policy := {}) :
    Except Fault Pattern := do
  (← Draft.ofRows nRows nCols rows policy).compress

end SparsePattern
