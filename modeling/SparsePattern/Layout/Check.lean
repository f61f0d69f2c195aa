import SparsePattern.Layout
import SparsePattern.Rows
import SparsePattern.Search

/-!
# Checking a layout

`Layout.check` decides whether a layout that arrives from outside describes a pattern, and names the
first defect that it meets: the dimensions and the two ends of the offsets first, then the rows in
order.
-/

namespace SparsePattern.Layout

open Rows (require)

/-- Whether each column is smaller than the next. -/
def increasing : List UInt32 → Bool
  | c :: d :: rest => decide (c < d) && increasing (d :: rest)
  | _ => true

/-- The part of a row that ascends: all of it, or what follows its diagonal. -/
def ascendingPart (l : Layout) (row : Nat) (entries : List UInt32) : Except Fault (List UInt32) :=
  if l.diagonalFirst then
    match entries with
    | lead :: rest => do
      require (lead.toNat = row) (.malformed .missingDiagonal)
      require (Search.find? rest.toArray lead = none) (.malformed .repeatedDiagonal)
      return rest
    | [] => .error (.malformed .missingDiagonal)
  else .ok entries

/-- Checks one row, given that there is an offset before and after it. -/
def checkRow (l : Layout) (row : Nat) : Except Fault Unit := do
  let start ← l.offset row
  let stop ← l.offset (row + 1)
  require (start ≤ stop ∧ stop ≤ l.columns.size) (.malformed .decreasingOffsets)
  let entries ← l.slice start stop
  require (entries.toList.any (l.nCols ≤ ·.toNat) = false) (.malformed .columnBeyondRange)
  let ascending ← l.ascendingPart row entries.toList
  require (increasing ascending = true) (.malformed .unorderedColumns)

/-- Checks that the layout describes a pattern. -/
def check (l : Layout) : Except Fault Unit := do
  require (l.nCols < columnLimit) .tooLarge
  require (l.rowStart.size = l.nRows + 1) (.malformed .offsetCount)
  require (l.diagonalFirst = true → l.nRows = l.nCols) (.malformed .diagonalOfRectangle)
  require ((← l.offset 0) = 0) (.malformed .firstOffset)
  require ((← l.offset l.nRows) = l.columns.size) (.malformed .lastOffset)
  Rows.fold (fun _ row => l.checkRow row) 0 l.nRows ()

end SparsePattern.Layout
