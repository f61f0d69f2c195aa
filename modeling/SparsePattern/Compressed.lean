import SparsePattern.Layout
import SparsePattern.Rows
import SparsePattern.Search

/-!
# Queries on compressed structures

Entries are numbered in row order and, within a row, in stored order.  `indexOf?` and `positionOf?`
translate between these numbers and positions.  Everything follows from the layout; a structure that
knows its entry count or its longest row may say so (`Compressed`).
-/

namespace SparsePattern

namespace Layout

/-- The length of the longest row, found by visiting every row. -/
def scanLongestRow (l : Layout) : Except Fault Nat :=
  Rows.fold (fun longest row => (max longest ·) <$> l.rowLength row) 0 l.nRows 0

end Layout

/-- A structure that keeps its rows in a layout. -/
class Compressed (α : Type) where
  layout : α → Layout
  /-- The number of entries. -/
  entryCount : α → Except Fault Nat := fun s => (layout s).offset (layout s).nRows
  /-- The length of the longest row. -/
  longestRow : α → Except Fault Nat := fun s => (layout s).scanLongestRow

instance : Compressed Layout where
  layout := id

namespace Compressed

variable {α : Type} [Compressed α]

def nRows (s : α) : Nat := (layout s).nRows

def nCols (s : α) : Nat := (layout s).nCols

def diagonalFirst (s : α) : Bool := (layout s).diagonalFirst

/-- Whether both dimensions are zero. -/
def isEmpty (s : α) : Bool := nRows s == 0 && nCols s == 0

/-! ### Rows -/

def row (s : α) (r : Nat) : Except Fault (Array UInt32) := (layout s).row r

def rowLength (s : α) (r : Nat) : Except Fault Nat := (layout s).rowLength r

def rowOffset (s : α) (r : Nat) : Except Fault Nat := (layout s).offset r

/-- The columns of row `r`, refused if there is no such row. -/
def checkedRow (s : α) (r : Nat) : Except Fault (Array UInt32) :=
  if r < nRows s then row s r else .error (.rowOutOfRange r (nRows s))

/-- The column of the `k`-th entry of row `r`. -/
def column? (s : α) (r k : Nat) : Except Fault (Option Nat) :=
  if r < nRows s then do
    let entries ← row s r
    return entries[k]?.map UInt32.toNat
  else .ok none

/-! ### Entry numbers -/

/-- The number of the entry at row `r` and column `c`.  A leading diagonal is answered at once and
left out of the search, which compares the low 32 bits of the column. -/
def indexOf? (s : α) (r c : Nat) : Except Fault (Option Nat) :=
  if nRows s ≤ r ∨ nCols s ≤ c then .ok none
  else do
    let start ← rowOffset s r
    let entries ← row s r
    if diagonalFirst s ∧ 0 < entries.size then
      if r = c then return some start
      let rest := entries.extract 1 entries.size
      return (Search.find? rest c.toUInt32).map (start + 1 + ·)
    return (Search.find? entries c.toUInt32).map (start + ·)

/-- Whether there is an entry at row `r` and column `c`. -/
def contains (s : α) (r c : Nat) : Except Fault Bool := do
  return (← indexOf? s r c).isSome

/-- The first of the rows from `low` up to `high` that starts after `index`, by bisection. -/
def firstRowAfter (s : α) (index low high : Nat) : Except Fault Nat :=
  if low < high then
    let mid := low + (high - low) / 2
    match rowOffset s mid with
    | .error fault => .error fault
    | .ok start =>
      if start ≤ index then firstRowAfter s index (mid + 1) high else firstRowAfter s index low mid
  else .ok low
termination_by high - low

/-- The row and column of the entry numbered `index`. -/
def positionOf? (s : α) (index : Nat) : Except Fault (Option (Nat × Nat)) := do
  let count ← entryCount s
  if count ≤ index then return none
  let after ← firstRowAfter s index 0 (nRows s)
  match (layout s).columns[index]? with
  | none => return none
  | some col =>
    Rows.require (0 < after) (.outOfBounds (.position index))
    return some (after - 1, col.toNat)

/-! ### Shape -/

/-- The largest distance of an entry from the diagonal. -/
def bandwidth (s : α) : Except Fault Nat :=
  Rows.fold
    (fun widest r => (·.foldl (fun w c => max w (distance r c.toNat)) widest) <$> row s r)
    0 (nRows s) 0

/-- The number of rows without entries. -/
def emptyRows (s : α) : Except Fault Nat :=
  Rows.fold (fun n r => (fun length => if length = 0 then n + 1 else n) <$> rowLength s r) 0
    (nRows s) 0

end Compressed

end SparsePattern
