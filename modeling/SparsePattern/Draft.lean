import SparsePattern.Fault
import SparsePattern.Layout
import SparsePattern.Policy
import SparsePattern.Rows

/-!
# Drafts

A draft is a pattern under construction.  Every row has a fixed reservation of slots, all in one
array; the entries of a row take its slots from the front, so that the first free slot ends them
(`Draft.recorded`).
-/

namespace SparsePattern

open Rows (require)

/-- A pattern under construction. -/
structure Draft where
  nRows : Nat
  nCols : Nat
  /-- Where the reservation of each row starts, and at the end the number of slots. -/
  rowStart : Array Nat
  /-- The slots of all rows. -/
  slots : Array UInt32
  /-- Whether the first slot of each row holds its diagonal entry. -/
  diagonalFirst : Bool
deriving DecidableEq, Repr

namespace Draft

/-- What a free slot holds; columns are smaller. -/
def free : UInt32 := 0xFFFFFFFF

/-- The bytes that an array of a draft may occupy. -/
def memoryLimit : Nat := 0x800000000000

/-! ### Construction -/

/-- The draft without rows and columns. -/
def empty : Draft := ⟨0, 0, #[0], #[], false⟩

/-- The slots of a row that asks for `wanted`: never more than there are columns, and always one for
a leading diagonal. -/
def reservation (nCols : Nat) (diagonalFirst : Bool) (wanted : Nat) : Nat :=
  max (min wanted nCols) (if diagonalFirst then 1 else 0)

/-- The slots of `row` at first: all free but for a leading diagonal. -/
def blankRow (diagonalFirst : Bool) (row capacity : Nat) : List UInt32 :=
  if diagonalFirst then row.toUInt32 :: List.replicate (capacity - 1) free
  else List.replicate capacity free

/-- A draft with these reservations. -/
def reserve (nRows nCols : Nat) (diagonalFirst : Bool) (capacities : List Nat) : Draft where
  nRows := nRows
  nCols := nCols
  rowStart := (capacities.scanl (· + ·) 0).toArray
  slots := (capacities.mapIdx (blankRow diagonalFirst)).flatten.toArray
  diagonalFirst := diagonalFirst

/-- Whether the offsets of `nRows` rows and a total of `slots` slots fit the memory. -/
def Fits (nRows slots : Nat) : Prop := 8 * (nRows + 1) ≤ memoryLimit ∧ 4 * slots ≤ memoryLimit

instance (nRows slots : Nat) : Decidable (Fits nRows slots) :=
  inferInstanceAs (Decidable (_ ∧ _))

/-- A draft that reserves `wanted` slots in every row. -/
def uniform (nRows nCols wanted : Nat) (policy : Policy := {}) : Except Fault Draft := do
  require (nCols < columnLimit) .tooLarge
  let diagonalFirst := policy.leads nRows nCols
  let capacity := reservation nCols diagonalFirst wanted
  require (Fits nRows (nRows * capacity)) .tooLarge
  return reserve nRows nCols diagonalFirst (List.replicate nRows capacity)

/-- A draft with a reservation of its own for every row. -/
def ofReservations (nRows nCols : Nat) (wanted : List Nat) (policy : Policy := {}) :
    Except Fault Draft := do
  require (wanted.length = nRows) (.rowCountMismatch nRows wanted.length)
  require (nCols < columnLimit) .tooLarge
  let diagonalFirst := policy.leads nRows nCols
  let capacities := wanted.map (reservation nCols diagonalFirst)
  require (Fits nRows (capacities.foldl (· + ·) 0)) .tooLarge
  return reserve nRows nCols diagonalFirst capacities

/-! ### Rows -/

/-- The first slot of `row`, or of what follows the last row. -/
def start (d : Draft) (row : Nat) : Nat := d.rowStart.getD row 0

/-- The reserved slots of `row`. -/
def window (d : Draft) (row : Nat) : List UInt32 :=
  (d.slots.extract (d.start row) (d.start (row + 1))).toList

/-- What a row's slots hold up to the first free one. -/
def occupied (slots : List UInt32) : List UInt32 := slots.takeWhile (· != free)

/-- The columns recorded in `row`, oldest first. -/
def recorded (d : Draft) (row : Nat) : List UInt32 := occupied (d.window row)

/-- The number of slots reserved for `row`. -/
def capacity (d : Draft) (row : Nat) : Nat := d.start (row + 1) - d.start row

/-- The number of entries recorded in `row`, which must exist. -/
def rowLength (d : Draft) (row : Nat) : Except Fault Nat :=
  if row < d.nRows then .ok (d.recorded row).length else .error (.outOfBounds (.offset row))

/-- The number of slots reserved for `row`, which must exist. -/
def rowCapacity (d : Draft) (row : Nat) : Except Fault Nat :=
  if row < d.nRows then .ok (d.capacity row) else .error (.outOfBounds (.offset row))

/-! ### Queries -/

/-- Whether both dimensions are zero. -/
def isEmpty (d : Draft) : Bool := d.nRows == 0 && d.nCols == 0

/-- Whether the entry at `row` and `col` is recorded. -/
def contains (d : Draft) (row col : Nat) : Bool :=
  decide (row < d.nRows) && (d.recorded row).any (·.toNat == col)

/-- The number of recorded entries. -/
def entryCount (d : Draft) : Nat :=
  ((List.range d.nRows).flatMap d.recorded).length

/-- The largest reservation. -/
def longestReservation (d : Draft) : Nat :=
  ((List.range d.nRows).map d.capacity).foldl max 0

/-- The largest distance of a recorded entry from the diagonal. -/
def bandwidth (d : Draft) : Nat :=
  ((List.range d.nRows).flatMap fun row =>
    (d.recorded row).map fun c => distance row c.toNat).foldl max 0

/-- The bytes that a draft occupies: its record, eight for each offset and four for each slot. -/
def footprint (d : Draft) : Nat := 72 + 8 * (d.nRows + 1) + 4 * d.slots.size

end Draft

end SparsePattern
