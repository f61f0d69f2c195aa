import SparsePattern.Fault

/-!
# Compressed layouts

The rows of a pattern one after another: row `r` occupies the columns from its offset up to the
offset of row `r + 1`.  A layout is raw data and promises nothing, so that reading one can fail;
`Layout.WellFormed` is the promise, and under it no read does.
-/

namespace SparsePattern

/-- Columns are numbered below this bound. -/
def columnLimit : Nat := 0x100000000

/-- Sizes and offsets stay below this bound wherever they are stored. -/
def sizeLimit : Nat := 0x10000000000000000

/-- The number of a column is kept in 32 bits. -/
theorem toNat_toUInt32 {n : Nat} (h : n < columnLimit) : n.toUInt32.toNat = n :=
  UInt32.toNat_ofNat_of_lt' h

/-- A size is kept in 64 bits. -/
theorem toNat_toUInt64 {n : Nat} (h : n < sizeLimit) : n.toUInt64.toNat = n :=
  UInt64.toNat_ofNat_of_lt' h

/-- How far the entry at `row` and `col` lies from the diagonal. -/
def distance (row col : Nat) : Nat := max (row - col) (col - row)

/-- The arrays of a compressed pattern. -/
structure Layout where
  nRows : Nat
  nCols : Nat
  /-- Where each row starts, and at the end the number of entries. -/
  rowStart : Array Nat
  /-- The columns of all rows. -/
  columns : Array UInt32
  /-- Whether each row stores its diagonal entry first. -/
  diagonalFirst : Bool
deriving DecidableEq, Repr

namespace Layout

/-! ### Reads -/

/-- Where `row` starts among the columns. -/
def offset (l : Layout) (row : Nat) : Except Fault Nat :=
  match l.rowStart[row]? with
  | some start => .ok start
  | none => .error (.outOfBounds (.offset row))

/-- The columns from `start` up to `stop`. -/
def slice (l : Layout) (start stop : Nat) : Except Fault (Array UInt32) :=
  if start ≤ stop ∧ stop ≤ l.columns.size then .ok (l.columns.extract start stop)
  else .error (.outOfBounds (.columns start stop))

/-- The columns of `row` in stored order. -/
def row (l : Layout) (row : Nat) : Except Fault (Array UInt32) := do
  let start ← l.offset row
  let stop ← l.offset (row + 1)
  l.slice start stop

/-- The number of entries of `row`. -/
def rowLength (l : Layout) (row : Nat) : Except Fault Nat := do
  let start ← l.offset row
  let stop ← l.offset (row + 1)
  if start ≤ stop then .ok (stop - start) else .error (.outOfBounds (.length row))

/-! ### Well-formed layouts -/

/-- Where `row` starts among the columns, or zero if there is no offset for it. -/
def start (l : Layout) (row : Nat) : Nat := l.rowStart.getD row 0

/-- The columns of `row`, empty where the arrays hold nothing. -/
def rowList (l : Layout) (row : Nat) : List UInt32 :=
  (l.columns.extract (l.start row) (l.start (row + 1))).toList

/-- The length of the longest row, zero where there is none. -/
def longest (l : Layout) : Nat :=
  ((List.range l.nRows).map fun row => (l.rowList row).length).foldl max 0

/-- The order of the columns within a row: ascending, or the diagonal and then the others
ascending. -/
def RowOrdered (diagonalFirst : Bool) (row : Nat) (columns : List UInt32) : Prop :=
  if diagonalFirst then
    ∃ lead rest, columns = lead :: rest ∧ lead.toNat = row ∧ rest.Pairwise (· < ·) ∧ lead ∉ rest
  else columns.Pairwise (· < ·)

instance (diagonalFirst : Bool) (row : Nat) (columns : List UInt32) :
    Decidable (RowOrdered diagonalFirst row columns) :=
  match diagonalFirst, columns with
  | false, columns => inferInstanceAs (Decidable (columns.Pairwise (· < ·)))
  | true, [] => .isFalse fun ⟨_, _, h, _⟩ => by cases h
  | true, lead :: rest =>
    decidable_of_iff (lead.toNat = row ∧ rest.Pairwise (· < ·) ∧ lead ∉ rest)
      ⟨fun h => ⟨lead, rest, rfl, h⟩, fun ⟨_, _, heq, h⟩ => by cases heq; exact h⟩

/-- The layouts whose rows follow each other from the first column to the last. -/
structure Tiled (l : Layout) : Prop where
  size_rowStart : l.rowStart.size = l.nRows + 1
  first_offset : l.rowStart[0]? = some 0
  last_offset : l.rowStart[l.nRows]? = some l.columns.size
  offset_le : ∀ row < l.nRows, l.start row ≤ l.start (row + 1)

/-- The layouts that describe a pattern. -/
structure WellFormed (l : Layout) : Prop extends Tiled l where
  nCols_lt : l.nCols < columnLimit
  square : l.diagonalFirst = true → l.nRows = l.nCols
  column_lt : ∀ c ∈ l.columns.toList, c.toNat < l.nCols
  row_ordered : ∀ row < l.nRows, RowOrdered l.diagonalFirst row (l.rowList row)

instance (l : Layout) : Decidable l.Tiled :=
  decidable_of_iff
    (l.rowStart.size = l.nRows + 1 ∧ l.rowStart[0]? = some 0 ∧
      l.rowStart[l.nRows]? = some l.columns.size ∧
      ∀ row < l.nRows, l.start row ≤ l.start (row + 1))
    ⟨fun ⟨h₁, h₂, h₃, h₄⟩ => ⟨h₁, h₂, h₃, h₄⟩, fun ⟨h₁, h₂, h₃, h₄⟩ => ⟨h₁, h₂, h₃, h₄⟩⟩

instance (l : Layout) : Decidable l.WellFormed :=
  have : Decidable (∀ c ∈ l.columns.toList, c.toNat < l.nCols) := List.decidableBAll ..
  decidable_of_iff
    (l.Tiled ∧ l.nCols < columnLimit ∧ (l.diagonalFirst = true → l.nRows = l.nCols) ∧
      (∀ c ∈ l.columns.toList, c.toNat < l.nCols) ∧
        ∀ row < l.nRows, RowOrdered l.diagonalFirst row (l.rowList row))
    ⟨fun ⟨h₁, h₂, h₃, h₄, h₅⟩ => ⟨h₁, h₂, h₃, h₄, h₅⟩,
      fun ⟨h₁, h₂, h₃, h₄, h₅⟩ => ⟨h₁, h₂, h₃, h₄, h₅⟩⟩

end Layout

end SparsePattern
