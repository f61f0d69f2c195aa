import SparsePattern.Image.Sections
import SparsePattern.Pattern

/-!
# Views of images

A view answers queries straight from the arrays of an image.  The arrays are read in place, so they
have to be aligned in memory; otherwise a view accepts what `Pattern.ofBytes` accepts.
-/

namespace SparsePattern

open Rows (require)

/-- An image read in place. -/
structure View where
  header : Header
  rowStart : Array Nat
  columns : Array UInt32
deriving DecidableEq, Repr

namespace View

/-- The layout that the image states. -/
def layout (v : View) : Layout where
  nRows := v.header.nRows.toNat
  nCols := v.header.nCols.toNat
  rowStart := v.rowStart
  columns := v.columns
  diagonalFirst := v.header.diagonalFirst

/-- A view has its entry count at hand and takes its longest row from the header. -/
instance : Compressed View where
  layout := View.layout
  entryCount v := .ok v.columns.size
  longestRow v := .ok v.header.longestRow.toNat

/-- The numbers of `width` bytes each in a stretch of memory that starts at `address`.  They are
read where they stand, so that they have to be aligned and to fill the stretch. -/
def readInPlace (width address : Nat) (stretch : Bytes) (defect : Defect) :
    Except Fault (List Nat) := do
  require (address % width = 0 ∧ stretch.length % width = 0) (.malformed defect)
  return LittleEndian.decodeArray width (stretch.length / width) stretch

/-- The view of an image that stands at `address` in memory. -/
def ofSections (address : Nat) (s : Sections) : Except Fault View := do
  let rowStart ←
    readInPlace Header.offsetWidth (address + s.header.offsetsStart.toNat) s.offsets
      .unalignedOffsets
  let columns ←
    readInPlace Header.columnWidth (address + s.header.columnsStart.toNat) s.columns
      .unalignedColumns
  let v : View :=
    { header := s.header
      rowStart := rowStart.toArray
      columns := (columns.map Nat.toUInt32).toArray }
  v.layout.check
  require ((← v.layout.scanLongestRow) = s.header.longestRow.toNat) (.malformed .longestRowMismatch)
  return v

/-- The view of the image at the front of `bytes`, which stand at `address` in memory. -/
def ofBytes (bytes : Bytes) (address : Nat := 0) : Except Fault View := do
  ofSections address (← Sections.ofBytes bytes)

/-- The view of `bytes`, which must end with the image. -/
def ofExactBytes (bytes : Bytes) (address : Nat := 0) : Except Fault View := do
  ofSections address (← Sections.ofExactBytes bytes)

/-- A pattern of its own with the entries of the view. -/
def toPattern (v : View) : Except Fault Pattern := Pattern.ofLayout v.layout

end View

end SparsePattern
