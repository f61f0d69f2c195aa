import SparsePattern.Image.Sections
import SparsePattern.Pattern

/-!
# Patterns as images

`Pattern.toBytes` writes the header, the row offsets in eight bytes each and the columns in four
bytes each, every array where the header places it; `Pattern.ofBytes` reads any image whose sections
are in place and whose layout passes its check.
-/

namespace SparsePattern.Pattern

open Rows (require)

/-- The header of the pattern's image. -/
def header (p : Pattern) : Header :=
  Header.describe p.nRows p.nCols p.columns.size p.longestRow p.diagonalFirst

/-- The bytes of the pattern's image. -/
def imageSize (p : Pattern) : Nat :=
  p.header.columnsStart.toNat + Header.columnWidth * p.columns.size

/-- The bytes of the row offsets. -/
def offsetsBytes (p : Pattern) : Bytes :=
  LittleEndian.encodeArray Header.offsetWidth p.rowStart.toList

/-- The bytes of the columns. -/
def columnsBytes (p : Pattern) : Bytes :=
  LittleEndian.encodeArray Header.columnWidth (p.columns.toList.map UInt32.toNat)

/-- Brings `out` to `length` bytes: zeros fill it up, and what is beyond is dropped. -/
def resize (out : Bytes) (length : Nat) : Bytes :=
  out.take length ++ List.replicate (length - out.length) 0

/-- Appends the pattern's image, in which each array starts where the header says. -/
def appendTo (out : Bytes) (p : Pattern) : Bytes :=
  let base := out.length
  let out := out ++ p.header.toBytes
  let out := resize out (base + p.header.offsetsStart.toNat) ++ p.offsetsBytes
  resize out (base + p.header.columnsStart.toNat) ++ p.columnsBytes

/-- The pattern's image. -/
def toBytes (p : Pattern) : Bytes := appendTo [] p

/-- The pattern whose image stands at the front of `bytes`. -/
def ofBytes (bytes : Bytes) : Except Fault Pattern := do
  let sections ← Sections.ofBytes bytes
  let header := sections.header
  let p ← ofLayout {
    nRows := header.nRows.toNat
    nCols := header.nCols.toNat
    rowStart := ← sections.decodeOffsets
    columns := ← sections.decodeColumns
    diagonalFirst := header.diagonalFirst }
  require (p.longestRow = header.longestRow.toNat) (.malformed .longestRowMismatch)
  return p

end SparsePattern.Pattern
