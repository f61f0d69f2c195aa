import SparsePattern.Image.Header

/-!
# Sections of an image

An image is its header, the row offsets and the columns.  Splitting checks the header and that the
bytes reach far enough, not what the arrays hold.
-/

namespace SparsePattern

open Rows (require)

/-- An image taken apart. -/
structure Sections where
  header : Header
  /-- The bytes of the row offsets. -/
  offsets : Bytes
  /-- The bytes of the columns. -/
  columns : Bytes
deriving DecidableEq, Repr

namespace Sections

/-- The sections at the front of `bytes`. -/
def ofBytes (bytes : Bytes) : Except Fault Sections := do
  let header ← Header.ofBytes bytes
  require ((← header.imageSize) ≤ bytes.length) (.malformed .truncatedImage)
  let offsets := (bytes.drop header.offsetsStart.toNat).take (← header.offsetsSize)
  let columns := (bytes.drop header.columnsStart.toNat).take (← header.columnsSize)
  return { header, offsets, columns }

/-- The sections of `bytes`, which must end with the image. -/
def ofExactBytes (bytes : Bytes) : Except Fault Sections := do
  let sections ← ofBytes bytes
  require (bytes.length = (← sections.header.imageSize)) (.malformed .trailingBytes)
  return sections

/-- How many elements of `width` bytes fill `byteCount` bytes. -/
def elementCount (width byteCount : Nat) : Except Fault Nat := do
  require (byteCount % width = 0) (.malformed .unevenArray)
  require (byteCount / width ≤ (sizeLimit - 1) / 8) (.malformed .arrayTooLarge)
  return byteCount / width

/-- The row offsets. -/
def decodeOffsets (s : Sections) : Except Fault (Array Nat) := do
  let count ← elementCount Header.offsetWidth s.offsets.length
  return (LittleEndian.decodeArray Header.offsetWidth count s.offsets).toArray

/-- The columns. -/
def decodeColumns (s : Sections) : Except Fault (Array UInt32) := do
  let count ← elementCount Header.columnWidth s.columns.length
  return ((LittleEndian.decodeArray Header.columnWidth count s.columns).map Nat.toUInt32).toArray

end Sections

end SparsePattern
