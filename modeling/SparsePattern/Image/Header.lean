import SparsePattern.Image.LittleEndian
import SparsePattern.Layout
import SparsePattern.Rows

/-!
# Image headers

An image starts with 64 bytes that state its dimensions and where its two arrays lie.
`Header.ofBytes` accepts a header only if its arrays follow each other, aligned, within 2^64 bytes;
`Header.describe` places them as closely as they may stand.
-/

namespace SparsePattern

/-- What every image starts with: "SPAT", least significant byte first. -/
def Header.tag : UInt32 := 0x54415053

/-- The newest version of the format. -/
def Header.newestVersion : UInt8 := 1

/-- The columns of each row ascend. -/
def Header.ascendingFlag : UInt8 := 8

/-- Each row stores its diagonal entry first. -/
def Header.diagonalFlag : UInt8 := 1

/-- The header of an image. -/
structure Header where
  magic : UInt32 := Header.tag
  version : UInt8 := Header.newestVersion
  flags : UInt8 := Header.ascendingFlag
  /-- The bytes of one column. -/
  indexWidth : UInt8 := 4
  /-- Unused. -/
  spare : UInt8 := 0
  nRows : UInt64 := 0
  nCols : UInt64 := 0
  entryCount : UInt64 := 0
  longestRow : UInt64 := 0
  /-- Where the row offsets start in the image. -/
  offsetsStart : UInt64 := 0
  /-- Where the columns start in the image. -/
  columnsStart : UInt64 := 0
  /-- Unused. -/
  reserved : UInt64 := 0
deriving DecidableEq, Repr

namespace Header

open Rows (require)

/-! ### The format -/

/-- The bytes of a header. -/
def size : Nat := 64

/-- The bytes of one row offset. -/
def offsetWidth : Nat := 8

/-- The bytes of one column. -/
def columnWidth : Nat := 4

/-- Arrays start at multiples of this. -/
def alignment : Nat := 8

/-- The first place at or after `n` where an array may start. -/
def alignUp (n : Nat) : Nat := (n + (alignment - 1)) / alignment * alignment

/-- The header of an image with these dimensions whose arrays follow each other as closely as they
may. -/
def describe (nRows nCols entryCount longestRow : Nat) (diagonalFirst : Bool) : Header where
  flags := if diagonalFirst then ascendingFlag ||| diagonalFlag else ascendingFlag
  nRows := nRows.toUInt64
  nCols := nCols.toUInt64
  entryCount := entryCount.toUInt64
  longestRow := longestRow.toUInt64
  offsetsStart := (alignUp size).toUInt64
  columnsStart := (alignUp (alignUp size + offsetWidth * (nRows + 1))).toUInt64

/-- Whether the header says that each row stores its diagonal entry first. -/
def diagonalFirst (h : Header) : Bool := h.flags &&& diagonalFlag != 0

/-! ### Sizes -/

/-- The bytes of the row offsets. -/
def offsetsSize (h : Header) : Except Fault Nat := do
  require (h.nRows.toNat + 1 < sizeLimit) (.malformed .rowCountOverflow)
  require (offsetWidth * (h.nRows.toNat + 1) < sizeLimit) (.malformed .offsetsSizeOverflow)
  return offsetWidth * (h.nRows.toNat + 1)

/-- The bytes of the columns. -/
def columnsSize (h : Header) : Except Fault Nat := do
  require (h.entryCount.toNat * h.indexWidth.toNat < sizeLimit) (.malformed .columnsSizeOverflow)
  return h.entryCount.toNat * h.indexWidth.toNat

/-- The bytes of the whole image. -/
def imageSize (h : Header) : Except Fault Nat := do
  let columns ← h.columnsSize
  require (h.columnsStart.toNat + columns < sizeLimit) (.malformed .imageSizeOverflow)
  return h.columnsStart.toNat + columns

/-! ### Bytes -/

/-- The 64 bytes of a header. -/
def toBytes (h : Header) : Bytes :=
  LittleEndian.encode 4 h.magic.toNat ++
  [h.version, h.flags, h.indexWidth, h.spare] ++
  LittleEndian.encode 8 h.nRows.toNat ++
  LittleEndian.encode 8 h.nCols.toNat ++
  LittleEndian.encode 8 h.entryCount.toNat ++
  LittleEndian.encode 8 h.longestRow.toNat ++
  LittleEndian.encode 8 h.offsetsStart.toNat ++
  LittleEndian.encode 8 h.columnsStart.toNat ++
  LittleEndian.encode 8 h.reserved.toNat

/-- The number in the `width` bytes from `start` on. -/
def field (bytes : Bytes) (start width : Nat) : Nat :=
  LittleEndian.decode ((bytes.drop start).take width)

/-- The fields in the first 64 bytes. -/
def read (bytes : Bytes) : Header where
  magic := (field bytes 0 4).toUInt32
  version := (field bytes 4 1).toUInt8
  flags := (field bytes 5 1).toUInt8
  indexWidth := (field bytes 6 1).toUInt8
  spare := (field bytes 7 1).toUInt8
  nRows := (field bytes 8 8).toUInt64
  nCols := (field bytes 16 8).toUInt64
  entryCount := (field bytes 24 8).toUInt64
  longestRow := (field bytes 32 8).toUInt64
  offsetsStart := (field bytes 40 8).toUInt64
  columnsStart := (field bytes 48 8).toUInt64
  reserved := (field bytes 56 8).toUInt64

/-- Checks that the fields fit together. -/
def check (h : Header) : Except Fault Unit := do
  require (h.indexWidth.toNat = columnWidth) (.malformed .unsupportedIndexWidth)
  require (h.flags &&& ~~~(diagonalFlag ||| ascendingFlag) = 0) (.malformed .unknownFlags)
  require (h.nCols.toNat < columnLimit) .tooLarge
  require (h.diagonalFirst = true → h.nRows = h.nCols) (.malformed .diagonalOfRectangle)
  require (h.longestRow ≤ h.nCols ∧ h.longestRow ≤ h.entryCount) (.malformed .rowLengthBeyondSize)
  require (size ≤ h.offsetsStart.toNat ∧ h.offsetsStart.toNat % alignment = 0)
    (.malformed .misplacedOffsets)
  let offsetsStop := h.offsetsStart.toNat + (← h.offsetsSize)
  require (offsetsStop < sizeLimit) (.malformed .offsetsEndOverflow)
  require (offsetsStop ≤ h.columnsStart.toNat ∧ h.columnsStart.toNat % alignment = 0)
    (.malformed .misplacedColumns)
  let _ ← h.imageSize

/-- The header at the front of an image. -/
def ofBytes (bytes : Bytes) : Except Fault Header := do
  require (size ≤ bytes.length) (.malformed .truncatedHeader)
  let h := read bytes
  require (h.magic = tag) (.malformed .badMagic)
  require (h.version ≤ newestVersion) (.unsupportedVersion h.version)
  h.check
  return h

end Header

end SparsePattern
