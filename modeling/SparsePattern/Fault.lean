/-!
# Faults

What can go wrong with a pattern, as causes: each refusal of an operation is one `Fault`, and what
is wrong with a stored layout or image is one `Defect`.  The wording stands in `Defect.reason` and
`Fault.message` only, and `Fault.kind` sorts the faults into four coarse kinds.
-/

namespace SparsePattern

/-! ### Defects of stored data -/

/-- What is wrong with a layout or an image. -/
inductive Defect where
  /-- The header ends early. -/
  | truncatedHeader
  | badMagic
  | unsupportedIndexWidth
  | unknownFlags
  | diagonalOfRectangle
  | rowLengthBeyondSize
  | misplacedOffsets
  | rowCountOverflow
  | offsetsSizeOverflow
  | offsetsEndOverflow
  | misplacedColumns
  | columnsSizeOverflow
  | imageSizeOverflow
  /-- The arrays that the header describes end early. -/
  | truncatedImage
  | trailingBytes
  | unevenArray
  | arrayTooLarge
  | unalignedOffsets
  | unalignedColumns
  /-- The longest row is not the one that the header states. -/
  | longestRowMismatch
  | offsetCount
  | firstOffset
  | lastOffset
  | decreasingOffsets
  | columnBeyondRange
  | missingDiagonal
  | repeatedDiagonal
  | unorderedColumns
  /-- A defect that a caller words itself. -/
  | other (reason : String)
deriving DecidableEq, Repr

/-- The wording of a defect. -/
def Defect.reason : Defect → String
  | truncatedHeader => "truncated header"
  | badMagic => "bad magic bytes"
  | unsupportedIndexWidth => "unsupported column index width"
  | unknownFlags => "unknown structure flags"
  | diagonalOfRectangle => "diagonal flag on non-square pattern"
  | rowLengthBeyondSize => "row length exceeds pattern size"
  | misplacedOffsets => "misplaced row offset array"
  | rowCountOverflow => "row count overflows"
  | offsetsSizeOverflow => "row offset array size overflows"
  | offsetsEndOverflow => "row offset array overflows"
  | misplacedColumns => "misplaced column index array"
  | columnsSizeOverflow => "column index array size overflows"
  | imageSizeOverflow => "image size overflows"
  | truncatedImage => "truncated pattern image"
  | trailingBytes => "trailing bytes after pattern image"
  | unevenArray => "array size not a multiple of element size"
  | arrayTooLarge => "array too large"
  | unalignedOffsets => "row offset array not aligned"
  | unalignedColumns => "column index array not aligned"
  | longestRowMismatch => "row length does not match header"
  | offsetCount => "row offset count does not match row count"
  | firstOffset => "first row offset is not zero"
  | lastOffset => "last row offset does not match entry count"
  | decreasingOffsets => "row offsets not monotone"
  | columnBeyondRange => "column index out of range"
  | missingDiagonal => "row does not start with its diagonal"
  | repeatedDiagonal => "diagonal entry stored twice"
  | unorderedColumns => "columns not strictly increasing"
  | other reason => reason

/-! ### Reads past the arrays -/

/-- A read that the arrays of a layout do not answer. -/
inductive BadRead where
  /-- There is no offset for this row. -/
  | offset (row : Nat)
  /-- The column array has no such stretch. -/
  | columns (start stop : Nat)
  /-- The row ends before it starts. -/
  | length (row : Nat)
  /-- No row starts at or before this entry. -/
  | position (index : Nat)
deriving DecidableEq, Repr

/-! ### Faults -/

/-- Why an operation on a pattern is refused. -/
inductive Fault where
  | rowOutOfRange (row nRows : Nat)
  | columnOutOfRange (col nCols : Nat)
  /-- Every slot reserved for the row is taken. -/
  | rowFull (row capacity : Nat)
  | notSquare (nRows nCols : Nat)
  /-- Fewer or more rows were given than the dimensions ask for. -/
  | rowCountMismatch (expected found : Nat)
  | duplicateEntry (row col : Nat)
  /-- Columns do not fit 32 bits, or the reservation fits no memory. -/
  | tooLarge
  | malformed (defect : Defect)
  | unsupportedVersion (version : UInt8)
  /-- An unchecked layout was read where its arrays hold nothing. -/
  | outOfBounds (read : BadRead)
deriving DecidableEq, Repr

namespace Fault

/-- The coarse kinds of faults. -/
inductive Kind where
  /-- A row, column or position outside the pattern. -/
  | range
  /-- A reservation is used up. -/
  | capacity
  /-- The operation does not suit the pattern's shape or state. -/
  | state
  /-- Stored data cannot be trusted. -/
  | data
deriving DecidableEq, Repr

def kind : Fault → Kind
  | rowOutOfRange .. | columnOutOfRange .. | outOfBounds _ => .range
  | rowFull .. => .capacity
  | notSquare .. | rowCountMismatch .. | duplicateEntry .. | tooLarge => .state
  | malformed _ | unsupportedVersion _ => .data

def message : Fault → String
  | rowOutOfRange row nRows => s!"Row {row} out of range for pattern with {nRows} rows"
  | columnOutOfRange col nCols => s!"Column {col} out of range for pattern with {nCols} columns"
  | rowFull row capacity => s!"Row {row} is full ({capacity} entries reserved)"
  | notSquare nRows nCols => s!"Pattern must be square, got {nRows}x{nCols}"
  | rowCountMismatch expected found => s!"Dimension mismatch: expected {expected}, found {found}"
  | duplicateEntry row col => s!"Duplicate entry ({row}, {col})"
  | tooLarge => "Dimensions exceed 32-bit index range or available memory"
  | malformed defect => s!"Malformed pattern data: {defect.reason}"
  | unsupportedVersion version => s!"Unsupported format version {version}"
  | outOfBounds _ => "Layout read outside its arrays"

end Fault

end SparsePattern
