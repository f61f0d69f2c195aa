import SparsePattern.Image.Header
import SparsePattern.Json.Print
import SparsePattern.Pattern
import SparsePattern.Policy

/-!
# Policies, headers and patterns as JSON

The record form of each: its fields, the value that a record stands for, and the record of a value.
-/

namespace SparsePattern

open Json

/-! ### Policies -/

namespace Policy

/-- A policy has one field. -/
def fields : List Field := [⟨"diagonal_first", .flag⟩]

def ofJson (text : String) : Except Refusal Policy :=
  parse fields (fun (diagonalFirst, _) => .ok { diagonalFirst }) text

def toJson (policy : Policy) : String :=
  Record.text .compact fields (policy.diagonalFirst, ())

end Policy

/-! ### Headers -/

namespace Header

/-- The fields of a header, the two marks byte by byte. -/
def fields : List Field :=
  [⟨"magic", .block 4 256⟩, ⟨"version", .natural 256⟩, ⟨"structure_flags", .natural 256⟩,
    ⟨"index_width", .natural 256⟩, ⟨"reserved_0", .natural 256⟩, ⟨"n_rows", .natural sizeLimit⟩,
    ⟨"n_cols", .natural sizeLimit⟩, ⟨"nnz", .natural sizeLimit⟩,
    ⟨"max_entries_per_row", .natural sizeLimit⟩, ⟨"row_start_offset", .natural sizeLimit⟩,
    ⟨"column_indices_offset", .natural sizeLimit⟩, ⟨"reserved", .block 8 256⟩]

/-- The number whose bytes are listed, least significant first. -/
def word (bytes : List Nat) : Nat := LittleEndian.decode (bytes.map Nat.toUInt8)

/-- The listed bytes of a number, least significant first. -/
def bytesOf (width n : Nat) : List Nat := (LittleEndian.encode width n).map UInt8.toNat

/-- Any header can be written so; whether its fields fit together is not checked. -/
def ofJson (text : String) : Except Refusal Header :=
  parse fields (fun (magic, version, flags, indexWidth, spare, nRows, nCols, entryCount, longestRow,
      offsetsStart, columnsStart, reserved, _) =>
    .ok {
      magic := (word magic).toUInt32
      version := version.toUInt8
      flags := flags.toUInt8
      indexWidth := indexWidth.toUInt8
      spare := spare.toUInt8
      nRows := nRows.toUInt64
      nCols := nCols.toUInt64
      entryCount := entryCount.toUInt64
      longestRow := longestRow.toUInt64
      offsetsStart := offsetsStart.toUInt64
      columnsStart := columnsStart.toUInt64
      reserved := (word reserved).toUInt64 }) text

def toJson (h : Header) : String :=
  Record.text .compact fields
    (bytesOf 4 h.magic.toNat, h.version.toNat, h.flags.toNat, h.indexWidth.toNat, h.spare.toNat,
      h.nRows.toNat, h.nCols.toNat, h.entryCount.toNat, h.longestRow.toNat, h.offsetsStart.toNat,
      h.columnsStart.toNat, bytesOf 8 h.reserved.toNat, ())

end Header

/-! ### Patterns -/

namespace Pattern

/-- The fields of a pattern. -/
def fields : List Field :=
  [⟨"n_rows", .natural sizeLimit⟩, ⟨"n_cols", .natural sizeLimit⟩,
    ⟨"row_start", .naturals sizeLimit⟩, ⟨"column_indices", .naturals columnLimit⟩,
    ⟨"diagonal_first", .flag⟩]

/-- The length of the longest row is not written, and follows from the layout. -/
def ofJson (text : String) : Except Refusal Pattern :=
  parse fields (fun (nRows, nCols, rowStart, columns, diagonalFirst, _) =>
    ofLayout {
      nRows
      nCols
      rowStart := rowStart.toArray
      columns := (columns.map Nat.toUInt32).toArray
      diagonalFirst }) text

def toJson (p : Pattern) : String :=
  Record.text .compact fields
    (p.nRows, p.nCols, p.rowStart.toList, p.columns.toList.map UInt32.toNat, p.diagonalFirst, ())

end Pattern

end SparsePattern
