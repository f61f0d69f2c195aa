import SparsePattern.Compressed
import SparsePattern.Decimal.Fixed
import SparsePattern.Json.Print

/-!
# Summaries

The shape of a pattern in eight figures, as lines for people and as JSON.
-/

namespace SparsePattern

/-- The figures of a pattern. -/
structure Summary where
  nRows : Nat
  nCols : Nat
  entryCount : Nat
  longestRow : Nat
  bandwidth : Nat
  emptyRows : Nat
  diagonalFirst : Bool
  /-- Entries per cell, zero where there are no cells. -/
  density : Float

namespace Summary

/-- The share of the cells that hold an entry. -/
def densityOf (nRows nCols entryCount : Nat) : Float :=
  let cells := nRows.toUInt64.toFloat * nCols.toUInt64.toFloat
  if cells > 0 then entryCount.toUInt64.toFloat / cells else 0

/-- The figures of any compressed structure. -/
def of {α : Type} [Compressed α] (s : α) : Except Fault Summary := do
  let entryCount ← Compressed.entryCount s
  return {
    nRows := Compressed.nRows s
    nCols := Compressed.nCols s
    entryCount
    longestRow := ← Compressed.longestRow s
    bandwidth := ← Compressed.bandwidth s
    emptyRows := ← Compressed.emptyRows s
    diagonalFirst := Compressed.diagonalFirst s
    density := densityOf (Compressed.nRows s) (Compressed.nCols s) entryCount }

/-- The decimals that are shown of the density. -/
def densityPlaces : Nat := 6

/-- The figures on a line each; the last line is not ended. -/
def text (s : Summary) : String :=
  s!"rows:                {s.nRows}\n" ++
  s!"columns:             {s.nCols}\n" ++
  s!"nonzeros:            {s.entryCount}\n" ++
  s!"max entries per row: {s.longestRow}\n" ++
  s!"bandwidth:           {s.bandwidth}\n" ++
  s!"empty rows:          {s.emptyRows}\n" ++
  s!"diagonal first:      {s.diagonalFirst}\n" ++
  "density:             " ++ (Decimal.Binary.ofFloat s.density).fixed densityPlaces

/-! ### JSON -/

/-- The figures by name, in the order in which they are written. -/
def fields : List Json.Field :=
  [⟨"n_rows", .natural sizeLimit⟩, ⟨"n_cols", .natural sizeLimit⟩, ⟨"nnz", .natural sizeLimit⟩,
    ⟨"max_entries_per_row", .natural sizeLimit⟩, ⟨"bandwidth", .natural sizeLimit⟩,
    ⟨"empty_rows", .natural sizeLimit⟩, ⟨"diagonal_first", .flag⟩, ⟨"density", .real⟩]

def ofJson (text : String) : Except Json.Refusal Summary :=
  Json.parse fields (fun (nRows, nCols, entryCount, longestRow, bandwidth, emptyRows, diagonalFirst,
      density, _) =>
    .ok { nRows, nCols, entryCount, longestRow, bandwidth, emptyRows, diagonalFirst, density }) text

def toJson (s : Summary) : String :=
  Json.Record.text .lines fields
    (s.nRows, s.nCols, s.entryCount, s.longestRow, s.bandwidth, s.emptyRows, s.diagonalFirst,
      s.density, ())

end Summary

end SparsePattern
