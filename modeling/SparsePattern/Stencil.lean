import SparsePattern.Draft.Compress
import SparsePattern.Draft.Insert

/-!
# Stencils

The pattern that couples each cell of a square grid with its neighbours.  Cells are numbered line by
line.
-/

namespace SparsePattern.Stencil

/-- The neighbours of a cell on a grid of `width` lines of `width` cells: above, below, left and
right. -/
def neighbours (width cell : Nat) : List Nat :=
  let line := cell / width
  let place := cell % width
  (if 0 < line then [cell - width] else []) ++
  (if line + 1 < width then [cell + width] else []) ++
  (if 0 < place then [cell - 1] else []) ++
  (if place + 1 < width then [cell + 1] else [])

/-- Couples the cells `cell, …, cell + count - 1` with their neighbours. -/
def couple (width : Nat) (d : Draft) (cell : Nat) : (count : Nat) → Except Fault Draft
  | 0 => .ok d
  | count + 1 => do
    couple width (← (d.insertRow cell (neighbours width cell)).finished) (cell + 1) count

/-- Each cell and its four neighbours. -/
def fivePoint (width : Nat) : Except Fault Pattern := do
  let cells := width * width
  let d ← Draft.uniform cells cells 5
  (← couple width d 0 cells).compress

end SparsePattern.Stencil
