import SparsePattern.Cursor
import SparsePattern.Stream.Sink
import SparsePattern.Trouble

/-!
# Patterns as text

One line per row, `[row,column,column]`, or one line per entry for plotting, `column -row`, which
puts row 0 on top.
-/

namespace SparsePattern

/-- Lines as far as they could be written, and the fault that ended them early. -/
structure Rendering where
  pieces : List String
  fault : Option Fault := none
deriving DecidableEq, Repr

namespace Rendering

def text (r : Rendering) : String := String.join r.pieces

/-- The rendering with `piece` in front. -/
def prepend (piece : String) (r : Rendering) : Rendering := { r with pieces := piece :: r.pieces }

/-- The text, if nothing ended it early. -/
def complete (r : Rendering) : Except Fault String :=
  match r.fault with
  | none => .ok r.text
  | some fault => .error fault

/-- Writes the text, then reports the fault that ended it. -/
def putOn (r : Rendering) (s : Sink) : Sink × Option Trouble :=
  match s.put r.text.toUTF8.toList with
  | (s, some reason) => (s, some (.io reason))
  | (s, none) => (s, r.fault.map .fault)

end Rendering

variable {α : Type} [Compressed α]

/-! ### Rows -/

/-- The line of a row. -/
def rowLine (row : Nat) (columns : List UInt32) : String :=
  s!"[{row}" ++ String.join (columns.map fun c => s!",{c}") ++ "]\n"

/-- The lines of the rows `row, …, row + count - 1`; a row that cannot be read leaves the start of
its line. -/
def rowLinesFrom (s : α) (row : Nat) : (count : Nat) → Rendering
  | 0 => { pieces := [] }
  | count + 1 =>
    match Compressed.row s row with
    | .error fault => { pieces := [s!"[{row}"], fault := some fault }
    | .ok columns => (rowLinesFrom s (row + 1) count).prepend (rowLine row columns.toList)

/-- One line per row. -/
def rowLines (s : α) : Rendering := rowLinesFrom s 0 (Compressed.nRows s)

/-! ### Plot points -/

/-- The line of an entry. -/
def pointLine (row col : Nat) : String := s!"{col} {-(row : Int)}\n"

/-- The lines of at most `count` entries from the cursor on. -/
def pointLinesFrom (s : α) (cursor : Cursor) : (count : Nat) → Rendering
  | 0 => { pieces := [] }
  | count + 1 =>
    match cursor.next s with
    | .error fault => { pieces := [], fault := some fault }
    | .ok none => { pieces := [] }
    | .ok (some ((row, col), cursor)) =>
      (pointLinesFrom s cursor count).prepend (pointLine row col)

/-- One line per entry. -/
def pointLines (s : α) : Rendering :=
  match Compressed.entryCount s with
  | .error fault => { pieces := [], fault := some fault }
  | .ok count => pointLinesFrom s {} count

end SparsePattern
