import SparsePattern.Proofs.Layout.Reads
import SparsePattern.View

/-!
# Lawful structures

A structure may keep its entry count at hand; it is lawful if the count it gives for a well-formed
layout is that of the layout.  Layouts, patterns and views are.  On such a structure the queries are
those of its layout.
-/

namespace SparsePattern

/-- Structures whose entry count is the number of columns of a well-formed layout. -/
class LawfulCompressed (α : Type) [Compressed α] : Prop where
  entryCount_eq : ∀ {s : α}, (Compressed.layout s).WellFormed →
    Compressed.entryCount s = .ok (Compressed.layout s).columns.size

instance : LawfulCompressed Layout where
  entryCount_eq {l} h := by
    have h : l.WellFormed := h
    show l.offset l.nRows = .ok l.columns.size
    rw [h.offset_eq (Nat.le_refl _), h.start_nRows]

instance : LawfulCompressed Pattern where
  entryCount_eq _ := rfl

instance : LawfulCompressed View where
  entryCount_eq _ := rfl

namespace Compressed

variable {α : Type} [Compressed α] {s : α}

/-- The offset of every row, and of the end of the last, is at hand. -/
theorem rowOffset_eq (h : (layout s).WellFormed) {r : Nat} (hr : r ≤ nRows s) :
    rowOffset s r = .ok ((layout s).start r) :=
  h.offset_eq hr

theorem row_eq (h : (layout s).WellFormed) {r : Nat} (hr : r < nRows s) :
    row s r = .ok ((layout s).rowList r).toArray :=
  h.row_eq hr

/-- The length of a row, which is computed from offsets alone, is that of its columns. -/
theorem rowLength_eq (h : (layout s).WellFormed) {r : Nat} (hr : r < nRows s) :
    rowLength s r = .ok ((layout s).rowList r).length :=
  h.rowLength_eq hr

end Compressed

end SparsePattern
