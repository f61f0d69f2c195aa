import SparsePattern.Proofs.Compressed.Enumeration
import SparsePattern.Text.Lines

/-!
# The lines of a pattern

The text of a well-formed structure is whole: a line for each row (`rowLines_eq`), a line for each
entry in the order of the entries (`pointLines_eq`).
-/

namespace SparsePattern

open Compressed (layout nRows)

variable {α : Type} [Compressed α] {s : α}

/-- No line is cut short. -/
private theorem rowLinesFrom_eq (h : (layout s).WellFormed) {row count : Nat}
    (hrows : row + count ≤ nRows s) :
    rowLinesFrom s row count =
      { pieces := (List.range' row count).map fun r => rowLine r ((layout s).rowList r) } := by
  induction count generalizing row with
  | zero => rfl
  | succ count ih =>
    have hrest : row + 1 + count ≤ nRows s := by omega
    rw [rowLinesFrom, Compressed.row_eq h (by omega), List.range'_succ, List.map_cons]
    simp only [ih hrest, Rendering.prepend]

/-- The text of the rows is whole, with a line for each row. -/
theorem rowLines_eq (h : (layout s).WellFormed) :
    rowLines s =
      { pieces := (List.range (nRows s)).map fun r => rowLine r ((layout s).rowList r) } := by
  rw [rowLines, rowLinesFrom_eq h (Nat.le_of_eq (Nat.zero_add _)), List.range_eq_range']

/-- The lines are those of the entries that the cursor gives in as many steps. -/
private theorem pointLinesFrom_of_take {cursor behind : Cursor} {count : Nat}
    {entries : List (Nat × Nat)} (h : cursor.take s count = .ok (entries, behind)) :
    pointLinesFrom s cursor count = { pieces := entries.map fun e => pointLine e.1 e.2 } := by
  induction count generalizing cursor entries with
  | zero =>
    obtain ⟨rfl, -⟩ := Prod.mk.inj (Except.ok.inj h)
    rfl
  | succ count ih =>
    rw [Cursor.take] at h
    rw [pointLinesFrom]
    obtain ⟨found, hnext, h⟩ := Rows.bind_eq_ok.1 h
    rw [hnext]
    cases found with
    | none =>
      obtain ⟨rfl, -⟩ := Prod.mk.inj (Except.ok.inj h)
      rfl
    | some found =>
      obtain ⟨⟨row, col⟩, after⟩ := found
      obtain ⟨⟨rest, behind'⟩, htake, h⟩ := Rows.bind_eq_ok.1 h
      obtain ⟨rfl, rfl⟩ := Prod.mk.inj (Except.ok.inj h)
      simp only [ih htake, Rendering.prepend, List.map_cons]

/-- The text of the points is whole, with a line for each entry, in order. -/
theorem pointLines_eq [LawfulCompressed α] (h : (layout s).WellFormed) :
    pointLines s = { pieces := (layout s).entryList.map fun e => pointLine e.1 e.2 } := by
  obtain ⟨behind, htake, -⟩ := Cursor.take_eq h (Cursor.Placed.initial h) (layout s).columns.size
  rw [List.drop_zero, List.take_of_length_le (Nat.le_of_eq h.length_entryList)] at htake
  rw [pointLines, LawfulCompressed.entryCount_eq h]
  exact pointLinesFrom_of_take htake

end SparsePattern
