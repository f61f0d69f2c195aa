import SparsePattern.Compressed
import SparsePattern.Layout.Check

/-!
# Compressed patterns

A pattern is a layout together with the length of its longest row.  Patterns are made by compressing
a draft, or from a layout that passes its check (`Pattern.ofLayout`).
-/

namespace SparsePattern

/-- A compressed sparsity pattern. -/
structure Pattern extends Layout where
  /-- The length of the longest row. -/
  longestRow : Nat
deriving DecidableEq, Repr

namespace Pattern

/-- The pattern without rows and columns. -/
def empty : Pattern := ⟨⟨0, 0, #[0], #[], false⟩, 0⟩

instance : Inhabited Pattern := ⟨empty⟩

/-- The largest difference of neighbours in an ascending list. -/
def longestGap : List Nat → Nat
  | a :: b :: rest => max (b - a) (longestGap (b :: rest))
  | _ => 0

/-- The pattern that a layout describes, if it does describe one. -/
def ofLayout (l : Layout) : Except Fault Pattern := do
  l.check
  return { l with longestRow := longestGap l.rowStart.toList }

/-- The patterns that state their longest row and whose layout describes one. -/
structure WellFormed (p : Pattern) : Prop where
  layout : p.toLayout.WellFormed
  longestRow_eq : p.longestRow = p.toLayout.longest

instance (p : Pattern) : Decidable p.WellFormed :=
  decidable_of_iff (p.toLayout.WellFormed ∧ p.longestRow = p.toLayout.longest)
    ⟨fun ⟨hl, hr⟩ => ⟨hl, hr⟩, fun ⟨hl, hr⟩ => ⟨hl, hr⟩⟩

/-- A pattern has its entry count and longest row at hand. -/
instance : Compressed Pattern where
  layout := Pattern.toLayout
  entryCount p := .ok p.columns.size
  longestRow p := .ok p.longestRow

/-- The bytes that a pattern occupies: its record, eight for each offset and four for each
column. -/
def footprint (p : Pattern) : Nat := 80 + 8 * (p.nRows + 1) + 4 * p.columns.size

end Pattern

end SparsePattern
