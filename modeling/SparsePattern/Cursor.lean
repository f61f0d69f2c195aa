import SparsePattern.Compressed

/-!
# Visiting entries in order

A `Cursor` walks through the entries of a structure by number, keeping the row it is in.
-/

namespace SparsePattern

/-- A place among the entries of a structure. -/
structure Cursor where
  row : Nat := 0
  index : Nat := 0
deriving DecidableEq, Repr

namespace Cursor

variable {α : Type} [Compressed α]

/-- The first row from `row` on that ends after entry `index`. -/
def seekRow (s : α) (index row : Nat) : Except Fault Nat :=
  match h : (Compressed.layout s).rowStart[row + 1]? with
  | none => .error (.outOfBounds (.offset (row + 1)))
  | some stop => if stop ≤ index then seekRow s index (row + 1) else .ok row
termination_by (Compressed.layout s).rowStart.size - row
decreasing_by
  have := (Array.getElem?_eq_some_iff.1 h).1
  omega

/-- The next entry and the place behind it, nothing after the last entry. -/
def next (s : α) (cursor : Cursor) : Except Fault (Option ((Nat × Nat) × Cursor)) := do
  let count ← Compressed.entryCount s
  if count ≤ cursor.index then return none
  let row ← seekRow s cursor.index cursor.row
  match (Compressed.layout s).columns[cursor.index]? with
  | none => .error (.outOfBounds (.columns cursor.index (cursor.index + 1)))
  | some col => return some ((row, col.toNat), ⟨row, cursor.index + 1⟩)

/-- How many entries are still to come: at least so many, and at most so many if that is known. -/
def remaining (s : α) (cursor : Cursor) : Except Fault (Nat × Option Nat) := do
  let left := (← Compressed.entryCount s) - cursor.index
  return (left, some left)

/-- Up to `limit` entries from the cursor on, with the place behind them. -/
def take (s : α) : (limit : Nat) → Cursor → Except Fault (List (Nat × Nat) × Cursor)
  | 0, cursor => .ok ([], cursor)
  | limit + 1, cursor => do
    match ← next s cursor with
    | none => return ([], cursor)
    | some (entry, cursor) =>
      let (entries, cursor) ← take s limit cursor
      return (entry :: entries, cursor)

/-- All entries in order. -/
def entries (s : α) : Except Fault (List (Nat × Nat)) := do
  let count ← Compressed.entryCount s
  return (← take s count {}).1

end Cursor

end SparsePattern
