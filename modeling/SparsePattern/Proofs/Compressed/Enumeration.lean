import SparsePattern.Cursor
import SparsePattern.Proofs.Compressed.Numbering

/-!
# Entries in order

`Layout.entryList` lists the entries row by row, and the number of an entry is its place in this
list (`Layout.getElem?_entryList_iff`).  A cursor on a well-formed structure never stands in a row
behind its next entry (`Cursor.Placed`), so that it finds the row of each entry however many rows
are empty: any number of steps gives the next stretch of the list (`Cursor.take_eq`).
-/

namespace SparsePattern

open Compressed (layout nRows)

/-! ### The list of entries -/

namespace Layout

variable {l : Layout}

/-- The positions of the entries of `row`. -/
def rowEntries (l : Layout) (row : Nat) : List (Nat × Nat) :=
  (l.rowList row).map fun c => (row, c.toNat)

/-- The positions of all entries, row by row. -/
def entryList (l : Layout) : List (Nat × Nat) := (List.range l.nRows).flatMap l.rowEntries

private theorem Tiled.length_flatMap_rowEntries (h : l.Tiled) {n : Nat} (hn : n ≤ l.nRows) :
    ((List.range n).flatMap l.rowEntries).length = l.start n := by
  induction n with
  | zero => exact h.start_zero.symm
  | succ n ih =>
    have hrow : (l.rowEntries n).length = (l.rowList n).length := List.length_map _
    rw [List.range_succ, List.flatMap_append, List.length_append, ih (by omega),
      List.flatMap_singleton, hrow]
    exact h.start_add_length hn

theorem Tiled.length_entryList (h : l.Tiled) : l.entryList.length = l.columns.size := by
  rw [entryList, h.length_flatMap_rowEntries (Nat.le_refl _), h.start_nRows]

/-- The list of the first rows ends at the offset behind them, and has its entries at their
numbers. -/
private theorem EntryAt.getElem?_flatMap_rowEntries (h : l.WellFormed) {index r c n : Nat}
    (he : l.EntryAt index r c) (hn : n ≤ l.nRows) (hlt : index < l.start n) :
    ((List.range n).flatMap l.rowEntries)[index]? = some (r, c) := by
  induction n with
  | zero =>
    rw [h.start_zero] at hlt
    omega
  | succ n ih =>
    have hlen := h.length_flatMap_rowEntries (Nat.le_of_succ_le hn)
    rw [List.range_succ, List.flatMap_append, List.flatMap_singleton]
    rcases Nat.lt_or_ge index (l.start n) with hbefore | hrow
    · rw [List.getElem?_append_left (by omega)]
      exact ih (by omega) hbefore
    · -- the last row is that of the entry
      obtain rfl : r = n := h.row_unique he.row_lt hn he.start_le he.lt_stop hrow hlt
      obtain ⟨k, rfl⟩ := Nat.exists_eq_add_of_le hrow
      obtain ⟨col, hcol, rfl⟩ := Option.map_eq_some_iff.1 ((entryAt_start_add_iff h hn).1 he)
      rw [List.getElem?_append_right (by omega), hlen, Nat.add_sub_cancel_left, rowEntries,
        List.getElem?_map, hcol]
      rfl

/-- The number of an entry is its place in the list of all entries. -/
theorem getElem?_entryList_iff (h : l.WellFormed) {index r c : Nat} :
    l.entryList[index]? = some (r, c) ↔ l.EntryAt index r c := by
  have hlen := h.length_entryList
  have there {r c : Nat} (he : l.EntryAt index r c) : l.entryList[index]? = some (r, c) :=
    he.getElem?_flatMap_rowEntries h (Nat.le_refl _) (by rw [h.start_nRows]; exact he.index_lt)
  refine ⟨fun hindex => ?_, there⟩
  obtain ⟨hlt, -⟩ := List.getElem?_eq_some_iff.1 hindex
  obtain ⟨r', c', he⟩ := exists_entryAt h (hlen ▸ hlt)
  rw [there he, Option.some.injEq, Prod.mk.injEq] at hindex
  obtain ⟨rfl, rfl⟩ := hindex
  exact he

private theorem EntryAt.drop_entryList (h : l.WellFormed) {index r c : Nat}
    (he : l.EntryAt index r c) :
    l.entryList.drop index = (r, c) :: l.entryList.drop (index + 1) := by
  obtain ⟨hlt, hval⟩ := List.getElem?_eq_some_iff.1 ((getElem?_entryList_iff h).2 he)
  rw [List.drop_eq_getElem_cons hlt, hval]

end Layout

variable {α : Type} [Compressed α] {s : α}

/-- The position with a number is looked up in the list of all entries, and is nothing beyond it. -/
theorem Compressed.positionOf?_eq [LawfulCompressed α] (h : (layout s).WellFormed) (index : Nat) :
    positionOf? s index = .ok (layout s).entryList[index]? := by
  rcases Nat.lt_or_ge index (layout s).columns.size with hlt | hge
  · obtain ⟨r, c, he⟩ := Layout.exists_entryAt h hlt
    rw [positionOf?_of_entryAt h he, (Layout.getElem?_entryList_iff h).2 he]
  · rw [positionOf?_of_le h hge, List.getElem?_eq_none (by rwa [h.length_entryList])]

/-! ### Cursors -/

namespace Cursor

variable {cursor : Cursor}

/-- The cursor stands at the end or before an entry, and in no row behind that entry. -/
structure Placed (s : α) (cursor : Cursor) : Prop where
  row_le : cursor.row ≤ nRows s
  start_le : (layout s).start cursor.row ≤ cursor.index
  index_le : cursor.index ≤ (layout s).columns.size

namespace Placed

/-- The initial cursor stands before the first entry. -/
theorem initial (h : (layout s).WellFormed) : Placed s {} :=
  ⟨Nat.zero_le _, Nat.le_of_eq h.start_zero, Nat.zero_le _⟩

/-- The cursor has not passed the row of the next entry. -/
theorem row_le_of_entryAt (h : (layout s).WellFormed) (hc : Placed s cursor) {r c : Nat}
    (he : (layout s).EntryAt cursor.index r c) : cursor.row ≤ r := by
  refine Nat.le_of_not_lt fun hlt => ?_
  have := h.start_mono (r := r + 1) (s := cursor.row) hlt hc.row_le
  have := hc.start_le
  have := he.lt_stop
  omega

/-- The place behind an entry. -/
theorem succ {index r c : Nat} (he : (layout s).EntryAt index r c) : Placed s ⟨r, index + 1⟩ :=
  ⟨Nat.le_of_lt he.row_lt, Nat.le_succ_of_le he.start_le, he.index_lt⟩

end Placed

/-- The search goes over empty rows and ends in the row of the entry. -/
theorem seekRow_eq (h : (layout s).WellFormed) {index r c : Nat} (he : (layout s).EntryAt index r c)
    {row : Nat} (hrow : row ≤ r) : seekRow s index row = .ok r := by
  have hr := he.row_lt
  have hsize := h.size_rowStart
  have hread {row : Nat} (hrow : row ≤ r) :
      (layout s).rowStart[row + 1]? = some ((layout s).start (row + 1)) :=
    Layout.getElem?_rowStart (by omega)
  fun_induction seekRow s index row with
  | case1 row hnone =>
    rw [hread hrow] at hnone
    cases hnone
  | case2 row stop hstop hle ih =>
    rw [hread hrow, Option.some.injEq] at hstop
    -- a row that ends before the entry is not its row
    have hne : row ≠ r := by
      rintro rfl
      have := he.lt_stop
      omega
    exact ih (by omega)
  | case3 row stop hstop hlt =>
    rw [hread hrow, Option.some.injEq] at hstop
    have hge : r ≤ row := by
      refine Nat.le_of_not_lt fun hbefore => ?_
      have := h.start_mono (r := row + 1) (s := r) hbefore (Nat.le_of_lt hr)
      have := he.start_le
      omega
    rw [Nat.le_antisymm hrow hge]

section Walk

variable [LawfulCompressed α]

/-- The next entry is the one with the number at the cursor, which moves behind it into its row. -/
theorem next_of_entryAt (h : (layout s).WellFormed) (hc : Placed s cursor) {r c : Nat}
    (he : (layout s).EntryAt cursor.index r c) :
    next s cursor = .ok (some ((r, c), ⟨r, cursor.index + 1⟩)) := by
  have hlt := he.index_lt
  obtain ⟨col, hcol, rfl⟩ := Option.map_eq_some_iff.1 he.column
  rw [next, LawfulCompressed.entryCount_eq h, Rows.ok_bind, if_neg (by omega),
    seekRow_eq h he (hc.row_le_of_entryAt h he)]
  simp only [Rows.ok_bind, hcol]
  rfl

theorem next_of_le (h : (layout s).WellFormed) (hle : (layout s).columns.size ≤ cursor.index) :
    next s cursor = .ok none := by
  rw [next, LawfulCompressed.entryCount_eq h, Rows.ok_bind, if_pos hle]
  rfl

/-- Steps beyond the last entry leave the cursor where it is. -/
theorem take_eq (h : (layout s).WellFormed) (hc : Placed s cursor) (n : Nat) :
    ∃ behind : Cursor,
      take s n cursor = .ok (((layout s).entryList.drop cursor.index).take n, behind) ∧
      Placed s behind ∧ behind.index = min (cursor.index + n) (layout s).columns.size := by
  induction n generalizing cursor with
  | zero =>
    have := hc.index_le
    exact ⟨cursor, rfl, hc, by omega⟩
  | succ n ih =>
    rcases Nat.lt_or_ge cursor.index (layout s).columns.size with hlt | hge
    · obtain ⟨r, c, he⟩ := Layout.exists_entryAt h hlt
      obtain ⟨behind, htake, hplaced, hindex⟩ := ih (Placed.succ he)
      refine ⟨behind, ?_, hplaced, by rw [hindex, Nat.add_assoc, Nat.add_comm 1]⟩
      rw [take, next_of_entryAt h hc he, Rows.ok_bind, he.drop_entryList h, List.take_succ_cons]
      simp only [htake, Rows.ok_bind]
      rfl
    · refine ⟨cursor, ?_, hc, by have := hc.index_le; omega⟩
      rw [take, next_of_le h hge, Rows.ok_bind,
        List.drop_of_length_le (by rwa [h.length_entryList])]
      rfl

/-- From the start, `n` steps give the first `n` entries, or all of them. -/
theorem take_initial (h : (layout s).WellFormed) (n : Nat) :
    (·.1) <$> take s n {} = .ok ((layout s).entryList.take n) := by
  obtain ⟨behind, htake, -⟩ := take_eq h (Placed.initial h) n
  rw [htake, List.drop_zero]
  rfl

theorem entries_eq (h : (layout s).WellFormed) : entries s = .ok (layout s).entryList := by
  obtain ⟨behind, htake, -⟩ := take_eq h (Placed.initial h) (layout s).columns.size
  rw [entries, LawfulCompressed.entryCount_eq h, Rows.ok_bind, htake, Rows.ok_bind, List.drop_zero,
    List.take_of_length_le (Nat.le_of_eq h.length_entryList)]
  rfl

end Walk

end Cursor

end SparsePattern
