import SparsePattern.Proofs.Layout.Reads

/-!
# Packed rows

Lists of columns put one after another make a tiled layout (`Packs.tiled`) that has these lists as
its rows (`Packs.rowList_eq`).  Every tiled layout packs its own rows (`Tiled.packs`), and they
leave no choice for its arrays (`Packs.layout_eq`).
-/

namespace SparsePattern.Layout

/-- The arrays of the layout hold the rows one after another, without gaps. -/
structure Packs (l : Layout) (rows : List (List UInt32)) : Prop where
  nRows_eq : l.nRows = rows.length
  rowStart_eq : l.rowStart = ((rows.map List.length).scanl (· + ·) 0).toArray
  columns_eq : l.columns = rows.flatten.toArray

variable {l l' : Layout}

private theorem getElem?_scanl_lengths {rows : List (List UInt32)} {r : Nat}
    (hr : r ≤ rows.length) :
    ((rows.map List.length).scanl (· + ·) 0)[r]? = some (rows.take r).flatten.length := by
  rw [List.getElem?_scanl, if_pos (by rwa [List.length_map]), List.length_flatten, List.map_take,
    List.sum_eq_foldl]

namespace Packs

variable {rows : List (List UInt32)}

private theorem size_rowStart (h : l.Packs rows) : l.rowStart.size = l.nRows + 1 := by
  rw [h.rowStart_eq, h.nRows_eq, List.size_toArray, List.length_scanl, List.length_map]

private theorem start_eq (h : l.Packs rows) {r : Nat} (hr : r ≤ rows.length) :
    l.start r = (rows.take r).flatten.length := by
  rw [start, h.rowStart_eq, Array.getD_eq_getD_getElem?, List.getElem?_toArray,
    getElem?_scanl_lengths hr, Option.getD_some]

/-- A packed row ends where the next one starts. -/
theorem start_succ (h : l.Packs rows) {r : Nat} (hr : r < rows.length) :
    l.start (r + 1) = l.start r + rows[r].length := by
  rw [h.start_eq hr, h.start_eq (Nat.le_of_lt hr), List.take_succ_eq_append_getElem hr,
    List.flatten_append, List.length_append, List.flatten_singleton]

/-- Packed rows cover the columns without a gap. -/
theorem tiled (h : l.Packs rows) : l.Tiled := by
  have hrows := h.nRows_eq
  have hsize := h.size_rowStart
  constructor
  case size_rowStart => exact hsize
  case first_offset => rw [getElem?_rowStart (by omega), h.start_eq (Nat.zero_le _)]; rfl
  case last_offset =>
    rw [getElem?_rowStart (by omega), h.start_eq (by omega), hrows, List.take_length, h.columns_eq,
      List.size_toArray]
  case offset_le =>
    intro r hr
    rw [h.start_succ (by omega)]
    exact Nat.le_add_right _ _

/-- The rows of a packed layout are the packed ones. -/
theorem rowList_eq (h : l.Packs rows) {r : Nat} (hr : r < rows.length) : l.rowList r = rows[r] := by
  -- what comes before the row, the row, and what follows it
  have hsplit : rows.flatten = (rows.take r).flatten ++
      (rows[r] ++ (rows.drop (r + 1)).flatten) := by
    rw [← List.flatten_cons, ← List.flatten_append, ← List.drop_eq_getElem_cons hr,
      List.take_append_drop]
  have hlen : l.start (r + 1) - l.start r = rows[r].length := by
    rw [h.start_succ hr, Nat.add_sub_cancel_left]
  rw [Layout.rowList_eq, h.columns_eq, hlen, h.start_eq (Nat.le_of_lt hr), List.toList_toArray,
    hsplit, List.drop_left, List.take_left]

/-- Packed rows leave only the number of columns and the policy of the layout open. -/
theorem layout_eq (h : l.Packs rows) (h' : l'.Packs rows) (hcols : l'.nCols = l.nCols)
    (hflag : l'.diagonalFirst = l.diagonalFirst) : l' = l := by
  cases l
  cases l'
  rw [Layout.mk.injEq]
  exact ⟨h'.nRows_eq.trans h.nRows_eq.symm, hcols, h'.rowStart_eq.trans h.rowStart_eq.symm,
    h'.columns_eq.trans h.columns_eq.symm, hflag⟩

end Packs

private theorem Tiled.flatMap_rowList (h : l.Tiled) {n : Nat} (hn : n ≤ l.nRows) :
    (List.range n).flatMap l.rowList = l.columns.toList.take (l.start n) := by
  induction n with
  | zero => rw [h.start_zero]; rfl
  | succ n ih =>
    have hle : l.start n ≤ l.start (n + 1) := h.offset_le n hn
    rw [List.range_succ, List.flatMap_append, List.flatMap_singleton, ih (Nat.le_of_succ_le hn),
      rowList_eq, ← List.take_add, Nat.add_sub_cancel' hle]

/-- The rows of a tiled layout are what it packs. -/
theorem Tiled.packs (h : l.Tiled) : l.Packs ((List.range l.nRows).map l.rowList) := by
  constructor
  case nRows_eq => rw [List.length_map, List.length_range]
  case columns_eq =>
    rw [← List.flatMap_def, h.flatMap_rowList (Nat.le_refl _), h.start_nRows, ← Array.length_toList,
      List.take_length]
  case rowStart_eq =>
    have hrows : ((List.range l.nRows).map l.rowList).length = l.nRows := by
      rw [List.length_map, List.length_range]
    refine Array.ext
      (by rw [h.size_rowStart, List.size_toArray, List.length_scanl, List.length_map, hrows]) ?_
    intro r hr _
    have hle : r ≤ l.nRows := by rw [h.size_rowStart] at hr; omega
    refine Option.some.inj ?_
    rw [← Array.getElem?_eq_getElem, ← Array.getElem?_eq_getElem, getElem?_rowStart hr,
      List.getElem?_toArray, getElem?_scanl_lengths (by rwa [hrows]), ← List.map_take,
      List.take_range, Nat.min_eq_left hle, ← List.flatMap_def, h.flatMap_rowList hle,
      List.length_take, Array.length_toList, Nat.min_eq_left (h.start_le_size hle)]

end SparsePattern.Layout
