import SparsePattern.Layout
import SparsePattern.Rows

/-!
# Reads of tiled layouts

A read below the last offset succeeds (`offset_eq_ok`).  Under `Layout.Tiled` so do the reads of all
rows (`Tiled.row_eq`, `Tiled.rowLength_eq`), the rows cover the columns from end to end
(`Tiled.exists_row`) and no two of them overlap (`Tiled.row_unique`).
-/

namespace SparsePattern.Layout

variable {l : Layout}

/-! ### Reads in general -/

theorem getElem?_rowStart {row : Nat} (h : row < l.rowStart.size) :
    l.rowStart[row]? = some (l.start row) := by
  simp [start, Array.getD_eq_getD_getElem?, h]

theorem offset_eq_ok {row : Nat} (h : row < l.rowStart.size) :
    l.offset row = .ok (l.start row) := by
  simp only [offset, getElem?_rowStart h]

theorem slice_eq_ok {start stop : Nat} (h : start ≤ stop ∧ stop ≤ l.columns.size) :
    l.slice start stop = .ok (l.columns.extract start stop) := by
  simp only [slice, h, and_self, ↓reduceIte]

/-- A row is what stands between two offsets. -/
theorem rowList_eq (l : Layout) (row : Nat) :
    l.rowList row =
      (l.columns.toList.drop (l.start row)).take (l.start (row + 1) - l.start row) := by
  rw [rowList, Array.toList_extract, List.extract_eq_take_drop]

private theorem toArray_rowList (row : Nat) :
    (l.rowList row).toArray = l.columns.extract (l.start row) (l.start (row + 1)) :=
  Array.toArray_toList

theorem mem_columns_of_mem_rowList {row : Nat} {c : UInt32} (h : c ∈ l.rowList row) :
    c ∈ l.columns.toList := by
  rw [rowList_eq] at h
  exact List.mem_of_mem_drop (List.mem_of_mem_take h)

/-- What stands between two offsets belongs to the row. -/
theorem mem_rowList_of_getElem? {row i : Nat} {c : UInt32} (hc : l.columns[i]? = some c)
    (hri : l.start row ≤ i) (hir : i < l.start (row + 1)) : c ∈ l.rowList row := by
  obtain ⟨hi, -⟩ := Array.getElem?_eq_some_iff.1 hc
  refine List.mem_iff_getElem?.2 ⟨i - l.start row, ?_⟩
  rw [rowList, Array.getElem?_toList, Array.getElem?_extract, if_pos (by omega),
    Nat.add_sub_cancel' hri, hc]

/-- Between the two ends of the offsets every position lies in a row, in whatever order the offsets
are. -/
theorem exists_row_of_ends {n i : Nat} (h0 : l.start 0 ≤ i) (hn : i < l.start n) :
    ∃ r < n, l.start r ≤ i ∧ i < l.start (r + 1) := by
  induction n with
  | zero => omega
  | succ n ih =>
    -- the last row, unless the position lies before its start
    rcases Nat.lt_or_ge i (l.start n) with h | h
    · obtain ⟨r, hr, hi⟩ := ih h
      exact ⟨r, by omega, hi⟩
    · exact ⟨n, by omega, h, hn⟩

/-! ### Offsets -/

namespace Tiled

theorem start_zero (h : l.Tiled) : l.start 0 = 0 := by
  simp [start, Array.getD_eq_getD_getElem?, h.first_offset]

/-- The last offset is the number of entries. -/
theorem start_nRows (h : l.Tiled) : l.start l.nRows = l.columns.size := by
  simp [start, Array.getD_eq_getD_getElem?, h.last_offset]

/-- Offsets do not descend. -/
theorem start_mono (h : l.Tiled) {r s : Nat} (hrs : r ≤ s) (hs : s ≤ l.nRows) :
    l.start r ≤ l.start s := by
  induction hrs with
  | refl => exact Nat.le_refl _
  | step _ ih => exact Nat.le_trans (ih (by omega)) (h.offset_le _ hs)

theorem start_le_size (h : l.Tiled) {r : Nat} (hr : r ≤ l.nRows) : l.start r ≤ l.columns.size := by
  rw [← h.start_nRows]
  exact h.start_mono hr (Nat.le_refl _)

/-- No offset lies beyond the columns. -/
theorem le_size_of_mem_rowStart (h : l.Tiled) {n : Nat} (hn : n ∈ l.rowStart.toList) :
    n ≤ l.columns.size := by
  obtain ⟨r, hr⟩ := List.mem_iff_getElem?.1 hn
  rw [Array.getElem?_toList] at hr
  obtain ⟨hlt, -⟩ := Array.getElem?_eq_some_iff.1 hr
  have hstart : l.start r = n := by
    rw [getElem?_rowStart hlt] at hr
    exact Option.some.inj hr
  have hsize := h.size_rowStart
  rw [← hstart]
  exact h.start_le_size (by omega)

theorem offset_eq (h : l.Tiled) {r : Nat} (hr : r ≤ l.nRows) : l.offset r = .ok (l.start r) :=
  offset_eq_ok (by rw [h.size_rowStart]; omega)

/-- Every entry lies in a row. -/
theorem exists_row (h : l.Tiled) {i : Nat} (hi : i < l.columns.size) :
    ∃ r < l.nRows, l.start r ≤ i ∧ i < l.start (r + 1) :=
  exists_row_of_ends (by rw [h.start_zero]; omega) (by rw [h.start_nRows]; exact hi)

/-- No entry lies in two rows. -/
theorem row_unique (h : l.Tiled) {i r s : Nat} (hr : r < l.nRows) (hs : s < l.nRows)
    (hri : l.start r ≤ i) (hir : i < l.start (r + 1)) (hsi : l.start s ≤ i)
    (his : i < l.start (s + 1)) : r = s := by
  rcases Nat.lt_trichotomy r s with hlt | heq | hlt
  · have := h.start_mono (r := r + 1) (s := s) (by omega) (by omega)
    omega
  · exact heq
  · have := h.start_mono (r := s + 1) (s := r) (by omega) (by omega)
    omega

/-! ### Rows -/

theorem length_rowList (h : l.Tiled) {r : Nat} (hr : r < l.nRows) :
    (l.rowList r).length = l.start (r + 1) - l.start r := by
  have := h.start_le_size (r := r + 1) hr
  simp only [rowList, Array.length_toList, Array.size_extract]
  omega

/-- A row ends where the next one starts. -/
theorem start_add_length (h : l.Tiled) {r : Nat} (hr : r < l.nRows) :
    l.start r + (l.rowList r).length = l.start (r + 1) := by
  have := h.offset_le r hr
  rw [h.length_rowList hr]
  omega

/-- A place in a row is one among all columns, counted from the start of the row. -/
theorem getElem?_rowList (h : l.Tiled) {r k : Nat} (hr : r < l.nRows)
    (hk : k < (l.rowList r).length) : (l.rowList r)[k]? = l.columns[l.start r + k]? := by
  have := h.start_add_length hr
  have := h.start_le_size (r := r + 1) hr
  rw [rowList, Array.getElem?_toList, Array.getElem?_extract, if_pos (by omega)]

/-- Every row of a tiled layout is read without fault. -/
theorem row_eq (h : l.Tiled) {r : Nat} (hr : r < l.nRows) :
    l.row r = .ok (l.rowList r).toArray := by
  have hs : l.start r ≤ l.start (r + 1) ∧ l.start (r + 1) ≤ l.columns.size :=
    ⟨h.offset_le r hr, h.start_le_size hr⟩
  rw [row, h.offset_eq (by omega), h.offset_eq (by omega), toArray_rowList]
  exact slice_eq_ok hs

theorem rowLength_eq (h : l.Tiled) {r : Nat} (hr : r < l.nRows) :
    l.rowLength r = .ok (l.rowList r).length := by
  rw [rowLength, h.offset_eq (by omega), h.offset_eq (by omega), h.length_rowList hr]
  exact if_pos (h.offset_le r hr)

end Tiled

end SparsePattern.Layout
