import SparsePattern.Draft.Compress
import SparsePattern.Proofs.Distinct
import SparsePattern.Proofs.Draft.Windows
import SparsePattern.Proofs.Pattern

/-!
# Compressed drafts are well-formed

A well-formed draft compresses without fault, because no row records a column twice (`compress_eq`),
and what it compresses to is a well-formed pattern (`wellFormed_compressed`).
-/

namespace SparsePattern.Draft

variable {d : Draft}

/-! ### One row -/

private theorem firstRepeat_eq_none {columns : List UInt32} (h : columns.Nodup) :
    firstRepeat columns = none := by
  fun_induction firstRepeat columns with
  | case1 c rest =>
    exact absurd List.mem_cons_self (List.nodup_cons.1 h).1
  | case2 c d rest hne ih => exact ih (List.nodup_cons.1 h).2
  | case3 => rfl

/-- How many columns of a row stay in front when the others are sorted. -/
def leadCount (d : Draft) : Nat := if d.diagonalFirst then 1 else 0

/-- The columns recorded in `row`, in stored order. -/
def storedRow (d : Draft) (row : Nat) : List UInt32 :=
  (d.recorded row).take d.leadCount ++ ((d.recorded row).drop d.leadCount).mergeSort

/-- The stored row has the recorded columns in another order. -/
theorem storedRow_perm (d : Draft) (row : Nat) : (d.storedRow row).Perm (d.recorded row) := by
  have hsort : (((d.recorded row).drop d.leadCount).mergeSort).Perm
      ((d.recorded row).drop d.leadCount) :=
    List.mergeSort_perm ..
  have happend := hsort.append_left ((d.recorded row).take d.leadCount)
  rwa [List.take_append_drop] at happend

theorem mem_storedRow {row : Nat} {c : UInt32} : c ∈ d.storedRow row ↔ c ∈ d.recorded row :=
  (d.storedRow_perm row).mem_iff

private theorem nodup_mergeSort {columns : List UInt32} (h : columns.Nodup) :
    (columns.mergeSort).Nodup :=
  (List.mergeSort_perm ..).nodup_iff.2 h

private theorem pairwise_lt_mergeSort {columns : List UInt32} (h : columns.Nodup) :
    columns.mergeSort.Pairwise (· < ·) :=
  (Distinct.pairwise_mergeSort columns).imp₂ (fun _ _ hle hne => UInt32.lt_of_le_of_ne hle hne)
    (nodup_mergeSort h)

private theorem compressRow_eq (h : d.WellFormed) {row : Nat} (hrow : row < d.nRows) :
    d.compressRow row = .ok (d.storedRow row) := by
  have hnodup : ((d.recorded row).drop d.leadCount).Nodup := (h.windows row hrow).nodup.drop
  have hrepeat := firstRepeat_eq_none (nodup_mergeSort hnodup)
  rw [leadCount] at hrepeat
  simp only [compressRow, hrepeat]
  rfl

/-- Sorting what follows the diagonal puts the row in its stored order. -/
theorem rowOrdered_storedRow (h : d.WellFormed) {row : Nat} (hrow : row < d.nRows) :
    Layout.RowOrdered d.diagonalFirst row (d.storedRow row) := by
  have hw := h.windows row hrow
  have hnodup : (d.recorded row).Nodup := hw.nodup
  unfold Layout.RowOrdered
  by_cases hd : d.diagonalFirst = true
  · have hcol : row < columnLimit := Nat.lt_trans (h.square hd ▸ hrow) h.nCols_lt
    obtain ⟨rest, hrest⟩ : ∃ rest, d.recorded row = row.toUInt32 :: rest :=
      List.head?_eq_some_iff.1 (hw.leads hd)
    rw [hrest] at hnodup
    obtain ⟨hlead, hnodup⟩ := List.nodup_cons.1 hnodup
    rw [if_pos hd]
    refine ⟨row.toUInt32, rest.mergeSort, ?_, toNat_toUInt32 hcol, pairwise_lt_mergeSort hnodup, ?_⟩
    · rw [storedRow, leadCount, if_pos hd, hrest]
      rfl
    · rwa [List.mem_mergeSort]
  · rw [if_neg hd, storedRow, leadCount, if_neg hd, List.take_zero, List.drop_zero, List.nil_append]
    exact pairwise_lt_mergeSort hnodup

/-! ### All rows -/

private theorem compressRows_eq (h : d.WellFormed) {row count : Nat} (hle : row + count ≤ d.nRows) :
    d.compressRows row count = .ok ((List.range' row count).map d.storedRow) := by
  induction count generalizing row with
  | zero => rfl
  | succ count ih =>
    rw [compressRows, compressRow_eq h (by omega), ih (by omega)]
    rfl

/-- The rows of a draft in stored order. -/
def storedRows (d : Draft) : List (List UInt32) := (List.range d.nRows).map d.storedRow

/-- What a well-formed draft compresses to. -/
def compressed (d : Draft) : Pattern where
  nRows := d.nRows
  nCols := d.nCols
  rowStart := ((d.storedRows.map List.length).scanl (· + ·) 0).toArray
  columns := d.storedRows.flatten.toArray
  diagonalFirst := d.diagonalFirst
  longestRow := (d.storedRows.map List.length).foldl max 0

/-- Compression refuses no draft that calls can lead to. -/
theorem compress_eq (h : d.WellFormed) : d.compress = .ok d.compressed := by
  rw [compress, compressRows_eq h (Nat.le_of_eq (Nat.zero_add _)), ← List.range_eq_range']
  rfl

private theorem packs_compressed (d : Draft) : d.compressed.toLayout.Packs d.storedRows :=
  ⟨by simp [compressed, storedRows], rfl, rfl⟩

/-- The rows of the compressed draft are the stored ones. -/
theorem rowList_compressed {row : Nat} (hrow : row < d.nRows) :
    d.compressed.toLayout.rowList row = d.storedRow row := by
  rw [d.packs_compressed.rowList_eq (by simpa [storedRows] using hrow)]
  simp [storedRows]

/-- The compressed draft is a well-formed pattern. -/
theorem wellFormed_compressed (h : d.WellFormed) : d.compressed.WellFormed := by
  refine ⟨⟨d.packs_compressed.tiled, h.nCols_lt, h.square, ?_, ?_⟩, ?_⟩
  · intro c hc
    obtain ⟨columns, hcolumns, hc⟩ := List.mem_flatten.1 hc
    obtain ⟨row, hrow, rfl⟩ := List.mem_map.1 hcolumns
    exact (h.windows row (List.mem_range.1 hrow)).column_lt c (mem_storedRow.1 hc)
  · intro row hrow
    rw [rowList_compressed hrow]
    exact rowOrdered_storedRow h hrow
  · -- the longest row was taken from the rows that the arrays hold
    show (d.storedRows.map List.length).foldl max 0 = ((List.range d.nRows).map _).foldl max 0
    rw [storedRows, List.map_map]
    refine congrArg (List.foldl max 0) (List.map_congr_left fun row hrow => ?_)
    rw [rowList_compressed (List.mem_range.1 hrow)]
    rfl

theorem wellFormed_compress {p : Pattern} (h : d.WellFormed) (hp : d.compress = .ok p) :
    p.WellFormed := by
  rw [compress_eq h] at hp
  obtain rfl := Except.ok.inj hp
  exact wellFormed_compressed h

end SparsePattern.Draft
