import Mathlib.Algebra.BigOperators.Group.Finset.Basic
import SparsePattern.Proofs.Compressed.Faithful
import SparsePattern.Proofs.Draft.Canonical

/-!
# Drafts and what they compress to

Compression reorders the entries of a draft and keeps them all (`entryList_perm`).  A draft
therefore answers like the pattern that it compresses to (`WellFormed.agrees_compressed`), although
it looks for an entry among the slots of its row one by one and the pattern finds it by halves
behind its diagonal.
-/

namespace SparsePattern

namespace Draft

variable {d : Draft}

/-! ### The entries of a compressed draft -/

/-- The recorded entries, row by row and within a row oldest first. -/
def recordedEntries (d : Draft) : List (Nat × Nat) :=
  (List.range d.nRows).flatMap fun row => (d.recorded row).map fun c => (row, c.toNat)

private theorem length_recordedEntries (d : Draft) : d.recordedEntries.length = d.entryCount := by
  simp only [recordedEntries, entryCount, List.length_flatMap, List.length_map]

private theorem entryCount_eq_foldl (d : Draft) :
    d.entryCount =
      ((List.range d.nRows).map fun row => (d.recorded row).length).foldl (· + ·) 0 := by
  rw [entryCount, List.length_flatMap, List.sum_eq_foldl]

/-- The entries of a draft are counted row by row, each once. -/
theorem entryCount_eq_sum (h : d.WellFormed) :
    d.entryCount = ∑ row ∈ Finset.range d.nRows, (d.entrySet row).card := by
  have hlengths : d.entryCount = ∑ row ∈ Finset.range d.nRows, (d.recorded row).length :=
    List.length_flatMap
  rw [hlengths]
  exact Finset.sum_congr rfl fun row hrow => (card_entrySet h (Finset.mem_range.1 hrow)).symm

private theorem bandwidth_eq_foldl (d : Draft) :
    d.bandwidth = (d.recordedEntries.map fun e => distance e.1 e.2).foldl max 0 := by
  simp only [bandwidth, recordedEntries, List.map_flatMap, List.map_map]
  rfl

/-- Compression keeps the entries and only moves them within their rows. -/
theorem entryList_perm (d : Draft) : d.compressed.toLayout.entryList.Perm d.recordedEntries := by
  refine List.Perm.flatMap_left _ fun row hrow => ?_
  have hrow : row < d.nRows := List.mem_range.1 hrow
  rw [Layout.rowEntries, rowList_compressed hrow]
  exact (d.storedRow_perm row).map _

private theorem size_columns_compressed (h : d.WellFormed) :
    d.compressed.columns.size = d.entryCount := by
  have hl := (wellFormed_compressed h).layout
  calc
    d.compressed.columns.size = d.compressed.toLayout.entryList.length := hl.length_entryList.symm
    _ = d.recordedEntries.length := d.entryList_perm.length_eq
    _ = d.entryCount := d.length_recordedEntries

private theorem bandwidth_compressed (h : d.WellFormed) :
    Compressed.bandwidth d.compressed = .ok d.bandwidth := by
  have hperm := d.entryList_perm.map fun e => distance e.1 e.2
  rw [bandwidth_eq_foldl, ← hperm.foldl_eq 0]
  exact Compressed.bandwidth_eq (wellFormed_compressed h).layout

/-- A draft and its compressed pattern contain the same. -/
theorem contains_compressed (h : d.WellFormed) (r c : Nat) :
    Compressed.contains d.compressed r c = .ok (d.contains r c) := by
  have hl : (Compressed.layout d.compressed).WellFormed := (wellFormed_compressed h).layout
  obtain ⟨found, hfound⟩ := Compressed.exists_indexOf? hl r c
  have hiff := exists_indexOf?_compressed_iff h (r := r) (c := c)
  rw [Compressed.contains, hfound]
  refine congrArg Except.ok ?_
  rw [Bool.eq_iff_iff, ← hiff, Option.isSome_iff_exists, hfound]
  simp only [Except.ok.injEq]

private theorem longestRow_compressed_le (h : d.WellFormed) :
    d.compressed.longestRow ≤ d.longestReservation := by
  rw [(wellFormed_compressed h).longestRow_eq]
  refine Layout.longest_le fun row hrow => ?_
  have hrow : row < d.nRows := hrow
  calc
    (d.compressed.toLayout.rowList row).length = (d.storedRow row).length := by
      rw [rowList_compressed hrow]
    _ = (d.recorded row).length := (d.storedRow_perm row).length_eq
    _ ≤ d.capacity row := length_recorded_le h hrow
    _ ≤ d.longestReservation := le_foldl_max (List.mem_map_of_mem (List.mem_range.2 hrow))

/-! ### Agreement -/

/-- The draft answers like the pattern.  Its rows may have slots to spare: it knows only a bound for
the longest row. -/
structure Agrees (d : Draft) (p : Pattern) : Prop where
  nRows : Compressed.nRows p = d.nRows
  nCols : Compressed.nCols p = d.nCols
  isEmpty : Compressed.isEmpty p = d.isEmpty
  diagonalFirst : Compressed.diagonalFirst p = d.diagonalFirst
  entryCount : Compressed.entryCount p = .ok d.entryCount
  bandwidth : Compressed.bandwidth p = .ok d.bandwidth
  contains : ∀ r c, Compressed.contains p r c = .ok (d.contains r c)
  rowLength : ∀ r < d.nRows, d.rowLength r = .ok (d.recorded r).length ∧
    Compressed.rowLength p r = .ok (d.recorded r).length
  total : p.rowStart[d.nRows]? =
    some (((List.range d.nRows).map fun r => (d.recorded r).length).foldl (· + ·) 0)
  longestRow : ∃ longest, Compressed.longestRow p = .ok longest ∧ longest ≤ d.longestReservation

/-- Every query that both have is answered alike by a draft and its compressed pattern. -/
theorem WellFormed.agrees_compressed (h : d.WellFormed) : d.Agrees d.compressed := by
  have hl : (Compressed.layout d.compressed).WellFormed := (wellFormed_compressed h).layout
  have hsize := size_columns_compressed h
  constructor
  case nRows | nCols | isEmpty | diagonalFirst => rfl
  case entryCount => exact congrArg Except.ok hsize
  case bandwidth => exact bandwidth_compressed h
  case contains => exact contains_compressed h
  case rowLength =>
    intro r hr
    refine ⟨if_pos hr, ?_⟩
    rw [Compressed.rowLength_eq hl hr, ← (d.storedRow_perm r).length_eq, ← rowList_compressed hr]
    rfl
  case total =>
    rw [← entryCount_eq_foldl, ← hsize]
    exact hl.last_offset
  case longestRow => exact ⟨_, rfl, longestRow_compressed_le h⟩

end Draft

namespace Session

/-- However a draft has come about, it compresses to a pattern that answers like it. -/
theorem run_queries_agree (calls : List Call) {d : Draft} (hd : d ∈ (run calls).drafts) :
    ∃ p, d.compress = .ok p ∧ d.Agrees p := by
  have h := wellFormed_of_mem_run hd
  exact ⟨d.compressed, Draft.compress_eq h, h.agrees_compressed⟩

/-- A row that is full and out of order, and rows with slots to spare. -/
def unsorted : List Call := [.uniform 3 3 3 {}, .insertRow 0 0 [2, 1], .insert 0 1 0]

theorem run_queries_agree_unsorted :
    ∃ d p, (run unsorted).drafts = [d] ∧
      d.slots = #[0, 2, 1, 1, 0, Draft.free, 2, Draft.free, Draft.free] ∧
      d.compress = .ok p ∧ d.Agrees p ∧ Compressed.contains p 0 2 = .ok true ∧
      Compressed.contains p 2 7 = .ok false := by
  have hrun : (run unsorted).drafts =
      [⟨3, 3, #[0, 3, 6, 9], #[0, 2, 1, 1, 0, Draft.free, 2, Draft.free, Draft.free], true⟩] := by
    cbv
  obtain ⟨p, hp, hagrees⟩ := run_queries_agree unsorted (hrun ▸ List.mem_cons_self)
  exact ⟨_, p, hrun, rfl, hp, hagrees, hagrees.contains 0 2, hagrees.contains 2 7⟩

end Session

end SparsePattern
