import Mathlib.Data.List.Nodup
import Mathlib.Data.List.Perm.Subperm
import SparsePattern.Compressed
import SparsePattern.Pattern
import SparsePattern.Proofs.Layout.Reads

/-!
# Lengths of rows

`Layout.longest` bounds all rows and some row attains it (`length_le_longest`,
`exists_length_eq_longest`); it is what the pass over the rows finds
(`WellFormed.scanLongestRow_eq`) and what the gaps between the offsets give
(`WellFormed.longestGap_eq`).  A row holds each column at most once, so that no row is longer than
there are columns (`WellFormed.length_rowList_le`).
-/

namespace SparsePattern

/-! ### Largest of a list -/

private theorem foldl_max (ns : List Nat) (n : Nat) : ns.foldl max n = max n (ns.foldl max 0) := by
  have h : ns.foldl max (max n 0) = max n (ns.foldl max 0) := List.foldl_assoc
  rwa [Nat.max_zero] at h

theorem le_foldl_max {ns : List Nat} {n : Nat} (h : n ∈ ns) : n ≤ ns.foldl max 0 := by
  induction ns with
  | nil => cases h
  | cons m ns ih =>
    rw [List.foldl_cons, foldl_max, Nat.zero_max]
    rcases List.mem_cons.1 h with rfl | h
    · exact Nat.le_max_left _ _
    · exact Nat.le_trans (ih h) (Nat.le_max_right _ _)

private theorem foldl_max_mem {ns : List Nat} (h : ns ≠ []) : ns.foldl max 0 ∈ ns := by
  induction ns with
  | nil => exact absurd rfl h
  | cons m ns ih =>
    rw [List.foldl_cons, foldl_max, Nat.zero_max]
    by_cases hns : ns = []
    · subst hns; simp
    · rcases Nat.le_total m (ns.foldl max 0) with hle | hle
      · rw [Nat.max_eq_right hle]; exact List.mem_cons_of_mem _ (ih hns)
      · rw [Nat.max_eq_left hle]; exact List.mem_cons_self

theorem foldl_max_le {ns : List Nat} {b : Nat} (h : ∀ n ∈ ns, n ≤ b) : ns.foldl max 0 ≤ b := by
  by_cases hns : ns = []
  · subst hns; exact Nat.zero_le b
  · exact h _ (foldl_max_mem hns)

/-- The greatest of some numbers, zero if there are none, bounds them and is one of them. -/
theorem foldl_max_eq_iff {ns : List Nat} {n : Nat} :
    ns.foldl max 0 = n ↔ (∀ m ∈ ns, m ≤ n) ∧ (n = 0 ∨ n ∈ ns) := by
  constructor
  · rintro rfl
    refine ⟨fun m => le_foldl_max, ?_⟩
    by_cases hns : ns = []
    · exact .inl (hns ▸ rfl)
    · exact .inr (foldl_max_mem hns)
  · rintro ⟨hle, hattained⟩
    refine Nat.le_antisymm (foldl_max_le hle) ?_
    rcases hattained with rfl | hmem
    · exact Nat.zero_le _
    · exact le_foldl_max hmem

/-- Distinct columns below a bound are no more than the bound. -/
theorem length_le_of_nodup {columns : List UInt32} {n : Nat} (hd : columns.Nodup)
    (hlt : ∀ c ∈ columns, c.toNat < n) : columns.length ≤ n := by
  have hmap : (columns.map UInt32.toNat).Nodup := hd.map fun _ _ => UInt32.toNat_inj.1
  have hsub : columns.map UInt32.toNat ⊆ List.range n := by
    intro k hk
    obtain ⟨c, hc, rfl⟩ := List.mem_map.1 hk
    exact List.mem_range.2 (hlt c hc)
  simpa using (hmap.subperm hsub).length_le

namespace Layout

variable {l : Layout}

/-! ### The longest row -/

/-- No row is longer than the longest. -/
theorem length_le_longest {r : Nat} (hr : r < l.nRows) : (l.rowList r).length ≤ l.longest :=
  le_foldl_max (List.mem_map.2 ⟨r, List.mem_range.2 hr, rfl⟩)

/-- The longest row is one of the rows. -/
theorem exists_length_eq_longest (h : 0 < l.nRows) :
    ∃ r < l.nRows, (l.rowList r).length = l.longest := by
  have hne : (List.range l.nRows).map (fun r => (l.rowList r).length) ≠ [] := by
    simp only [ne_eq, List.map_eq_nil_iff, List.range_eq_nil]; omega
  obtain ⟨r, hr, hlen⟩ := List.mem_map.1 (foldl_max_mem hne)
  exact ⟨r, List.mem_range.1 hr, hlen⟩

theorem longest_le {b : Nat} (h : ∀ r < l.nRows, (l.rowList r).length ≤ b) : l.longest ≤ b := by
  refine foldl_max_le fun n hn => ?_
  obtain ⟨r, hr, rfl⟩ := List.mem_map.1 hn
  exact h r (List.mem_range.1 hr)

/-- The gaps between neighbouring numbers, each looked up by its place. -/
private theorem longestGap_getD (ns : List Nat) :
    Pattern.longestGap ns =
      ((List.range (ns.length - 1)).map fun r => ns.getD (r + 1) 0 - ns.getD r 0).foldl max 0 := by
  fun_induction Pattern.longestGap ns with
  | case1 a b rest ih =>
    have hlen : (a :: b :: rest).length - 1 = ((b :: rest).length - 1) + 1 := by simp
    rw [ih, hlen, List.range_succ_eq_map, List.map_cons, List.foldl_cons, Nat.zero_max,
      foldl_max _ (_ - _), List.map_map]
    rfl
  | case2 ns hshort =>
    match ns, hshort with
    | [], _ => rfl
    | [a], _ => rfl
    | a :: b :: rest, hshort => exact absurd rfl (hshort a b rest)

/-! ### Well-formed layouts -/

/-- A row in order has no column twice. -/
theorem RowOrdered.nodup {diagonalFirst : Bool} {row : Nat} {columns : List UInt32}
    (h : RowOrdered diagonalFirst row columns) : columns.Nodup := by
  have strict {cs : List UInt32} (hcs : cs.Pairwise (· < ·)) : cs.Nodup := hcs.imp UInt32.ne_of_lt
  unfold RowOrdered at h
  split at h
  · obtain ⟨lead, rest, rfl, -, hrest, hlead⟩ := h
    exact List.nodup_cons.2 ⟨hlead, strict hrest⟩
  · exact strict h

/-- A leading diagonal is among the columns of its row. -/
theorem RowOrdered.mem_of_leads {row : Nat} {columns : List UInt32}
    (h : RowOrdered true row columns) : row ∈ columns.map UInt32.toNat := by
  obtain ⟨lead, rest, rfl, rfl, -⟩ := h
  exact List.mem_cons_self

namespace WellFormed

theorem length_rowList_le (h : l.WellFormed) {r : Nat} (hr : r < l.nRows) :
    (l.rowList r).length ≤ l.nCols :=
  length_le_of_nodup (h.row_ordered r hr).nodup fun c hc =>
    h.column_lt c (mem_columns_of_mem_rowList hc)

theorem longest_le_nCols (h : l.WellFormed) : l.longest ≤ l.nCols :=
  longest_le fun _ => h.length_rowList_le

theorem longest_le_size (h : l.WellFormed) : l.longest ≤ l.columns.size :=
  longest_le fun r hr => by
    have := h.start_add_length hr
    have := h.start_le_size (r := r + 1) hr
    omega

/-- The greatest gap between offsets is the length of the longest row. -/
theorem longestGap_eq (h : l.WellFormed) : Pattern.longestGap l.rowStart.toList = l.longest := by
  have hlen : l.rowStart.toList.length - 1 = l.nRows := by
    rw [Array.length_toList, h.size_rowStart, Nat.add_sub_cancel]
  rw [longestGap_getD, hlen, longest]
  refine congrArg (List.foldl max 0) (List.map_congr_left fun r hr => ?_)
  rw [h.length_rowList (List.mem_range.1 hr)]
  simp [start, Array.getD_eq_getD_getElem?]

/-- Visiting all rows finds the longest. -/
theorem scanLongestRow_eq (h : l.WellFormed) : l.scanLongestRow = .ok l.longest := by
  have hvisit : ∀ acc r, 0 ≤ r → r < 0 + l.nRows →
      (max acc ·) <$> l.rowLength r = .ok (max acc (l.rowList r).length) := by
    intro acc r _ hr
    rw [h.rowLength_eq (by omega)]
    rfl
  rw [scanLongestRow, Rows.fold_eq_foldl hvisit, longest, List.foldl_map, List.range_eq_range']

end WellFormed

end Layout

end SparsePattern
