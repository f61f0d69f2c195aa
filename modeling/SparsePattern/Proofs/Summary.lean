import Mathlib.Algebra.Order.BigOperators.Group.Finset
import Mathlib.Algebra.Order.Ring.Rat
import SparsePattern.Proofs.Compressed.Answers

/-!
# Figures that fit together

The lengths of the rows add up to the entries (`Layout.Tiled.sum_length_rowList`), a row that is not
empty holds at least one of them and none holds more than the longest, so that the figures of a
structure bound each other and leave no cell with two entries (`Compressed.Summarizes`).  The
farthest entry lies within the structure (`Compressed.bandwidth_lt`).
-/

namespace SparsePattern

/-! ### Rows -/

namespace Layout

variable {l : Layout}

/-- The lengths of the first rows add up to the offset behind them. -/
theorem Tiled.sum_length_rowList (h : l.Tiled) {n : Nat} (hn : n ≤ l.nRows) :
    ∑ r ∈ Finset.range n, (l.rowList r).length = l.start n := by
  induction n with
  | zero => rw [Finset.range_zero, Finset.sum_empty, h.start_zero]
  | succ n ih => rw [Finset.sum_range_succ, ih (Nat.le_of_succ_le hn), h.start_add_length hn]

private theorem Tiled.sum_lengths (h : l.Tiled) :
    ∑ r ∈ Finset.range l.nRows, (l.rowList r).length = l.columns.size := by
  rw [h.sum_length_rowList (Nat.le_refl _), h.start_nRows]

/-- The rows without entries. -/
def emptyRows (l : Layout) : Finset Nat :=
  (Finset.range l.nRows).filter fun r => (l.rowList r).length = 0

/-- The rows with entries. -/
def filledRows (l : Layout) : Finset Nat :=
  (Finset.range l.nRows).filter fun r => (l.rowList r).length ≠ 0

private theorem card_emptyRows (l : Layout) :
    l.emptyRows.card = (List.range l.nRows).countP fun r => (l.rowList r).length = 0 := by
  rw [List.countP_eq_length_filter]
  rfl

private theorem card_emptyRows_add_card_filledRows (l : Layout) :
    l.emptyRows.card + l.filledRows.card = l.nRows := by
  rw [emptyRows, filledRows, Finset.card_filter_add_card_filter_not, Finset.card_range]

private theorem Tiled.sum_filledRows (h : l.Tiled) :
    ∑ r ∈ l.filledRows, (l.rowList r).length = l.columns.size := by
  rw [filledRows, Finset.sum_filter_ne_zero, h.sum_lengths]

private theorem Tiled.card_filledRows_le (h : l.Tiled) : l.filledRows.card ≤ l.columns.size := by
  have hfilled : ∀ r ∈ l.filledRows, 1 ≤ (l.rowList r).length := by
    intro r hr
    exact Nat.one_le_iff_ne_zero.2 (Finset.mem_filter.1 hr).2
  have hsum := Finset.card_nsmul_le_sum l.filledRows _ 1 hfilled
  rwa [h.sum_filledRows, Nat.nsmul_eq_mul, Nat.mul_one] at hsum

private theorem Tiled.size_le_card_filledRows_mul (h : l.Tiled) :
    l.columns.size ≤ l.filledRows.card * l.longest := by
  have hlongest : ∀ r ∈ l.filledRows, (l.rowList r).length ≤ l.longest := by
    intro r hr
    exact length_le_longest (Finset.mem_range.1 (Finset.mem_filter.1 hr).1)
  have hsum := Finset.sum_le_card_nsmul l.filledRows _ l.longest hlongest
  rwa [h.sum_filledRows, Nat.nsmul_eq_mul] at hsum

private theorem WellFormed.card_filledRows_mul_le (h : l.WellFormed) :
    l.filledRows.card * l.longest ≤ l.nRows * l.nCols := by
  have hrows : l.filledRows.card ≤ l.nRows := by
    have := l.card_emptyRows_add_card_filledRows
    omega
  exact Nat.mul_le_mul hrows h.longest_le_nCols

/-- A leading diagonal leaves no row empty. -/
private theorem WellFormed.emptyRows_eq_empty (h : l.WellFormed) (hflag : l.diagonalFirst = true) :
    l.emptyRows = ∅ := by
  refine Finset.filter_eq_empty_iff.2 fun r hr hempty => ?_
  have hordered := h.row_ordered r (Finset.mem_range.1 hr)
  rw [hflag] at hordered
  have hlead := hordered.mem_of_leads
  rw [List.eq_nil_of_length_eq_zero hempty] at hlead
  exact List.not_mem_nil hlead

end Layout

/-! ### The farthest entry -/

namespace Compressed

variable {α : Type} [Compressed α] {s : α}

private theorem contains_lt (h : (layout s).WellFormed) {r c : Nat}
    (hin : contains s r c = .ok true) : r < nRows s ∧ c < nCols s := by
  obtain ⟨index, he⟩ := (contains_eq_true_iff h).1 hin
  exact ⟨he.row_lt, he.col_lt h⟩

private theorem bandwidth_of_no_entries (h : (layout s).WellFormed)
    (hnone : (layout s).columns.size = 0) : bandwidth s = .ok 0 := by
  rw [bandwidth_eq h, List.eq_nil_of_length_eq_zero (h.length_entryList.trans hnone)]
  rfl

private theorem exists_contains (h : (layout s).WellFormed) (hsome : (layout s).columns.size ≠ 0) :
    ∃ r c, contains s r c = .ok true := by
  obtain ⟨r, c, he⟩ := Layout.exists_entryAt h (Nat.pos_of_ne_zero hsome)
  exact ⟨r, c, (contains_eq_true_iff h).2 ⟨0, he⟩⟩

private theorem bandwidth_attained (h : (layout s).WellFormed) (hsome : (layout s).columns.size ≠ 0)
    {n : Nat} (hn : bandwidth s = .ok n) : ∃ r c, contains s r c = .ok true ∧ distance r c = n := by
  obtain ⟨hle, rfl | hattained⟩ := (bandwidth_eq_ok_iff h).1 hn
  · -- no entry is off the diagonal, so that any of them is as far as the farthest
    obtain ⟨r, c, hin⟩ := exists_contains h hsome
    exact ⟨r, c, hin, Nat.le_zero.1 (hle r c hin)⟩
  · exact hattained

/-- The bandwidth is smaller than the longer side of the structure. -/
theorem bandwidth_lt (h : (layout s).WellFormed) (hsome : (layout s).columns.size ≠ 0) {n : Nat}
    (hn : bandwidth s = .ok n) : n < max (nRows s) (nCols s) := by
  obtain ⟨r, c, hin, rfl⟩ := bandwidth_attained h hsome hn
  obtain ⟨hr, hc⟩ := contains_lt h hin
  unfold distance
  omega

/-! ### Summaries -/

/-- The figures are those of the rows and the entries of the structure, and they fit together. -/
structure Summarizes (f : Summary) (s : α) : Prop where
  nRows_eq : f.nRows = nRows s
  nCols_eq : f.nCols = nCols s
  diagonalFirst_eq : f.diagonalFirst = diagonalFirst s
  /-- The lengths of the rows tell how many entries there are, how many rows have none and how long
  the longest is. -/
  rows : ∃ length : Nat → Nat, (∀ r < f.nRows, rowLength s r = .ok (length r)) ∧
    f.entryCount = ∑ r ∈ Finset.range f.nRows, length r ∧
    f.emptyRows = ((Finset.range f.nRows).filter fun r => length r = 0).card ∧
    (∀ r < f.nRows, length r ≤ f.longestRow) ∧
    (0 < f.nRows → ∃ r < f.nRows, length r = f.longestRow)
  emptyRows_le : f.emptyRows ≤ f.nRows
  filledRows_le : f.nRows - f.emptyRows ≤ f.entryCount
  entryCount_le : f.entryCount ≤ (f.nRows - f.emptyRows) * f.longestRow
  cells_le : (f.nRows - f.emptyRows) * f.longestRow ≤ f.nRows * f.nCols
  share_le_one : (f.entryCount : Rat) / (f.nRows * f.nCols) ≤ 1
  bandwidth_eq_zero : f.entryCount = 0 → f.bandwidth = 0
  distance_le : ∀ r c, contains s r c = .ok true → distance r c ≤ f.bandwidth
  bandwidth_attained : f.entryCount ≠ 0 →
    ∃ r c, contains s r c = .ok true ∧ distance r c = f.bandwidth
  bandwidth_lt : f.entryCount ≠ 0 → f.bandwidth < max f.nRows f.nCols
  leading : f.diagonalFirst = true → f.emptyRows = 0 ∧ f.nRows ≤ f.entryCount

private theorem Faithful.exists_summarizes [LawfulCompressed α] (hs : Faithful s) :
    ∃ f, Summary.of s = .ok f ∧ Summarizes f s := by
  have h := hs.wellFormed
  have hempty : (layout s).emptyRows.card =
      (List.range (nRows s)).countP fun r => ((layout s).rowList r).length = 0 :=
    (layout s).card_emptyRows
  have hsummary := hs.summary_eq
  rw [← hempty] at hsummary
  have hbandwidth := bandwidth_eq h
  generalize ((layout s).entryList.map fun e => distance e.1 e.2).foldl max 0 = widest
    at hsummary hbandwidth
  have hrows : (layout s).emptyRows.card + (layout s).filledRows.card = nRows s :=
    (layout s).card_emptyRows_add_card_filledRows
  have hfilled : (layout s).filledRows.card = nRows s - (layout s).emptyRows.card := by omega
  have hentries := h.card_filledRows_le
  have hlongest := h.size_le_card_filledRows_mul
  have hcells : (layout s).filledRows.card * (layout s).longest ≤ nRows s * nCols s :=
    h.card_filledRows_mul_le
  refine ⟨_, hsummary, ?_⟩
  constructor
  case nRows_eq | nCols_eq | diagonalFirst_eq => rfl
  case rows =>
    exact ⟨fun r => ((layout s).rowList r).length, fun r hr => rowLength_eq h hr,
      h.sum_lengths.symm, rfl, fun r => Layout.length_le_longest, Layout.exists_length_eq_longest⟩
  case emptyRows_le => exact Nat.le.intro hrows
  case filledRows_le => exact hfilled ▸ hentries
  case entryCount_le => exact hfilled ▸ hlongest
  case cells_le => exact hfilled ▸ hcells
  case share_le_one =>
    have hall : (layout s).columns.size ≤ nRows s * nCols s := Nat.le_trans hlongest hcells
    refine div_le_one_of_le₀ ?_ ?_
    · exact_mod_cast hall
    · exact_mod_cast Nat.zero_le (nRows s * nCols s)
  case bandwidth_eq_zero =>
    intro hnone
    rw [bandwidth_of_no_entries h hnone, Except.ok.injEq] at hbandwidth
    exact hbandwidth.symm
  case distance_le => exact ((bandwidth_eq_ok_iff h).1 hbandwidth).1
  case bandwidth_attained => exact fun hsome => bandwidth_attained h hsome hbandwidth
  case bandwidth_lt => exact fun hsome => bandwidth_lt h hsome hbandwidth
  case leading =>
    intro hflag
    have hnone : (layout s).emptyRows.card = 0 := by
      rw [h.emptyRows_eq_empty hflag, Finset.card_empty]
    refine ⟨hnone, ?_⟩
    rw [hnone, Nat.sub_zero] at hfilled
    exact hfilled ▸ hentries

/-- Every well-formed pattern has a summary whose figures fit together, and so has every view of an
image or a file and every layout that a check has let through. -/
theorem summary_figures :
    (∀ p : Pattern, p.WellFormed → ∃ f, Summary.of p = .ok f ∧ Summarizes f p) ∧
    (∀ bytes address v, View.ofBytes bytes address = .ok v →
      ∃ f, Summary.of v = .ok f ∧ Summarizes f v) ∧
    (∀ bytes address v, View.ofExactBytes bytes address = .ok v →
      ∃ f, Summary.of v = .ok f ∧ Summarizes f v) ∧
    (∀ store path file, ImageFile.load store path = .ok file →
      ∃ f, Summary.of file.view = .ok f ∧ Summarizes f file.view) ∧
    ∀ l : Layout, l.check = .ok () → ∃ f, Summary.of l = .ok f ∧ Summarizes f l := by
  refine ⟨?patterns, ?views, ?exactViews, ?files, ?layouts⟩
  case patterns => exact fun p hp => (Faithful.of_pattern hp).exists_summarizes
  case views | exactViews => exact fun bytes address v hv => (Faithful.of_view hv).exists_summarizes
  case files => exact fun store path file hfile => (Faithful.of_file hfile).exists_summarizes
  case layouts => exact fun l hl => (Faithful.of_check hl).exists_summarizes

theorem summary_figures_gapped :
    (∃ f, Summary.of Pattern.leading = .ok f ∧ Summarizes f Pattern.leading) ∧
      (∃ v, View.ofBytes Pattern.relocated 16 = .ok v ∧
        ∃ f, Summary.of v = .ok f ∧ Summarizes f v) ∧
      (∃ v, View.ofExactBytes (Pattern.relocated.take 132) 16 = .ok v ∧
        ∃ f, Summary.of v = .ok f ∧ Summarizes f v) ∧
      (∃ file, ImageFile.load ImageFile.shelf "whole" = .ok file ∧
        ∃ f, Summary.of file.view = .ok f ∧ Summarizes f file.view) ∧
      gapped.check = .ok () ∧ ∃ f, Summary.of gapped = .ok f ∧ Summarizes f gapped := by
  obtain ⟨patterns, views, exactViews, files, layouts⟩ := summary_figures
  refine ⟨patterns _ (by decide), ?view, ?exactView, ?file, ?check, layouts _ ?check⟩
  case view =>
    have haligned : 16 % Header.alignment = 0 := by decide
    obtain ⟨v, hv⟩ := View.exists_of_pattern Pattern.ofBytes_relocated haligned
    exact ⟨v, hv, views _ _ _ hv⟩
  case exactView =>
    have hv : View.ofExactBytes (Pattern.relocated.take 132) 16 =
        .ok ⟨Header.read Pattern.relocated, #[0, 2, 4, 5], #[0, 2, 1, 0, 2]⟩ := by decide +kernel
    exact ⟨_, hv, exactViews _ _ _ hv⟩
  case file =>
    have hfile : ImageFile.load ImageFile.shelf "whole" =
        .ok ⟨"whole", Pattern.relocated.take 132, Header.read Pattern.relocated⟩ := by
      decide +kernel
    exact ⟨_, hfile, files _ _ _ hfile⟩
  case check => cbv

end Compressed

end SparsePattern
