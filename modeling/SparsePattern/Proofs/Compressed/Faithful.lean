import SparsePattern.Proofs.Compressed.Enumeration
import SparsePattern.Proofs.Pattern
import SparsePattern.Summary

/-!
# Faithful structures

A structure that states its longest row is faithful if the statement is true of its layout, and this
describes a pattern.  Well-formed patterns, accepted views and checked layouts are, each for its own
reason: a pattern keeps what was counted, a view has the header compared, and a layout visits its
rows.  The figures of a faithful structure are those of its layout (`Faithful.summary_eq`).
-/

namespace SparsePattern

namespace Compressed

open Rows (bind_eq_ok require_bind_eq_ok)

variable {α : Type} [Compressed α] {s : α}

/-- The layout describes a pattern, and its longest row is as long as the structure states. -/
structure Faithful (s : α) : Prop where
  wellFormed : (layout s).WellFormed
  longestRow_eq : longestRow s = .ok (layout s).longest

namespace Faithful

/-- A layout that passes its check is faithful: it is asked for its longest row by visiting the
rows. -/
theorem of_check {l : Layout} (h : l.check = .ok ()) : Faithful l := by
  have hl := Layout.check_eq_ok_iff.1 h
  exact ⟨hl, hl.scanLongestRow_eq⟩

/-- A well-formed pattern is faithful: the length that it keeps is that of its longest row. -/
theorem of_pattern {p : Pattern} (hp : p.WellFormed) : Faithful p :=
  ⟨hp.layout, congrArg Except.ok hp.longestRow_eq⟩

/-- However its sections are found, the header of a view is compared with its rows. -/
theorem of_view {split : Except Fault Sections} {address : Nat} {v : View}
    (h : split >>= View.ofSections address = .ok v) : Faithful v := by
  obtain ⟨sections, -, h⟩ := bind_eq_ok.1 h
  obtain ⟨rowStart, -, h⟩ := bind_eq_ok.1 h
  obtain ⟨columns, -, h⟩ := bind_eq_ok.1 h
  obtain ⟨_, hcheck, h⟩ := bind_eq_ok.1 h
  obtain ⟨longest, hscan, h⟩ := bind_eq_ok.1 h
  obtain ⟨hlongest, h⟩ := require_bind_eq_ok.1 h
  have hl := Layout.check_eq_ok_iff.1 hcheck
  rw [hl.scanLongestRow_eq, Except.ok.injEq] at hscan
  obtain rfl := Except.ok.inj h
  exact ⟨hl, congrArg Except.ok (hscan.trans hlongest).symm⟩

end Faithful

/-! ### Figures -/

/-- The bandwidth is the greatest distance of an entry from the diagonal, zero without entries. -/
theorem bandwidth_eq (h : (layout s).WellFormed) :
    bandwidth s = .ok (((layout s).entryList.map fun e => distance e.1 e.2).foldl max 0) := by
  have hvisit : ∀ widest r, 0 ≤ r → r < 0 + nRows s →
      (·.foldl (fun w c => max w (distance r c.toNat)) widest) <$> row s r =
        .ok (((layout s).rowList r).foldl (fun w c => max w (distance r c.toNat)) widest) := by
    intro widest r _ hr
    rw [row_eq h (by omega), ← List.foldl_toArray]
    rfl
  rw [bandwidth, Rows.fold_eq_foldl hvisit, ← List.range_eq_range', List.foldl_map,
    Layout.entryList, List.foldl_flatMap]
  simp only [Layout.rowEntries, List.foldl_map]
  rfl

private theorem mem_entryList_iff (h : (layout s).WellFormed) {r c : Nat} :
    (r, c) ∈ (layout s).entryList ↔ contains s r c = .ok true := by
  rw [contains_eq_true_iff h, List.mem_iff_getElem?]
  exact exists_congr fun index => Layout.getElem?_entryList_iff h

/-- The bandwidth is the least bound for the distances of all entries from the diagonal. -/
theorem bandwidth_eq_ok_iff (h : (layout s).WellFormed) {n : Nat} :
    bandwidth s = .ok n ↔ (∀ r c, contains s r c = .ok true → distance r c ≤ n) ∧
      (n = 0 ∨ ∃ r c, contains s r c = .ok true ∧ distance r c = n) := by
  rw [bandwidth_eq h, Except.ok.injEq, foldl_max_eq_iff, List.forall_mem_map, List.mem_map]
  simp only [Prod.forall, Prod.exists, mem_entryList_iff h]

private theorem foldl_count {rows : List Nat} {length : Nat → Nat} (n : Nat) :
    rows.foldl (fun n r => if length r = 0 then n + 1 else n) n =
      n + rows.countP (length · = 0) := by
  induction rows generalizing n with
  | nil => rfl
  | cons r rows ih =>
    rw [List.foldl_cons, ih, List.countP_cons]
    by_cases hr : length r = 0
    · simp only [hr, if_true, decide_true]
      omega
    · simp [hr]

private theorem emptyRows_eq (h : (layout s).WellFormed) :
    emptyRows s =
      .ok ((List.range (nRows s)).countP fun r => ((layout s).rowList r).length = 0) := by
  have hvisit : ∀ n r, 0 ≤ r → r < 0 + nRows s →
      (fun length => if length = 0 then n + 1 else n) <$> rowLength s r =
        .ok (if ((layout s).rowList r).length = 0 then n + 1 else n) := by
    intro n r _ hr
    rw [rowLength_eq h (by omega)]
    rfl
  rw [emptyRows, Rows.fold_eq_foldl hvisit, ← List.range_eq_range', foldl_count, Nat.zero_add]

/-- All figures are those of the layout. -/
theorem Faithful.summary_eq [LawfulCompressed α] (hs : Faithful s) :
    Summary.of s = .ok {
      nRows := nRows s
      nCols := nCols s
      entryCount := (layout s).columns.size
      longestRow := (layout s).longest
      bandwidth := ((layout s).entryList.map fun e => distance e.1 e.2).foldl max 0
      emptyRows := (List.range (nRows s)).countP fun r => ((layout s).rowList r).length = 0
      diagonalFirst := diagonalFirst s
      density := Summary.densityOf (nRows s) (nCols s) (layout s).columns.size } := by
  rw [Summary.of, LawfulCompressed.entryCount_eq hs.wellFormed, hs.longestRow_eq,
    bandwidth_eq hs.wellFormed, emptyRows_eq hs.wellFormed]
  rfl

end Compressed

end SparsePattern
