import SparsePattern.Proofs.Bisection
import SparsePattern.Proofs.Compressed.Lawful
import SparsePattern.Proofs.Layout.Acceptance
import SparsePattern.Proofs.Layout.Lengths

/-!
# Entry numbers

`Layout.EntryAt` says which entry stands where.  On a well-formed layout it is a bijection between
the numbers below the entry count and the stored positions, and both bisections compute it:
`positionOf?` from the number to the position (`positionOf?_eq_some_iff`), `indexOf?` back
(`indexOf?_eq_some_iff`).
-/

namespace SparsePattern

namespace Layout

variable {l : Layout}

/-! ### The entry with a number -/

/-- Entry `index` belongs to row `r` and has column `c`. -/
structure EntryAt (l : Layout) (index r c : Nat) : Prop where
  row_lt : r < l.nRows
  start_le : l.start r ≤ index
  lt_stop : index < l.start (r + 1)
  column : l.columns[index]?.map UInt32.toNat = some c

/-- The entries of a row are numbered from its start on, in stored order. -/
theorem entryAt_start_add_iff (h : l.WellFormed) {r k c : Nat} (hr : r < l.nRows) :
    l.EntryAt (l.start r + k) r c ↔ (l.rowList r)[k]?.map UInt32.toNat = some c := by
  have hstop := h.start_add_length hr
  constructor
  · intro he
    have := he.lt_stop
    rw [h.getElem?_rowList hr (by omega)]
    exact he.column
  · intro hk
    obtain ⟨col, hcol, -⟩ := Option.map_eq_some_iff.1 hk
    obtain ⟨hlt, -⟩ := List.getElem?_eq_some_iff.1 hcol
    rw [h.getElem?_rowList hr hlt] at hk
    exact ⟨hr, by omega, by omega, hk⟩

/-- Every number below the entry count is that of an entry. -/
theorem exists_entryAt (h : l.WellFormed) {index : Nat} (hi : index < l.columns.size) :
    ∃ r c, l.EntryAt index r c := by
  obtain ⟨r, hr, hri, hir⟩ := h.exists_row hi
  exact ⟨r, l.columns[index].toNat, hr, hri, hir, by rw [Array.getElem?_eq_getElem hi]; rfl⟩

/-- The entries of a row are the columns that it stores. -/
theorem exists_entryAt_iff_mem (h : l.WellFormed) {r c : Nat} (hr : r < l.nRows) :
    (∃ index, l.EntryAt index r c) ↔ ∃ col ∈ l.rowList r, col.toNat = c := by
  constructor
  · rintro ⟨index, he⟩
    obtain ⟨k, rfl⟩ := Nat.exists_eq_add_of_le he.start_le
    obtain ⟨col, hcol, hc⟩ := Option.map_eq_some_iff.1 ((entryAt_start_add_iff h hr).1 he)
    exact ⟨col, List.mem_of_getElem? hcol, hc⟩
  · rintro ⟨col, hcol, rfl⟩
    obtain ⟨k, hk⟩ := List.mem_iff_getElem?.1 hcol
    exact ⟨l.start r + k, (entryAt_start_add_iff h hr).2 (by rw [hk]; rfl)⟩

namespace EntryAt

theorem index_lt {index r c : Nat} (he : l.EntryAt index r c) : index < l.columns.size := by
  obtain ⟨col, hcol, -⟩ := Option.map_eq_some_iff.1 he.column
  exact (Array.getElem?_eq_some_iff.1 hcol).1

theorem col_lt (h : l.WellFormed) {index r c : Nat} (he : l.EntryAt index r c) : c < l.nCols := by
  obtain ⟨col, hcol, rfl⟩ := Option.map_eq_some_iff.1 he.column
  exact h.column_lt col (Array.mem_toList_iff.2 (Array.mem_of_getElem? hcol))

/-- A row holds a column at most once. -/
theorem index_unique (h : l.WellFormed) {i j r c : Nat} (hi : l.EntryAt i r c)
    (hj : l.EntryAt j r c) : i = j := by
  have hr := hi.row_lt
  -- both numbers are places in one row, whose columns differ
  obtain ⟨k, rfl⟩ := Nat.exists_eq_add_of_le hi.start_le
  obtain ⟨m, rfl⟩ := Nat.exists_eq_add_of_le hj.start_le
  obtain ⟨x, hx, hxc⟩ := Option.map_eq_some_iff.1 ((entryAt_start_add_iff h hr).1 hi)
  obtain ⟨y, hy, hyc⟩ := Option.map_eq_some_iff.1 ((entryAt_start_add_iff h hr).1 hj)
  obtain rfl : x = y := UInt32.toNat_inj.1 (hxc.trans hyc.symm)
  obtain ⟨hk, hkx⟩ := List.getElem?_eq_some_iff.1 hx
  obtain ⟨hm, hmx⟩ := List.getElem?_eq_some_iff.1 hy
  have := (h.row_ordered r hr).nodup.getElem_inj_iff.1 (hkx.trans hmx.symm)
  omega

end EntryAt

end Layout

namespace Compressed

open Layout (EntryAt)

variable {α : Type} [Compressed α] {s : α}

/-! ### From the number to the position -/

/-- The bisection over the offsets ends right behind the row that holds the entry. -/
private theorem firstRowAfter_eq (h : (layout s).WellFormed) {index r : Nat} (hr : r < nRows s)
    (hri : (layout s).start r ≤ index) (hir : index < (layout s).start (r + 1)) {low high : Nat}
    (hlow : low ≤ r + 1) (hhigh : r + 1 ≤ high) (hrows : high ≤ nRows s) :
    firstRowAfter s index low high = .ok (r + 1) := by
  fun_induction firstRowAfter s index low high with
  | case1 low high hlt mid fault hf =>
    rw [rowOffset_eq h (by omega)] at hf
    cases hf
  | case2 low high hlt mid start hs hle ih =>
    rw [rowOffset_eq h (by omega), Except.ok.injEq] at hs
    -- a row that starts later would start behind the entry
    have hmid : mid ≤ r := by
      refine Nat.le_of_not_lt fun hrm => ?_
      have := h.start_mono (r := r + 1) (s := mid) hrm (show mid ≤ nRows s by omega)
      omega
    exact ih (by omega) hhigh hrows
  | case3 low high hlt mid start hs hle ih =>
    rw [rowOffset_eq h (by omega), Except.ok.injEq] at hs
    -- the row of the entry and all before it start no later than the entry
    have hmid : r + 1 ≤ mid := by
      refine Nat.lt_of_not_le fun hmr => ?_
      have := h.start_mono (r := mid) (s := r) hmr (Nat.le_of_lt hr)
      omega
    exact ih hlow hmid (by omega)
  | case4 low high hge => rw [show low = r + 1 by omega]

section Position

variable [LawfulCompressed α]

/-- The position of an entry is found by its number. -/
theorem positionOf?_of_entryAt (h : (layout s).WellFormed) {index r c : Nat}
    (he : (layout s).EntryAt index r c) : positionOf? s index = .ok (some (r, c)) := by
  have hafter : firstRowAfter s index 0 (nRows s) = .ok (r + 1) :=
    firstRowAfter_eq h he.row_lt he.start_le he.lt_stop (Nat.zero_le _) he.row_lt (Nat.le_refl _)
  obtain ⟨col, hcol, rfl⟩ := Option.map_eq_some_iff.1 he.column
  have hlt := he.index_lt
  rw [positionOf?, LawfulCompressed.entryCount_eq h]
  simp only [Rows.ok_bind, show ¬ (layout s).columns.size ≤ index by omega, ↓reduceIte, hafter,
    hcol]
  rfl

/-- There is no position from the entry count on. -/
theorem positionOf?_of_le (h : (layout s).WellFormed) {index : Nat}
    (hi : (layout s).columns.size ≤ index) : positionOf? s index = .ok none := by
  rw [positionOf?, LawfulCompressed.entryCount_eq h]
  simp only [Rows.ok_bind, hi, ↓reduceIte]
  rfl

/-- Exactly the number of an entry has that entry's position. -/
theorem positionOf?_eq_some_iff (h : (layout s).WellFormed) {index r c : Nat} :
    positionOf? s index = .ok (some (r, c)) ↔ (layout s).EntryAt index r c := by
  refine ⟨fun hp => ?_, positionOf?_of_entryAt h⟩
  rcases Nat.lt_or_ge index (layout s).columns.size with hi | hi
  · obtain ⟨r', c', he⟩ := Layout.exists_entryAt h hi
    rw [positionOf?_of_entryAt h he, Except.ok.injEq, Option.some.injEq, Prod.mk.injEq] at hp
    obtain ⟨rfl, rfl⟩ := hp
    exact he
  · rw [positionOf?_of_le h hi] at hp
    cases hp

private theorem positionOf?_eq_none_iff (h : (layout s).WellFormed) {index : Nat} :
    positionOf? s index = .ok none ↔ (layout s).columns.size ≤ index := by
  refine ⟨fun hp => Nat.le_of_not_lt fun hi => ?_, positionOf?_of_le h⟩
  obtain ⟨r, c, he⟩ := Layout.exists_entryAt h hi
  rw [positionOf?_of_entryAt h he] at hp
  cases hp

end Position

/-! ### From the position to the number -/

/-- The search in a row, the leading diagonal answered apart, finds the one place of the column in
the whole row. -/
private theorem indexOf?_eq_row (h : (layout s).WellFormed) {r c : Nat} (hr : r < nRows s)
    (hc : c < nCols s) :
    ∃ found : Option Nat, indexOf? s r c = .ok (found.map ((layout s).start r + ·)) ∧
      ∀ k, found = some k ↔ ((layout s).rowList r)[k]? = some c.toUInt32 := by
  have hcol := toNat_toUInt32 (Nat.lt_trans hc h.nCols_lt)
  have hord := h.row_ordered r hr
  have hd : diagonalFirst s = (layout s).diagonalFirst := rfl
  rw [indexOf?, if_neg (by omega), rowOffset_eq h (by omega), row_eq h hr]
  simp only [Rows.ok_bind, hd]
  unfold Layout.RowOrdered at hord
  by_cases hdiag : (layout s).diagonalFirst = true
  · rw [if_pos hdiag] at hord
    obtain ⟨lead, rest, hrow, hlead, hrest, hmem⟩ := hord
    have htail : (lead :: rest).toArray.extract 1 (lead :: rest).toArray.size = rest.toArray := by
      simp
    rw [hrow, if_pos ⟨hdiag, by simp⟩, htail]
    by_cases hrc : r = c
    · -- the diagonal is the lead, and is not repeated
      have hlc : lead = c.toUInt32 := UInt32.toNat_inj.1 (by rw [hlead, hcol, hrc])
      rw [if_pos hrc]
      refine ⟨some 0, rfl, fun k => ?_⟩
      cases k with
      | zero => simp [hlc]
      | succ k =>
        refine ⟨fun hk => by simp at hk, fun hk => ?_⟩
        rw [List.getElem?_cons_succ, ← hlc] at hk
        exact absurd (List.mem_of_getElem? hk) hmem
    · -- the search starts behind the lead, the places count from it
      have hlc : lead ≠ c.toUInt32 := fun heq => hrc (by rw [← hlead, heq, hcol])
      rw [if_neg hrc]
      refine ⟨(Search.find? rest.toArray c.toUInt32).map (1 + ·), ?_, fun k => ?_⟩
      · rw [Option.map_map]
        show Except.ok _ = Except.ok _
        congr 2
        funext j
        simp only [Function.comp_apply]
        omega
      · rw [Option.map_eq_some_iff]
        cases k with
        | zero => simp [hlc]
        | succ k =>
          rw [List.getElem?_cons_succ, ← List.getElem?_toArray, ← Search.find?_eq_some_iff hrest]
          refine ⟨fun ⟨j, hj, hjk⟩ => ?_, fun hk => ⟨k, hk, by omega⟩⟩
          rwa [show k = j by omega]
  · rw [if_neg hdiag] at hord
    rw [if_neg fun hboth => hdiag hboth.1]
    refine ⟨Search.find? ((layout s).rowList r).toArray c.toUInt32, rfl, fun k => ?_⟩
    rw [Search.find?_eq_some_iff (a := ((layout s).rowList r).toArray) hord, List.getElem?_toArray]

private theorem indexOf?_of_entryAt (h : (layout s).WellFormed) {index r c : Nat}
    (he : (layout s).EntryAt index r c) : indexOf? s r c = .ok (some index) := by
  have hc := he.col_lt h
  obtain ⟨found, hindex, hfound⟩ := indexOf?_eq_row h he.row_lt hc
  obtain ⟨k, rfl⟩ := Nat.exists_eq_add_of_le he.start_le
  obtain ⟨x, hx, hxc⟩ := Option.map_eq_some_iff.1 ((Layout.entryAt_start_add_iff h he.row_lt).1 he)
  obtain rfl : x = c.toUInt32 :=
    UInt32.toNat_inj.1 (by rw [hxc, toNat_toUInt32 (Nat.lt_trans hc h.nCols_lt)])
  rw [hindex, (hfound k).2 hx]
  rfl

/-- A position has the number of the entry there, and of no other. -/
theorem indexOf?_eq_some_iff (h : (layout s).WellFormed) {index r c : Nat} :
    indexOf? s r c = .ok (some index) ↔ (layout s).EntryAt index r c := by
  refine ⟨fun hindex => ?_, indexOf?_of_entryAt h⟩
  by_cases hrange : nRows s ≤ r ∨ nCols s ≤ c
  · rw [indexOf?, if_pos hrange] at hindex
    cases hindex
  · have hc : c < nCols s := by omega
    obtain ⟨found, hread, hfound⟩ := indexOf?_eq_row h (r := r) (by omega) hc
    rw [hread, Except.ok.injEq, Option.map_eq_some_iff] at hindex
    obtain ⟨k, hk, rfl⟩ := hindex
    refine (Layout.entryAt_start_add_iff h (Nat.lt_of_not_le fun hr => hrange (.inl hr))).2 ?_
    rw [(hfound k).1 hk, Option.map_some, toNat_toUInt32 (Nat.lt_trans hc h.nCols_lt)]

/-- The number of a position can be asked for at any row and column. -/
theorem exists_indexOf? (h : (layout s).WellFormed) (r c : Nat) :
    ∃ found, indexOf? s r c = .ok found := by
  by_cases hrange : nRows s ≤ r ∨ nCols s ≤ c
  · exact ⟨none, by rw [indexOf?, if_pos hrange]⟩
  · obtain ⟨found, hread, -⟩ := indexOf?_eq_row h (r := r) (c := c) (by omega) (by omega)
    exact ⟨_, hread⟩

private theorem indexOf?_eq_none_iff (h : (layout s).WellFormed) {r c : Nat} :
    indexOf? s r c = .ok none ↔ ∀ index, ¬ (layout s).EntryAt index r c := by
  constructor
  · intro hnone index he
    rw [indexOf?_of_entryAt h he] at hnone
    cases hnone
  · intro hnone
    obtain ⟨found, hread⟩ := exists_indexOf? h r c
    cases found with
    | none => exact hread
    | some index => exact absurd ((indexOf?_eq_some_iff h).1 hread) (hnone index)

/-- A structure contains the positions of its entries. -/
theorem contains_eq_true_iff (h : (layout s).WellFormed) {r c : Nat} :
    contains s r c = .ok true ↔ ∃ index, (layout s).EntryAt index r c := by
  obtain ⟨found, hread⟩ := exists_indexOf? h r c
  rw [contains, hread]
  cases found with
  | none =>
    have hnone := (indexOf?_eq_none_iff h).1 hread
    constructor
    · intro hcontains
      cases hcontains
    · rintro ⟨index, he⟩
      exact absurd he (hnone index)
  | some index =>
    have he := (indexOf?_eq_some_iff h).1 hread
    exact iff_of_true rfl ⟨index, he⟩

/-! ### From the place in a row to the column -/

/-- The column at a place of a row is the one stored there, nothing beyond the row. -/
theorem column?_eq (h : (layout s).WellFormed) {r k : Nat} (hr : r < nRows s) :
    column? s r k = .ok (((layout s).rowList r)[k]?.map UInt32.toNat) := by
  rw [column?, if_pos hr, row_eq h hr]
  simp only [Rows.ok_bind, List.getElem?_toArray]
  rfl

private theorem column?_eq_some_iff (h : (layout s).WellFormed) {r k c : Nat} :
    column? s r k = .ok (some c) ↔ (layout s).EntryAt ((layout s).start r + k) r c := by
  by_cases hr : r < nRows s
  · rw [column?_eq h hr, Except.ok.injEq, Layout.entryAt_start_add_iff h hr]
  · rw [column?, if_neg hr]
    exact ⟨fun hnone => (by cases hnone), fun he => absurd he.row_lt hr⟩

/-! ### The bijection -/

/-- On a structure whose layout passes its check, numbers below the entry count and stored positions
translate into each other without loss: every number has a position, which has this number; a
position with a number is that of the number; there is no number exactly where nothing is stored,
and no position exactly from the count on.  The places within the rows count through the same
numbers. -/
theorem index_position_bijection [LawfulCompressed α] (h : (layout s).check = .ok ()) :
    ∃ count, entryCount s = .ok count ∧
      (∀ index < count, ∃ r c start stop col,
        positionOf? s index = .ok (some (r, c)) ∧ r < nRows s ∧ c < nCols s ∧
          rowOffset s r = .ok start ∧ rowOffset s (r + 1) = .ok stop ∧
          start ≤ index ∧ index < stop ∧ (layout s).columns[index]? = some col ∧
          col.toNat = c ∧ indexOf? s r c = .ok (some index)) ∧
      (∀ r c index, indexOf? s r c = .ok (some index) →
        index < count ∧ positionOf? s index = .ok (some (r, c))) ∧
      (∀ r c, indexOf? s r c = .ok none ↔
        nRows s ≤ r ∨ nCols s ≤ c ∨
          ∃ columns, row s r = .ok columns ∧ ∀ col ∈ columns, col.toNat ≠ c) ∧
      (∀ index, positionOf? s index = .ok none ↔ count ≤ index) ∧
      ∀ r k c, column? s r k = .ok (some c) ↔
        r < nRows s ∧ ∃ start length,
          rowOffset s r = .ok start ∧ rowLength s r = .ok length ∧ k < length ∧
          positionOf? s (start + k) = .ok (some (r, c)) := by
  have h := Layout.check_eq_ok_iff.1 h
  refine ⟨_, LawfulCompressed.entryCount_eq h, ?position, ?index, ?noIndex, ?noPosition, ?place⟩
  case position =>
    intro index hi
    obtain ⟨r, c, he⟩ := Layout.exists_entryAt h hi
    obtain ⟨col, hcol, hc⟩ := Option.map_eq_some_iff.1 he.column
    have hr : r < nRows s := he.row_lt
    exact ⟨r, c, _, _, col, positionOf?_of_entryAt h he, hr, he.col_lt h, rowOffset_eq h (by omega),
      rowOffset_eq h hr, he.start_le, he.lt_stop, hcol, hc, indexOf?_of_entryAt h he⟩
  case index =>
    intro r c index hindex
    have he := (indexOf?_eq_some_iff h).1 hindex
    exact ⟨he.index_lt, positionOf?_of_entryAt h he⟩
  case noIndex =>
    intro r c
    rw [indexOf?_eq_none_iff h]
    constructor
    · intro hnone
      by_cases hr : r < nRows s
      · refine .inr (.inr ⟨_, row_eq h hr, fun col hcol hc => ?_⟩)
        obtain ⟨index, he⟩ := (Layout.exists_entryAt_iff_mem h hr).2 ⟨col, by simpa using hcol, hc⟩
        exact hnone index he
      · exact .inl (Nat.le_of_not_lt hr)
    · rintro (hr | hc | ⟨columns, hrow, hcols⟩) index he
      · exact absurd he.row_lt (Nat.not_lt_of_le hr)
      · exact absurd (he.col_lt h) (Nat.not_lt_of_le hc)
      · rw [row_eq h he.row_lt, Except.ok.injEq] at hrow
        obtain ⟨col, hcol, hc⟩ := (Layout.exists_entryAt_iff_mem h he.row_lt).1 ⟨index, he⟩
        exact hcols col (by rw [← hrow]; simpa using hcol) hc
  case noPosition => exact fun index => positionOf?_eq_none_iff h
  case place =>
    intro r k c
    rw [column?_eq_some_iff h]
    constructor
    · intro he
      have hr : r < nRows s := he.row_lt
      have := h.start_add_length hr
      have := he.lt_stop
      exact ⟨hr, _, _, rowOffset_eq h (by omega), rowLength_eq h hr, by omega,
        positionOf?_of_entryAt h he⟩
    · rintro ⟨hr, start, length, hstart, -, -, hposition⟩
      rw [rowOffset_eq h (by omega), Except.ok.injEq] at hstart
      rw [← hstart] at hposition
      exact (positionOf?_eq_some_iff h).1 hposition

/-- Three rows of which the second is empty. -/
def gapped : Layout := ⟨3, 4, #[0, 2, 2, 5], #[1, 3, 0, 2, 3], false⟩

theorem index_position_bijection_gapped :
    gapped.check = .ok () ∧ ∀ index < 5, ∃ r c,
      positionOf? gapped index = .ok (some (r, c)) ∧ indexOf? gapped r c = .ok (some index) := by
  have hcheck : gapped.check = .ok () := by cbv
  obtain ⟨count, hcount, hposition, -⟩ := index_position_bijection (s := gapped) hcheck
  have hfive : count = 5 := Except.ok.inj (hcount.symm.trans rfl)
  refine ⟨hcheck, fun index hindex => ?_⟩
  obtain ⟨r, c, -, -, -, hpos, -, -, -, -, -, -, -, -, hidx⟩ := hposition index (by omega)
  exact ⟨r, c, hpos, hidx⟩

end Compressed

end SparsePattern
