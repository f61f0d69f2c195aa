import SparsePattern.Layout.Check
import SparsePattern.Proofs.Bisection
import SparsePattern.Proofs.Layout.Reads

/-!
# What a layout check accepts

`Layout.check` accepts the well-formed layouts and no others (`check_eq_ok_iff`), and on any arrays
whatever it reads only what is there (`inBounds_check`).  A repeated diagonal is searched for by
bisection before its row is known to ascend: a search in disorder may miss it, but then the order is
refused next.
-/

namespace SparsePattern

open Rows (require bind_eq_ok bind_eq_error require_eq_ok require_eq_error require_bind_eq_ok)

/-! ### Reads within the arrays -/

/-- The operation reads nothing past the arrays of a layout. -/
def InBounds {α : Type} (x : Except Fault α) : Prop := ∀ read, x ≠ .error (.outOfBounds read)

namespace InBounds

variable {α β : Type}

private theorem of_eq_ok {x : Except Fault α} {a : α} (h : x = .ok a) : InBounds x := by
  intro read hx
  rw [h] at hx
  cases hx

private theorem bind {x : Except Fault α} {f : α → Except Fault β} (hx : InBounds x)
    (hf : ∀ a, x = .ok a → InBounds (f a)) : InBounds (x >>= f) := by
  intro read h
  rcases bind_eq_error.1 h with he | ⟨a, ha, he⟩
  · exact hx read he
  · exact hf a ha read he

private theorem require_malformed {p : Prop} {_ : Decidable p} {defect : Defect} :
    InBounds (require p (.malformed defect)) := by
  intro read h
  have := (require_eq_error.1 h).2
  cases this

end InBounds

namespace Layout

variable {l : Layout}

/-! ### One row -/

private theorem increasing_iff {columns : List UInt32} :
    increasing columns = true ↔ columns.Pairwise (· < ·) := by
  fun_induction increasing columns with
  | case1 c d rest ih =>
    rw [Bool.and_eq_true, decide_eq_true_eq, ih, List.pairwise_cons (a := c)]
    constructor
    · rintro ⟨hcd, hrest⟩
      refine ⟨fun e he => ?_, hrest⟩
      rcases List.mem_cons.1 he with rfl | he
      · exact hcd
      · exact UInt32.lt_trans hcd ((List.pairwise_cons.1 hrest).1 e he)
    · rintro ⟨hc, hrest⟩
      exact ⟨hc d List.mem_cons_self, hrest⟩
  | case2 columns hshort =>
    match columns, hshort with
    | [], _ => simp
    | [c], _ => simp
    | c :: d :: rest, hshort => exact absurd rfl (hshort c d rest)

/-- Bisection and order together rule out a second diagonal; neither does alone. -/
private theorem ascendingPart_iff {row : Nat} {entries : List UInt32} :
    (∃ ascending, l.ascendingPart row entries = .ok ascending ∧ increasing ascending = true) ↔
      RowOrdered l.diagonalFirst row entries := by
  unfold ascendingPart RowOrdered
  by_cases hd : l.diagonalFirst = true
  · simp only [hd, ↓reduceIte]
    cases entries with
    | nil => simp
    | cons lead rest =>
      constructor
      · rintro ⟨ascending, hasc, hinc⟩
        obtain ⟨hlead, hasc⟩ := require_bind_eq_ok.1 hasc
        obtain ⟨hfind, hasc⟩ := require_bind_eq_ok.1 hasc
        obtain rfl : rest = ascending := Except.ok.inj hasc
        have hrest := increasing_iff.1 hinc
        refine ⟨lead, rest, rfl, hlead, hrest, ?_⟩
        simpa using (Search.find?_eq_none_iff (a := rest.toArray) hrest).1 hfind
      · rintro ⟨lead', rest', heq, hlead, hrest, hmem⟩
        obtain ⟨rfl, rfl⟩ := List.cons.inj heq
        have hfind : Search.find? rest.toArray lead = none :=
          Search.find?_eq_none_of_not_mem (by simpa using hmem)
        refine ⟨rest, ?_, increasing_iff.2 hrest⟩
        exact require_bind_eq_ok.2 ⟨hlead, require_bind_eq_ok.2 ⟨hfind, rfl⟩⟩
  · simp only [hd, Bool.false_eq_true, ↓reduceIte, Except.ok.injEq, exists_eq_left', increasing_iff]

/-- A row passes its check if it does not run backwards or past the columns, has columns in range
and is in order. -/
private theorem checkRow_eq_ok_iff (hsize : l.rowStart.size = l.nRows + 1) {r : Nat}
    (hr : r < l.nRows) :
    l.checkRow r = .ok () ↔
      (l.start r ≤ l.start (r + 1) ∧ l.start (r + 1) ≤ l.columns.size) ∧
        (∀ c ∈ l.rowList r, c.toNat < l.nCols) ∧ RowOrdered l.diagonalFirst r (l.rowList r) := by
  rw [checkRow, offset_eq_ok (by omega), offset_eq_ok (by omega)]
  simp only [Rows.ok_bind, require_bind_eq_ok]
  refine and_congr_right fun hs => ?_
  have hcolumns :
      (l.columns.extract (l.start r) (l.start (r + 1))).toList.any (l.nCols ≤ ·.toNat) = false ↔
      ∀ c ∈ l.rowList r, c.toNat < l.nCols := by
    rw [List.any_eq_false]
    simp only [decide_eq_true_eq, Nat.not_le]
    exact Iff.rfl
  rw [slice_eq_ok hs, Rows.ok_bind, require_bind_eq_ok, hcolumns, ← ascendingPart_iff]
  simp only [bind_eq_ok, require_eq_ok]
  exact Iff.rfl

private theorem inBounds_checkRow (hsize : l.rowStart.size = l.nRows + 1) {r : Nat}
    (hr : r < l.nRows) : InBounds (l.checkRow r) := by
  rw [checkRow, offset_eq_ok (by omega), offset_eq_ok (by omega)]
  simp only [Rows.ok_bind]
  refine .bind .require_malformed fun _ hs => ?_
  rw [slice_eq_ok (require_eq_ok.1 hs)]
  simp only [Rows.ok_bind]
  refine .bind .require_malformed fun _ _ => .bind ?_ fun _ _ => .require_malformed
  unfold ascendingPart
  split
  · split
    · exact .bind .require_malformed fun _ _ => .bind .require_malformed fun _ _ => .of_eq_ok rfl
    · intro read h
      cases h
  · exact .of_eq_ok rfl

/-! ### The whole layout -/

/-- The check lets just the well-formed layouts through. -/
theorem check_eq_ok_iff : l.check = .ok () ↔ l.WellFormed := by
  unfold check
  simp only [require_bind_eq_ok]
  constructor
  · rintro ⟨hcols, hsize, hsquare, h⟩
    rw [offset_eq_ok (by omega), offset_eq_ok (by omega)] at h
    simp only [Rows.ok_bind, require_bind_eq_ok] at h
    obtain ⟨hfirst, hlast, hrows⟩ := h
    have hrow : ∀ r < l.nRows, _ := fun r hr =>
      (checkRow_eq_ok_iff hsize hr).1
        (Rows.fold_unit_eq_ok_iff.1 hrows r (Nat.zero_le r) (by omega))
    refine ⟨⟨hsize, ?_, ?_, fun r hr => (hrow r hr).1.1⟩, hcols, hsquare, ?_,
      fun r hr => (hrow r hr).2.2⟩
    · rw [getElem?_rowStart (by omega), hfirst]
    · rw [getElem?_rowStart (by omega), hlast]
    · -- the rows cover the columns, so that a check of each row is a check of each column
      intro c hc
      obtain ⟨i, hi⟩ := List.mem_iff_getElem?.1 hc
      rw [Array.getElem?_toList] at hi
      obtain ⟨hlt, -⟩ := Array.getElem?_eq_some_iff.1 hi
      obtain ⟨r, hr, hri, hir⟩ :=
        exists_row_of_ends (l := l) (n := l.nRows) (i := i) (by omega) (by omega)
      exact (hrow r hr).2.1 c (mem_rowList_of_getElem? hi hri hir)
  · intro h
    refine ⟨h.nCols_lt, h.size_rowStart, h.square, ?_⟩
    rw [h.offset_eq (Nat.zero_le _), h.offset_eq (Nat.le_refl _)]
    simp only [Rows.ok_bind, require_bind_eq_ok]
    refine ⟨h.start_zero, h.start_nRows, Rows.fold_unit_eq_ok_iff.2 fun r _ hr => ?_⟩
    have hr : r < l.nRows := by omega
    refine (checkRow_eq_ok_iff h.size_rowStart hr).2
      ⟨⟨h.offset_le r hr, h.start_le_size hr⟩, ?_, h.row_ordered r hr⟩
    exact fun c hc => h.column_lt c (mem_columns_of_mem_rowList hc)

/-- The check of any arrays reads nothing outside them. -/
theorem inBounds_check (l : Layout) : InBounds l.check := by
  refine .bind ?_ fun _ _ => .bind .require_malformed fun _ hsize =>
    .bind .require_malformed fun _ _ => ?_
  · intro read h
    have := (require_eq_error.1 h).2
    cases this
  · -- the count of the offsets is settled by now
    have hsize := require_eq_ok.1 hsize
    rw [offset_eq_ok (by omega), offset_eq_ok (by omega)]
    simp only [Rows.ok_bind]
    refine .bind .require_malformed fun _ _ => .bind .require_malformed fun _ _ => ?_
    intro read h
    obtain ⟨_, r, _, hr, he⟩ := Rows.exists_of_fold_eq_error h
    exact inBounds_checkRow hsize (by omega) read he

/-- A layout passes its check exactly if it is well-formed, and no check reads outside the
arrays. -/
theorem check_accepts_wellFormed (l : Layout) :
    (l.check = .ok () ↔ l.WellFormed) ∧ ∀ read, l.check ≠ .error (.outOfBounds read) :=
  ⟨check_eq_ok_iff, inBounds_check l⟩

end Layout

end SparsePattern
