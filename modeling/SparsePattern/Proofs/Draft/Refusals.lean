import SparsePattern.Proofs.Draft.Rows

/-!
# Rows that are refused

Rows can fail to make a draft for three reasons, and the first of them is the one that is named:
columns have too many numbers, a column is out of range (`packRows_of_firstBeyond`), or there are
too few or too many rows.  Rows beyond those that are asked for are counted and nothing else
(`ofRows_refusals`).
-/

namespace SparsePattern.Draft

open Rows (require bind_eq_ok require_bind_eq_ok require_bind_of_not)

variable {nRows nCols row col : Nat} {diagonalFirst : Bool} {rows : List (List Nat)}
  {cols front back : List Nat}

/-- Of all columns that are out of range this one comes first, row by row and in each row from the
front. -/
def FirstBeyond (nCols : Nat) (rows : List (List Nat)) (col : Nat) : Prop :=
  ∃ before front back after, rows = before ++ (front ++ col :: back) :: after ∧ nCols ≤ col ∧
    (∀ cols ∈ before, ∀ c ∈ cols, c < nCols) ∧ ∀ c ∈ front, c < nCols

private theorem find?_beyond_eq_some_iff :
    cols.find? (nCols ≤ ·) = some col ↔
      nCols ≤ col ∧ ∃ front back, cols = front ++ col :: back ∧ ∀ c ∈ front, c < nCols := by
  rw [List.find?_eq_some_iff_append]
  simp only [decide_eq_true_eq, Bool.not_eq_true', decide_eq_false_iff_not, Nat.not_le]

private theorem find?_beyond_eq_none_iff :
    cols.find? (nCols ≤ ·) = none ↔ ∀ c ∈ cols, c < nCols := by
  simp only [List.find?_eq_none, decide_eq_true_eq, Nat.not_le]

private theorem exists_firstBeyond (h : ∃ cols ∈ rows, ∃ col ∈ cols, nCols ≤ col) :
    ∃ col, FirstBeyond nCols rows col := by
  induction rows with
  | nil =>
    obtain ⟨cols, hcols, -⟩ := h
    cases hcols
  | cons cols rows ih =>
    cases hfind : cols.find? (nCols ≤ ·) with
    | some col =>
      obtain ⟨hcol, front, back, rfl, hfront⟩ := find?_beyond_eq_some_iff.1 hfind
      exact ⟨col, [], front, back, rows, rfl, hcol, fun cols hcols => absurd hcols List.not_mem_nil,
        hfront⟩
    | none =>
      have hlt := find?_beyond_eq_none_iff.1 hfind
      have hrest : ∃ cols ∈ rows, ∃ col ∈ cols, nCols ≤ col := by
        obtain ⟨cols', hcols', col, hcol, hbeyond⟩ := h
        rcases List.mem_cons.1 hcols' with rfl | hcols'
        · exact absurd (hlt col hcol) (Nat.not_lt_of_le hbeyond)
        · exact ⟨cols', hcols', col, hcol, hbeyond⟩
      obtain ⟨col, before, front, back, after, rfl, hcol, hbefore, hfront⟩ := ih hrest
      refine ⟨col, cols :: before, front, back, after, rfl, hcol, fun cols' hcols' => ?_, hfront⟩
      rcases List.mem_cons.1 hcols' with rfl | hcols'
      · exact hlt
      · exact hbefore cols' hcols'

private theorem packRow_of_beyond (hcol : nCols ≤ col) (hfront : ∀ c ∈ front, c < nCols) :
    packRow nCols diagonalFirst row (front ++ col :: back) =
      .error (.columnOutOfRange col nCols) := by
  rw [packRow, find?_beyond_eq_some_iff.2 ⟨hcol, front, back, rfl, hfront⟩]

/-- Packing stops at the first column that is out of range. -/
theorem packRows_of_firstBeyond (h : FirstBeyond nCols rows col) :
    packRows nCols diagonalFirst row rows = .error (.columnOutOfRange col nCols) := by
  obtain ⟨before, front, back, after, rfl, hcol, hbefore, hfront⟩ := h
  induction before generalizing row with
  | nil =>
    rw [List.nil_append, packRows, packRow_of_beyond hcol hfront]
    rfl
  | cons cols before ih =>
    have hrest := @ih (row + 1) fun cols' hcols' => hbefore cols' (List.mem_cons_of_mem _ hcols')
    obtain ⟨packed, hpack⟩ : ∃ packed, packRow nCols diagonalFirst row cols = .ok packed :=
      ⟨_, packRow_eq_ok_iff.2 ⟨hbefore cols List.mem_cons_self, rfl⟩⟩
    rw [List.cons_append, packRows, hpack, Rows.ok_bind, hrest]
    rfl

/-- The first reason against rows is named.  Too many numbers for columns come before all else, then
the first column out of range in the rows that are asked for, whether or not there are as many, and
then their number, however large it should be.  Without such a reason there is a draft.  What
further rows hold makes no difference. -/
theorem ofRows_refusals (nRows nCols : Nat) (rows : List (List Nat)) (policy : Policy) :
    (columnLimit ≤ nCols → ofRows nRows nCols rows policy = .error .tooLarge) ∧
    (nCols < columnLimit →
      ((∃ cols ∈ rows.take nRows, ∃ col ∈ cols, nCols ≤ col) →
        ∃ col, FirstBeyond nCols (rows.take nRows) col) ∧
      (∀ col, FirstBeyond nCols (rows.take nRows) col →
        ofRows nRows nCols rows policy = .error (.columnOutOfRange col nCols)) ∧
      ((∀ cols ∈ rows.take nRows, ∀ col ∈ cols, col < nCols) →
        (rows.length ≠ nRows →
          ofRows nRows nCols rows policy = .error (.rowCountMismatch nRows rows.length)) ∧
        (rows.length = nRows → ∃ d, ofRows nRows nCols rows policy = .ok d))) ∧
    ∀ rows' : List (List Nat), rows'.length = rows.length → rows'.take nRows = rows.take nRows →
      ofRows nRows nCols rows' policy = ofRows nRows nCols rows policy := by
  refine ⟨fun hlarge => ?_,
    fun hcols => ⟨exists_firstBeyond, fun col hfirst => ?_, fun hlt => ⟨fun hcount => ?_,
    fun hcount => ?_⟩⟩, fun rows' hlen htake => ?_⟩
  · exact require_bind_of_not (Nat.not_lt_of_le hlarge)
  · simp only [ofRows, require, hcols, ↓reduceIte, Rows.ok_bind, packRows_of_firstBeyond hfirst,
      Rows.error_bind]
  · obtain ⟨packed, hpacked⟩ := @exists_packRows nCols 0 _ (policy.leads nRows nCols) hlt
    simp only [ofRows, require, hcols, hcount, hpacked, ↓reduceIte, Rows.ok_bind, Rows.error_bind]
  · rw [← hcount, List.take_length] at hlt
    exact exists_ofRows policy hcols hcount hlt
  · rw [ofRows, ofRows, hlen, htake]

/-- A row too many where two are asked for, with the largest column of all. -/
def surplus : List (List Nat) := [[0], [1, 7, 6], [12]]

theorem ofRows_refusals_surplus :
    ofRows 2 columnLimit surplus = .error .tooLarge ∧
      ofRows 2 2 surplus = .error (.columnOutOfRange 7 2) ∧
      ofRows 2 8 surplus = .error (.rowCountMismatch 2 3) ∧ (∃ d, ofRows 3 13 surplus = .ok d) ∧
      ofRows (sizeLimit - 1) 13 surplus = .error (.rowCountMismatch (sizeLimit - 1) 3) := by
  have hrefusals (nRows nCols : Nat) := ofRows_refusals nRows nCols surplus {}
  have hfirst : FirstBeyond 2 (surplus.take 2) 7 :=
    ⟨[[0]], [1], [6], [], rfl, by decide, by decide, by decide⟩
  have htake : surplus.take (sizeLimit - 1) = surplus := List.take_of_length_le (by decide)
  obtain ⟨hmany, -⟩ := hrefusals 2 columnLimit
  obtain ⟨-, hnarrow, -⟩ := hrefusals 2 2
  obtain ⟨-, hwide, -⟩ := hrefusals 2 8
  obtain ⟨-, hall, -⟩ := hrefusals 3 13
  obtain ⟨-, hhuge, -⟩ := hrefusals (sizeLimit - 1) 13
  refine ⟨hmany (Nat.le_refl _), (hnarrow (by decide)).2.1 7 hfirst, ?_, ?_, ?_⟩
  · exact ((hwide (by decide)).2.2 (by decide)).1 (by decide)
  · exact ((hall (by decide)).2.2 (by decide)).2 rfl
  · exact ((hhuge (by decide)).2.2 (by rw [htake]; decide)).1 (by decide)

end SparsePattern.Draft
