import SparsePattern.Proofs.Draft.Rows
import SparsePattern.Proofs.Draft.Widening
import SparsePattern.Proofs.Image.RoundTrip

/-!
# Taking a pattern apart and putting it together

A draft with the entries of a pattern compresses to it (`Draft.compress_eq_of_contains`).  Every way
to take a pattern apart therefore leads back to it: its rows in any order, its two arrays, and a
wider draft to which nothing is added (`Pattern.rebuild_eq`).
-/

namespace SparsePattern

namespace Draft

variable {d : Draft} {p : Pattern}

/-- A draft with the entries of a pattern compresses to it. -/
theorem compress_eq_of_contains (hd : d.WellFormed) (hp : p.WellFormed) (hrows : d.nRows = p.nRows)
    (hcols : d.nCols = p.nCols) (hflag : d.diagonalFirst = p.diagonalFirst)
    (hcontains : ∀ r < p.nRows, ∀ c, d.contains r c = true ↔ c ∈ (p.rowList r).map UInt32.toNat) :
    d.compress = .ok p := by
  rw [compress_eq hd]
  refine congrArg Except.ok
    (hp.eq_of_mem_iff (wellFormed_compressed hd) hrows hcols hflag fun r hr c => ?_)
  have hr' : r < d.nRows := hrows.symm ▸ hr
  rw [rowList_compressed hr', mem_storedRow, mem_recorded_iff hr', hcontains r hr, List.mem_map]
  constructor
  · rintro ⟨b, hb, heq⟩
    rwa [← UInt32.toNat_inj.1 heq]
  · intro hc
    exact ⟨c, hc, rfl⟩

end Draft

/-! ### Ways back -/

namespace Pattern

variable {p : Pattern}

/-- The policy of a pattern matters only if the pattern is square. -/
private theorem leads_eq (hp : p.WellFormed) {policy : Policy}
    (hpolicy : p.nRows = p.nCols → policy.diagonalFirst = p.diagonalFirst) :
    policy.leads p.nRows p.nCols = p.diagonalFirst := by
  rw [Policy.leads]
  by_cases hsquare : p.nRows = p.nCols
  · rw [hpolicy hsquare, beq_iff_eq.2 hsquare, Bool.and_true]
  · have hflag : p.diagonalFirst = false :=
      Bool.eq_false_iff.2 fun hd => hsquare (hp.layout.square hd)
    rw [hflag, beq_false_of_ne hsquare, Bool.and_false]

/-- The rows ask for the columns of the pattern, in any order and repeatedly. -/
def IsAskedBy (p : Pattern) (rows : List (List Nat)) : Prop :=
  rows.length = p.nRows ∧ ∀ (r : Nat) (cols : List Nat) (columns : Array UInt32),
    rows[r]? = some cols → Compressed.row p r = .ok columns →
      ∀ c, c ∈ cols ↔ c ∈ columns.toList.map UInt32.toNat

private theorem IsAskedBy.mem_iff (hp : p.WellFormed) {rows : List (List Nat)}
    (h : p.IsAskedBy rows) {r : Nat} {cols : List Nat} (hrow : rows[r]? = some cols) {c : Nat} :
    c ∈ cols ↔ c ∈ (p.rowList r).map UInt32.toNat := by
  have hr : r < p.nRows := by
    rw [← h.1]
    exact (List.getElem?_eq_some_iff.1 hrow).1
  exact h.2 r cols _ hrow (hp.layout.row_eq hr) c

/-- Rows that ask for the columns of a pattern, in any order and however often, lead back to it. -/
private theorem ofRows_eq (hp : p.WellFormed) {rows : List (List Nat)} {policy : Policy}
    (h : p.IsAskedBy rows) (hpolicy : p.nRows = p.nCols → policy.diagonalFirst = p.diagonalFirst) :
    ofRows p.nRows p.nCols rows policy = .ok p := by
  have hlt : ∀ cols ∈ rows, ∀ col ∈ cols, col < p.nCols := by
    intro cols hcols col hcol
    obtain ⟨r, hrow⟩ := List.mem_iff_getElem?.1 hcols
    obtain ⟨c, hc, rfl⟩ := List.mem_map.1 ((h.mem_iff hp hrow).1 hcol)
    exact hp.layout.column_lt c (Layout.mem_columns_of_mem_rowList hc)
  obtain ⟨d, hd⟩ := Draft.exists_ofRows policy hp.layout.nCols_lt h.1 hlt
  obtain ⟨-, ⟨hnRows, hnCols, hflag⟩, -⟩ := Draft.exists_packs_of_ofRows hd
  rw [leads_eq hp hpolicy] at hflag
  rw [ofRows, hd, Rows.ok_bind]
  refine Draft.compress_eq_of_contains (Draft.wellFormed_ofRows hd) hp hnRows hnCols hflag
    fun r hr c => ?_
  have hlt : r < rows.length := h.1.symm ▸ hr
  have hrow : rows[r]? = some rows[r] := List.getElem?_eq_getElem hlt
  rw [Draft.contains_ofRows hd hrow, Draft.mem_columnSet, h.mem_iff hp hrow, leads_eq hp hpolicy]
  constructor
  · rintro (⟨hlead, rfl⟩ | hc)
    · -- the diagonal that leads stands in its row anyway
      have hordered := hp.layout.row_ordered c hr
      rw [hlead] at hordered
      exact hordered.mem_of_leads
    · exact hc
  · exact Or.inr

/-- Widening a pattern by nothing leads back to it. -/
private theorem widen_eq (hp : p.WellFormed) (hsquare : p.nRows = p.nCols) {wanted : Nat}
    (hwanted : p.longestRow ≤ wanted)
    (hfits : Draft.Fits p.nRows (p.nRows * Draft.reservation p.nRows p.diagonalFirst wanted)) :
    ∃ d, Draft.widen p wanted 0 = .ok d ∧ d.compress = .ok p := by
  have hcolumns (r : Nat) : Draft.wideColumns p 0 r = (p.rowList r).map UInt32.toNat := by
    simp [Draft.wideColumns, Draft.band]
  have hroom : ∀ r < p.nRows, (Draft.wideColumns p 0 r).toFinset.card ≤
      Draft.reservation p.nRows p.diagonalFirst wanted := by
    intro r hr
    have hlong : (p.rowList r).length ≤ p.longestRow :=
      hp.longestRow_eq ▸ Layout.length_le_longest hr
    have hwide : (p.rowList r).length ≤ p.nRows := hsquare ▸ hp.layout.length_rowList_le hr
    calc
      (Draft.wideColumns p 0 r).toFinset.card ≤ (Draft.wideColumns p 0 r).length :=
        List.toFinset_card_le _
      _ = (p.rowList r).length := by rw [hcolumns, List.length_map]
      _ ≤ min wanted p.nRows := Nat.le_min.2 ⟨Nat.le_trans hlong hwanted, hwide⟩
      _ ≤ Draft.reservation p.nRows p.diagonalFirst wanted := Nat.le_max_left _ _
  obtain ⟨d, hd⟩ := (Draft.exists_widen_iff hp hsquare hfits).2 hroom
  obtain ⟨⟨hnRows, hnCols, hflag⟩, hcontains⟩ := Draft.contains_widen hp hsquare hfits hd
  refine ⟨d, hd,
    Draft.compress_eq_of_contains (Draft.wellFormed_widen hd) hp hnRows hnCols hflag
      fun r hr c => ?_⟩
  rw [hcontains, hcolumns, and_iff_right hr]

/-- Each way to take a pattern apart leads back to it: its rows, in any order and repeatedly, its
two arrays, and a draft that is started from it with slots enough to hold it and no band. -/
theorem rebuild_eq (hp : p.WellFormed) :
    (∀ rows policy, p.IsAskedBy rows →
      (p.nRows = p.nCols → policy.diagonalFirst = p.diagonalFirst) →
      ofRows p.nRows p.nCols rows policy = .ok p) ∧
    ofLayout ⟨p.nRows, p.nCols, p.rowStart, p.columns, p.diagonalFirst⟩ = .ok p ∧
    (p.nRows = p.nCols → ∀ wanted, p.longestRow ≤ wanted →
      Draft.Fits p.nRows (p.nRows * Draft.reservation p.nRows p.diagonalFirst wanted) →
      ∃ d, Draft.widen p wanted 0 = .ok d ∧ d.compress = .ok p) :=
  ⟨fun _ _ => ofRows_eq hp, ofLayout_eq_ok_iff.2 ⟨hp, rfl⟩, fun hsquare _ => widen_eq hp hsquare⟩

/-- The rows of `leading`, out of order and with repetitions. -/
def leadingRows : List (List Nat) := [[2, 0, 2], [0, 1], [2, 2]]

private theorem isAskedBy_leadingRows : leading.IsAskedBy leadingRows := by
  refine ⟨rfl, fun r cols columns hrow hcolumns c => ?_⟩
  rcases r with _ | _ | _ | r <;> cases hrow
  · obtain rfl : #[0, 2] = columns := Except.ok.inj hcolumns
    show c ∈ [2, 0, 2] ↔ c ∈ [0, 2]
    grind
  · obtain rfl : #[1, 0] = columns := Except.ok.inj hcolumns
    show c ∈ [0, 1] ↔ c ∈ [1, 0]
    grind
  · obtain rfl : #[2] = columns := Except.ok.inj hcolumns
    show c ∈ [2, 2] ↔ c ∈ [2]
    grind

theorem rebuild_eq_leading :
    leading.WellFormed ∧ leading.IsAskedBy leadingRows ∧ ofRows 3 3 leadingRows = .ok leading ∧
      ofLayout ⟨3, 3, leading.rowStart, leading.columns, true⟩ = .ok leading ∧
      ∃ d, Draft.widen leading 7 0 = .ok d ∧ d.compress = .ok leading := by
  have hp : leading.WellFormed := by decide
  obtain ⟨hrows, harrays, hwiden⟩ := rebuild_eq hp
  exact ⟨hp, isAskedBy_leadingRows, hrows _ {} isAskedBy_leadingRows fun _ => rfl, harrays,
    hwiden rfl 7 (by decide) (by decide)⟩

end Pattern

end SparsePattern
